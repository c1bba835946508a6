import Bcmdhd.Wlfc.Queued

/-!
# A commit that fails (`_dhd_wlfc_handle_packet_commit`)

A packet is taken from a queue of its entry, gets a header, and goes back if it gets no slot or the
bus refuses it.  What `_dhd_wlfc_rollback_packet_toq` undoes it finds from the kind of the packet:

    every failure is rolled back ↔ Undoes cfg s d ac                     (commit_rolled_back_iff)
-/

namespace Bcmdhd.Wlfc.Commit

open Loans (bump bump_bump bump_zero)

/-! ## Data -/

def bcmc : Ac := Fin.last 4

structure HostCfg extends Cfg where
  bcmcCreditSupported : Bool
  reuseSeq : Bool
  prio : Id → UInt8
  /-- `PKTSUMNEEDED` -/
  sumNeeded : Id → Bool

/-- What a `wlfc_mac_descriptor_t` has beside `Entry`. -/
structure Desc where
  closed : Bool
  macHandle : UInt8
  requestedCredit : BitVec 8
  requestedPacket : BitVec 8
  sendTimSignal : Bool
  trafficPendingBmp : UInt8
  trafficLastreportedBmp : UInt8

structure Host extends State where
  desc : Dest → Desc
  /-- from `PKTDATA` on -/
  data : Id → List UInt8
  creditcheck : Id → Bool
  h2dseq : Id → BitVec 16

def Host.setDesc (s : Host) (d : Dest) (e : Desc) : Host :=
  { s with desc := Function.update s.desc d e }

def Host.setData (s : Host) (p : Id) (data : List UInt8) : Host :=
  { s with data := Function.update s.data p data }

/-! ## Headers -/

def le16 (n : Nat) : List UInt8 := [UInt8.ofNat n, UInt8.ofNat (n / 0x100)]

def le32 (n : Nat) : List UInt8 := le16 n ++ le16 (n / 0x10000)

/-- Flags are `WLFC_PKTFLAG_PKTFROMHOST` and `WLFC_PKTFLAG_PKT_REQUESTED`. -/
def htodtag (t : Tag) (fifo : Ac) (requested : Bool) : Nat :=
  t.ctr.toNat + 2 ^ 8 * t.hslot.val + 2 ^ 24 * fifo.val +
    2 ^ 27 * (if requested then 3 else 1) + 2 ^ 31 * t.gen.toNat

structure Signal where
  macHandle : UInt8
  timBmp : UInt8

/-- `WLFC_CTL_TYPE_PKTTAG`, `WLFC_CTL_TYPE_PENDING_TRAFFIC_BMP` and fillers -/
def wlHeader (reuseSeq : Bool) (tim : Option Signal) (htodtag htodseq : Nat) : List UInt8 :=
  let tlvs := 5 :: (if reuseSeq then 6 else 4) :: le32 htodtag ++
    (if reuseSeq then le16 htodseq else []) ++
    match tim with
    | some t => [12, 2, t.macHandle, t.timBmp]
    | none => []
  tlvs ++ List.replicate ((4 - tlvs.length % 4) % 4) 255

def pushheader (cfg : HostCfg) (p : Id) (tim : Option Signal) (htodtag htodseq : Nat) :
    List UInt8 :=
  let wlh := wlHeader cfg.reuseSeq tim htodtag htodseq
  [if cfg.sumNeeded p then 0x28 else 0x20, cfg.prio p &&& 7, UInt8.ofNat (cfg.pkt p).ifid.val,
    UInt8.ofNat (wlh.length / 4)] ++ wlh

/-- What is left, and whether the whole header was there. -/
def pullheader (data : List UInt8) : List UInt8 × Bool :=
  if data.length < 4 then (data, false)
  else
    let dataOffset := 4 * (data.getD 3 0).toNat
    let rest := data.drop 4
    if rest.length < dataOffset then (rest, false) else (rest.drop dataOffset, true)

/-! ## Algorithm -/

def trafficPendingCheck (e : Desc) (queued : Bool) (prec : Ac) : Desc :=
  if e.closed then
    let bit : UInt8 := 1 <<< UInt8.ofNat prec.val
    let bmp := if queued then e.trafficPendingBmp ||| bit else e.trafficPendingBmp &&& ~~~bit
    if bmp ≠ e.trafficPendingBmp then
      let e := { e with trafficPendingBmp := bmp }
      -- the signal goes out in a packet of its own
      if e.trafficLastreportedBmp ≠ bmp then
        { e with trafficLastreportedBmp := bmp, sendTimSignal := false }
      else e
    else e
  else e

/-- A packet takes a request of its station. -/
def Desc.take (e : Desc) : Desc :=
  if e.requestedCredit ≠ 0 then { e with requestedCredit := e.requestedCredit - 1 }
  else if e.requestedPacket ≠ 0 then { e with requestedPacket := e.requestedPacket - 1 }
  else e

/-- `ac_credit_spent` -/
def spent (cfg : HostCfg) (e : Desc) (ac : Ac) : Bool :=
  !e.closed && !(ac = bcmc && !cfg.bcmcCreditSupported)

/-- What is taken, and whether it needs a header. -/
def dequeDelayedq (cfg : HostCfg) (s : Host) (d : Dest) (ac : Ac) : Option (Host × Id × Bool) :=
  match Wlfc.dequeDelayedq cfg.toCfg s.toState d ac with
  | none => none
  | some (t, p, needsHdr) =>
    let queued := !((t.psq d (dly ac)).isEmpty && (t.psq d (sup ac)).isEmpty)
    let e := trafficPendingCheck (s.desc d).take queued ac
    some ({ s with toState := t }.setDesc d e, p, needsHdr)

/-- The header of a packet, whose tag has been set. -/
def Host.header (cfg : HostCfg) (s : Host) (d : Dest) (p : Id) (tim headerNeeded : Bool) :
    List UInt8 :=
  let e := s.desc d
  pushheader cfg p (if tim then some ⟨e.macHandle, e.trafficLastreportedBmp⟩ else none)
    (htodtag (s.tag p) (cfg.pkt p).fifo (!s.creditcheck p))
    (if headerNeeded then 0 else (s.h2dseq p).toNat)

/-- A traffic indication goes out with this packet. -/
def Desc.signalled (e : Desc) : Desc :=
  if e.sendTimSignal then
    { e with sendTimSignal := false, trafficLastreportedBmp := e.trafficPendingBmp }
  else e

def pretxPktprocess (cfg : HostCfg) (s : Host) (d : Dest) (p : Id) (headerNeeded : Bool) :
    Host × Bool :=
  let tim := (s.desc d).sendTimSignal
  let s := s.setDesc d (s.desc d).signalled
  let r := Wlfc.pretxPktprocess cfg.toCfg s.toState d p headerNeeded
  if headerNeeded ∧ ¬ cfg.afq ∧ hangerGetFreeSlot s.toState = none then
    ({ s with toState := r.1 }, false)
  else
    -- remove old header
    let data := if headerNeeded then s.data p else (pullheader (s.data p)).1
    let s := { s with toState := r.1 }
    (s.setData p (s.header cfg d p tim headerNeeded ++ data), r.2)

/-- How a commit ends: on the bus, back in its queue, or dropped. -/
inductive Outcome
  | committed | back | dropped
  deriving DecidableEq

/-- The station of a packet that comes back. -/
def Desc.refund (e : Desc) (ac : Ac) (creditcheck : Bool) : Desc :=
  if ac ≠ bcmc ∧ creditcheck = false then { e with requestedCredit := e.requestedCredit + 1 } else e

def rollbackPacketToq (cfg : HostCfg) (s : Host) (p : Id) (needsHdr : Bool) : Host × Outcome :=
  let d := (cfg.pkt p).entry
  let ac := (cfg.pkt p).fifo
  let r := if needsHdr then pullheader (s.data p) else (s.data p, true)
  let accepts := r.2 && (precEnqWithDrop cfg.toCfg s.toState d ⟨ac, !needsHdr⟩ p true).2
  let s := s.setDesc d ((s.desc d).refund ac (s.creditcheck p))
  ({ s with toState := Wlfc.rollbackPacketToq cfg.toCfg s.toState p needsHdr r.2 }.setData p r.1,
    if accepts then .back else .dropped)

/-- `fcommit` has failed, and a new packet leaves the hanger again. -/
def unhang (cfg : Cfg) (s : State) (p : Id) (needsHdr : Bool) : State :=
  if needsHdr ∧ ¬ cfg.afq then
    { s with hanger := (hangerPoppkt s.hanger (s.tag p).hslot true).1 }
  else s

/-- `fcommit` is the answer of the bus. -/
def handlePacketCommit (cfg : HostCfg) (s : Host) (d : Dest) (p : Id) (needsHdr spent fcommit : Bool) :
    Host × Outcome :=
  let s := { s with creditcheck := Function.update s.creditcheck p spent }
  let r := pretxPktprocess cfg s d p needsHdr
  if r.2 && fcommit then ({ r.1 with toState := committed r.1.toState d p }, .committed)
  else
    let s := if r.2 then { r.1 with toState := unhang cfg.toCfg r.1.toState p needsHdr } else r.1
    let r := rollbackPacketToq cfg s p needsHdr
    ({ r.1 with creditcheck := Function.update r.1.creditcheck p false }, r.2)

/-- One packet of `dhd_wlfc_transfer_packets`. -/
def transferPacket (cfg : HostCfg) (s : Host) (d : Dest) (ac : Ac) (fcommit : Bool) :
    Option (Host × Outcome) :=
  if (s.entry d).gate then
    match dequeDelayedq cfg s d ac with
    | none => none
    | some (t, p, needsHdr) =>
      some (handlePacketCommit cfg t d p needsHdr (spent cfg (s.desc d) ac) fcommit)
  else none

/-! ## Rolled back -/

/-- A free item has none. -/
def contents (it : Item) : Option Item := if it.state = .free then none else some it

structure RolledBack (s s' : Host) (d : Dest) (k : Prec) (p : Id) : Prop where
  queue : s'.psq d k = s.psq d k
  data : s'.data p = s.data p
  seq : (s'.entry d).seq = (s.entry d).seq
  requestedCredit : (s'.desc d).requestedCredit = (s.desc d).requestedCredit
  requestedPacket : (s'.desc d).requestedPacket = (s.desc d).requestedPacket
  hanger : ∀ i, contents (s'.hanger i) = contents (s.hanger i)
  pktCntInQ : s'.pktCntInQ = s.pktCntInQ
  pktCntPerAc : s'.pktCntPerAc = s.pktCntPerAc
  pktCntInPsq : s'.pktCntInPsq = s.pktCntInPsq
  pktCntInDrv : s'.pktCntInDrv = s.pktCntInDrv

/-- What comes back is a requested credit of a closed station. -/
def Refunded (e : Desc) (ac : Ac) : Prop :=
  (e.requestedCredit ≠ 0 ↔ ac ≠ bcmc ∧ e.closed = true) ∧
    (e.requestedCredit = 0 → e.requestedPacket = 0)

def genAgain (cfg : Cfg) (s : State) (d : Dest) (p : Id) : Bool :=
  if cfg.reorderSupp then (s.entry d).generation
  else if cfg.afq then (s.tag p).gen
  else if (s.hanger (s.tag p).hslot).state = .free then true
  else (s.hanger (s.tag p).hslot).gen

/-- The header that a suppressed packet is sent again with. -/
def headerAgain (cfg : HostCfg) (t : Host) (d : Dest) (p : Id) (spent : Bool) : List UInt8 :=
  let e := t.desc d
  pushheader cfg p (if e.sendTimSignal then some ⟨e.macHandle, e.trafficPendingBmp⟩ else none)
    (htodtag { t.tag p with gen := genAgain cfg.toCfg t.toState d p } (cfg.pkt p).fifo (!spent))
    (t.h2dseq p).toNat

/-- A suppressed packet has its old header, its slot looks as if it had just been sent, and the next
one is not older. -/
structure Unchanged (cfg : HostCfg) (s t : Host) (d : Dest) (ac : Ac) (p : Id) : Prop where
  header : headerAgain cfg t d p (spent cfg (s.desc d) ac) <+: s.data p
  item : cfg.afq = false → (s.hanger (s.tag p).hslot).state = .inuse ∧
    (s.hanger (s.tag p).hslot).txstatus = false ∧ (s.hanger (s.tag p).hslot).busreturned = false
  order : cfg.reorderSupp = true → ∀ q ∈ (t.psq d (sup ac)).head?,
    adjustedSeq s.toState ((s.entry d).seq ac) p ≤ adjustedSeq s.toState ((s.entry d).seq ac) q

def NoSlot (cfg : HostCfg) (s : Host) : Prop :=
  cfg.afq = false ∧ hangerGetFreeSlot s.toState = none

/-- Without a slot a new packet only escapes if it is too short for what is taken for its header,
and dropped. -/
def Undoes (cfg : HostCfg) (s t : Host) (d : Dest) (ac : Ac) (p : Id) : Bool → Prop
  | true => NoSlot cfg s ∧ (pullheader (s.data p)).2 = false ∨
      ¬ NoSlot cfg s ∧ Refunded (s.desc d) ac
  | false => Refunded (s.desc d) ac ∧ Unchanged cfg s t d ac p

/-! ## Headers -/

theorem wlHeader_length (reuseSeq : Bool) (tim : Option Signal) (htodtag htodseq : Nat) :
    (wlHeader reuseSeq tim htodtag htodseq).length % 4 = 0 ∧
      (wlHeader reuseSeq tim htodtag htodseq).length ≤ 12 := by
  cases reuseSeq <;> cases tim <;> simp [wlHeader, le32, le16]

theorem pullheader_pushheader (cfg : HostCfg) (p : Id) (tim : Option Signal)
    (htodtag htodseq : Nat) (data : List UInt8) :
    pullheader (pushheader cfg p tim htodtag htodseq ++ data) = (data, true) := by
  obtain ⟨hmod, hle⟩ := wlHeader_length cfg.reuseSeq tim htodtag htodseq
  unfold pushheader
  dsimp only
  generalize wlHeader cfg.reuseSeq tim htodtag htodseq = wlh at hmod hle ⊢
  have hoffset : 4 * (UInt8.ofNat (wlh.length / 4)).toNat = wlh.length := by
    rw [UInt8.toNat_ofNat']
    omega
  unfold pullheader
  simp only [List.cons_append, List.nil_append, List.length_cons, List.getD_cons_succ,
    List.getD_cons_zero, List.drop_succ_cons, List.drop_zero, hoffset, List.length_append]
  rw [if_neg (by omega), if_neg (by omega), List.drop_left]

/-- What is pulled from a packet without a header is lost. -/
theorem pullheader_shorter {data : List UInt8} (h : (pullheader data).2 = true) :
    (pullheader data).1 ≠ data := by
  unfold pullheader at h ⊢
  by_cases hlen : data.length < 4
  · rw [if_pos hlen] at h
    cases h
  · rw [if_neg hlen] at h ⊢
    dsimp only at h ⊢
    split at h
    · cases h
    · next hrest =>
      rw [if_neg hrest]
      intro heq
      have hlength := congrArg List.length heq
      rw [List.length_drop, List.length_drop] at hlength
      omega

/-! ## Queues -/

/-- Queues and their counters are the same. -/
structure SameQueues (s u : State) : Prop where
  psq : u.psq = s.psq
  pktCntInQ : u.pktCntInQ = s.pktCntInQ
  pktCntPerAc : u.pktCntPerAc = s.pktCntPerAc
  pktCntInPsq : u.pktCntInPsq = s.pktCntInPsq
  pktCntInDrv : u.pktCntInDrv = s.pktCntInDrv

/-- A packet is back in its queue. -/
structure Requeued (cfg : Cfg) (u v : State) (d : Dest) (p : Id) (needsHdr : Bool)
    (l : List Id) : Prop where
  psq : v.psq d ⟨(cfg.pkt p).fifo, !needsHdr⟩ = l
  hanger : v.hanger = u.hanger
  entry : v.entry = if needsHdr then
      Function.update u.entry d { u.entry d with
        seq := Function.update (u.entry d).seq (cfg.pkt p).fifo
          ((u.entry d).seq (cfg.pkt p).fifo - 1) }
    else u.entry
  pktCntInQ : v.pktCntInQ = bump u.pktCntInQ ((cfg.pkt p).ifid, (cfg.pkt p).fifo) 1
  pktCntPerAc : v.pktCntPerAc = bump u.pktCntPerAc (cfg.pkt p).fifo 1
  pktCntInPsq : v.pktCntInPsq = u.pktCntInPsq + 1
  pktCntInDrv : v.pktCntInDrv = u.pktCntInDrv

/-- Where a packet is put that comes back to the head of `l`. -/
def requeue (cfg : Cfg) (seq : Id → Nat) (p : Id) (needsHdr : Bool) (l : List Id) : List Id :=
  if cfg.reorderSupp ∧ needsHdr = false ∧ seq (l.headD p) < seq p + 1 then insertBySeq seq p l
  else p :: l

theorem requeue_new (cfg : Cfg) (seq : Id → Nat) (p : Id) (l : List Id) :
    requeue cfg seq p true l = p :: l :=
  if_neg fun h => by cases h.2.1

theorem requeue_eq_iff (cfg : Cfg) (seq : Id → Nat) (p : Id) (l : List Id) :
    requeue cfg seq p false l = p :: l ↔
      (cfg.reorderSupp = true → ∀ q ∈ l.head?, seq p ≤ seq q) := by
  unfold requeue
  cases l with
  | nil =>
    refine iff_of_true ?_ fun _ => nofun
    split <;> rfl
  | cons q l =>
    rw [List.head?_cons, List.headD_cons]
    by_cases hre : cfg.reorderSupp = true
    · simp only [hre, true_and, forall_const, Option.mem_def, Option.some.injEq, forall_eq']
      by_cases hlt : seq q < seq p
      · have hne : q ≠ p := fun h => by rw [h] at hlt; exact Nat.lt_irrefl _ hlt
        rw [if_pos (Nat.lt_succ_of_lt hlt), insertBySeq, if_pos hlt]
        refine iff_of_false (fun h => hne (List.cons.inj h).1) (Nat.not_le.mpr hlt)
      · refine iff_of_true ?_ (Nat.not_lt.mp hlt)
        rw [insertBySeq, if_neg hlt, ite_self]
    · rw [if_neg fun h => hre h.1]
      exact iff_of_true rfl fun h => absurd h hre

theorem enq_enough {cfg : Cfg} {s : State} {d : Dest} (h : psqTot s d < cfg.psqLen) (k : Prec)
    (p : Id) (qHead : Bool) :
    precEnqWithDrop cfg s d k p qHead =
      ((precEnque cfg s d k p qHead).countPsq cfg p k.ac 1, true) := by
  unfold precEnqWithDrop
  rw [room_enough h]

theorem rollback_requeued {cfg : Cfg} {u : State} {p : Id} (needsHdr : Bool)
    (hroom : psqTot u (cfg.pkt p).entry < cfg.psqLen) :
    Requeued cfg u (Wlfc.rollbackPacketToq cfg u p needsHdr true) (cfg.pkt p).entry p needsHdr
      (requeue cfg (adjustedSeq u ((u.entry (cfg.pkt p).entry).seq (cfg.pkt p).fifo)) p needsHdr
        (u.psq (cfg.pkt p).entry ⟨(cfg.pkt p).fifo, !needsHdr⟩)) := by
  cases needsHdr with
  | true =>
    unfold Wlfc.rollbackPacketToq
    dsimp only
    rw [if_pos rfl, if_pos rfl]
    generalize hu' : u.setEntry (cfg.pkt p).entry _ = u'
    have hpsq : u'.psq = u.psq := hu' ▸ rfl
    have hroom' : psqTot u' (cfg.pkt p).entry < cfg.psqLen := by
      rw [← hu']
      exact hroom
    rw [enq_enough hroom' (dly (cfg.pkt p).fifo) p true, if_pos rfl, requeue_new]
    refine ⟨?_, hu' ▸ rfl, hu' ▸ rfl, hu' ▸ rfl, hu' ▸ rfl, hu' ▸ rfl, hu' ▸ rfl⟩
    show (precEnque cfg u' _ (dly _) p true).psq _ _ = _
    unfold precEnque
    dsimp only
    rw [if_neg (by simp [dly]), if_pos rfl, psq_setPsq, if_pos ⟨rfl, rfl⟩, hpsq]
    rfl
  | false =>
    unfold Wlfc.rollbackPacketToq
    dsimp only
    rw [if_neg (by decide), enq_enough hroom (sup (cfg.pkt p).fifo) p true, if_pos rfl]
    refine ⟨?_, rfl, rfl, rfl, rfl, rfl, rfl⟩
    show (precEnque cfg u _ (sup _) p true).psq _ _ = _
    unfold precEnque requeue
    dsimp only
    rw [psq_setPsq, if_pos ⟨rfl, rfl⟩]
    simp [sup]

/-! ## Failures -/

theorem contents_update {h : Slot → Item} {i : Slot} {it : Item}
    (hit : contents it = contents (h i)) (j : Slot) :
    contents (Function.update h i it j) = contents (h j) := by
  by_cases hj : j = i
  · subst hj
    rw [Function.update_self, hit]
  · rw [Function.update_of_ne hj]

/-- The sequence number of a packet, up by one. -/
def counted (cfg : Cfg) (s : State) (d : Dest) (p : Id) : Entry :=
  { s.entry d with
    seq := Function.update (s.entry d).seq (cfg.pkt p).fifo ((s.entry d).seq (cfg.pkt p).fifo + 1) }

theorem counted_back (cfg : Cfg) (s : State) (d : Dest) (p : Id) :
    Function.update (counted cfg s d p).seq (cfg.pkt p).fifo
        ((counted cfg s d p).seq (cfg.pkt p).fifo - 1) = (s.entry d).seq := by
  unfold counted
  dsimp only
  rw [Function.update_self, Function.update_idem, BitVec.add_sub_cancel, Function.update_eq_self]

/-- A new packet that the bus has refused has left the hanger again. -/
theorem refused_new {cfg : Cfg} {s : State} (d : Dest) (p : Id)
    (hslot : ¬ (cfg.afq = false ∧ hangerGetFreeSlot s = none)) :
    ∃ r, Wlfc.pretxPktprocess cfg s d p true = (r, true) ∧
      SameQueues s (unhang cfg r p true) ∧
      (unhang cfg r p true).entry = Function.update s.entry d (counted cfg s d p) ∧
      ∀ i, contents ((unhang cfg r p true).hanger i) = contents (s.hanger i) := by
  unfold Wlfc.pretxPktprocess pretxNew unhang
  dsimp only
  by_cases hafq : cfg.afq = true
  · refine ⟨_, if_pos rfl |>.trans (if_pos hafq), ?_⟩
    rw [if_neg fun h => h.2 hafq]
    exact ⟨⟨rfl, rfl, rfl, rfl, rfl⟩, rfl, fun _ => rfl⟩
  · cases hget : hangerGetFreeSlot s with
    | none => exact absurd ⟨Bool.eq_false_iff.mpr hafq, hget⟩ hslot
    | some i =>
      have hfree : (s.hanger i).state = .free := freeSlotFrom_free hget
      have hpush : hangerPushpkt s.hanger p i = (Function.update s.hanger i { s.hanger i with
          state := .inuse, txstatus := false, busreturned := false, pkt := some p }, true) :=
        if_pos hfree
      dsimp only
      rw [hpush]
      refine ⟨_, if_pos rfl |>.trans (if_neg hafq), ?_⟩
      rw [if_pos ⟨rfl, hafq⟩]
      refine ⟨⟨rfl, rfl, rfl, rfl, rfl⟩, rfl, fun j => ?_⟩
      show contents ((hangerPoppkt (Function.update s.hanger i _)
        (Function.update s.tag p _ p).hslot true).1 j) = _
      rw [Function.update_self]
      unfold hangerPoppkt
      rw [Function.update_self, if_pos nofun, if_pos rfl, Function.update_idem]
      refine contents_update ?_ j
      unfold contents
      rw [if_pos rfl, if_pos hfree]

/-- A packet goes back from `u`, with `body`. -/
structure GoesBack (cfg : HostCfg) (u v : Host) (p : Id) (needsHdr : Bool) (body : List UInt8) :
    Prop where
  toState : v.toState = Wlfc.rollbackPacketToq cfg.toCfg u.toState p needsHdr true
  data : v.data p = body
  desc : v.desc (cfg.pkt p).entry =
    (u.desc (cfg.pkt p).entry).refund (cfg.pkt p).fifo (u.creditcheck p)

theorem rollback_back {cfg : HostCfg} {u : Host} {p : Id} {needsHdr : Bool} {body : List UInt8}
    (hroom : psqTot u.toState (cfg.pkt p).entry < cfg.psqLen)
    (hpull : (if needsHdr = true then pullheader (u.data p) else (u.data p, true)) = (body, true)) :
    ∃ v, rollbackPacketToq cfg u p needsHdr = (v, .back) ∧ GoesBack cfg u v p needsHdr body := by
  unfold rollbackPacketToq
  dsimp only
  rw [hpull, enq_enough hroom, Bool.and_self, if_pos rfl]
  exact ⟨_, rfl, rfl, Function.update_self .., Function.update_self ..⟩

theorem again_afq {cfg : Cfg} (h : cfg.afq = true) (s : State) (d : Dest) (p : Id) :
    pretxAgain cfg s d p =
      { s with tag := Function.update s.tag p { s.tag p with gen := genAgain cfg s d p } } :=
  if_pos h

theorem again_hanger {cfg : Cfg} (h : ¬ cfg.afq = true) (s : State) (d : Dest) (p : Id) :
    pretxAgain cfg s d p =
      { s with
        tag := Function.update s.tag p { s.tag p with gen := genAgain cfg s d p }
        hanger := Function.update s.hanger (s.tag p).hslot { s.hanger (s.tag p).hslot with
          state := .inuse, txstatus := false, busreturned := false } } :=
  if_neg h

theorem tag_again (cfg : Cfg) (s : State) (d : Dest) (p : Id) :
    (pretxAgain cfg s d p).tag p = { s.tag p with gen := genAgain cfg s d p } := by
  by_cases hafq : cfg.afq = true
  · rw [again_afq hafq]
    exact Function.update_self ..
  · rw [again_hanger hafq]
    exact Function.update_self ..

/-- What is put in front of a packet, and the station that pays for it. -/
structure Pushed (cfg : HostCfg) (t v : Host) (d : Dest) (p : Id) (needsHdr : Bool) (r : State)
    (hdr : List UInt8) : Prop where
  toState : v.toState = r
  data : v.data p = hdr ++ if needsHdr then t.data p else (pullheader (t.data p)).1
  creditcheck : v.creditcheck = t.creditcheck
  requestedCredit : (v.desc d).requestedCredit = (t.desc d).requestedCredit
  requestedPacket : (v.desc d).requestedPacket = (t.desc d).requestedPacket
  header : ∃ tim tag seq, hdr = pushheader cfg p tim tag seq
  again : needsHdr = false → hdr = headerAgain cfg t d p (t.creditcheck p)

theorem pretx_pushed {cfg : HostCfg} {t : Host} {d : Dest} {p : Id} {needsHdr ok : Bool} {r : State}
    (hslot : ¬ (needsHdr = true ∧ NoSlot cfg t))
    (hr : Wlfc.pretxPktprocess cfg.toCfg t.toState d p needsHdr = (r, ok)) :
    ∃ v hdr, pretxPktprocess cfg t d p needsHdr = (v, ok) ∧ Pushed cfg t v d p needsHdr r hdr := by
  have hcond : ¬ (needsHdr = true ∧ ¬ cfg.afq = true ∧ hangerGetFreeSlot t.toState = none) :=
    fun h => hslot ⟨h.1, Bool.eq_false_iff.mpr h.2.1, h.2.2⟩
  have hset : (t.setDesc d (t.desc d).signalled).toState = t.toState := rfl
  have hdesc : (t.setDesc d (t.desc d).signalled).desc d = (t.desc d).signalled :=
    Function.update_self ..
  have hsame : (t.desc d).signalled.requestedCredit = (t.desc d).requestedCredit ∧
      (t.desc d).signalled.requestedPacket = (t.desc d).requestedPacket := by
    unfold Desc.signalled
    split <;> exact ⟨rfl, rfl⟩
  unfold pretxPktprocess
  dsimp only
  rw [hset, if_neg hcond, hr]
  refine ⟨_, _, rfl, rfl, Function.update_self .., rfl, ?_, ?_, ⟨_, _, _, rfl⟩, ?_⟩
  · exact (congrArg Desc.requestedCredit hdesc).trans hsame.1
  · exact (congrArg Desc.requestedPacket hdesc).trans hsame.2
  · rintro rfl
    obtain ⟨rfl, -⟩ := Prod.mk.inj hr
    unfold Host.header headerAgain
    dsimp only
    rw [hdesc, ← tag_again]
    by_cases htim : (t.desc d).sendTimSignal = true
    · rw [if_pos htim, if_pos htim, Desc.signalled, if_pos htim]
      rfl
    · rw [if_neg htim, if_neg htim]
      rfl

theorem refused_back {cfg : HostCfg} {t : Host} {d : Dest} {p : Id} {needsHdr spent : Bool}
    {r : State} (hd : (cfg.pkt p).entry = d) (hslot : ¬ (needsHdr = true ∧ NoSlot cfg t))
    (hr : Wlfc.pretxPktprocess cfg.toCfg t.toState d p needsHdr = (r, true))
    (hroom : psqTot (unhang cfg.toCfg r p needsHdr) d < cfg.psqLen) :
    ∃ u v, handlePacketCommit cfg t d p needsHdr spent false = (v, .back) ∧
      GoesBack cfg u v p needsHdr
        (if needsHdr then t.data p
          else headerAgain cfg t d p spent ++ (pullheader (t.data p)).1) ∧
      u.toState = unhang cfg.toCfg r p needsHdr ∧ u.creditcheck p = spent ∧
      (u.desc d).requestedCredit = (t.desc d).requestedCredit ∧
      (u.desc d).requestedPacket = (t.desc d).requestedPacket := by
  subst hd
  obtain ⟨v, hdr, hpretx, hpushed⟩ := @pretx_pushed cfg
    { t with creditcheck := Function.update t.creditcheck p spent } _ p needsHdr true r hslot hr
  obtain ⟨tim, tag, seq, hhdr⟩ := hpushed.header
  have hpull : (if needsHdr = true then pullheader (v.data p) else (v.data p, true)) =
      (if needsHdr then t.data p else headerAgain cfg t (cfg.pkt p).entry p spent ++
        (pullheader (t.data p)).1, true) := by
    rw [hpushed.data]
    cases needsHdr with
    | true =>
      rw [hhdr]
      exact pullheader_pushheader cfg p tim tag seq (t.data p)
    | false =>
      rw [hpushed.again rfl]
      show (headerAgain cfg _ _ p (Function.update t.creditcheck p spent p) ++ _, true) = _
      rw [Function.update_self]
      rfl
  obtain ⟨w, hw, hback⟩ := @rollback_back cfg
    { v with toState := unhang cfg.toCfg r p needsHdr } p needsHdr _ hroom hpull
  unfold handlePacketCommit
  dsimp only
  rw [hpretx, if_neg (by simp), if_pos rfl, hpushed.toState, hw]
  refine ⟨_, _, rfl, ⟨hback.toState, hback.data, hback.desc⟩, rfl, ?_, hpushed.requestedCredit,
    hpushed.requestedPacket⟩
  show v.creditcheck p = spent
  rw [hpushed.creditcheck]
  exact Function.update_self ..

theorem pretx_noSlot {cfg : Cfg} {s : State} (d : Dest) (p : Id)
    (h : cfg.afq = false ∧ hangerGetFreeSlot s = none) :
    Wlfc.pretxPktprocess cfg s d p true = (s, false) := by
  unfold Wlfc.pretxPktprocess pretxNew
  rw [if_pos rfl, if_neg (by simp [h.1]), h.2]

/-- Without a slot a new packet gets no header. -/
theorem pretx_unpushed {cfg : HostCfg} {t : Host} (d : Dest) (p : Id) (hslot : NoSlot cfg t) :
    ∃ v, pretxPktprocess cfg t d p true = (v, false) ∧ v.toState = t.toState ∧ v.data = t.data := by
  unfold pretxPktprocess
  dsimp only
  rw [if_pos ⟨rfl, by simp [hslot.1], hslot.2⟩]
  exact ⟨_, rfl, congrArg Prod.fst (pretx_noSlot d p hslot), rfl⟩

/-- What is taken for its header is pulled. -/
theorem noSlot_back {cfg : HostCfg} {t : Host} {p : Id} (spent fcommit : Bool)
    (hslot : NoSlot cfg t) (hroom : psqTot t.toState (cfg.pkt p).entry < cfg.psqLen) :
    (handlePacketCommit cfg t (cfg.pkt p).entry p true spent fcommit).2 =
        (if (pullheader (t.data p)).2 then .back else .dropped) ∧
      (handlePacketCommit cfg t (cfg.pkt p).entry p true spent fcommit).1.data p =
        (pullheader (t.data p)).1 := by
  obtain ⟨v, hv, hstate, hdata⟩ := @pretx_unpushed cfg
    { t with creditcheck := Function.update t.creditcheck p spent } (cfg.pkt p).entry p hslot
  have henq : (precEnqWithDrop cfg.toCfg v.toState (cfg.pkt p).entry ⟨(cfg.pkt p).fifo, !true⟩ p
      true).2 = true := by
    rw [hstate, enq_enough hroom]
  unfold handlePacketCommit
  dsimp only
  rw [hv]
  dsimp only
  rw [if_neg (by simp), if_neg (by simp)]
  unfold rollbackPacketToq
  dsimp only
  rw [henq, Bool.and_true, if_pos rfl, hdata]
  exact ⟨rfl, Function.update_self ..⟩

/-! ## Dequeued -/

theorem trafficPendingCheck_requests (e : Desc) (queued : Bool) (prec : Ac) :
    (trafficPendingCheck e queued prec).requestedCredit = e.requestedCredit ∧
      (trafficPendingCheck e queued prec).requestedPacket = e.requestedPacket := by
  unfold trafficPendingCheck
  dsimp only
  split_ifs <;> exact ⟨rfl, rfl⟩

/-- The head of a queue is taken, and a request of its station. -/
structure Taken (cfg : HostCfg) (s t : Host) (d : Dest) (ac : Ac) (p : Id) (needsHdr : Bool)
    (l : List Id) : Prop where
  queue : s.psq d ⟨ac, !needsHdr⟩ = p :: l
  toState : t.toState = (s.toState.setPsq d ⟨ac, !needsHdr⟩ l).countPsq cfg.toCfg p ac (-1)
  data : t.data = s.data
  requestedCredit : (t.desc d).requestedCredit = (s.desc d).take.requestedCredit
  requestedPacket : (t.desc d).requestedPacket = (s.desc d).take.requestedPacket

theorem dequeue_head {cfg : Cfg} {s r : State} {d : Dest} {ac : Ac} {p : Id} {needsHdr : Bool}
    (h : Wlfc.dequeDelayedq cfg s d ac = some (r, p, needsHdr)) :
    ∃ l, s.psq d ⟨ac, !needsHdr⟩ = p :: l ∧
      r = (s.setPsq d ⟨ac, !needsHdr⟩ l).countPsq cfg p ac (-1) := by
  unfold Wlfc.dequeDelayedq at h
  split at h
  · next l hl =>
    cases h
    exact ⟨l, hl, rfl⟩
  · split at h
    · next l hl =>
      cases h
      exact ⟨l, hl, rfl⟩
    · cases h

theorem dequeue_taken {cfg : HostCfg} {s t : Host} {d : Dest} {ac : Ac} {p : Id} {needsHdr : Bool}
    (h : dequeDelayedq cfg s d ac = some (t, p, needsHdr)) :
    ∃ l, Taken cfg s t d ac p needsHdr l := by
  unfold dequeDelayedq at h
  split at h
  · cases h
  · next r q b hr =>
    cases h
    obtain ⟨l, hl, rfl⟩ := dequeue_head hr
    obtain ⟨hcredit, hpacket⟩ := trafficPendingCheck_requests (s.desc d).take
      (!((((s.toState.setPsq d ⟨ac, !needsHdr⟩ l).countPsq cfg.toCfg p ac (-1)).psq d (dly ac)).isEmpty &&
        (((s.toState.setPsq d ⟨ac, !needsHdr⟩ l).countPsq cfg.toCfg p ac (-1)).psq d (sup ac)).isEmpty)) ac
    refine ⟨l, hl, rfl, rfl, ?_, ?_⟩
    · exact (congrArg Desc.requestedCredit (Function.update_self ..)).trans hcredit
    · exact (congrArg Desc.requestedPacket (Function.update_self ..)).trans hpacket

theorem refund_requests (e : Desc) (ac : Ac) (creditcheck : Bool) :
    (e.refund ac creditcheck).requestedCredit =
        (if ac ≠ bcmc ∧ creditcheck = false then e.requestedCredit + 1 else e.requestedCredit) ∧
      (e.refund ac creditcheck).requestedPacket = e.requestedPacket := by
  unfold Desc.refund
  split <;> exact ⟨rfl, rfl⟩

theorem take_credit {e : Desc} (h : e.requestedCredit ≠ 0) :
    e.take = { e with requestedCredit := e.requestedCredit - 1 } :=
  if_pos h

theorem take_packet {e : Desc} (h : e.requestedCredit = 0) (hpacket : e.requestedPacket ≠ 0) :
    e.take = { e with requestedPacket := e.requestedPacket - 1 } :=
  (if_neg (not_not.mpr h)).trans (if_pos hpacket)

theorem take_none {e : Desc} (h : e.requestedCredit = 0) (hpacket : e.requestedPacket = 0) :
    e.take = e :=
  (if_neg (not_not.mpr h)).trans (if_neg (not_not.mpr hpacket))

/-- What was taken comes back when it was a requested credit and no credit of a FIFO is spent. -/
theorem refunded_iff (cfg : HostCfg) (e : Desc) (ac : Ac) :
    (if ac ≠ bcmc ∧ spent cfg e ac = false then e.take.requestedCredit + 1
        else e.take.requestedCredit) = e.requestedCredit ∧
      e.take.requestedPacket = e.requestedPacket ↔ Refunded e ac := by
  have hspent : ac ≠ bcmc ∧ spent cfg e ac = false ↔ ac ≠ bcmc ∧ e.closed = true := by
    refine and_congr_right fun hac => ?_
    simp [spent, hac]
  have hless : ∀ x : BitVec 8, x - 1 ≠ x := by
    intro x
    bv_omega
  unfold Refunded
  rw [if_congr hspent rfl rfl]
  by_cases hcredit : e.requestedCredit = 0
  · by_cases hpacket : e.requestedPacket = 0
    · rw [take_none hcredit hpacket, hcredit, hpacket]
      by_cases hclosed : ac ≠ bcmc ∧ e.closed = true
      · simp [hclosed]
      · simp [hclosed]
    · rw [take_packet hcredit hpacket]
      exact iff_of_false (fun h => hless _ h.2) fun h => hpacket (h.2 hcredit)
  · rw [take_credit hcredit]
    by_cases hclosed : ac ≠ bcmc ∧ e.closed = true
    · rw [if_pos hclosed]
      exact iff_of_true ⟨BitVec.sub_add_cancel .., rfl⟩
        ⟨iff_of_true hcredit hclosed, fun h => absurd h hcredit⟩
    · rw [if_neg hclosed]
      exact iff_of_false (fun h => hless _ h.1) fun h => hclosed (h.1.mp hcredit)

section

variable {cfg : HostCfg} {s t u v : Host} {d : Dest} {ac : Ac} {p : Id} {needsHdr : Bool}
  {l : List Id}

theorem Taken.room (ht : Taken cfg s t d ac p needsHdr l) (hfits : psqTot s.toState d ≤ cfg.psqLen) :
    psqTot t.toState d < cfg.psqLen := by
  have htail : psqTot t.toState d + 1 = psqTot s.toState d := by
    have htail := psqTot_setPsq s.toState d ⟨ac, !needsHdr⟩ l
    rw [ht.queue, List.length_cons] at htail
    rw [ht.toState]
    change psqTot (s.toState.setPsq d ⟨ac, !needsHdr⟩ l) d + 1 = _
    omega
  omega

theorem Taken.left (ht : Taken cfg s t d ac p needsHdr l) : t.psq d ⟨ac, !needsHdr⟩ = l := by
  rw [ht.toState]
  show (s.toState.setPsq d ⟨ac, !needsHdr⟩ l).psq d ⟨ac, !needsHdr⟩ = l
  rw [psq_setPsq, if_pos ⟨rfl, rfl⟩]

theorem Taken.same (ht : Taken cfg s t d ac p needsHdr l) :
    t.hanger = s.hanger ∧ t.entry = s.entry ∧ t.tag = s.tag := by
  rw [ht.toState]
  exact ⟨rfl, rfl, rfl⟩

theorem Taken.noSlot_iff (ht : Taken cfg s t d ac p needsHdr l) : NoSlot cfg t ↔ NoSlot cfg s := by
  have hget : hangerGetFreeSlot t.toState = hangerGetFreeSlot s.toState := by
    rw [ht.toState]
    rfl
  unfold NoSlot
  rw [hget]

/-- The counters are what they were. -/
theorem counters_restored (hfifo : (cfg.pkt p).fifo = ac) (ht : Taken cfg s t d ac p needsHdr l)
    (hsame : SameQueues t.toState u.toState) {l' : List Id}
    (hv : Requeued cfg.toCfg u.toState v.toState d p needsHdr l') :
    v.pktCntInQ = s.pktCntInQ ∧ v.pktCntPerAc = s.pktCntPerAc ∧ v.pktCntInPsq = s.pktCntInPsq ∧
      v.pktCntInDrv = s.pktCntInDrv := by
  rw [hv.pktCntInQ, hv.pktCntPerAc, hv.pktCntInPsq, hv.pktCntInDrv, hsame.pktCntInQ,
    hsame.pktCntPerAc, hsame.pktCntInPsq, hsame.pktCntInDrv, ht.toState, hfifo]
  refine ⟨?_, ?_, ?_, rfl⟩
  · show bump (bump s.pktCntInQ _ (-1)) _ 1 = _
    rw [bump_bump, Int.add_left_neg, bump_zero]
  · show bump (bump s.pktCntPerAc _ (-1)) _ 1 = _
    rw [bump_bump, Int.add_left_neg, bump_zero]
  · show s.pktCntInPsq + -1 + 1 = _
    omega

theorem requests_restored (hd : (cfg.pkt p).entry = d) (hfifo : (cfg.pkt p).fifo = ac)
    (ht : Taken cfg s t d ac p needsHdr l) {body : List UInt8}
    (hback : GoesBack cfg u v p needsHdr body) (hcheck : u.creditcheck p = spent cfg (s.desc d) ac)
    (hcredit : (u.desc d).requestedCredit = (t.desc d).requestedCredit)
    (hpacket : (u.desc d).requestedPacket = (t.desc d).requestedPacket) :
    (v.desc d).requestedCredit = (s.desc d).requestedCredit ∧
      (v.desc d).requestedPacket = (s.desc d).requestedPacket ↔ Refunded (s.desc d) ac := by
  have hdesc := hback.desc
  rw [hd, hfifo, hcheck] at hdesc
  rw [hdesc, (refund_requests ..).1, (refund_requests ..).2, hcredit, hpacket, ht.requestedCredit,
    ht.requestedPacket]
  exact refunded_iff cfg (s.desc d) ac

/-- A new packet that the bus refuses is as it was. -/
theorem new_restored (hd : (cfg.pkt p).entry = d) (hfifo : (cfg.pkt p).fifo = ac)
    (hfits : psqTot s.toState d ≤ cfg.psqLen) (hslot : ¬ NoSlot cfg s)
    (ht : Taken cfg s t d ac p true l) :
    ∃ v, handlePacketCommit cfg t d p true (spent cfg (s.desc d) ac) false = (v, .back) ∧
      (RolledBack s v d ⟨ac, false⟩ p ↔ Refunded (s.desc d) ac) := by
  obtain ⟨hhanger, hentry, -⟩ := ht.same
  have hslot' : ¬ NoSlot cfg t := fun h => hslot (ht.noSlot_iff.mp h)
  obtain ⟨r, hr, hsame, hcount, hcontents⟩ := refused_new d p hslot'
  have hroom : psqTot (unhang cfg.toCfg r p true) d < cfg.psqLen := by
    rw [psqTot_congr hsame.psq d]
    exact ht.room hfits
  obtain ⟨u, v, hv, hback, hu, hcheck, hcredit, hpacket⟩ :=
    refused_back hd (fun h => hslot' h.2) hr hroom
  rw [← hu] at hsame hcount hcontents hroom
  have hre := rollback_requeued true (hd ▸ hroom)
  rw [← hback.toState, hd, hfifo, requeue_new, hsame.psq] at hre
  have hrequests := requests_restored hd hfifo ht hback hcheck hcredit hpacket
  obtain ⟨hinq, hperac, hinpsq, hindrv⟩ := counters_restored hfifo ht hsame hre
  refine ⟨v, hv, fun h => hrequests.mp ⟨h.requestedCredit, h.requestedPacket⟩, fun h => ?_⟩
  refine ⟨?_, ?_, ?_, (hrequests.mpr h).1, (hrequests.mpr h).2, ?_, hinq, hperac, hinpsq,
    hindrv⟩
  · have hqueue : v.psq d ⟨ac, false⟩ = p :: t.psq d ⟨ac, false⟩ := hfifo ▸ hre.psq
    have hleft : t.psq d ⟨ac, false⟩ = l := ht.left
    rw [hqueue, hleft]
    exact ht.queue.symm
  · rw [hback.data, if_pos rfl, ht.data]
  · rw [hre.entry, if_pos rfl, Function.update_self, hcount, Function.update_self, ← hentry]
    exact counted_back cfg.toCfg t.toState d p
  · intro i
    rw [hre.hanger, hcontents, hhanger]

theorem contents_again {it : Item} :
    contents { it with state := .inuse, txstatus := false, busreturned := false } = contents it ↔
      it.state = .inuse ∧ it.txstatus = false ∧ it.busreturned = false := by
  obtain ⟨state, gen, txstatus, busreturned, pkt⟩ := it
  unfold contents
  cases state <;> simp [eq_comm]

/-- A suppressed packet is sent again in its own slot. -/
theorem hanger_again (cfg : Cfg) (t : State) (d : Dest) (p : Id) :
    (∀ i, contents ((pretxAgain cfg t d p).hanger i) = contents (t.hanger i)) ↔
      (cfg.afq = false → (t.hanger (t.tag p).hslot).state = .inuse ∧
        (t.hanger (t.tag p).hslot).txstatus = false ∧
        (t.hanger (t.tag p).hslot).busreturned = false) := by
  by_cases hafq : cfg.afq = true
  · rw [again_afq hafq]
    exact iff_of_true (fun _ => rfl) fun h => absurd hafq (by rw [h]; decide)
  · rw [again_hanger hafq]
    constructor
    · intro h _
      have hown := h (t.tag p).hslot
      dsimp only at hown
      rw [Function.update_self] at hown
      exact contents_again.mp hown
    · intro h
      exact contents_update (contents_again.mpr (h (Bool.eq_false_iff.mpr hafq)))

/-- What a packet that is sent again does not change. -/
theorem sent_again (cfg : Cfg) (t : State) (d : Dest) (p : Id) :
    SameQueues t (pretxAgain cfg t d p) ∧ (pretxAgain cfg t d p).entry = t.entry ∧
      ∀ q, ((pretxAgain cfg t d p).tag q).ctr = (t.tag q).ctr := by
  have hctr : ∀ gen q, (Function.update t.tag p { t.tag p with gen := gen } q).ctr =
      (t.tag q).ctr := by
    intro gen q
    by_cases hq : q = p
    · subst hq
      rw [Function.update_self]
    · rw [Function.update_of_ne hq]
  by_cases hafq : cfg.afq = true
  · rw [again_afq hafq]
    exact ⟨⟨rfl, rfl, rfl, rfl, rfl⟩, rfl, hctr _⟩
  · rw [again_hanger hafq]
    exact ⟨⟨rfl, rfl, rfl, rfl, rfl⟩, rfl, hctr _⟩

theorem pullheader_prefix {hdr data : List UInt8} (hpull : ∀ rest, pullheader (hdr ++ rest) = (rest, true)) :
    hdr ++ (pullheader data).1 = data ↔ hdr <+: data := by
  constructor
  · intro h
    exact ⟨_, h⟩
  · rintro ⟨rest, rfl⟩
    rw [hpull]

/-- A suppressed packet that the bus refuses. -/
theorem again_restored (hd : (cfg.pkt p).entry = d) (hfifo : (cfg.pkt p).fifo = ac)
    (hfits : psqTot s.toState d ≤ cfg.psqLen) (ht : Taken cfg s t d ac p false l) :
    ∃ v, handlePacketCommit cfg t d p false (spent cfg (s.desc d) ac) false = (v, .back) ∧
      (RolledBack s v d ⟨ac, true⟩ p ↔ Refunded (s.desc d) ac ∧ Unchanged cfg s t d ac p) := by
  obtain ⟨hhanger, hentry, htag⟩ := ht.same
  obtain ⟨hsame, hsent, hctr⟩ := sent_again cfg.toCfg t.toState d p
  have hroom : psqTot (pretxAgain cfg.toCfg t.toState d p) d < cfg.psqLen := by
    rw [psqTot_congr hsame.psq d]
    exact ht.room hfits
  obtain ⟨u, v, hv, hback, hu, hcheck, hcredit, hpacket⟩ :=
    @refused_back cfg t d p false (spent cfg (s.desc d) ac) _ hd (fun h => by cases h.1) rfl hroom
  have hu : u.toState = pretxAgain cfg.toCfg t.toState d p := hu
  rw [← hu] at hsame hsent hctr hroom
  have hre := rollback_requeued false (hd ▸ hroom)
  rw [← hback.toState, hd, hfifo, hsame.psq] at hre
  have hrequests := requests_restored hd hfifo ht hback hcheck hcredit hpacket
  obtain ⟨hinq, hperac, hinpsq, hindrv⟩ := counters_restored hfifo ht hsame hre
  have hseq : adjustedSeq u.toState ((u.entry d).seq ac) =
      adjustedSeq s.toState ((s.entry d).seq ac) := by
    funext q
    unfold adjustedSeq
    rw [hctr, hsent, hentry, htag]
  have hqueue : v.psq d ⟨ac, true⟩ = s.psq d ⟨ac, true⟩ ↔ (cfg.reorderSupp = true →
      ∀ q ∈ (t.psq d (sup ac)).head?, adjustedSeq s.toState ((s.entry d).seq ac) p ≤
        adjustedSeq s.toState ((s.entry d).seq ac) q) := by
    have hthere : v.psq d ⟨ac, true⟩ = _ := hfifo ▸ hre.psq
    have hfirst : s.psq d ⟨ac, true⟩ = p :: l := ht.queue
    have hleft : t.psq d (sup ac) = l := ht.left
    rw [hthere, hseq, hfirst, hleft]
    show requeue cfg.toCfg _ p false (t.psq d (sup ac)) = _ ↔ _
    rw [hleft]
    exact requeue_eq_iff cfg.toCfg _ p l
  have hdata : v.data p = s.data p ↔
      headerAgain cfg t d p (spent cfg (s.desc d) ac) <+: s.data p := by
    rw [hback.data, if_neg Bool.false_ne_true, ht.data]
    exact pullheader_prefix fun rest => pullheader_pushheader ..
  have hitem : (∀ i, contents (v.hanger i) = contents (s.hanger i)) ↔ (cfg.afq = false →
      (s.hanger (s.tag p).hslot).state = .inuse ∧ (s.hanger (s.tag p).hslot).txstatus = false ∧
        (s.hanger (s.tag p).hslot).busreturned = false) := by
    rw [hre.hanger, hu, ← hhanger, ← htag]
    exact hanger_again cfg.toCfg t.toState d p
  refine ⟨v, hv, fun h => ?_, fun h => ?_⟩
  · exact ⟨hrequests.mp ⟨h.requestedCredit, h.requestedPacket⟩, hdata.mp h.data,
      hitem.mp h.hanger, hqueue.mp h.queue⟩
  · have hboth := hrequests.mpr h.1
    refine ⟨hqueue.mpr h.2.order, hdata.mpr h.2.header, ?_, hboth.1, hboth.2,
      hitem.mpr h.2.item, hinq, hperac, hinpsq, hindrv⟩
    rw [hre.entry, if_neg Bool.false_ne_true, hsent, hentry]

end

/-! ## Result -/

theorem pretx_slot {cfg : Cfg} {s : State} (d : Dest) {p : Id} {needsHdr : Bool}
    (hslot : ¬ (needsHdr = true ∧ cfg.afq = false ∧ hangerGetFreeSlot s = none)) :
    ∃ r, Wlfc.pretxPktprocess cfg s d p needsHdr = (r, true) := by
  cases needsHdr with
  | true =>
    obtain ⟨r, hr, -⟩ := refused_new d p fun h => hslot ⟨rfl, h⟩
    exact ⟨r, hr⟩
  | false => exact ⟨_, rfl⟩

/-- A packet that has a header does not come back when the bus takes it. -/
theorem committed_of_bus {cfg : HostCfg} {t : Host} (d : Dest) {p : Id} {needsHdr : Bool}
    (spent : Bool) (hslot : ¬ (needsHdr = true ∧ NoSlot cfg t)) :
    (handlePacketCommit cfg t d p needsHdr spent true).2 = .committed := by
  obtain ⟨r, hr⟩ := pretx_slot d hslot
  obtain ⟨v, hdr, hpretx, -⟩ := @pretx_pushed cfg
    { t with creditcheck := Function.update t.creditcheck p spent } d p needsHdr true r hslot hr
  unfold handlePacketCommit
  dsimp only
  rw [hpretx, Bool.and_self, if_pos rfl]

theorem rollback_toState (cfg : HostCfg) (u : Host) (p : Id) (needsHdr : Bool) :
    (rollbackPacketToq cfg u p needsHdr).1.toState =
      Wlfc.rollbackPacketToq cfg.toCfg u.toState p needsHdr
        (if needsHdr then (pullheader (u.data p)).2 else true) := by
  cases needsHdr <;> rfl

/-- Without the headers and the stations it is the commit of the packets' places. -/
theorem handlePacketCommit_toState (cfg : HostCfg) (t : Host) (d : Dest) (p : Id)
    (needsHdr spent fcommit : Bool) :
    (handlePacketCommit cfg t d p needsHdr spent fcommit).1.toState =
      Wlfc.handlePacketCommit cfg.toCfg t.toState d p needsHdr fcommit (pullheader (t.data p)).2 := by
  by_cases hslot : needsHdr = true ∧ NoSlot cfg t
  · obtain ⟨rfl, hslot⟩ := hslot
    obtain ⟨v, hv, hstate, hdata⟩ := @pretx_unpushed cfg
      { t with creditcheck := Function.update t.creditcheck p spent } d p hslot
    unfold handlePacketCommit Wlfc.handlePacketCommit
    dsimp only
    rw [hv, pretx_noSlot d p hslot]
    show (rollbackPacketToq cfg v p true).1.toState = _
    rw [rollback_toState, if_pos rfl, hstate, hdata]
    rfl
  · obtain ⟨r, hr⟩ := pretx_slot d hslot
    obtain ⟨v, hdr, hpretx, hpushed⟩ := @pretx_pushed cfg
      { t with creditcheck := Function.update t.creditcheck p spent } d p needsHdr true r hslot hr
    unfold handlePacketCommit Wlfc.handlePacketCommit
    dsimp only
    rw [hpretx, hr, if_pos rfl]
    cases fcommit with
    | true =>
      show committed v.toState d p = committed r d p
      rw [hpushed.toState]
    | false =>
      show (rollbackPacketToq cfg { v with toState := unhang cfg.toCfg v.toState p needsHdr } p
        needsHdr).1.toState = Wlfc.rollbackPacketToq cfg.toCfg (unhang cfg.toCfg r p needsHdr) p
          needsHdr true
      have hpull : (if needsHdr then (pullheader (v.data p)).2 else true) = true := by
        obtain ⟨tim, tag, seq, hhdr⟩ := hpushed.header
        rw [hpushed.data, hhdr]
        cases needsHdr with
        | true =>
          rw [if_pos rfl, if_pos rfl, pullheader_pushheader]
        | false => rfl
      rw [rollback_toState, hpull, hpushed.toState]

/-- What is proved of the runs of the packets' places is so of the host's. -/
theorem transferPacket_toState (cfg : HostCfg) (s : Host) (d : Dest) (ac : Ac) (fcommit : Bool) :
    ∃ pulled, (transferPacket cfg s d ac fcommit).map (fun r => r.1.toState) =
      Wlfc.transferPacket cfg.toCfg s.toState d ac fcommit pulled := by
  unfold transferPacket Wlfc.transferPacket dequeDelayedq
  by_cases hgate : (s.entry d).gate = true
  · rw [if_pos hgate]
    cases hdeq : Wlfc.dequeDelayedq cfg.toCfg s.toState d ac with
    | none =>
      exact ⟨true, by rw [if_pos hgate]; rfl⟩
    | some r =>
      refine ⟨(pullheader (s.data r.2.1)).2, ?_⟩
      rw [if_pos hgate]
      exact congrArg some (handlePacketCommit_toState ..)
  · exact ⟨true, by rw [if_neg hgate, if_neg hgate]; rfl⟩

/-- A failed commit is rolled back. -/
theorem commit_rolled_back_iff (cfg : HostCfg) (s : Host) (d : Dest) (ac : Ac) {t : Host} {p : Id}
    {needsHdr : Bool} (hq : Queued cfg.toCfg s.toState d)
    (hdeq : dequeDelayedq cfg s d ac = some (t, p, needsHdr)) :
    (∀ fcommit s', handlePacketCommit cfg t d p needsHdr (spent cfg (s.desc d) ac) fcommit =
        (s', .back) → RolledBack s s' d ⟨ac, !needsHdr⟩ p) ↔
      Undoes cfg s t d ac p needsHdr := by
  obtain ⟨l, ht⟩ := dequeue_taken hdeq
  have hmem : p ∈ s.psq d ⟨ac, !needsHdr⟩ := by
    rw [ht.queue]
    exact List.mem_cons_self
  obtain ⟨hd, hfifo⟩ := hq.own _ p hmem
  -- the bus answers `false`, and that alone brings a packet with a header back
  have hrefused : ¬ (needsHdr = true ∧ NoSlot cfg t) → ∀ v P,
      handlePacketCommit cfg t d p needsHdr (spent cfg (s.desc d) ac) false = (v, .back) →
      (RolledBack s v d ⟨ac, !needsHdr⟩ p ↔ P) →
      ((∀ fcommit s', handlePacketCommit cfg t d p needsHdr (spent cfg (s.desc d) ac) fcommit =
        (s', .back) → RolledBack s s' d ⟨ac, !needsHdr⟩ p) ↔ P) := by
    intro hslot v P hv hiff
    refine ⟨fun h => hiff.mp (h false v hv), fun h fcommit s' hs' => ?_⟩
    cases fcommit with
    | true =>
      have hbus := @committed_of_bus cfg t d p needsHdr (spent cfg (s.desc d) ac) hslot
      rw [hs'] at hbus
      cases hbus
    | false =>
      rw [hv] at hs'
      cases hs'
      exact hiff.mpr h
  cases needsHdr with
  | false =>
    obtain ⟨v, hv, hiff⟩ := again_restored hd hfifo hq.fits ht
    exact hrefused (fun h => by cases h.1) v _ hv hiff
  | true =>
    by_cases hslot : NoSlot cfg s
    · have hbody := fun fcommit => noSlot_back (spent cfg (s.desc d) ac) fcommit
        (ht.noSlot_iff.mpr hslot) (hd ▸ ht.room hq.fits)
      rw [hd, ht.data] at hbody
      constructor
      · intro h
        refine .inl ⟨hslot, Bool.eq_false_iff.mpr fun hpull => ?_⟩
        have hcome := (hbody false).1
        rw [if_pos hpull] at hcome
        have hdata := (h false _ (Prod.ext rfl hcome)).data
        rw [(hbody false).2] at hdata
        exact pullheader_shorter hpull hdata
      · rintro (⟨-, hpull⟩ | ⟨hno, -⟩)
        · intro fcommit s' hs'
          have hcome := (hbody fcommit).1
          rw [hs', hpull] at hcome
          cases hcome
        · exact absurd hslot hno
    · obtain ⟨v, hv, hiff⟩ := new_restored hd hfifo hq.fits hslot ht
      refine (hrefused (fun h => hslot (ht.noSlot_iff.mp h.2)) v _ hv hiff).trans ?_
      exact ⟨fun h => .inr ⟨hslot, h⟩, fun h => (h.resolve_left fun h => hslot h.1).2⟩

def plainHost : HostCfg where
  toCfg := plain
  bcmcCreditSupported := false
  reuseSeq := false
  prio := fun _ => 0
  sumNeeded := fun _ => false

/-- Packet 1 is in queue `k` of a station. -/
def held (k : Prec) (h : Slot → Item) (data : List UInt8) (e : Desc) : Host where
  toState := { State.init fun _ => true with hanger := h }.setPsq firstDest k [1]
  desc := fun _ => e
  data := fun _ => data
  creditcheck := fun _ => false
  h2dseq := fun _ => 0

def station (closed : Bool) (requestedCredit requestedPacket : BitVec 8) : Desc :=
  ⟨closed, 0, requestedCredit, requestedPacket, false, 0, 0⟩

theorem queued_held (b : Bool) (h : Slot → Item) (data : List UInt8) (e : Desc) :
    Queued plain (held ⟨firstAc, b⟩ h data e).toState firstDest := by
  refine ⟨fun k p hp => ?_, ?_⟩
  · change p ∈ (State.setPsq _ _ _ _).psq _ _ at hp
    rw [psq_setPsq] at hp
    split at hp
    · next hk => exact ⟨rfl, congrArg Prec.ac hk.2.symm⟩
    · cases hp
  · have htot : psqTot (held ⟨firstAc, b⟩ h data e).toState firstDest = 1 := by
      cases b <;> rfl
    rw [htot]
    decide

/-- A closed station that has asked for a credit. -/
theorem commit_rolled_back_asked : ∃ t s',
    dequeDelayedq plainHost (held (dly firstAc) (fun _ => .empty) [7] (station true 1 0)) firstDest
      firstAc = some (t, 1, true) ∧
    handlePacketCommit plainHost t firstDest 1 true (spent plainHost (station true 1 0) firstAc)
      false = (s', .back) ∧
    RolledBack (held (dly firstAc) (fun _ => .empty) [7] (station true 1 0)) s' firstDest
      (dly firstAc) 1 := by
  have hq := queued_held false (fun _ => .empty) [7] (station true 1 0)
  have hslot : ¬ NoSlot plainHost (held (dly firstAc) (fun _ => .empty) [7] (station true 1 0)) :=
    fun h => by cases h.2
  exact ⟨_, _, rfl, rfl, (commit_rolled_back_iff plainHost _ firstDest firstAc hq rfl).mpr
    (.inr ⟨hslot, by decide, by decide⟩) false _ rfl⟩

theorem freeSlotFrom_full {h : Slot → Item} (hfull : ∀ i, (h i).state ≠ .free) (n : Nat) (i : Slot) :
    freeSlotFrom h n i = none := by
  induction n generalizing i with
  | zero => rfl
  | succ n ih => rw [freeSlotFrom, if_neg (hfull i), ih]

/-- A packet of the first station comes back, and something is not what it was. -/
def Lost (s : Host) : Prop :=
  Queued plain s.toState firstDest ∧ ∃ t p needsHdr s',
    dequeDelayedq plainHost s firstDest firstAc = some (t, p, needsHdr) ∧
    handlePacketCommit plainHost t firstDest p needsHdr
      (spent plainHost (s.desc firstDest) firstAc) false = (s', .back) ∧
    ¬ RolledBack s s' firstDest ⟨firstAc, !needsHdr⟩ p

/-- Every slot has a packet. -/
def taken (state : ItemState) : Slot → Item := fun _ =>
  { Item.empty with state := state, pkt := some 1 }

theorem lost_full {data : List UInt8} (e : Desc) (h : (pullheader data).2 = true) :
    Lost (held (dly firstAc) (taken .inuse) data e) := by
  have hq := queued_held false (taken .inuse) data e
  obtain ⟨r, hr⟩ : ∃ r, dequeDelayedq plainHost (held (dly firstAc) (taken .inuse) data e) firstDest
      firstAc = some (r, 1, true) := ⟨_, rfl⟩
  obtain ⟨l, ht⟩ := dequeue_taken hr
  have hbody : r.data 1 = data := congrFun ht.data 1
  have hinuse : ∀ i, (taken .inuse i).state ≠ .free := fun _ h => ItemState.noConfusion h
  have hslot : NoSlot plainHost r := ht.noSlot_iff.mpr ⟨rfl, freeSlotFrom_full hinuse _ _⟩
  obtain ⟨hcome, hdata⟩ := @noSlot_back plainHost r 1 (spent plainHost e firstAc) false hslot
    (ht.room hq.fits)
  rw [hbody, if_pos h] at hcome
  rw [hbody] at hdata
  exact ⟨hq, r, 1, true, _, hr, Prod.ext rfl hcome, fun hback => pullheader_shorter h
    (hdata.symm.trans hback.data)⟩

/-- A requested packet comes back as a requested credit, the slot of a suppressed packet as one in
use, and without a slot the packet itself is cut. -/
theorem commit_rolled_back_fails :
    Lost (held (dly firstAc) (fun _ => .empty) [7] (station true 0 1)) ∧
    Lost (held (sup firstAc) (taken .inuseSuppressed) [0, 0, 0, 0] (station true 1 0)) ∧
    Lost (held (dly firstAc) (taken .inuse) [0, 0, 0, 0, 7] (station true 1 0)) := by
  refine ⟨⟨queued_held _ _ _ _, _, _, _, _, rfl, rfl, fun h => ?_⟩,
    ⟨queued_held _ _ _ _, _, _, _, _, rfl, rfl, fun h => ?_⟩,
    @lost_full [0, 0, 0, 0, 7] _ rfl⟩
  · have hpacket := h.requestedPacket
    revert hpacket
    decide
  · have hitem := congrArg (Option.map Item.state) (h.hanger 0)
    revert hitem
    decide

end Bcmdhd.Wlfc.Commit
