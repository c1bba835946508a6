import Bcmdhd.Msgbuf.TxPost
import Bcmdhd.Msgbuf.TxStatus

/-!
# Stopping and restarting transmission (`dhd_msgbuf.c`)

`dhd_prot_txdata` stops the network queues when it found no packet id for the 1025th time in a
row.  `dhd_prot_txstatus_process` starts them again when it counts exactly 512 free ids after
its own free.  Any number of transmitters run at once; completions hold the lock of their ring.
Each operation of the packet-id map and each count of its free ids is a step.

    meets step inTime (init uninit) es → runs step (init uninit) es = some (s, tr) →
      (quiescent s → allFree s → s.prot.noTxResource = false) ∧ 0 ≤ stopBalance tr
                                                                       (restarts_in_time)
-/

namespace Bcmdhd.TxStop

open Runs ArrayStack PktIdMap TxStatus

/-! ## The system -/

/-- `MAX_PKTID_TX` -/
def maxPktidTx : Nat := 36864

/-- Where a call of `dhd_prot_txdata` is. -/
inductive Tx
  | idle
  /-- what `DHD_PKTID_AVAIL` was -/
  | counted (avail : Nat)
  /-- there were ids -/
  | admitted
  | holds (pktid skb : Nat)
  | saved (pktid : Nat)
deriving DecidableEq, Repr

/-- Where the completion that holds the ring lock is. -/
inductive Cpl
  | idle
  | freed
  | counted (avail : Nat)
deriving DecidableEq, Repr

structure Sys where
  prot : Prot
  pktidDepletedCnt : Nat
  txs : Nat → Tx
  cpl : Cpl

/-- `uninit` is what the lockers hold before their first use. -/
def init (uninit : Contents) : Sys where
  prot := ⟨PktIdMap.init maxPktidTx uninit, 0, 0, false, false⟩
  pktidDepletedCnt := 0
  txs := fun _ => .idle
  cpl := .idle

inductive Ev
  | txCount (i : Nat)
  | txCheck (i : Nat)
  /-- no memory for the packet to send instead -/
  | txQuit (i : Nat)
  | txReserve (i skb : Nat)
  | txSave (i : Nat) (induce : InduceError) (c : Contents)
  /-- no item of the ring, or no mapping -/
  | txRollback (i : Nat) (induce : InduceError)
  | txPost (i : Nat)
  | cplFree (induce : InduceError) (requestId : Nat)
  | cplCount
  | cplStart
deriving DecidableEq, Repr

/-- What a step did to the queues. -/
inductive Res
  | nothing
  | stop
  | start
deriving DecidableEq, Repr

/-! ## Algorithm -/

def setTx (s : Sys) (i : Nat) (tx : Tx) : Sys := { s with txs := Function.update s.txs i tx }

def setMap (s : Sys) (m : PktidMap) : Sys := { s with prot := { s.prot with pktidTxMap := m } }

/-- The queues are stopped. -/
def stopQueue (s : Sys) : Sys :=
  { s with
    prot := { s.prot with
      pktidTxqStopCnt := (s.prot.pktidTxqStopCnt + 1) % 0x100
      txOff := true
      noTxResource := true } }

/-- No ids were counted. -/
def countDepleted (s : Sys) : Sys × Res :=
  let (s, res) :=
    if s.pktidDepletedCnt = TxPost.pktidDepletedMaxCount then (stopQueue s, .stop)
    else (s, .nothing)
  ({ s with pktidDepletedCnt := (s.pktidDepletedCnt + 1) % 0x100000000 }, res)

/-- A call in which `n` ids were counted. -/
def check (s : Sys) (i n : Nat) : Sys × Res :=
  if n = 0 then
    let (s, res) := countDepleted s
    (setTx s i .idle, res)
  else (setTx { s with pktidDepletedCnt := 0 } i .admitted, .nothing)

def txReserve (s : Sys) (i skb : Nat) : Sys :=
  let (m, pktid) := PktIdMap.reserve s.prot.pktidTxMap (some skb)
  setTx (setMap s m) i (if pktid = pktidInvalid then .idle else .holds pktid skb)

/-- `err_free_pktid` -/
def txFree (s : Sys) (i : Nat) (induce : InduceError) (pktid : Nat) : Sys :=
  setTx (setMap s (PktIdMap.free induce s.prot.pktidTxMap pktid .noCheck false).1) i .idle

/-- A completion that frees a packet goes on to count the free ids. -/
def cplFree (s : Sys) (induce : InduceError) (requestId : Nat) : Sys :=
  let s := { s with prot := { s.prot with activeTxCount := s.prot.activeTxCount - 1 } }
  match PktIdMap.free induce s.prot.pktidTxMap requestId .dataTx false with
  | (m, some _, some _) => { setMap s m with cpl := .freed }
  | (m, _, _) => setMap s m

/-- `n` ids were counted. -/
def startQueue (s : Sys) (n : Nat) : Sys × Res :=
  if n = pktidMinAvailCount then
    ({ s with
        prot := busStartQueue { s.prot with
          pktidTxqStopCnt := (s.prot.pktidTxqStopCnt + 0xff) % 0x100, noTxResource := false }
        cpl := .idle }, .start)
  else ({ s with cpl := .idle }, .nothing)

def step (s : Sys) : Ev → Option (Sys × Res)
  | .txCount i =>
    match s.txs i with
    | .idle => some (setTx s i (.counted s.prot.pktidTxMap.avail), .nothing)
    | _ => none
  | .txCheck i =>
    match s.txs i with
    | .counted n => some (check s i n)
    | _ => none
  | .txQuit i =>
    match s.txs i with
    | .admitted => some (setTx s i .idle, .nothing)
    | _ => none
  | .txReserve i skb =>
    match s.txs i with
    | .admitted => some (txReserve s i skb, .nothing)
    | _ => none
  | .txSave i induce c =>
    match s.txs i with
    | .holds pktid skb =>
      some (setTx (setMap s (PktIdMap.save induce s.prot.pktidTxMap { c with pkt := some skb } pktid))
        i (.saved pktid), .nothing)
    | _ => none
  | .txRollback i induce =>
    match s.txs i with
    | .holds pktid _ => some (txFree s i induce pktid, .nothing)
    | .saved pktid => some (txFree s i induce pktid, .nothing)
    | _ => none
  | .txPost i =>
    match s.txs i with
    | .saved _ =>
      some (setTx { s with prot := { s.prot with activeTxCount := s.prot.activeTxCount + 1 } }
        i .idle, .nothing)
    | _ => none
  | .cplFree induce requestId =>
    match s.cpl with
    | .idle => some (cplFree s induce requestId, .nothing)
    | _ => none
  | .cplCount =>
    match s.cpl with
    | .freed => some ({ s with cpl := .counted s.prot.pktidTxMap.avail }, .nothing)
    | _ => none
  | .cplStart =>
    match s.cpl with
    | .counted n => some (startQueue s n)
    | _ => none

/-! ## What should hold -/

abbrev Trace := List (Ev × Res)

/-- No call is in progress. -/
def quiescent (s : Sys) : Prop := (∀ i, s.txs i = .idle) ∧ s.cpl = .idle

def allFree (s : Sys) : Prop :=
  ∀ k, 1 ≤ k → k ≤ s.prot.pktidTxMap.items → (s.prot.pktidTxMap.lockers k).state = .free

/-- What a step adds to `pktid_txq_stop_cnt`. -/
def moved : Res → Int
  | .nothing => 0
  | .stop => 1
  | .start => -1

/-- `pktid_txq_stop_cnt`, were it not kept in 8 bits. -/
def stopBalance : Trace → Int
  | [] => 0
  | (_, res) :: tr => moved res + stopBalance tr

/-- The restart is still to come: too few ids are free, or the completion at work will count, or
has counted, just the minimum. -/
def restartDue (cpl : Cpl) (avail : Nat) : Bool :=
  decide (avail < pktidMinAvailCount) || (cpl == .freed && avail == pktidMinAvailCount) ||
    cpl == .counted pktidMinAvailCount

/-- The free of a call that is rolled back; with the queues stopped it does not go past the
restart. -/
def freesInTime (s : Sys) (induce : InduceError) (pktid : Nat) : Bool :=
  rejected induce s.prot.pktidTxMap pktid .noCheck || !s.prot.noTxResource ||
    restartDue s.cpl (s.prot.pktidTxMap.avail + 1)

/-- The queues are not stopped when the restart is past, no rollback is in the place of the
completion that would restart them, and they are not started unless they were stopped. -/
def inTime (s : Sys) : Ev → Bool
  | .txCheck i =>
    s.txs i != .counted 0 || s.pktidDepletedCnt != TxPost.pktidDepletedMaxCount ||
      restartDue s.cpl s.prot.pktidTxMap.avail
  | .txRollback i induce =>
    match s.txs i with
    | .holds pktid _ => freesInTime s induce pktid
    | .saved pktid => freesInTime s induce pktid
    | _ => true
  | .cplStart => s.cpl != .counted pktidMinAvailCount || s.prot.noTxResource
  | _ => true

/-! ## The packet-id map -/

variable {m : PktidMap} {s s' : Sys} {tr : Trace}

/-- What holds whatever ids the dongle completes: a free id can be handed out, and an id that is
not free has a packet. -/
structure MapOk (m : PktidMap) : Prop where
  items_eq : m.items = maxPktidTx
  free_mem : ∀ k, 1 ≤ k → k ≤ maxPktidTx → (m.lockers k).state = .free → k ∈ freeKeys m
  packet : ∀ k, 1 ≤ k → (m.lockers k).state ≠ .free → (m.lockers k).pkt.isSome = true

theorem mapOk_init (uninit : Contents) : MapOk (PktIdMap.init maxPktidTx uninit) where
  items_eq := rfl
  free_mem := fun k h1 h2 hfree =>
    ((inv_init maxPktidTx uninit).mem_iff k).mpr ⟨h1, h2, hfree⟩
  packet := fun k h1 hbusy => absurd (if_neg (by unfold pktidInvalid; omega)) hbusy

/-- All ids are among the keys when all are free. -/
theorem MapOk.le_avail (h : MapOk m)
    (hall : ∀ k, 1 ≤ k → k ≤ m.items → (m.lockers k).state = .free) : maxPktidTx ≤ m.avail := by
  have hsub : List.range' 1 maxPktidTx ⊆ freeKeys m := by
    intro k hk
    rw [List.mem_range'_1] at hk
    have h2 : k ≤ maxPktidTx := by omega
    exact h.free_mem k hk.1 h2 (hall k hk.1 (h.items_eq ▸ h2))
  have hlen := (List.subperm_of_subset List.nodup_range' hsub).length_le
  simpa [freeKeys, cells] using hlen

theorem MapOk.reserve (h : MapOk m) (skb : Nat) : MapOk (reserve m (some skb)).1 := by
  unfold PktIdMap.reserve
  split
  · exact ⟨h.items_eq, h.free_mem, h.packet⟩
  · next hneg =>
    dsimp only
    split
    · exact ⟨h.items_eq, h.free_mem, h.packet⟩
    · have hpop : freeKeys m = cells m.keys 1 (m.avail - 1) ++ [m.keys m.avail] := by
        unfold freeKeys
        conv => lhs; rw [show m.avail = m.avail - 1 + 1 by omega]
        rw [cells_succ, show 1 + (m.avail - 1) = m.avail by omega]
      refine ⟨h.items_eq, fun k h1 h2 hfree => ?_, fun k h1 hbusy => ?_⟩
      · dsimp only at hfree
        rw [Function.update_apply] at hfree
        split at hfree
        · cases hfree
        · next hk =>
          have hmem := h.free_mem k h1 h2 hfree
          rw [hpop, List.mem_append, List.mem_singleton] at hmem
          exact hmem.resolve_right hk
      · dsimp only at hbusy ⊢
        rw [Function.update_apply] at hbusy ⊢
        split
        · rfl
        · next hk =>
          rw [if_neg hk] at hbusy
          exact h.packet k h1 hbusy

theorem MapOk.save (h : MapOk m) (induce : InduceError) (c : Contents) (skb nkey : Nat) :
    MapOk (save induce m { c with pkt := some skb } nkey) := by
  unfold PktIdMap.save
  split
  · exact h
  · refine ⟨h.items_eq, fun k h1 h2 hfree => ?_, fun k h1 hbusy => ?_⟩
    · dsimp only at hfree
      rw [Function.update_apply] at hfree
      split at hfree
      · cases hfree
      · exact h.free_mem k h1 h2 hfree
    · dsimp only at hbusy ⊢
      rw [Function.update_apply] at hbusy ⊢
      split
      · rfl
      · next hk =>
        rw [if_neg hk] at hbusy
        exact h.packet k h1 hbusy

theorem MapOk.free (h : MapOk m) (induce : InduceError) (nkey : Nat) (pkttype : PktType) :
    MapOk (free induce m nkey pkttype false).1 := by
  cases hr : rejected induce m nkey pkttype with
  | true =>
    rw [free_of_rejected hr]
    exact h
  | false =>
    rw [free_of_accepted hr]
    simp only [Bool.false_eq_true, if_false]
    refine ⟨h.items_eq, fun k h1 h2 hfree => ?_, fun k h1 hbusy => ?_⟩
    · unfold freeKeys
      dsimp only at hfree ⊢
      have hpush := cells_push m.keys 1 m.avail nkey
      rw [Nat.add_comm 1 m.avail] at hpush
      rw [hpush, List.mem_append, List.mem_singleton]
      rw [Function.update_apply] at hfree
      split at hfree
      · next hk => exact .inr hk
      · exact .inl (h.free_mem k h1 h2 hfree)
    · dsimp only at hbusy ⊢
      rw [Function.update_apply] at hbusy ⊢
      split
      · next hk =>
        rw [if_pos hk] at hbusy
        exact absurd rfl hbusy
      · next hk =>
        rw [if_neg hk] at hbusy
        exact h.packet k h1 hbusy

/-- An accepted free of a valid id has a packet to return. -/
theorem MapOk.free_packet (h : MapOk m) {induce : InduceError} {nkey : Nat} {pkttype : PktType}
    (hr : rejected induce m nkey pkttype = false) : (m.lockers nkey).pkt.isSome = true := by
  unfold rejected at hr
  rw [Bool.or_eq_false_iff, Bool.or_eq_false_iff, Bool.or_eq_false_iff] at hr
  obtain ⟨⟨⟨hvalid, -⟩, hbeq⟩, -⟩ := hr
  exact h.packet nkey (invalidKey_eq_false.mp hvalid).1 (by simpa using hbeq)

theorem reserve_avail_le (m : PktidMap) (pkt : Option Nat) :
    (reserve m pkt).1.avail ≤ m.avail := by
  unfold PktIdMap.reserve
  split
  · exact Nat.le_refl _
  · dsimp only
    split
    · exact Nat.le_refl _
    · exact Nat.sub_le _ _

theorem save_avail (induce : InduceError) (m : PktidMap) (c : Contents) (nkey : Nat) :
    (save induce m c nkey).avail = m.avail := by
  unfold PktIdMap.save
  split
  · rfl
  · rfl

/-! ## One step -/

/-- The stop counter: its 8 bits, and one stop more than starts while stopped. -/
structure Counted (prot : Prot) (tr : Trace) : Prop where
  cnt : (prot.pktidTxqStopCnt : Int) = stopBalance tr % 0x100
  stopped : prot.noTxResource = true → 1 ≤ stopBalance tr
  nonneg : 0 ≤ stopBalance tr

/-- **The invariant.** -/
structure Inv (s : Sys) (tr : Trace) : Prop where
  map : MapOk s.prot.pktidTxMap
  due : s.prot.noTxResource = true → restartDue s.cpl s.prot.pktidTxMap.avail = true
  counted : Counted s.prot tr

theorem stopBalance_append (tr tr' : Trace) :
    stopBalance (tr ++ tr') = stopBalance tr + stopBalance tr' := by
  induction tr with
  | nil => exact (Int.zero_add _).symm
  | cons x tr ih =>
    show moved x.2 + stopBalance (tr ++ tr') = moved x.2 + stopBalance tr + stopBalance tr'
    rw [ih, Int.add_assoc]

theorem stopBalance_snoc (tr : Trace) (e : Ev × Res) :
    stopBalance (tr ++ [e]) = stopBalance tr + moved e.2 := by
  rw [stopBalance_append]
  exact congrArg _ (Int.add_zero _)

/-- A step that leaves the queues alone. -/
theorem Counted.nothing {prot prot' : Prot} (h : Counted prot tr) (ev : Ev)
    (hcnt : prot'.pktidTxqStopCnt = prot.pktidTxqStopCnt)
    (hno : prot'.noTxResource = prot.noTxResource) : Counted prot' (tr ++ [(ev, .nothing)]) := by
  have hbal : stopBalance (tr ++ [(ev, .nothing)]) = stopBalance tr := by
    rw [stopBalance_snoc]
    exact Int.add_zero _
  refine ⟨?_, ?_, ?_⟩
  · rw [hbal, hcnt]
    exact h.cnt
  · rw [hbal, hno]
    exact h.stopped
  · rw [hbal]
    exact h.nonneg

theorem restartDue_iff {cpl : Cpl} {avail : Nat} :
    restartDue cpl avail = true ↔
      avail < 512 ∨ (cpl = .freed ∧ avail = 512) ∨ cpl = .counted 512 := by
  unfold restartDue pktidMinAvailCount
  simp [or_assoc]

/-- With fewer free ids the restart is still due. -/
theorem restartDue_of_le {cpl : Cpl} {a b : Nat} (h : restartDue cpl b = true) (hle : a ≤ b) :
    restartDue cpl a = true := by
  rw [restartDue_iff] at h ⊢
  rcases h with h | ⟨hc, h⟩ | hc
  · exact .inl (by omega)
  · by_cases ha : a = 512
    · exact .inr (.inl ⟨hc, ha⟩)
    · exact .inl (by omega)
  · exact .inr (.inr hc)

/-- A step of a transmitter that takes ids, or leaves them. -/
theorem Inv.take (h : Inv s tr) (ev : Ev) {t : Sys} (hmap : MapOk t.prot.pktidTxMap)
    (havail : t.prot.pktidTxMap.avail ≤ s.prot.pktidTxMap.avail) (hcpl : t.cpl = s.cpl)
    (hcnt : t.prot.pktidTxqStopCnt = s.prot.pktidTxqStopCnt)
    (hno : t.prot.noTxResource = s.prot.noTxResource) : Inv t (tr ++ [(ev, .nothing)]) where
  map := hmap
  due := by
    intro hstop
    rw [hcpl]
    exact restartDue_of_le (h.due (hno ▸ hstop)) havail
  counted := h.counted.nothing ev hcnt hno

theorem check_inv (h : Inv s tr) {i n : Nat} (htx : s.txs i = .counted n)
    (hok : inTime s (.txCheck i) = true) :
    Inv (check s i n).1 (tr ++ [(.txCheck i, (check s i n).2)]) := by
  unfold check countDepleted
  by_cases hn : n = 0
  · rw [if_pos hn]
    by_cases hmax : s.pktidDepletedCnt = TxPost.pktidDepletedMaxCount
    · rw [if_pos hmax]
      have hdue : restartDue s.cpl s.prot.pktidTxMap.avail = true := by
        simpa [inTime, htx, hn, hmax] using hok
      have hbal : stopBalance (tr ++ [(.txCheck i, .stop)]) = stopBalance tr + 1 :=
        stopBalance_snoc _ _
      have hcnt := h.counted.cnt
      have hpos := h.counted.nonneg
      refine ⟨h.map, fun _ => hdue, ?_, fun _ => ?_, ?_⟩
      · show (((s.prot.pktidTxqStopCnt + 1) % 0x100 : Nat) : Int) = _
        rw [hbal]
        omega
      · rw [hbal]
        omega
      · rw [hbal]
        omega
    · rw [if_neg hmax]
      exact h.take _ h.map (Nat.le_refl _) rfl rfl rfl
  · rw [if_neg hn]
    exact h.take _ h.map (Nat.le_refl _) rfl rfl rfl

theorem txFree_inv (h : Inv s tr) {i pktid : Nat} {induce : InduceError}
    (hok : freesInTime s induce pktid = true) :
    Inv (txFree s i induce pktid) (tr ++ [(.txRollback i induce, .nothing)]) where
  map := h.map.free induce pktid .noCheck
  due := by
    intro hstop
    show restartDue s.cpl (PktIdMap.free induce s.prot.pktidTxMap pktid .noCheck false).1.avail =
      true
    have hstop' : s.prot.noTxResource = true := hstop
    cases hr : rejected induce s.prot.pktidTxMap pktid .noCheck with
    | true =>
      rw [free_of_rejected hr]
      exact h.due hstop'
    | false =>
      rw [free_of_accepted hr]
      simpa [freesInTime, hr, hstop'] using hok
  counted := h.counted.nothing _ rfl rfl

theorem cplFree_inv (h : Inv s tr) (hcpl : s.cpl = .idle) (induce : InduceError)
    (requestId : Nat) :
    Inv (cplFree s induce requestId) (tr ++ [(.cplFree induce requestId, .nothing)]) := by
  unfold cplFree
  dsimp only
  cases hr : rejected induce s.prot.pktidTxMap requestId .dataTx with
  | true =>
    rw [free_of_rejected hr]
    exact h.take _ h.map (Nat.le_refl _) rfl rfl rfl
  | false =>
    have hmap := h.map.free induce requestId .dataTx
    obtain ⟨pkt, hpkt⟩ := Option.isSome_iff_exists.mp (h.map.free_packet hr)
    rw [free_of_accepted hr] at hmap ⊢
    rw [hpkt] at hmap ⊢
    refine ⟨hmap, fun hstop => ?_, h.counted.nothing _ rfl rfl⟩
    -- no completion was at work, so too few ids were free
    have hdue := restartDue_iff.mp (h.due hstop)
    rw [hcpl] at hdue
    have hlt : s.prot.pktidTxMap.avail < 512 := by simpa using hdue
    apply restartDue_iff.mpr
    show s.prot.pktidTxMap.avail + 1 < 512 ∨
      (Cpl.freed = .freed ∧ s.prot.pktidTxMap.avail + 1 = 512) ∨ Cpl.freed = .counted 512
    by_cases heq : s.prot.pktidTxMap.avail + 1 = 512
    · exact .inr (.inl ⟨rfl, heq⟩)
    · exact .inl (by omega)

theorem cplCount_inv (h : Inv s tr) (hcpl : s.cpl = .freed) :
    Inv { s with cpl := .counted s.prot.pktidTxMap.avail } (tr ++ [(.cplCount, .nothing)]) where
  map := h.map
  due := by
    intro hstop
    have hdue := restartDue_iff.mp (h.due hstop)
    rw [hcpl] at hdue
    apply restartDue_iff.mpr
    rcases hdue with hlt | ⟨-, heq⟩ | hc
    · exact .inl hlt
    · exact .inr (.inr (congrArg Cpl.counted heq))
    · cases hc
  counted := h.counted.nothing _ rfl rfl

theorem startQueue_inv (h : Inv s tr) {n : Nat} (hcpl : s.cpl = .counted n)
    (hok : inTime s .cplStart = true) :
    Inv (startQueue s n).1 (tr ++ [(.cplStart, (startQueue s n).2)]) := by
  unfold startQueue
  by_cases hn : n = pktidMinAvailCount
  · rw [if_pos hn]
    have hstop : s.prot.noTxResource = true := by simpa [inTime, hcpl, hn] using hok
    have hbal : stopBalance (tr ++ [(.cplStart, .start)]) = stopBalance tr - 1 :=
      stopBalance_snoc _ _
    have hcnt := h.counted.cnt
    have hpos := h.counted.stopped hstop
    refine ⟨h.map, fun hno => Bool.noConfusion hno, ?_, fun hno => Bool.noConfusion hno, ?_⟩
    · show (((s.prot.pktidTxqStopCnt + 0xff) % 0x100 : Nat) : Int) = _
      rw [hbal]
      omega
    · rw [hbal]
      omega
  · rw [if_neg hn]
    refine ⟨h.map, fun hstop => ?_, h.counted.nothing _ rfl rfl⟩
    have hdue := restartDue_iff.mp (h.due hstop)
    rw [hcpl] at hdue
    apply restartDue_iff.mpr
    rcases hdue with hlt | ⟨hc, -⟩ | hc
    · exact .inl hlt
    · cases hc
    · exact absurd (Cpl.counted.inj hc) hn

theorem step_inv (s : Sys) (tr : Trace) (ev : Ev) (s' : Sys) (res : Res) (h : Inv s tr)
    (hok : inTime s ev = true) (hs : step s ev = some (s', res)) : Inv s' (tr ++ [(ev, res)]) := by
  cases ev with
  | txCount i =>
    dsimp only [step] at hs
    split at hs
    · cases hs
      exact h.take _ h.map (Nat.le_refl _) rfl rfl rfl
    · cases hs
  | txCheck i =>
    dsimp only [step] at hs
    split at hs
    · next htx =>
      obtain ⟨rfl, rfl⟩ := Prod.ext_iff.mp (Option.some.inj hs)
      exact check_inv h htx hok
    · cases hs
  | txQuit i =>
    dsimp only [step] at hs
    split at hs
    · cases hs
      exact h.take _ h.map (Nat.le_refl _) rfl rfl rfl
    · cases hs
  | txReserve i skb =>
    dsimp only [step] at hs
    split at hs
    · cases hs
      exact h.take _ (h.map.reserve skb) (reserve_avail_le _ _) rfl rfl rfl
    · cases hs
  | txSave i induce c =>
    dsimp only [step] at hs
    split at hs
    · cases hs
      exact h.take _ (h.map.save _ _ _ _) (Nat.le_of_eq (save_avail _ _ _ _)) rfl rfl rfl
    · cases hs
  | txRollback i induce =>
    dsimp only [step] at hs
    split at hs
    · next htx =>
      cases hs
      exact txFree_inv h (by simpa [inTime, htx] using hok)
    · next htx =>
      cases hs
      exact txFree_inv h (by simpa [inTime, htx] using hok)
    · cases hs
  | txPost i =>
    dsimp only [step] at hs
    split at hs
    · cases hs
      exact h.take _ h.map (Nat.le_refl _) rfl rfl rfl
    · cases hs
  | cplFree induce requestId =>
    dsimp only [step] at hs
    split at hs
    · next hcpl =>
      cases hs
      exact cplFree_inv h hcpl induce requestId
    · cases hs
  | cplCount =>
    dsimp only [step] at hs
    split at hs
    · next hcpl =>
      cases hs
      exact cplCount_inv h hcpl
    · cases hs
  | cplStart =>
    dsimp only [step] at hs
    split at hs
    · next hcpl =>
      obtain ⟨rfl, rfl⟩ := Prod.ext_iff.mp (Option.some.inj hs)
      exact startQueue_inv h hcpl hok
    · cases hs

/-! ## Calls that are not interrupted -/

@[simp] theorem setTx_self (s : Sys) (i : Nat) (tx : Tx) : (setTx s i tx).txs i = tx :=
  Function.update_self _ _ _

theorem step_txCheck {i n : Nat} (h : s.txs i = .counted n) :
    step s (.txCheck i) = some ((check s i n).1, (check s i n).2) := by
  dsimp only [step]
  rw [h]

@[simp] theorem startQueue_cpl (s : Sys) (n : Nat) : (startQueue s n).1.cpl = .idle := by
  unfold startQueue
  split <;> rfl

@[simp] theorem startQueue_txs (s : Sys) (n : Nat) : (startQueue s n).1.txs = s.txs := by
  unfold startQueue
  split <;> rfl

/-- With a count that is not stale. -/
theorem startQueue_prot (s : Sys) :
    (startQueue s s.prot.pktidTxMap.avail).1.prot = startTxq s.prot := by
  unfold startQueue startTxq
  by_cases hmin : s.prot.pktidTxMap.avail = pktidMinAvailCount
  · rw [if_pos hmin, if_pos hmin]
  · rw [if_neg hmin, if_neg hmin]

theorem step_cplFree (h : s.cpl = .idle) (induce : InduceError) (requestId : Nat) :
    step s (.cplFree induce requestId) = some (cplFree s induce requestId, .nothing) := by
  dsimp only [step]
  rw [h]

theorem step_cplCount (h : s.cpl = .freed) :
    step s .cplCount = some ({ s with cpl := .counted s.prot.pktidTxMap.avail }, .nothing) := by
  dsimp only [step]
  rw [h]

theorem step_cplStart {n : Nat} (h : s.cpl = .counted n) :
    step s .cplStart = some ((startQueue s n).1, (startQueue s n).2) := by
  dsimp only [step]
  rw [h]

/-- A completion that nothing interrupts is `dhd_prot_txstatus_process`. -/
theorem completion_uninterrupted (hmap : MapOk s.prot.pktidTxMap) (hcpl : s.cpl = .idle)
    (induce : InduceError) (requestId : Nat) :
    ∃ t tr, Reaches step s t tr ∧ t.cpl = .idle ∧ t.txs = s.txs ∧
      t.prot = (txstatusProcess induce s.prot requestId).1 := by
  have hfree := (Reaches.nil step s).snoc (step_cplFree hcpl induce requestId)
  unfold cplFree at hfree
  unfold txstatusProcess
  dsimp only at hfree ⊢
  cases hr : rejected induce s.prot.pktidTxMap requestId .dataTx with
  | true =>
    rw [free_of_rejected hr] at hfree ⊢
    exact ⟨_, _, hfree, hcpl, rfl, rfl⟩
  | false =>
    obtain ⟨pkt, hpkt⟩ := Option.isSome_iff_exists.mp (hmap.free_packet hr)
    rw [free_of_accepted hr, hpkt] at hfree ⊢
    exact ⟨_, _, (hfree.snoc (step_cplCount rfl)).snoc (step_cplStart rfl), startQueue_cpl _ _,
      startQueue_txs _ _, startQueue_prot _⟩

/-- A transmitter that nothing interrupts makes the test of `dhd_prot_txdata`. -/
theorem check_uninterrupted {env : TxPost.Env} {dhd : TxPost.Dhd} {i : Nat}
    (hidle : s.txs i = .idle) (hentry : env.availAtEntry = s.prot.pktidTxMap.avail)
    (hdep : dhd.pktidDepletedCnt = s.pktidDepletedCnt)
    (hcnt : dhd.pktidTxqStopCnt = s.prot.pktidTxqStopCnt)
    (hno : dhd.noTxResource = s.prot.noTxResource) (hoff : dhd.txOff = s.prot.txOff) :
    ∃ t tr, Reaches step s t tr ∧
      (TxPost.checkPktids env dhd).1.pktidDepletedCnt = t.pktidDepletedCnt ∧
      (TxPost.checkPktids env dhd).1.pktidTxqStopCnt = t.prot.pktidTxqStopCnt ∧
      (TxPost.checkPktids env dhd).1.noTxResource = t.prot.noTxResource ∧
      (TxPost.checkPktids env dhd).1.txOff = t.prot.txOff ∧
      ((TxPost.checkPktids env dhd).2 = true ↔ t.txs i = .admitted) := by
  let s₁ := setTx s i (.counted s.prot.pktidTxMap.avail)
  have hcount : step s (.txCount i) = some (s₁, .nothing) := by
    dsimp only [step]
    rw [hidle]
  have htx : s₁.txs i = .counted s.prot.pktidTxMap.avail := setTx_self _ _ _
  refine ⟨_, _, ((Reaches.nil step s).snoc hcount).snoc (step_txCheck htx), ?_⟩
  unfold check countDepleted TxPost.checkPktids
  rw [hentry, hdep]
  by_cases hn : s.prot.pktidTxMap.avail = 0
  · rw [if_pos hn, if_pos hn]
    by_cases hmax : s.pktidDepletedCnt = TxPost.pktidDepletedMaxCount
    · have hmax' : s₁.pktidDepletedCnt = TxPost.pktidDepletedMaxCount := hmax
      rw [if_pos hmax, if_pos hmax']
      simp [setTx, stopQueue, s₁, hmax, hcnt]
    · have hmax' : s₁.pktidDepletedCnt ≠ TxPost.pktidDepletedMaxCount := hmax
      rw [if_neg hmax, if_neg hmax']
      simp [setTx, s₁, hdep, hcnt, hno, hoff]
  · rw [if_neg hn, if_neg hn]
    simp [setTx, s₁, hcnt, hno, hoff]

/-! ## Runs from the first id to the last -/

/-- What the lockers hold at first. -/
def blank : Contents := ⟨0, .dataTx, 0, none, 0, 0, 0⟩

/-- Another transmitter holds the last id, if `held`; of the others the first `a` are free. -/
structure MidMap (held : Bool) (a : Nat) (m : PktidMap) : Prop where
  items : m.items = maxPktidTx
  avail : m.avail = if held then a else a + 1
  keys : held = true → ∀ j, j ≤ a → m.keys j = j
  free : ∀ j, 1 ≤ j → j ≤ a → (m.lockers j).state = .free
  busy : ∀ j, a < j → j < maxPktidTx →
    (m.lockers j).state = .busy ∧ (m.lockers j).pkttype = .dataTx ∧ (m.lockers j).pkt.isSome
  top : (m.lockers maxPktidTx).state = if held then .busy else .free

variable {timely held stopped : Bool} {a depleted : Nat} {moves : List Res}

/-- The highest free id is handed out. -/
theorem MidMap.posted (h : MidMap true (a + 1) m) (ha : a + 1 < maxPktidTx) :
    ∃ m₁ m₂, PktIdMap.reserve m (some 0) = (m₁, a + 1) ∧
      PktIdMap.save .none m₁ { blank with pkt := some 0 } (a + 1) = m₂ ∧ MidMap true a m₂ := by
  have havail : m.avail = a + 1 := h.avail
  have hitems := h.items
  unfold maxPktidTx at ha hitems
  refine ⟨{ m with
    avail := a
    lockers := Function.update m.lockers (a + 1)
      { m.lockers (a + 1) with pkt := some 0, len := 0, state := .busy } }, _, ?_, rfl, ?_⟩
  · unfold PktIdMap.reserve
    rw [havail, h.keys rfl (a + 1) (Nat.le_refl _), if_neg (by omega)]
    dsimp only
    rw [if_neg (by omega)]
    rfl
  · unfold PktIdMap.save
    rw [invalidKey_eq_false.mpr ⟨by omega, by show a + 1 ≤ m.items; omega⟩, if_neg (by decide)]
    dsimp only
    rw [Function.update_idem]
    refine ⟨h.items, rfl, fun _ j hj => h.keys rfl j (Nat.le_succ_of_le hj), fun j h1 h2 => ?_,
      fun j h1 h2 => ?_, ?_⟩
    · dsimp only
      rw [Function.update_of_ne (by omega)]
      exact h.free j h1 (Nat.le_succ_of_le h2)
    · dsimp only
      by_cases hj : j = a + 1
      · subst hj
        rw [Function.update_self]
        exact ⟨rfl, rfl, rfl⟩
      · rw [Function.update_of_ne hj]
        exact h.busy j (by omega) h2
    · dsimp only
      rw [Function.update_of_ne (by unfold maxPktidTx; omega)]
      exact h.top

/-- The lowest posted id is freed. -/
theorem MidMap.completed (h : MidMap held a m) (ha : a + 1 < maxPktidTx) :
    ∃ m' pkt out, PktIdMap.free .none m (a + 1) .dataTx false = (m', some pkt, some out) ∧
      MidMap held (a + 1) m' := by
  obtain ⟨hbusy, htype, hsome⟩ := h.busy (a + 1) (Nat.lt_succ_self a) ha
  obtain ⟨pkt, hpkt⟩ := Option.isSome_iff_exists.mp hsome
  have hrej : rejected .none m (a + 1) .dataTx = false := by
    unfold rejected matchesType
    rw [invalidKey_eq_false.mpr ⟨by omega, by rw [h.items]; omega⟩, hbusy, htype]
    rfl
  have hfree : PktIdMap.free .none m (a + 1) .dataTx false = _ := free_of_accepted hrej
  rw [hpkt] at hfree
  refine ⟨_, pkt, _, hfree, h.items, ?_, fun hheld j hj => ?_, fun j h1 h2 => ?_,
    fun j h1 h2 => ?_, ?_⟩
  · dsimp only
    rw [h.avail]
    cases held <;> rfl
  · dsimp only
    rw [if_neg Bool.false_ne_true, h.avail, if_pos hheld, Function.update_apply]
    split
    · next heq => exact heq.symm
    · exact h.keys hheld j (by omega)
  · dsimp only
    rw [Function.update_apply]
    split
    · rfl
    · exact h.free j h1 (by omega)
  · dsimp only
    rw [Function.update_of_ne (by omega)]
    exact h.busy j (by omega) h2
  · dsimp only
    rw [Function.update_of_ne (by omega)]
    exact h.top

/-- The last id comes back. -/
theorem MidMap.rolledBack (h : MidMap true a m) (ha : a < maxPktidTx) :
    MidMap false a (PktIdMap.free .none m maxPktidTx .noCheck false).1 := by
  have hrej : rejected .none m maxPktidTx .noCheck = false := by
    unfold rejected matchesType
    rw [invalidKey_eq_false.mpr ⟨by decide, Nat.le_of_eq h.items.symm⟩, h.top]
    rfl
  rw [free_of_accepted hrej]
  refine ⟨h.items, congrArg (· + 1) h.avail, fun hheld => Bool.noConfusion hheld,
    fun j h1 h2 => ?_, fun j h1 h2 => ?_, ?_⟩
  · dsimp only
    rw [Function.update_of_ne (by omega)]
    exact h.free j h1 h2
  · dsimp only
    rw [Function.update_of_ne (by omega)]
    exact h.busy j h1 h2
  · dsimp only
    rw [Function.update_self]
    rfl

/-- What was done to the queues. -/
def queueMoves (tr : Trace) : List Res := (tr.map Prod.snd).filter (· ≠ .nothing)

theorem stopBalance_eq (tr : Trace) :
    stopBalance tr = (queueMoves tr).foldr (fun res n => moved res + n) 0 := by
  induction tr with
  | nil => rfl
  | cons x tr ih =>
    obtain ⟨ev, res⟩ := x
    unfold stopBalance
    rw [ih]
    cases res with
    | nothing => exact Int.zero_add _
    | stop => rfl
    | start => rfl

/-- A run, in time if `timely`, leads to such a map, with no call in progress but that of the other
transmitter. -/
def Seen (timely held : Bool) (a depleted : Nat) (stopped : Bool) (moves : List Res) : Prop :=
  ∃ s tr, ReachesBy step (fun s e => !timely || inTime s e) (init blank) s tr ∧
    MidMap held a s.prot.pktidTxMap ∧
    s.txs = Function.update (fun _ => .idle) 1 (if held then .holds maxPktidTx 0 else .idle) ∧
    s.cpl = .idle ∧ s.pktidDepletedCnt = depleted ∧ s.prot.noTxResource = stopped ∧
    queueMoves tr = moves

theorem timely_of {ev : Ev} (h : inTime s ev = true) : (!timely || inTime s ev) = true := by
  rw [h, Bool.or_true]

theorem step_txCount {i : Nat} (h : s.txs i = .idle) :
    step s (.txCount i) = some (setTx s i (.counted s.prot.pktidTxMap.avail), .nothing) := by
  dsimp only [step]
  rw [h]

theorem Seen.start : Seen timely true 36863 0 false [] := by
  have h0 := ReachesBy.nil step (fun s e => !timely || inTime s e) (init blank)
  have hrun := ((h0.snoc (e := .txCount 1) (timely_of rfl) rfl).snoc (e := .txCheck 1)
    (timely_of rfl) rfl).snoc (e := .txReserve 1 0) (timely_of rfl) rfl
  refine ⟨_, _, hrun,
    ⟨rfl, rfl, fun _ j _ => rfl, fun j h1 h2 => ?_, fun j h1 h2 => ?_, rfl⟩, ?_, rfl, rfl, rfl, rfl⟩
  · show (Function.update (PktIdMap.init maxPktidTx blank).lockers 36864 _ j).state = .free
    rw [Function.update_of_ne (by omega)]
    exact if_neg (by unfold pktidInvalid; omega)
  · unfold maxPktidTx at h2
    omega
  · show Function.update (Function.update (Function.update (fun _ => Tx.idle) 1 _) 1 _) 1 _ = _
    rw [Function.update_idem, Function.update_idem]
    rfl

/-- A packet is posted. -/
theorem Seen.posted (h : Seen timely true (a + 1) 0 stopped moves) (ha : a + 1 < maxPktidTx) :
    Seen timely true a 0 stopped moves := by
  obtain ⟨s, tr, hr, hmid, htxs, hcpl, hdep, rfl, rfl⟩ := h
  have h0 : s.txs 0 = .idle := by rw [htxs]; rfl
  have havail : s.prot.pktidTxMap.avail = a + 1 := hmid.avail
  obtain ⟨m₁, m₂, hreserve, hsave, hmid₂⟩ := hmid.posted ha
  let s₁ := setTx s 0 (.counted s.prot.pktidTxMap.avail)
  let s₂ := setTx { s₁ with pktidDepletedCnt := 0 } 0 .admitted
  let s₃ := setTx (setMap s₂ m₁) 0 (.holds (a + 1) 0)
  let s₄ := setTx (setMap s₃ m₂) 0 (.saved (a + 1))
  have hcheck : check s₁ 0 s.prot.pktidTxMap.avail = (s₂, .nothing) := by
    unfold check
    rw [if_neg (by omega)]
  have hstep₂ : step s₁ (.txCheck 0) = some (s₂, .nothing) := by
    rw [step_txCheck (setTx_self _ _ _), hcheck]
  have htime₂ : inTime s₁ (.txCheck 0) = true := by
    unfold inTime
    dsimp only
    rw [show s₁.txs 0 = .counted (a + 1) from havail ▸ setTx_self _ _ _]
    simp
  have hstep₃ : step s₂ (.txReserve 0 0) = some (s₃, .nothing) := by
    dsimp only [step]
    rw [show s₂.txs 0 = .admitted from setTx_self _ _ _]
    dsimp only
    unfold txReserve
    rw [show s₂.prot.pktidTxMap = s.prot.pktidTxMap from rfl, hreserve]
    rfl
  have hstep₄ : step s₃ (.txSave 0 .none blank) = some (s₄, .nothing) := by
    dsimp only [step]
    rw [show s₃.txs 0 = .holds (a + 1) 0 from setTx_self _ _ _]
    dsimp only
    rw [show s₃.prot.pktidTxMap = m₁ from rfl, hsave]
  have hstep₅ : step s₄ (.txPost 0) = some (setTx { s₄ with
      prot := { s₄.prot with activeTxCount := s₄.prot.activeTxCount + 1 } } 0 .idle, .nothing) := by
    dsimp only [step]
    rw [show s₄.txs 0 = .saved (a + 1) from setTx_self _ _ _]
  have hrun := ((hr.snoc (timely_of rfl) (step_txCount h0)).snoc (timely_of htime₂) hstep₂).snoc
    (timely_of rfl) hstep₃
  refine ⟨_, _, (hrun.snoc (timely_of rfl) hstep₄).snoc (timely_of rfl) hstep₅, hmid₂, ?_, hcpl,
    rfl, rfl, ?_⟩
  · rw [← htxs]
    simp [s₄, s₃, s₂, s₁, setTx, setMap, ← h0]
  · simp [queueMoves]

/-- A transmitter finds no id. -/
theorem Seen.refused (h : Seen timely true 0 depleted stopped moves) :
    (depleted < 1024 → Seen timely true 0 (depleted + 1) stopped moves) ∧
    (depleted = 1024 → Seen timely true 0 1025 true (moves ++ [.stop])) := by
  obtain ⟨s, tr, hr, hmid, htxs, hcpl, rfl, rfl, rfl⟩ := h
  have h0 : s.txs 0 = .idle := by rw [htxs]; rfl
  have hzero : s.prot.pktidTxMap.avail = 0 := hmid.avail
  let s₁ := setTx s 0 (.counted s.prot.pktidTxMap.avail)
  have htime : inTime s₁ (.txCheck 0) = true := by
    have hdue : restartDue s₁.cpl s₁.prot.pktidTxMap.avail = true :=
      restartDue_iff.mpr (.inl (by rw [show s₁.prot.pktidTxMap.avail = 0 from hzero]; decide))
    unfold inTime
    dsimp only
    rw [hdue, Bool.or_true]
  have hrun := (hr.snoc (timely_of rfl) (step_txCount h0)).snoc (timely_of htime)
    (step_txCheck (setTx_self _ _ _))
  have hdep : s₁.pktidDepletedCnt = s.pktidDepletedCnt := rfl
  have hback : Function.update s₁.txs 0 .idle = s.txs := by simp [s₁, setTx, ← h0]
  constructor
  · intro hlt
    have hcheck : check s₁ 0 s.prot.pktidTxMap.avail =
        (setTx { s₁ with pktidDepletedCnt := s.pktidDepletedCnt + 1 } 0 .idle, .nothing) := by
      unfold check countDepleted
      rw [if_pos hzero, if_neg (by rw [hdep]; unfold TxPost.pktidDepletedMaxCount; omega)]
      dsimp only
      rw [hdep, Nat.mod_eq_of_lt (by omega)]
    rw [hcheck] at hrun
    refine ⟨_, _, hrun, hmid, hback.trans htxs, hcpl, rfl, rfl, ?_⟩
    simp [queueMoves]
  · intro heq
    have hcheck : check s₁ 0 s.prot.pktidTxMap.avail =
        (setTx { stopQueue s₁ with pktidDepletedCnt := 1025 } 0 .idle, .stop) := by
      unfold check countDepleted
      rw [if_pos hzero, if_pos (by rw [hdep, heq]; rfl)]
      dsimp only
      rw [show (stopQueue s₁).pktidDepletedCnt = 1024 from heq]
    rw [hcheck] at hrun
    refine ⟨_, _, hrun, hmid, hback.trans htxs, hcpl, rfl, rfl, ?_⟩
    simp [queueMoves]

/-- The first id that is not free is completed; `512` is the count only if that many are free. -/
theorem Seen.completed (h : Seen timely held a depleted stopped moves) (ha : a + 1 < maxPktidTx) :
    ((if held then a + 1 else a + 2) ≠ 512 → Seen timely held (a + 1) depleted stopped moves) ∧
    ((if held then a + 1 else a + 2) = 512 → (timely = true → stopped = true) →
      Seen timely held (a + 1) depleted false (moves ++ [.start])) := by
  obtain ⟨s, tr, hr, hmid, htxs, hcpl, rfl, rfl, rfl⟩ := h
  obtain ⟨m', pkt, out, hfree, hmid'⟩ := hmid.completed ha
  have hrun := hr.snoc (timely_of rfl) (step_cplFree hcpl .none (a + 1))
  unfold cplFree at hrun
  dsimp only at hrun
  rw [hfree] at hrun
  have hrun := hrun.snoc (timely_of rfl) (step_cplCount rfl)
  have havail : m'.avail = if held then a + 1 else a + 2 := hmid'.avail
  dsimp only [setMap] at hrun
  rw [havail] at hrun
  constructor
  · intro hne
    have hrun := hrun.snoc (timely_of ?_) (step_cplStart rfl)
    · unfold startQueue pktidMinAvailCount at hrun
      rw [if_neg hne] at hrun
      refine ⟨_, _, hrun, hmid', htxs, rfl, rfl, rfl, ?_⟩
      simp [queueMoves]
    · unfold inTime pktidMinAvailCount
      simp [hne]
  · intro heq htimely
    have hrun := hrun.snoc ?_ (step_cplStart rfl)
    · unfold startQueue pktidMinAvailCount at hrun
      rw [if_pos heq] at hrun
      refine ⟨_, _, hrun, hmid', htxs, rfl, rfl, rfl, ?_⟩
      simp [queueMoves]
    · cases timely with
      | false => rfl
      | true =>
        unfold inTime
        rw [show s.prot.noTxResource = true from htimely rfl]
        simp

/-- The other transmitter is rolled back. -/
theorem Seen.rolledBack (h : Seen timely true a depleted stopped moves) (ha : a < maxPktidTx)
    (hstopped : timely = true → stopped = false) :
    Seen timely false a depleted stopped moves := by
  obtain ⟨s, tr, hr, hmid, htxs, hcpl, rfl, rfl, rfl⟩ := h
  have hone : s.txs 1 = .holds maxPktidTx 0 := by
    rw [htxs, Function.update_self]
    rfl
  have hstep : step s (.txRollback 1 .none) = some (txFree s 1 .none maxPktidTx, .nothing) := by
    dsimp only [step]
    rw [hone]
  have htime : (!timely || inTime s (.txRollback 1 .none)) = true := by
    cases timely with
    | false => rfl
    | true =>
      unfold inTime freesInTime
      dsimp only
      rw [hone, hstopped rfl]
      simp
  refine ⟨_, _, hr.snoc htime hstep, hmid.rolledBack ha, ?_, hcpl, rfl, rfl, ?_⟩
  · show Function.update s.txs 1 .idle = _
    rw [htxs, Function.update_idem]
    rfl
  · simp [queueMoves]

/-- When all are completed no call is in progress. -/
theorem Seen.done (h : Seen timely false 36863 depleted stopped moves) :
    ∃ s tr, ReachesBy step (fun s e => !timely || inTime s e) (init blank) s tr ∧ quiescent s ∧
      allFree s ∧ queueMoves tr = moves ∧ s.prot.noTxResource = stopped := by
  obtain ⟨s, tr, hr, hmid, htxs, hcpl, -, hno, hmoves⟩ := h
  refine ⟨s, tr, hr, ⟨fun i => ?_, hcpl⟩, fun k h1 h2 => ?_, hmoves, hno⟩
  · rw [htxs, if_neg Bool.false_ne_true, Function.update_apply]
    split <;> rfl
  · rw [hmid.items] at h2
    by_cases hk : k = maxPktidTx
    · rw [hk]
      exact hmid.top
    · exact hmid.free k h1 (by unfold maxPktidTx at h2 hk; omega)

/-- Packets are posted until `a` ids are left. -/
theorem Seen.posts (a : Nat) (k : Nat) (hk : a + k = 36863) : Seen timely true a 0 false [] := by
  induction k generalizing a with
  | zero =>
    cases hk
    exact Seen.start
  | succ k ih =>
    exact (ih (a + 1) (by omega)).posted (by unfold maxPktidTx; omega)

theorem Seen.refusals (k : Nat) (hk : k ≤ 1024) : Seen timely true 0 k false [] := by
  induction k with
  | zero => exact Seen.posts 0 36863 rfl
  | succ k ih => exact (ih (by omega)).refused.1 hk

theorem Seen.completions (h : Seen timely held a depleted stopped moves) (k : Nat)
    (hk : a + k < maxPktidTx)
    (hpast : ∀ b, a < b → b ≤ a + k → (if held then b else b + 1) ≠ 512) :
    Seen timely held (a + k) depleted stopped moves := by
  induction k with
  | zero => exact h
  | succ k ih =>
    have hprev := ih (by omega) fun b h1 h2 => hpast b h1 (by omega)
    exact (hprev.completed (by omega)).1 (hpast (a + k + 1) (by omega) (Nat.le_refl _))

/-! ## Top theorem -/

theorem inv_start (uninit : Contents) : Inv (init uninit) [] where
  map := mapOk_init uninit
  due := fun hstop => Bool.noConfusion hstop
  counted := ⟨rfl, fun hstop => Bool.noConfusion hstop, Int.le_refl 0⟩

/-- **Transmission is restarted in time**: when every stop, rollback and restart of a run is in
time, the queues are not left stopped with all ids free, and the stop counter is not negative. -/
theorem restarts_in_time (uninit : Contents) (es : List Ev) (s : Sys) (tr : Trace)
    (hok : meets step inTime (init uninit) es = true)
    (hr : runs step (init uninit) es = some (s, tr)) :
    (quiescent s → allFree s → s.prot.noTxResource = false) ∧ 0 ≤ stopBalance tr := by
  have h := runs_inv_of_meets step inTime Inv step_inv (init uninit) s es tr (inv_start uninit)
    hok hr
  refine ⟨fun hquiet hall => ?_, h.counted.nonneg⟩
  by_contra hstop
  have hle : 36864 ≤ s.prot.pktidTxMap.avail := h.map.le_avail hall
  have hdue := restartDue_iff.mp (h.due (by simpa using hstop))
  rw [hquiet.2] at hdue
  have hlt : s.prot.pktidTxMap.avail < 512 := by simpa using hdue
  omega

/-- With no id left the queues are stopped, and the completion that counts 512 starts them; a call
that is rolled back later does no harm. -/
theorem restarts_in_time_once :
    ∃ es s tr, runs step (init blank) es = some (s, tr) ∧ queueMoves tr = [.stop, .start] ∧
      quiescent s ∧ allFree s ∧ s.prot.noTxResource = false ∧ 0 ≤ stopBalance tr := by
  have hstop : Seen true true 0 1025 true [.stop] :=
    (Seen.refusals 1024 (Nat.le_refl _)).refused.2 rfl
  have hbefore : Seen true true 511 1025 true [.stop] := hstop.completions 511 (by decide) (by
    intro b h1 h2
    rw [if_pos rfl]
    omega)
  have hstart : Seen true true 512 1025 false [.stop, .start] :=
    (hbefore.completed (by decide)).2 rfl fun _ => rfl
  have hmost : Seen true true 36863 1025 false [.stop, .start] :=
    hstart.completions 36351 (by decide) (by
      intro b h1 h2
      rw [if_pos rfl]
      omega)
  obtain ⟨s, tr, ⟨es, hr, hm⟩, hquiet, hall, hmoves, -⟩ :=
    (hmost.rolledBack (by decide) fun _ => rfl).done
  obtain ⟨hrestarted, hbal⟩ := restarts_in_time blank es s tr hm hr
  exact ⟨es, s, tr, hr, hmoves, hquiet, hall, hrestarted hquiet hall, hbal⟩

/-- The call that is rolled back frees the 512th id and no completion counts 512; and without
a stop, a completion that counts 512 makes the stop counter negative. -/
theorem restarts_in_time_fails :
    ¬ (∀ uninit es s tr, runs step (init uninit) es = some (s, tr) → quiescent s → allFree s →
      s.prot.noTxResource = false) ∧
    ¬ (∀ uninit es s tr, runs step (init uninit) es = some (s, tr) → 0 ≤ stopBalance tr) := by
  constructor
  · intro h
    have hstop : Seen false true 0 1025 true [.stop] :=
      (Seen.refusals 1024 (Nat.le_refl _)).refused.2 rfl
    have hbefore : Seen false true 511 1025 true [.stop] := hstop.completions 511 (by decide) (by
      intro b h1 h2
      rw [if_pos rfl]
      omega)
    have hrolled := hbefore.rolledBack (by decide) nofun
    have hall : Seen false false 36863 1025 true [.stop] :=
      hrolled.completions 36352 (by decide) (by
        intro b h1 h2
        rw [if_neg Bool.false_ne_true]
        omega)
    obtain ⟨s, tr, ⟨es, hr, -⟩, hquiet, hfree, -, hno⟩ := hall.done
    exact Bool.noConfusion (hno.symm.trans (h blank es s tr hr hquiet hfree))
  · intro h
    have hstart : Seen false true 512 0 false [.start] :=
      ((Seen.posts 511 36352 rfl).completed (by decide)).2 rfl nofun
    obtain ⟨s, tr, ⟨es, hr, -⟩, -, -, -, -, -, hmoves⟩ := hstart
    have hpos := h blank es s tr hr
    rw [stopBalance_eq, hmoves] at hpos
    exact absurd hpos (by decide)

end Bcmdhd.TxStop
