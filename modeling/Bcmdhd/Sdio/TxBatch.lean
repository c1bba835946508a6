import Bcmdhd.Sdio.TxFrame
import Mathlib.Data.List.Nodup

/-!
# Batches of the SDIO bus (`dhdsdio_txpkt`)

`dhdsdio_txpkt` prepares the packets of a batch (`TxFrame` has the frames), chains them, sends the
chain, and then completes each packet: one of WLFC goes to `dhd_wlfc_txcomplete`, any other one to
`dhd_txcomplete` and is freed.  Its callers are `dhdsdio_sendfromq`, `dhd_bus_txdata` and
`dhdsdio_testrcv`.

    Completes env b (run env b)  ↔  Smooth env b                              (txbatch_iff)

`Completes`: each packet is completed and released once, with its true outcome.  `Smooth`: the batch
gets as far as the write, WLFC takes all its packets, and no test frame fails.  A packet that WLFC
does not take is always completed with the wrong status.
-/

namespace Bcmdhd.Sdio.TxBatch

open TxFrame

/-! ## Algorithm -/

def BCME_BADARG : Int := -2
def BCME_NOTREADY : Int := -25
def TXGLOM_RECV_OFFSET : Int := 8

/-- The bus of `TxFrame`, with `pad_pkt` and the settings of BCMSDIOH_TXGLOM_EXT. -/
structure Bus extends TxFrame.Bus where
  padPkt : Bool
  txglomExt : Bool
  txglomBucketSize : Int

/-- What `dhdsdio_txpkt` sees of a packet that was prepared. -/
structure Prepared where
  ret : Int
  padPktLen : Nat
  newPkt : Bool
  deriving DecidableEq

/-- The padding in the packet, and what the padding packet takes over; `none` is `alloc_new_pkt`. -/
def placePadding (bus : Bus) (p : Skb) (prev : Nat) (last : Bool) : Option (Padding × Nat) :=
  let headPadding := p.data % DHD_SDALIGN
  let tailPadding := sdTailPadding p
  let chainTailPadding := bus.chainTailPadding prev (chainLen p prev) last
  if bus.padPkt ∧ headPadding ≤ p.headroom ∧ tailPadding ≤ p.tailroom ∧
      p.tailroom < tailPadding + chainTailPadding then
    some (⟨headPadding, tailPadding⟩, chainTailPadding)
  else (inPlace bus.toBus p prev last).map fun pad => (pad, 0)

/-- The `pkt_len` that is returned. -/
def sentLen (bus : Bus) (pktLen tailPadding : Nat) (first last : Bool) : Int :=
  if bus.txglomEnable ∧ bus.txglomExt ∧ ¬ last then
    -- pad to bucket size, for the first pkt less the recv offset
    if first then bus.txglomBucketSize - TXGLOM_RECV_OFFSET else bus.txglomBucketSize
  else if bus.txglomBucketSize ≠ 0 then ((pktLen % 0x10000 : Nat) : Int)
  else ((pktLen % 0x10000 + tailPadding : Nat) : Int)

/-- The lengths of `dhdsdio_txpkt_preprocess`. -/
def preprocess (bus : Bus) (pktget : Nat → Option Skb) (pkt : Skb) (prev : Nat)
    (first last : Bool) : Prepared :=
  let pkt := pkt.push bus.sdpcmHdrlen
  match placePadding bus pkt prev last with
  | some (pad, padPktLen) =>
    ⟨sentLen bus (pkt.push pad.head).len pad.tail first last, padPktLen, false⟩
  | none =>
    if (pktget (pkt.len + bus.blocksize + DHD_SDALIGN)).isSome then
      ⟨sentLen bus pkt.len (copyPadding bus.toBus pkt prev last).tail first last, 0, true⟩
    else ⟨BCME_NOMEM, 0, false⟩

structure Pkt where
  skb : Skb
  /-- `DHD_PKTTAG_WLFCPKT` -/
  wlfcPkt : Bool

/-- What happens to a packet. -/
inductive Event
  | txcomplete (success : Bool)
  /-- the packet is WLFC's from there on -/
  | wlfcTxcomplete (success : Bool)
  | pktfree
  deriving DecidableEq

/-- What a call meets; packets of a batch are numbered. -/
structure Env where
  bus : Bus
  dongleReset : Bool
  txSeq : BitVec 8
  /-- `data_drop_mode` is `TXPKT_DROP`, in a build with `TPUT_MONITOR` -/
  txpktDrop : Bool
  /-- `dhd_wlfc_txcomplete` does not return `WLFC_UNSUPPORTED` -/
  wlfcOn : Nat → Bool
  /-- the `PKTGET` for a copy of a packet -/
  pktget : Nat → Nat → Option Skb
  /-- what `dhd_bcmsdh_send_buf` returns -/
  sent : Int

/-- The loop that builds the chain: whether it got to its end, the lengths so far, the copies in
`new_pkts`, and those that were freed at once. -/
structure Chain where
  built : Bool
  totalLen : Nat
  padPktLen : Nat
  newPkts : List Nat
  tossed : List Nat

/-- All copies that were made. -/
def Chain.copies (c : Chain) : List Nat := c.newPkts ++ c.tossed

def copyOf (i : Nat) (newPkt : Bool) : List Nat := if newPkt then [i] else []

def buildChain (env : Env) : Nat → Nat → List Pkt → Chain
  | _, totalLen, [] => ⟨true, totalLen, 0, [], []⟩
  | i, totalLen, p :: ps =>
    let r := preprocess env.bus (env.pktget i) p.skb totalLen (i = 0) ps.isEmpty
    if r.ret ≤ 0 then ⟨false, totalLen, r.padPktLen, [], copyOf i r.newPkt⟩
    else
      let rest := buildChain env (i + 1) (totalLen + r.ret.toNat) ps
      -- only the last packet asks for the padding packet
      { rest with padPktLen := r.padPktLen + rest.padPktLen
                  newPkts := copyOf i r.newPkt ++ rest.newPkts }

/-- What a call leaves: the events of each packet, the copies, and whether the chain was taken by
the bus. -/
structure Outcome where
  ret : Int
  txSeq : BitVec 8
  pkts : List (List Event)
  allocated : List Nat
  freed : List Nat
  /-- the write returns 0: for a chain in copy mode (`SDPCM_TXGLOM_CPY`) also after an error of the
  host, which `sdioh_request_packet_chain` does not report -/
  onBus : Bool

/-- `data_drop_mode` takes the place of the write. -/
def drops (env : Env) (c : Chain) : Bool :=
  env.txpktDrop ∧ 500 < c.totalLen + if env.bus.txglomEnable then c.padPktLen else 0

/-- `ret` is still 0 where a packet could not be prepared. -/
def sendChain (env : Env) (c : Chain) : Int := if c.built ∧ ¬ drops env c then env.sent else 0

/-- We still have to indicate the original packets to upper layer. -/
def complete (env : Env) (ret : Int) (freePkt : Bool) (i : Nat) (p : Pkt) : List Event :=
  if p.wlfcPkt ∧ env.wlfcOn i then [.wlfcTxcomplete (ret = 0)]
  else .txcomplete (ret ≠ 0) :: if freePkt then [.pktfree] else []

def dhdsdioTxpkt (env : Env) (pkts : List Pkt) (freePkt : Bool) : Outcome :=
  if env.dongleReset then ⟨BCME_NOTREADY, env.txSeq, pkts.map fun _ => [], [], [], false⟩
  else if pkts.length = 0 then ⟨BCME_BADARG, env.txSeq, [], [], [], false⟩
  else
    let c := buildChain env 0 0 pkts
    let ret := sendChain env c
    { ret := ret
      txSeq :=
        if c.built ∧ ret = 0 then env.txSeq + BitVec.ofNat 8 pkts.length else env.txSeq
      pkts := pkts.mapIdx (complete env ret freePkt)
      allocated := c.copies
      freed := c.tossed ++ c.newPkts
      onBus := c.built ∧ ¬ drops env c ∧ env.sent = 0 }

/-- A batch, with its caller.  `dhdsdio_sendfromq` stops without a packet. -/
inductive Batch
  | sendfromq (pkts : List Pkt) (h : pkts ≠ [])
  | txdata (p : Pkt)
  | testrcv (p : Pkt)

def Batch.pkts : Batch → List Pkt
  | .sendfromq pkts _ => pkts
  | .txdata p => [p]
  | .testrcv p => [p]

def Batch.isTest : Batch → Bool
  | .testrcv _ => true
  | _ => false

/-- The packets, when the caller is done: `dhdsdio_testrcv` frees the one that was not sent. -/
def run (env : Env) (b : Batch) : Outcome :=
  let o := dhdsdioTxpkt env b.pkts true
  if b.isTest ∧ o.ret ≠ 0 then { o with pkts := o.pkts.map (· ++ [.pktfree]) } else o

/-! ## Specification -/

/-- The status of a completion. -/
def Event.status : Event → Option Bool
  | .txcomplete success => some success
  | .wlfcTxcomplete success => some success
  | .pktfree => none

/-- The packet is freed, or becomes WLFC's. -/
def Event.releases : Event → Bool
  | .txcomplete _ => false
  | _ => true

structure Completes (env : Env) (b : Batch) (o : Outcome) : Prop where
  all : o.pkts.length = b.pkts.length
  completed : ∀ es ∈ o.pkts, es.filterMap Event.status = [o.onBus]
  released : ∀ es ∈ o.pkts, es.countP Event.releases = 1
  returned : o.ret = 0 ↔ o.onBus = true
  sequence : o.txSeq =
    if o.onBus then env.txSeq + BitVec.ofNat 8 b.pkts.length else env.txSeq
  copies : o.freed.Perm o.allocated ∧ o.allocated.Nodup

/-- The chain of a batch. -/
def chainOf (env : Env) (b : Batch) : Chain := buildChain env 0 0 b.pkts

structure Smooth (env : Env) (b : Batch) : Prop where
  ready : env.dongleReset = false
  /-- each packet is prepared: there is room for its padding, or for a copy -/
  built : (chainOf env b).built = true
  written : drops env (chainOf env b) = false
  wlfc : ∀ i p, b.pkts[i]? = some p → p.wlfcPkt = true ∧ env.wlfcOn i = true
  test : b.isTest = true → env.sent = 0

/-! ## The chain -/

section
variable {env : Env} {b : Batch} {i k : Nat} {pkts : List Pkt} {ret : Int} {p : Pkt}

/-- Without a padding packet and the extension, the lengths are those of the frames. -/
theorem preprocess_eq {bus : Bus} (hpad : bus.padPkt = false) (hext : bus.txglomExt = false)
    (hbucket : bus.txglomBucketSize = 0) (pktget : Nat → Option Skb) (pkt : Skb)
    (chan txseq prev : Nat) (first last : Bool) :
    preprocess bus pktget pkt prev first last =
      ⟨(dhdsdioTxpktPreprocess bus.toBus pktget pkt chan txseq prev last).ret, 0,
        (dhdsdioTxpktPreprocess bus.toBus pktget pkt chan txseq prev last).newPkt.isSome⟩ := by
  have hlen : ∀ n tail, sentLen bus n tail first last = ((n % 0x10000 + tail : Nat) : Int) := by
    intro n tail
    unfold sentLen
    rw [if_neg (fun h => by rw [hext] at h; cases h.2.1), if_neg (fun h => h hbucket)]
  have hplace : placePadding bus (pkt.push bus.sdpcmHdrlen) prev last =
      (inPlace bus.toBus (pkt.push bus.sdpcmHdrlen) prev last).map fun pad => (pad, 0) := by
    unfold placePadding
    exact if_neg fun h => by rw [hpad] at h; cases h.1
  unfold preprocess dhdsdioTxpktPreprocess
  dsimp only
  rw [hplace]
  cases inPlace bus.toBus (pkt.push bus.sdpcmHdrlen) prev last with
  | some pad =>
    obtain ⟨-, -, -, hl⟩ := @writeHeader_place bus.toBus ((pkt.push bus.sdpcmHdrlen).push pad.head)
      chan txseq pad last
    dsimp only [Option.map_some]
    rw [hlen, hl]
    rfl
  | none =>
    dsimp only [Option.map_none]
    cases pktget ((pkt.push bus.sdpcmHdrlen).len + bus.blocksize + DHD_SDALIGN) with
    | none => rfl
    | some tmp =>
      dsimp only
      rw [if_pos Option.isSome_some, hlen, writeHeader_place.2.2.2]
      rfl

theorem mem_copyOf {newPkt : Bool} (h : k ∈ copyOf i newPkt) : k = i := by
  unfold copyOf at h
  split at h
  · exact List.mem_singleton.mp h
  · cases h

theorem nodup_copyOf (i : Nat) (newPkt : Bool) : (copyOf i newPkt).Nodup := by
  unfold copyOf
  split
  · exact List.nodup_singleton i
  · exact List.nodup_nil

/-- Each packet is copied once at most: the copies have numbers from `i` on, and all different. -/
theorem buildChain_copies (env : Env) (pkts : List Pkt) (i totalLen : Nat) :
    (∀ k ∈ (buildChain env i totalLen pkts).copies, i ≤ k) ∧
      (buildChain env i totalLen pkts).copies.Nodup := by
  induction pkts generalizing i totalLen with
  | nil => exact ⟨fun k h => (by cases h), List.nodup_nil⟩
  | cons p ps ih =>
    unfold buildChain
    dsimp only
    split
    · exact ⟨fun k h => Nat.le_of_eq (mem_copyOf h).symm, nodup_copyOf i _⟩
    · next hret =>
      obtain ⟨hle, hnodup⟩ := ih (i + 1)
        (totalLen + (preprocess env.bus (env.pktget i) p.skb totalLen (i = 0) ps.isEmpty).ret.toNat)
      unfold Chain.copies at hle hnodup ⊢
      rw [List.append_assoc]
      constructor
      · intro k h
        rcases List.mem_append.mp h with h | h
        · exact Nat.le_of_eq (mem_copyOf h).symm
        · exact Nat.le_of_succ_le (hle k h)
      · refine List.nodup_append.mpr ⟨nodup_copyOf i _, hnodup, fun k hk l hl hkl => ?_⟩
        have hge := hle l hl
        have heq := mem_copyOf hk
        omega

/-- The copies of a call are freed, each of them once. -/
theorem txpkt_copies (env : Env) (pkts : List Pkt) (freePkt : Bool) :
    (dhdsdioTxpkt env pkts freePkt).freed.Perm (dhdsdioTxpkt env pkts freePkt).allocated ∧
      (dhdsdioTxpkt env pkts freePkt).allocated.Nodup := by
  unfold dhdsdioTxpkt
  split
  · exact ⟨List.Perm.nil, List.nodup_nil⟩
  · split
    · exact ⟨List.Perm.nil, List.nodup_nil⟩
    · exact ⟨List.perm_append_comm, (buildChain_copies env pkts 0 0).2⟩

/-! ## Completions -/

theorem pkts_ne_nil (b : Batch) : b.pkts ≠ [] := by
  cases b with
  | sendfromq pkts h => exact h
  | txdata p => exact List.cons_ne_nil _ _
  | testrcv p => exact List.cons_ne_nil _ _

theorem complete_wlfc (hw : p.wlfcPkt = true) (hon : env.wlfcOn i = true) :
    complete env ret true i p = [.wlfcTxcomplete (ret = 0)] := if_pos ⟨hw, hon⟩

theorem complete_other (h : ¬ (p.wlfcPkt = true ∧ env.wlfcOn i = true)) :
    complete env ret true i p = [.txcomplete (ret ≠ 0), .pktfree] := if_neg h

/-- Past the first checks of `dhdsdio_txpkt`. -/
theorem txpkt_of_ready (hr : env.dongleReset = false) (b : Batch) :
    dhdsdioTxpkt env b.pkts true =
      { ret := sendChain env (chainOf env b)
        txSeq :=
          if (chainOf env b).built ∧ sendChain env (chainOf env b) = 0 then
            env.txSeq + BitVec.ofNat 8 b.pkts.length
          else env.txSeq
        pkts := b.pkts.mapIdx (complete env (sendChain env (chainOf env b)) true)
        allocated := (chainOf env b).copies
        freed := (chainOf env b).tossed ++ (chainOf env b).newPkts
        onBus := (chainOf env b).built ∧ ¬ drops env (chainOf env b) ∧ env.sent = 0 } := by
  have hlen : b.pkts.length ≠ 0 := fun h => pkts_ne_nil b (List.length_eq_zero_iff.mp h)
  unfold dhdsdioTxpkt
  rw [hr, if_neg Bool.false_ne_true, if_neg hlen]
  rfl

/-- The caller changes the packets only. -/
theorem run_same (env : Env) (b : Batch) :
    (run env b).ret = (dhdsdioTxpkt env b.pkts true).ret ∧
      (run env b).txSeq = (dhdsdioTxpkt env b.pkts true).txSeq ∧
      (run env b).onBus = (dhdsdioTxpkt env b.pkts true).onBus := by
  unfold run
  dsimp only
  split
  · exact ⟨rfl, rfl, rfl⟩
  · exact ⟨rfl, rfl, rfl⟩

theorem mem_completed {env : Env} {b : Batch} {ret : Int} {es : List Event}
    (h : es ∈ b.pkts.mapIdx (complete env ret true)) :
    ∃ i p, b.pkts[i]? = some p ∧ es = complete env ret true i p := by
  obtain ⟨i, hi, rfl⟩ := List.mem_mapIdx.mp h
  exact ⟨i, _, List.getElem?_eq_getElem hi, rfl⟩

theorem completed_mem {env : Env} {b : Batch} {ret : Int} (h : b.pkts[i]? = some p) :
    complete env ret true i p ∈ b.pkts.mapIdx (complete env ret true) := by
  obtain ⟨hi, rfl⟩ := List.getElem?_eq_some_iff.mp h
  exact List.mem_mapIdx.mpr ⟨i, hi, rfl⟩

/-- A batch that WLFC takes is completed as it was sent. -/
theorem Smooth.completes (h : Smooth env b) : Completes env b (run env b) := by
  have hret : sendChain env (chainOf env b) = env.sent := by
    unfold sendChain
    rw [h.built, h.written]
    rfl
  have honBus : (dhdsdioTxpkt env b.pkts true).onBus = decide (env.sent = 0) := by
    rw [txpkt_of_ready h.ready, h.built, h.written]
    simp
  have hrun : run env b = dhdsdioTxpkt env b.pkts true := by
    unfold run
    dsimp only
    refine if_neg fun ht => ht.2 ?_
    rw [txpkt_of_ready h.ready]
    exact hret.trans (h.test ht.1)
  have hevents : ∀ es ∈ (dhdsdioTxpkt env b.pkts true).pkts,
      es = [.wlfcTxcomplete (env.sent = 0)] := by
    intro es hes
    rw [txpkt_of_ready h.ready] at hes
    obtain ⟨i, p, hp, rfl⟩ := mem_completed hes
    obtain ⟨hw, hon⟩ := h.wlfc i p hp
    rw [complete_wlfc hw hon, hret]
  rw [hrun]
  refine ⟨?_, ?_, ?_, ?_, ?_, txpkt_copies env b.pkts true⟩
  · rw [txpkt_of_ready h.ready]
    exact List.length_mapIdx
  · intro es hes
    rw [hevents es hes, honBus]
    rfl
  · intro es hes
    rw [hevents es hes]
    rfl
  · rw [honBus, decide_eq_true_iff, txpkt_of_ready h.ready]
    exact iff_of_eq (congrArg (· = 0) hret)
  · rw [honBus, txpkt_of_ready h.ready]
    dsimp only
    rw [hret, h.built]
    simp

/-- What the caller adds is no completion. -/
theorem mem_run {es : List Event} (h : es ∈ (dhdsdioTxpkt env b.pkts true).pkts) :
    ∃ es' ∈ (run env b).pkts, es'.filterMap Event.status = es.filterMap Event.status := by
  unfold run
  dsimp only
  split
  · refine ⟨es ++ [.pktfree], List.mem_map_of_mem h, ?_⟩
    rw [List.filterMap_append]
    exact List.append_nil _
  · exact ⟨es, h, rfl⟩

/-- In reset nothing is completed. -/
theorem Completes.ready (h : Completes env b (run env b)) : env.dongleReset = false := by
  by_contra hne
  have hreset : env.dongleReset = true := (Bool.not_eq_false _).mp hne
  obtain ⟨p, ps, hps⟩ := List.exists_cons_of_ne_nil (pkts_ne_nil b)
  have hmem : [] ∈ (dhdsdioTxpkt env b.pkts true).pkts := by
    unfold dhdsdioTxpkt
    rw [if_pos hreset, hps]
    exact List.mem_cons_self
  obtain ⟨es, hes, hstatus⟩ := mem_run hmem
  have hone := h.completed es hes
  rw [hstatus] at hone
  cases hone

/-- Where the write does not take place, 0 is returned all the same. -/
theorem Completes.written (h : Completes env b (run env b)) :
    (chainOf env b).built = true ∧ drops env (chainOf env b) = false := by
  obtain ⟨hret, -, hon⟩ := run_same env b
  have hiff := h.returned
  rw [hret, hon, txpkt_of_ready h.ready] at hiff
  dsimp only at hiff
  rw [decide_eq_true_iff] at hiff
  by_cases hw : (chainOf env b).built = true ∧ ¬ drops env (chainOf env b) = true
  · exact ⟨hw.1, (Bool.not_eq_true _).mp hw.2⟩
  · have hzero : sendChain env (chainOf env b) = 0 := if_neg hw
    obtain ⟨hb, hd, -⟩ := hiff.mp hzero
    exact absurd ⟨hb, hd⟩ hw

/-- A packet of `dhd_txcomplete` gets the wrong status. -/
theorem Completes.wlfc (h : Completes env b (run env b)) {i : Nat} {p : Pkt}
    (hp : b.pkts[i]? = some p) : p.wlfcPkt = true ∧ env.wlfcOn i = true := by
  by_contra hne
  obtain ⟨hret, -, -⟩ := run_same env b
  have hmem : [.txcomplete (sendChain env (chainOf env b) ≠ 0), .pktfree] ∈
      (dhdsdioTxpkt env b.pkts true).pkts := by
    rw [txpkt_of_ready h.ready, ← complete_other hne]
    exact completed_mem hp
  obtain ⟨es, hes, hstatus⟩ := mem_run hmem
  have hone := h.completed es hes
  rw [hstatus] at hone
  have hflag : decide (sendChain env (chainOf env b) ≠ 0) = (run env b).onBus :=
    (List.cons.inj hone).1
  have hiff := h.returned
  rw [hret, txpkt_of_ready h.ready, ← hflag, decide_eq_true_iff] at hiff
  exact iff_not_self hiff

/-- A test frame that was not sent is released twice. -/
theorem Completes.test (h : Completes env b (run env b)) (ht : b.isTest = true) : env.sent = 0 := by
  by_contra hne
  have hret : (dhdsdioTxpkt env b.pkts true).ret ≠ 0 := by
    rw [txpkt_of_ready h.ready]
    dsimp only
    unfold sendChain
    rw [h.written.1, h.written.2]
    exact hne
  have hrun : (run env b).pkts =
      (dhdsdioTxpkt env b.pkts true).pkts.map (· ++ [.pktfree]) := by
    unfold run
    dsimp only
    rw [if_pos ⟨ht, hret⟩]
  obtain ⟨p, ps, hps⟩ := List.exists_cons_of_ne_nil (pkts_ne_nil b)
  have hp : b.pkts[0]? = some p := by
    rw [hps]
    rfl
  obtain ⟨hw, hon⟩ := h.wlfc hp
  have hmem : [.wlfcTxcomplete (sendChain env (chainOf env b) = 0), .pktfree] ∈
      (run env b).pkts := by
    rw [hrun, txpkt_of_ready h.ready]
    refine List.mem_map.mpr ⟨_, completed_mem hp, ?_⟩
    rw [complete_wlfc hw hon]
    rfl
  have htwo : 2 = 1 := h.released _ hmem
  omega

end

/-! ## Top theorem -/

/-- **Batches.**  The packets of a batch are completed and released once, with their true outcome,
just if nothing keeps the batch from the write and WLFC takes every packet. -/
theorem txbatch_iff (env : Env) (b : Batch) : Completes env b (run env b) ↔ Smooth env b := by
  constructor
  · intro h
    exact ⟨h.ready, h.written.1, h.written.2, fun i p hp => h.wlfc hp, h.test⟩
  · exact Smooth.completes

def plainEnv (sent : Int) : Env where
  bus := { aBus with padPkt := false, txglomExt := false, txglomBucketSize := 0 }
  dongleReset := false
  txSeq := 7
  txpktDrop := false
  wlfcOn := fun _ => true
  pktget := fun _ _ => none
  sent := sent

def wlfcBatch : Batch := .txdata ⟨aPacket 192, true⟩

theorem txbatch_sent : Completes (plainEnv 0) wlfcBatch (run (plainEnv 0) wlfcBatch) := by
  refine (txbatch_iff (plainEnv 0) wlfcBatch).mpr
    ⟨rfl, rfl, rfl, fun i p hp => ?_, fun h => by cases h⟩
  obtain rfl : p = ⟨aPacket 192, true⟩ := List.mem_singleton.mp (List.mem_of_getElem? hp)
  exact ⟨rfl, rfl⟩

def plainBatch (len : Nat) : Batch := .txdata ⟨aPacket len, false⟩

def echo : Batch := .testrcv ⟨aPacket 192, false⟩

/-- A frame that is not of WLFC is sent, and completed as failed; one that is neither sent nor
copied is reported as sent; a test frame that was not sent is freed twice. -/
theorem txbatch_fails :
    ((run (plainEnv 0) (plainBatch 192)).onBus = true ∧
      (run (plainEnv 0) (plainBatch 192)).pkts = [[.txcomplete false, .pktfree]] ∧
      ¬ Completes (plainEnv 0) (plainBatch 192) (run (plainEnv 0) (plainBatch 192))) ∧
    ((run (plainEnv 0) (plainBatch 176)).onBus = false ∧
      (run (plainEnv 0) (plainBatch 176)).ret = 0) ∧
    (run (plainEnv (-1)) echo).pkts = [[.txcomplete true, .pktfree, .pktfree]] := by
  refine ⟨⟨rfl, rfl, fun h => ?_⟩, ⟨rfl, rfl⟩, rfl⟩
  exact absurd (h.completed _ (List.mem_singleton.mpr rfl)) (by decide)

end Bcmdhd.Sdio.TxBatch
