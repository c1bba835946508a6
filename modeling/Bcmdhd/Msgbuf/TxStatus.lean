import Bcmdhd.Msgbuf.PktIdMap
import Bcmdhd.Lib.RingIndex
import Bcmdhd.Lib.Slots

/-!
# Transmit completions and the fast flow-ring delete (`dhd_msgbuf.c`)

`dhd_prot_txstatus_process` gives the packet of a completed item back.  When a flow ring is
deleted, `dhd_prot_flow_ring_fastdelete` does this for the items the dongle did not fetch:
from the write index it walks backwards to the read index `rd_idx` that the dongle reports,
any 16-bit value.

    the walk ends, and with a read index of the ring it completes the slots from `rd_idx` to
      `wr`, each once, and releases their packet ids  ↔  rd_idx < max_items
                                                                    (fastdelete_exact_iff)
-/

namespace Bcmdhd.TxStatus

open PktIdMap RingIndex Slots

/-! ## Algorithm -/

/-- The fields of `dhd_prot_t` that a completion changes. -/
structure Prot where
  pktidTxMap : PktidMap
  activeTxCount : Int
  pktidTxqStopCnt : Nat
  noTxResource : Bool
  /-- the network queues are stopped (`dhd_txflowcontrol`) -/
  txOff : Bool

/-- `DHD_PKTID_MIN_AVAIL_COUNT` -/
def pktidMinAvailCount : Nat := 512

/-- `dhd_bus_start_queue` -/
def busStartQueue (prot : Prot) : Prot :=
  if prot.noTxResource then prot else { prot with txOff := false }

/-- The queue is started when the map has just the minimum of free ids again; the counter is a
`uint8`. -/
def startTxq (prot : Prot) : Prot :=
  if prot.pktidTxMap.avail = pktidMinAvailCount then
    busStartQueue
      { prot with pktidTxqStopCnt := (prot.pktidTxqStopCnt + 0xff) % 0x100, noTxResource := false }
  else prot

/-- `dhd_prot_txstatus_process`.  The result is the packet that is unmapped, reported and freed,
with what its locker held. -/
def txstatusProcess (induce : InduceError) (prot : Prot) (requestId : Nat) :
    Prot × Option (Nat × Retrieved) :=
  let prot := { prot with activeTxCount := prot.activeTxCount - 1 }
  match PktIdMap.free induce prot.pktidTxMap requestId .dataTx false with
  | (m, some pkt, some out) => (startTxq { prot with pktidTxMap := m }, some (pkt, out))
  -- received txstatus with NULL pkt
  | (m, _, _) => ({ prot with pktidTxMap := m }, none)

/-- A flow ring; `requestId i` is `cmn_hdr.request_id` of the item in slot `i`. -/
structure FlowRing where
  maxItems : Nat
  wr : Nat
  requestId : Nat → Nat
  wr_lt : wr < maxItems

/-- One completion: the slot and what was released. -/
abbrev Call := Nat × Option (Nat × Retrieved)

/-- The loop of `dhd_prot_flow_ring_fastdelete` at `wr_idx`, for `fuel` rounds. -/
def fastdelete (induce : InduceError) (ring : FlowRing) (rdIdx : Nat) :
    Nat → Nat → Prot → Option (Prot × List Call)
  | 0, wrIdx, prot => if wrIdx = rdIdx then some (prot, []) else none
  | fuel + 1, wrIdx, prot =>
    if wrIdx = rdIdx then some (prot, [])
    else
      let wrIdx := if wrIdx ≠ 0 then wrIdx - 1 else ring.maxItems - 1
      let (prot, released) := txstatusProcess induce prot (ring.requestId wrIdx)
      (fastdelete induce ring rdIdx fuel wrIdx prot).map fun (prot, calls) =>
        (prot, (wrIdx, released) :: calls)

/-! ## What the delete should do -/

/-- The slots that the dongle did not fetch. -/
def unfetched (ring : FlowRing) (rdIdx : Nat) : List Nat :=
  circ ring.maxItems rdIdx (dist ring.maxItems rdIdx ring.wr)

/-- What a completion of the id releases. -/
def delivered (m : PktidMap) (nkey : Nat) : Option (Nat × Retrieved) :=
  (m.lockers nkey).pkt.map fun pkt => (pkt, retrieve (m.lockers nkey).toContents)

/-- The slots hold different ids, each with a packet posted for transmission. -/
structure Posted (induce : InduceError) (ring : FlowRing) (m : PktidMap) (slots : List Nat) :
    Prop where
  distinct : (slots.map ring.requestId).Nodup
  accepted : ∀ i ∈ slots, rejected induce m (ring.requestId i) .dataTx = false
  packet : ∀ i ∈ slots, (m.lockers (ring.requestId i)).pkt.isSome

/-- The walk completes each unfetched slot once, and no other; posted ids are released, each
with its packet, and the lockers of other ids stay as they were. -/
def completes (induce : InduceError) (ring : FlowRing) (rdIdx : Nat) (prot : Prot) : Prop :=
  ∃ fuel prot' calls, fastdelete induce ring rdIdx fuel ring.wr prot = some (prot', calls) ∧
    (rdIdx < ring.maxItems →
      calls.map Prod.fst = (unfetched ring rdIdx).reverse ∧
      (calls.map Prod.fst).Nodup ∧
      (Posted induce ring prot.pktidTxMap (unfetched ring rdIdx) →
        (∀ c ∈ calls, c.2.isSome ∧ c.2 = delivered prot.pktidTxMap (ring.requestId c.1)) ∧
        (∀ i ∈ unfetched ring rdIdx,
          (prot'.pktidTxMap.lockers (ring.requestId i)).state = .free) ∧
        ∀ k, k ∉ (unfetched ring rdIdx).map ring.requestId →
          prot'.pktidTxMap.lockers k = prot.pktidTxMap.lockers k))

/-! ## Lemmas -/

variable {induce : InduceError} {ring : FlowRing} {rdIdx : Nat} {prot prot' : Prot}

@[simp] theorem startTxq_pktidTxMap (prot : Prot) :
    (startTxq prot).pktidTxMap = prot.pktidTxMap := by
  unfold startTxq busStartQueue
  split
  · rfl
  · rfl

/-- A completion frees the id in the map, whatever it finds. -/
theorem txstatusProcess_map (prot : Prot) (requestId : Nat) :
    (txstatusProcess induce prot requestId).1.pktidTxMap =
      (PktIdMap.free induce prot.pktidTxMap requestId .dataTx false).1 := by
  unfold txstatusProcess
  dsimp only
  split
  · next heq => rw [startTxq_pktidTxMap, heq]
  · next heq => rw [heq]

/-- A posted id gives its packet back. -/
theorem txstatusProcess_released {requestId : Nat}
    (hr : rejected induce prot.pktidTxMap requestId .dataTx = false) :
    (txstatusProcess induce prot requestId).2 = delivered prot.pktidTxMap requestId := by
  unfold txstatusProcess
  simp only [free_of_accepted hr]
  unfold delivered
  cases (prot.pktidTxMap.lockers requestId).pkt <;> rfl

theorem txstatusProcess_lockers {requestId : Nat}
    (hr : rejected induce prot.pktidTxMap requestId .dataTx = false) (k : Nat) :
    (txstatusProcess induce prot requestId).1.pktidTxMap.lockers k =
      if k = requestId then
        { prot.pktidTxMap.lockers requestId with pkt := none, len := 0, state := .free }
      else prot.pktidTxMap.lockers k := by
  rw [txstatusProcess_map, free_of_accepted hr, if_neg Bool.false_ne_true]
  exact Function.update_apply _ _ _ _

theorem txstatusProcess_items (prot : Prot) (requestId : Nat) :
    (txstatusProcess induce prot requestId).1.pktidTxMap.items = prot.pktidTxMap.items := by
  rw [txstatusProcess_map]
  unfold PktIdMap.free
  split
  · rfl
  · simp only
    split
    · rfl
    · split
      · rfl
      · rfl

/-! ## The slots completed -/

/-- The completions of a list of slots. -/
def completeAll (induce : InduceError) (ring : FlowRing) : Prot → List Nat → Prot × List Call
  | prot, [] => (prot, [])
  | prot, i :: slots =>
    let (prot, released) := txstatusProcess induce prot (ring.requestId i)
    let (prot, calls) := completeAll induce ring prot slots
    (prot, (i, released) :: calls)

theorem completeAll_slots (induce : InduceError) (ring : FlowRing) (prot : Prot)
    (slots : List Nat) :
    (completeAll induce ring prot slots).2.map Prod.fst = slots := by
  induction slots generalizing prot with
  | nil => rfl
  | cons i slots ih => exact congrArg (i :: ·) (ih _)

/-- Completing a posted id leaves the others posted. -/
theorem Posted.tail {i : Nat} {slots : List Nat}
    (h : Posted induce ring prot.pktidTxMap (i :: slots)) :
    Posted induce ring (txstatusProcess induce prot (ring.requestId i)).1.pktidTxMap slots := by
  have hd := h.distinct
  rw [List.map_cons, List.nodup_cons] at hd
  have hr := h.accepted i List.mem_cons_self
  have hlocker : ∀ j ∈ slots,
      (txstatusProcess induce prot (ring.requestId i)).1.pktidTxMap.lockers (ring.requestId j) =
        prot.pktidTxMap.lockers (ring.requestId j) := by
    intro j hj
    rw [txstatusProcess_lockers hr, if_neg]
    intro heq
    exact hd.1 (heq ▸ List.mem_map_of_mem hj)
  refine ⟨hd.2, fun j hj => ?_, fun j hj => ?_⟩
  · rw [← h.accepted j (List.mem_cons_of_mem i hj)]
    unfold rejected invalidKey
    rw [hlocker j hj, txstatusProcess_items]
  · rw [hlocker j hj]
    exact h.packet j (List.mem_cons_of_mem i hj)

theorem completeAll_other {slots : List Nat} (h : Posted induce ring prot.pktidTxMap slots)
    {k : Nat} (hk : k ∉ slots.map ring.requestId) :
    (completeAll induce ring prot slots).1.pktidTxMap.lockers k =
      prot.pktidTxMap.lockers k := by
  induction slots generalizing prot with
  | nil => rfl
  | cons i slots ih =>
    rw [List.map_cons, List.mem_cons, not_or] at hk
    have hrest := ih h.tail hk.2
    rw [txstatusProcess_lockers (h.accepted i List.mem_cons_self), if_neg hk.1] at hrest
    exact hrest

/-- The ids of posted slots are free afterwards. -/
theorem completeAll_free {slots : List Nat} (h : Posted induce ring prot.pktidTxMap slots)
    {i : Nat} (hi : i ∈ slots) :
    ((completeAll induce ring prot slots).1.pktidTxMap.lockers (ring.requestId i)).state =
      .free := by
  induction slots generalizing prot with
  | nil => cases hi
  | cons j slots ih =>
    rcases List.mem_cons.mp hi with rfl | hi
    · have hd := h.distinct
      rw [List.map_cons, List.nodup_cons] at hd
      have hother := completeAll_other h.tail hd.1
      rw [txstatusProcess_lockers (h.accepted i List.mem_cons_self), if_pos rfl] at hother
      exact congrArg Locker.state hother
    · exact ih h.tail hi

/-- Every posted slot's packet is released, as its locker held it. -/
theorem completeAll_released {slots : List Nat} (h : Posted induce ring prot.pktidTxMap slots)
    {c : Call} (hc : c ∈ (completeAll induce ring prot slots).2) :
    c.2.isSome ∧ c.2 = delivered prot.pktidTxMap (ring.requestId c.1) := by
  induction slots generalizing prot with
  | nil => cases hc
  | cons i slots ih =>
    have hr := h.accepted i List.mem_cons_self
    rcases List.mem_cons.mp hc with rfl | hc
    · refine ⟨?_, txstatusProcess_released hr⟩
      show (txstatusProcess induce prot (ring.requestId i)).2.isSome
      rw [txstatusProcess_released hr]
      unfold delivered
      rw [Option.isSome_map]
      exact h.packet i List.mem_cons_self
    · obtain ⟨hsome, heq⟩ := ih h.tail hc
      refine ⟨hsome, ?_⟩
      have hd := h.distinct
      rw [List.map_cons, List.nodup_cons] at hd
      have hmem : c.1 ∈ slots := by
        have hslots :=
          completeAll_slots induce ring (txstatusProcess induce prot (ring.requestId i)).1 slots
        exact hslots ▸ List.mem_map_of_mem hc
      have hne : ring.requestId c.1 ≠ ring.requestId i := by
        intro he
        exact hd.1 (he ▸ List.mem_map_of_mem hmem)
      rw [heq]
      unfold delivered
      rw [txstatusProcess_lockers hr, if_neg hne]

/-! ## The walk -/

/-- The slot before an index that is `k + 1` slots behind `rdIdx`. -/
theorem prev_wrap {n k : Nat} (hrd : rdIdx < n) (hk : k + 1 < n) :
    (if wrap n (rdIdx + (k + 1)) ≠ 0 then wrap n (rdIdx + (k + 1)) - 1 else n - 1) =
      wrap n (rdIdx + k) := by
  unfold wrap
  split <;> split <;> split <;> omega

theorem wrap_ne {n k : Nat} (hk : k + 1 < n) :
    wrap n (rdIdx + (k + 1)) ≠ rdIdx := by
  unfold wrap
  split <;> omega

/-- `k` slots in front of `rdIdx`, the walk takes `k` rounds. -/
theorem fastdelete_walk (induce : InduceError) (hrd : rdIdx < ring.maxItems) {k : Nat}
    (hk : k < ring.maxItems) (prot : Prot) :
    fastdelete induce ring rdIdx k (wrap ring.maxItems (rdIdx + k)) prot =
      some (completeAll induce ring prot (circ ring.maxItems rdIdx k).reverse) := by
  induction k generalizing prot with
  | zero =>
    have hw : wrap ring.maxItems (rdIdx + 0) = rdIdx := if_pos hrd
    rw [hw]
    exact if_pos rfl
  | succ k ih =>
    unfold fastdelete
    rw [if_neg (wrap_ne hk), prev_wrap hrd hk, circ_snoc, List.reverse_append]
    simp only [ih (Nat.lt_of_succ_lt hk)]
    rfl

theorem wrap_dist (hrd : rdIdx < ring.maxItems) :
    wrap ring.maxItems (rdIdx + dist ring.maxItems rdIdx ring.wr) = ring.wr := by
  have hwr := ring.wr_lt
  unfold wrap RingIndex.dist
  split <;> split <;> omega

theorem dist_lt (hrd : rdIdx < ring.maxItems) :
    dist ring.maxItems rdIdx ring.wr < ring.maxItems := by
  have hwr := ring.wr_lt
  unfold RingIndex.dist
  split <;> omega

/-- A read index that is not of the ring is never met. -/
theorem fastdelete_never (hrd : ring.maxItems ≤ rdIdx) (fuel : Nat) {wrIdx : Nat}
    (hwr : wrIdx < ring.maxItems) (prot : Prot) :
    fastdelete induce ring rdIdx fuel wrIdx prot = none := by
  have hne : wrIdx ≠ rdIdx := by omega
  induction fuel generalizing wrIdx prot with
  | zero => exact if_neg hne
  | succ fuel ih =>
    unfold fastdelete
    rw [if_neg hne]
    have hprev : (if wrIdx ≠ 0 then wrIdx - 1 else ring.maxItems - 1) < ring.maxItems := by
      split <;> omega
    simp only [ih hprev _ (by omega)]
    rfl

/-! ## Top theorem -/

/-- **The fast delete ends, and completes the unfetched slots once each, exactly when** the
reported read index is one of the ring's. -/
theorem fastdelete_exact_iff (induce : InduceError) (ring : FlowRing) (rdIdx : Nat)
    (prot : Prot) : completes induce ring rdIdx prot ↔ rdIdx < ring.maxItems := by
  constructor
  · rintro ⟨fuel, prot', calls, h, -⟩
    apply Nat.lt_of_not_le
    intro hrd
    rw [fastdelete_never hrd fuel ring.wr_lt] at h
    cases h
  · intro hrd
    have hwalk := fastdelete_walk induce hrd (dist_lt hrd) prot
    rw [wrap_dist hrd] at hwalk
    have hnodup : (unfetched ring rdIdx).Nodup := circ_nodup hrd (Nat.le_of_lt (dist_lt hrd))
    refine ⟨_, _, _, hwalk, fun _ => ⟨completeAll_slots _ _ _ _, ?_, fun hposted => ?_⟩⟩
    · rw [completeAll_slots]
      exact List.nodup_reverse.mpr hnodup
    · have hrev : Posted induce ring prot.pktidTxMap (unfetched ring rdIdx).reverse :=
        ⟨by rw [List.map_reverse]; exact List.nodup_reverse.mpr hposted.distinct,
          fun i hi => hposted.accepted i (List.mem_reverse.mp hi),
          fun i hi => hposted.packet i (List.mem_reverse.mp hi)⟩
      refine ⟨fun c hc => completeAll_released hrev hc, fun i hi => ?_, fun k hk => ?_⟩
      · exact completeAll_free hrev (List.mem_reverse.mpr hi)
      · apply completeAll_other hrev
        rwa [List.map_reverse, List.mem_reverse]

/-- A ring of four slots whose write index is 1. -/
def ringOfFour : FlowRing := ⟨4, 1, fun i => i + 1, by decide⟩

/-- A map of four ids, all of them free. -/
def allFree : Prot := ⟨PktIdMap.init 4 ⟨0, .dataTx, 0, none, 0, 0, 0⟩, 0, 0, false, false⟩

/-- With the read index 4, the walk over a ring of four slots never ends. -/
theorem fastdelete_fails : ¬ completes .none ringOfFour 4 allFree := by
  rintro ⟨fuel, prot', calls, h, -⟩
  rw [fastdelete_never (Nat.le_refl 4) fuel ringOfFour.wr_lt] at h
  cases h

end Bcmdhd.TxStatus
