import Bcmdhd.Lib.Runs
import Bcmdhd.Lib.Slots
import Mathlib.Data.List.Nodup

/-!
# Host reordering of A-MPDU frames (`dhd_cdc.c`)

`dhd_process_pkt_reorder_info` holds the frames behind a hole in the slots of their indexes, and
returns the chain of those that are complete.

    runs step init es = some (s, tr) →  every step meets its condition →
      each packet passed in is held, returned or freed, once; the chains are in circular order
                                                                        (host_reorder_exact)
-/

namespace Bcmdhd.HostReorder

open Runs Slots

def WLHOST_REORDERDATA_DEL_FLOW : UInt8 := 0x01
def WLHOST_REORDERDATA_FLUSH_ALL : UInt8 := 0x02
def WLHOST_REORDERDATA_CURIDX_VALID : UInt8 := 0x04
def WLHOST_REORDERDATA_NEW_HOLE : UInt8 := 0x10

/-! ## Algorithm -/

/-- `struct reorder_info`; `p` has the slots that were allocated. -/
structure ReorderInfo where
  p : List (Option Nat)
  maxIdx : Nat
  curIdx : Nat
  expIdx : Nat
  pendPkts : Nat
deriving DecidableEq, Repr

/-- What is read of `reorder_info_buf`. -/
structure InfoBuf where
  flags : UInt8
  maxIdx : UInt8
  curIdx : UInt8
  expIdx : UInt8
deriving DecidableEq, Repr

def InfoBuf.has (b : InfoBuf) (flag : UInt8) : Bool := b.flags &&& flag != 0

/-- The loop of `dhd_get_hostreorder_pkts`: the slots, and the packets linked, each with its
index.  `none`: it reads outside of the slots, or does not come to `last`. -/
def getLoop (maxIdx last : Nat) : Nat → List (Option Nat) → Nat →
    Option (List (Option Nat) × List (Nat × Nat))
  | 0, _, _ => none
  | fuel + 1, p, start =>
    if p.length ≤ start then none
    else
      let rest := p.set start none
      let next := (start + 1) % 0x100
      let next := if next > maxIdx then 0 else next
      let link := match slot p start with
        | none => []
        | some q => [(start, q)]
      if next = last then some (rest, link)
      else (getLoop maxIdx last fuel rest next).map fun (r, out) => (r, link ++ out)

def getHostreorderPkts (ptr : ReorderInfo) (start last : Nat) :
    Option (ReorderInfo × List (Nat × Nat)) :=
  if ptr.pendPkts = 0 then some (ptr, [])
  else
    (getLoop ptr.maxIdx last 0x101 ptr.p start).map fun (p, out) =>
      ({ ptr with p := p, pendPkts := (ptr.pendPkts + 0x100 - out.length % 0x100) % 0x100 }, out)

/-- `ptr->p[cur_idx] = cur_pkt; ptr->pend_pkts++` -/
def putPkt (ptr : ReorderInfo) (curIdx curPkt : Nat) : Option ReorderInfo :=
  if ptr.p.length ≤ curIdx then none
  else some { ptr with p := ptr.p.set curIdx (some curPkt), pendPkts := (ptr.pendPkts + 1) % 0x100 }

/-- The chain in `*pkt`, each packet with its index if it has one, `*pkt_count`, and the packet
freed as a duplicate. -/
structure Result where
  chain : List (Option Nat × Nat)
  pktCount : Nat
  freed : Option Nat
deriving DecidableEq, Repr

def indexed (out : List (Nat × Nat)) : List (Option Nat × Nat) := out.map fun x => (some x.1, x.2)

def newHole (ptr : ReorderInfo) (b : InfoBuf) (curPkt : Nat) : Option (ReorderInfo × Result) := do
  let (ptr, out) ←
    if ptr.pendPkts ≠ 0 then
      (getHostreorderPkts ptr ptr.expIdx ptr.expIdx).map fun (ptr, out) =>
        ({ ptr with pendPkts := 0 }, out)
    else some (ptr, [])
  let ptr ← putPkt { ptr with curIdx := b.curIdx.toNat, expIdx := b.expIdx.toNat,
                              maxIdx := b.maxIdx.toNat } b.curIdx.toNat curPkt
  return (ptr, { chain := indexed out, pktCount := out.length, freed := none })

/-- Still in the current hole. -/
def inHole (ptr : ReorderInfo) (curIdx curPkt : Nat) : Option (ReorderInfo × Result) := do
  let freed := slot ptr.p curIdx
  let ptr ← putPkt ptr curIdx curPkt
  return ({ ptr with curIdx := curIdx }, { chain := [], pktCount := 0, freed := freed })

/-- The right one: flushed from `cur_idx` to `exp_idx`. -/
def rightOne (ptr : ReorderInfo) (curIdx expIdx curPkt : Nat) : Option (ReorderInfo × Result) := do
  let freed := slot ptr.p curIdx
  let ptr ← putPkt ptr curIdx curPkt
  let (ptr, out) ←
    getHostreorderPkts { ptr with curIdx := curIdx, expIdx := expIdx } curIdx expIdx
  return (ptr, { chain := indexed out, pktCount := out.length, freed := freed })

/-- Whether `exp_idx` comes right behind `cur_idx`. -/
def flushCurrent (ptr : ReorderInfo) (curIdx expIdx : Nat) : Bool :=
  if curIdx = ptr.maxIdx then expIdx = 0 else expIdx = curIdx + 1

def endIdx (ptr : ReorderInfo) (b : InfoBuf) : Nat :=
  if b.has WLHOST_REORDERDATA_FLUSH_ALL then ptr.expIdx else b.expIdx.toNat

def bothMoved (ptr : ReorderInfo) (b : InfoBuf) (curPkt : Nat) :
    Option (ReorderInfo × Result) := do
  let curIdx := b.curIdx.toNat
  let expIdx := b.expIdx.toNat
  let (ptr', out) ← getHostreorderPkts ptr ptr.expIdx (endIdx ptr b)
  if flushCurrent ptr curIdx expIdx then
    return ({ ptr' with expIdx := expIdx, curIdx := curIdx },
      { chain := indexed out ++ [(some curIdx, curPkt)], pktCount := out.length + 1,
        freed := none })
  else
    let ptr' ← putPkt ptr' curIdx curPkt
    return ({ ptr' with expIdx := expIdx, curIdx := curIdx },
      { chain := indexed out, pktCount := out.length, freed := none })

/-- No index of its own: the packet comes behind what is flushed. -/
def moveWindow (ptr : ReorderInfo) (b : InfoBuf) (curPkt : Nat) :
    Option (ReorderInfo × Result) := do
  let (ptr', out) ← getHostreorderPkts ptr ptr.expIdx (endIdx ptr b)
  return ({ ptr' with expIdx := b.expIdx.toNat },
    { chain := indexed out ++ [(none, curPkt)], pktCount := out.length + 1, freed := none })

def reorder (ptr : ReorderInfo) (b : InfoBuf) (curPkt : Nat) : Option (ReorderInfo × Result) :=
  let curIdx := b.curIdx.toNat
  let expIdx := b.expIdx.toNat
  if b.has WLHOST_REORDERDATA_NEW_HOLE then newHole ptr b curPkt
  else if b.has WLHOST_REORDERDATA_CURIDX_VALID then
    if expIdx = ptr.expIdx ∧ curIdx ≠ ptr.expIdx then inHole ptr curIdx curPkt
    else if ptr.expIdx = curIdx then rightOne ptr curIdx expIdx curPkt
    else bothMoved ptr b curPkt
  else moveWindow ptr b curPkt

/-- `curPkt` alone -/
def alone (curPkt : Nat) : Result :=
  { chain := [(none, curPkt)], pktCount := 1, freed := none }

/-- The flow is freed, with whatever its slots still hold. -/
def delFlow (flow : Option ReorderInfo) (curPkt : Nat) :
    Option (Option ReorderInfo × Result) :=
  match flow with
  | none => some (none, alone curPkt)
  | some ptr =>
    (getHostreorderPkts ptr ptr.expIdx ptr.expIdx).map fun (_, out) =>
      if out = [] then (none, alone curPkt)
      else
        (none, { chain := indexed out ++ [(none, curPkt)], pktCount := out.length + 1,
                 freed := none })

def newFlow (maxIdx : Nat) : ReorderInfo where
  p := List.replicate (maxIdx + 1) none
  maxIdx := maxIdx
  curIdx := 0
  expIdx := 0
  pendPkts := 0

/-- One call for the packet `curPkt` of a flow; `malloc` says whether an allocation succeeds. -/
def processPktReorderInfo (flow : Option ReorderInfo) (b : InfoBuf) (curPkt : Nat)
    (malloc : Bool) : Option (Option ReorderInfo × Result) :=
  if b.flags = 0xFF then some (flow, alone curPkt)
  else if b.has WLHOST_REORDERDATA_DEL_FLOW then delFlow flow curPkt
  else
    match flow with
    | some ptr => (reorder ptr b curPkt).map fun (ptr, r) => (some ptr, r)
    | none =>
      if malloc then
        (reorder (newFlow b.maxIdx.toNat) b curPkt).map fun (ptr, r) => (some ptr, r)
      else some (none, { chain := [], pktCount := 1, freed := none })

/-! ## Runs -/

structure Call where
  buf : InfoBuf
  pkt : Nat
  malloc : Bool
deriving DecidableEq, Repr

/-- The flow's entry of `reorder_bufs`, the packets passed in so far, the chains returned and
the packets freed. -/
structure State where
  flow : Option ReorderInfo
  passed : List Nat
  chains : List (List Nat)
  freed : List Nat
deriving DecidableEq, Repr

def init : State := { flow := none, passed := [], chains := [], freed := [] }

/-- A packet is passed in once. -/
def step (s : State) (c : Call) : Option (State × Result) :=
  if c.pkt ∈ s.passed then none
  else
    (processPktReorderInfo s.flow c.buf c.pkt c.malloc).map fun (flow, r) =>
      ({ flow := flow, passed := c.pkt :: s.passed, chains := r.chain.map Prod.snd :: s.chains,
         freed := r.freed.toList ++ s.freed }, r)

/-- The packets in the slots. -/
def heldPkts (flow : Option ReorderInfo) : List Nat :=
  match flow with
  | none => []
  | some ptr => held ptr.p

/-! ## Conditions -/

/-- How far index `i` is from the expected one. -/
def ReorderInfo.rank (ptr : ReorderInfo) (i : Nat) : Nat := Slots.rank (ptr.maxIdx + 1) ptr.expIdx i

/-- How many slots a flush from the expected index to `last` goes through. -/
def ReorderInfo.span (ptr : ReorderInfo) (last : Nat) : Nat :=
  if ptr.rank last = 0 then ptr.maxIdx + 1 else ptr.rank last

/-- The packets in these slots. -/
def ReorderInfo.inSpan (ptr : ReorderInfo) (k : Nat) : Nat :=
  (circ (ptr.maxIdx + 1) ptr.expIdx k).countP fun i => (slot ptr.p i).isSome

/-- Both indexes moved: a packet released at once has no held one behind it, another finds its
slot free after the flush. -/
def bothMovedOk (ptr : ReorderInfo) (b : InfoBuf) : Bool :=
  let cur := b.curIdx.toNat
  let k := ptr.span (endIdx ptr b)
  if flushCurrent ptr cur b.expIdx.toNat then
    (circ (ptr.maxIdx + 1) ptr.expIdx k).all fun i =>
      (slot ptr.p i).isNone || ptr.rank i ≤ ptr.rank cur
  else (slot ptr.p cur = none ∨ ptr.rank cur < k) ∧ ptr.pendPkts - ptr.inSpan k < 0xff

/-- The indexes are those of slots, `pend_pkts` does not wrap, and no packet is overwritten. -/
def reorderOk (ptr : ReorderInfo) (b : InfoBuf) : Bool :=
  if b.has WLHOST_REORDERDATA_NEW_HOLE then
    b.maxIdx.toNat < ptr.p.length ∧ b.curIdx ≤ b.maxIdx ∧ b.expIdx ≤ b.maxIdx
  else
    b.expIdx.toNat ≤ ptr.maxIdx ∧
      (b.has WLHOST_REORDERDATA_CURIDX_VALID → b.curIdx.toNat ≤ ptr.maxIdx ∧
        if b.expIdx.toNat = ptr.expIdx ∨ ptr.expIdx = b.curIdx.toNat then ptr.pendPkts < 0xff
        else bothMovedOk ptr b)

/-- The flow that a call works on. -/
def flowOf (s : State) (b : InfoBuf) : ReorderInfo := s.flow.getD (newFlow b.maxIdx.toNat)

/-- Whether the call comes to use the flow. -/
def usesFlow (b : InfoBuf) : Bool :=
  b.flags ≠ 0xFF ∧ b.has WLHOST_REORDERDATA_DEL_FLOW = false

def sound (s : State) (c : Call) : Bool :=
  usesFlow c.buf → (s.flow = none → c.malloc) ∧ reorderOk (flowOf s c.buf) c.buf

/-- A frame that fills a slot of the hole, or is the expected one, is not there yet. -/
def noDuplicate (s : State) (c : Call) : Bool :=
  let ptr := flowOf s c.buf
  usesFlow c.buf → c.buf.has WLHOST_REORDERDATA_NEW_HOLE = false →
    c.buf.has WLHOST_REORDERDATA_CURIDX_VALID →
      c.buf.expIdx.toNat = ptr.expIdx ∨ ptr.expIdx = c.buf.curIdx.toNat →
        slot ptr.p c.buf.curIdx.toNat = none

/-! ## Flushing -/

theorem next_eq {maxIdx e : Nat} (he : e ≤ maxIdx) (hmax : maxIdx < 0x100) :
    (if (e + 1) % 0x100 > maxIdx then 0 else (e + 1) % 0x100) = wrap (maxIdx + 1) (e + 1) := by
  unfold wrap
  split <;> split <;> omega

theorem getLoop_eq {maxIdx last fuel e m : Nat} {p : List (Option Nat)} (hmax : maxIdx < p.length)
    (hlen : p.length ≤ 0x100) (he : e ≤ maxIdx) (hm : 0 < m) (hmn : m ≤ maxIdx + 1)
    (hlast : wrap (maxIdx + 1) (e + m) = last)
    (hno : ∀ j, 0 < j → j < m → wrap (maxIdx + 1) (e + j) ≠ last) (hfuel : m ≤ fuel) :
    getLoop maxIdx last fuel p e = some (takeAll (circ (maxIdx + 1) e m) p) := by
  induction fuel generalizing e m p with
  | zero => omega
  | succ fuel ih =>
    obtain ⟨k, rfl⟩ : ∃ k, m = k + 1 := ⟨m - 1, by omega⟩
    unfold getLoop
    dsimp only
    rw [if_neg (by omega), next_eq he (by omega), circ_succ (by omega) (by omega)]
    have hwrap : wrap (maxIdx + 1) (e + 1) ≤ maxIdx := by
      unfold wrap
      split <;> omega
    cases k with
    | zero =>
      rw [if_pos hlast]
      cases hs : slot p e with
      | none =>
        rw [takeAll_cons_none hs]
        rfl
      | some q =>
        rw [takeAll_cons_some hs]
        rfl
    | succ k =>
      have hsplit : ∀ j, j ≤ maxIdx →
          wrap (maxIdx + 1) (wrap (maxIdx + 1) (e + 1) + j) = wrap (maxIdx + 1) (e + (j + 1)) := by
        intro j hj
        unfold wrap
        split <;> split <;> split <;> omega
      rw [if_neg (hno 1 (by omega) (by omega)),
        @ih (wrap (maxIdx + 1) (e + 1)) (k + 1) (p.set e none) (by rwa [List.length_set])
          (by rwa [List.length_set]) hwrap (by omega) (by omega)
          (by rw [hsplit _ (by omega)]; exact hlast)
          (by
            intro j h1 h2
            rw [hsplit j (by omega)]
            exact hno (j + 1) (by omega) (by omega))
          (by omega)]
      cases hs : slot p e with
      | none =>
        rw [takeAll_cons_none hs]
        rfl
      | some q =>
        rw [takeAll_cons_some hs]
        rfl

/-- A flow whose slots are in range, with `pend_pkts` not below the number of packets held. -/
structure FlowOk (ptr : ReorderInfo) : Prop where
  maxIdx_lt : ptr.maxIdx < ptr.p.length
  length_le : ptr.p.length ≤ 0x100
  expIdx_le : ptr.expIdx ≤ ptr.maxIdx
  slot_le : ∀ i q, slot ptr.p i = some q → i ≤ ptr.maxIdx
  held_le : (held ptr.p).length ≤ ptr.pendPkts
  pendPkts_lt : ptr.pendPkts < 0x100

theorem newFlow_ok (maxIdx : UInt8) : FlowOk (newFlow maxIdx.toNat) where
  maxIdx_lt := by
    show maxIdx.toNat < (List.replicate (maxIdx.toNat + 1) none).length
    rw [List.length_replicate]
    omega
  length_le := by
    have hlt := maxIdx.toNat_lt
    show (List.replicate (maxIdx.toNat + 1) none).length ≤ 0x100
    rw [List.length_replicate]
    omega
  expIdx_le := Nat.zero_le _
  slot_le := by
    intro i q h
    have hnone : slot (newFlow maxIdx.toNat).p i = none := slot_of_held_nil (held_replicate _)
    rw [hnone] at h
    cases h
  held_le := by
    show (held (List.replicate (maxIdx.toNat + 1) none)).length ≤ 0
    rw [held_replicate]
    exact Nat.le_refl 0
  pendPkts_lt := Nat.zero_lt_succ _

section Flush

variable {ptr : ReorderInfo} {last : Nat}

theorem span_cases (h : FlowOk ptr) (hlast : last ≤ ptr.maxIdx) :
    last = ptr.expIdx ∧ ptr.span last = ptr.maxIdx + 1 ∨
    ptr.expIdx < last ∧ ptr.span last = last - ptr.expIdx ∨
    last < ptr.expIdx ∧ ptr.span last = last + (ptr.maxIdx + 1) - ptr.expIdx := by
  have he := h.expIdx_le
  unfold ReorderInfo.span ReorderInfo.rank Slots.rank
  by_cases hle : ptr.expIdx ≤ last
  · rw [if_pos hle]
    split <;> omega
  · rw [if_neg hle, if_neg (by omega)]
    omega

theorem span_spec (h : FlowOk ptr) (hlast : last ≤ ptr.maxIdx) :
    0 < ptr.span last ∧ ptr.span last ≤ ptr.maxIdx + 1 ∧
    wrap (ptr.maxIdx + 1) (ptr.expIdx + ptr.span last) = last ∧
    ∀ j, 0 < j → j < ptr.span last → wrap (ptr.maxIdx + 1) (ptr.expIdx + j) ≠ last := by
  have he := h.expIdx_le
  have hc := span_cases h hlast
  unfold wrap
  refine ⟨by omega, by omega, ?_, ?_⟩
  · split <;> omega
  · intro j h1 h2
    split <;> omega

/-- The slots after a flush up to `last`, and what it releases. -/
def ReorderInfo.flush (ptr : ReorderInfo) (last : Nat) : List (Option Nat) × List (Nat × Nat) :=
  takeAll (circ (ptr.maxIdx + 1) ptr.expIdx (ptr.span last)) ptr.p

theorem flush_perm (ptr : ReorderInfo) (last : Nat) :
    ((ptr.flush last).2.map Prod.snd ++ held (ptr.flush last).1).Perm (held ptr.p) :=
  takeAll_perm _ _

theorem flush_length_le (h : FlowOk ptr) (last : Nat) :
    (ptr.flush last).2.length + (held (ptr.flush last).1).length = (held ptr.p).length ∧
    (held ptr.p).length ≤ ptr.pendPkts := by
  have hlen := (flush_perm ptr last).length_eq
  rw [List.length_append, List.length_map] at hlen
  exact ⟨hlen, h.held_le⟩

theorem flush_slots (ptr : ReorderInfo) (last : Nat) :
    (ptr.flush last).1.length = ptr.p.length := takeAll_length _ _

/-- What is left behind a flush. -/
theorem flush_slot (h : FlowOk ptr) (hlast : last ≤ ptr.maxIdx) {j w : Nat} :
    slot (ptr.flush last).1 j = some w ↔
      slot ptr.p j = some w ∧ ptr.span last ≤ ptr.rank j := by
  obtain ⟨-, h2, -⟩ := span_spec h hlast
  have he := h.expIdx_le
  unfold ReorderInfo.flush ReorderInfo.rank
  rw [takeAll_get]
  constructor
  · intro hs
    split at hs
    · cases hs
    · next hno =>
      have hj := h.slot_le j w hs
      rw [mem_circ (by omega) h2] at hno
      exact ⟨hs, by omega⟩
  · rintro ⟨hs, hr⟩
    rw [if_neg, hs]
    rw [mem_circ (by omega) h2]
    omega

/-- What a flush releases. -/
theorem flush_mem (h : FlowOk ptr) (hlast : last ≤ ptr.maxIdx) {i q : Nat}
    (hm : (i, q) ∈ (ptr.flush last).2) :
    slot ptr.p i = some q ∧ i ≤ ptr.maxIdx ∧ ptr.rank i < ptr.span last := by
  obtain ⟨-, h2, -⟩ := span_spec h hlast
  have he := h.expIdx_le
  have hi : i ∈ circ (ptr.maxIdx + 1) ptr.expIdx (ptr.span last) :=
    (takeAll_fst _ _).subset (List.mem_map.mpr ⟨_, hm, rfl⟩)
  rw [mem_circ (by omega) h2] at hi
  exact ⟨takeAll_mem hm, by omega, hi.2⟩

/-- A flush to the expected index goes all the way around. -/
theorem flush_all (h : FlowOk ptr) : held (ptr.flush ptr.expIdx).1 = [] := by
  have he := h.expIdx_le
  rw [List.eq_nil_iff_forall_not_mem]
  intro w hw
  obtain ⟨j, hj⟩ := mem_held.mp hw
  rw [← slot_eq_some, flush_slot h he] at hj
  have hle := h.slot_le j w hj.1
  have hr := @rank_lt j (ptr.maxIdx + 1) ptr.expIdx (by omega) (by omega)
  have hc := span_cases h he
  unfold ReorderInfo.rank at hj
  omega

theorem flush_pairwise (h : FlowOk ptr) (hlast : last ≤ ptr.maxIdx) :
    ((ptr.flush last).2.map Prod.fst).Pairwise fun i j => ptr.rank i ≤ ptr.rank j := by
  obtain ⟨-, h2, -⟩ := span_spec h hlast
  have he := h.expIdx_le
  have hp := (circ_pairwise (n := ptr.maxIdx + 1) (by omega : ptr.expIdx < ptr.maxIdx + 1) h2)
  exact (hp.imp Nat.le_of_lt).sublist (takeAll_fst _ _)

theorem flush_count (h : FlowOk ptr) (hlast : last ≤ ptr.maxIdx) :
    (ptr.flush last).2.length = ptr.inSpan (ptr.span last) := by
  obtain ⟨-, h2, -⟩ := span_spec h hlast
  have he := h.expIdx_le
  exact takeAll_count (circ_nodup (by omega) h2) _

/-- **A flush** empties the slots from the expected index to `last`; the two indexes play no
part in it. -/
theorem getHostreorderPkts_eq (h : FlowOk ptr) (hlast : last ≤ ptr.maxIdx) (curIdx expIdx : Nat) :
    getHostreorderPkts { ptr with curIdx := curIdx, expIdx := expIdx } ptr.expIdx last =
      some ({ ptr with curIdx := curIdx, expIdx := expIdx, p := (ptr.flush last).1,
                       pendPkts := ptr.pendPkts - (ptr.flush last).2.length },
        (ptr.flush last).2) := by
  obtain ⟨h1, h2, h3, h4⟩ := span_spec h hlast
  obtain ⟨hsum, hle⟩ := flush_length_le h last
  have hlt := h.pendPkts_lt
  have hlen := h.length_le
  have hmax := h.maxIdx_lt
  unfold getHostreorderPkts
  dsimp only
  split
  · next hzero =>
    have hnil : held ptr.p = [] := List.eq_nil_of_length_eq_zero (by omega)
    have hf : ptr.flush last = (ptr.p, []) := takeAll_of_held_nil _ hnil
    rw [hf]
    rfl
  · have hpend : ∀ n, n ≤ ptr.pendPkts →
        (ptr.pendPkts + 0x100 - n % 0x100) % 0x100 = ptr.pendPkts - n := by
      intro n hn
      omega
    have hloop := getLoop_eq h.maxIdx_lt hlen h.expIdx_le h1 h2 h3 h4
      (by omega : ptr.span last ≤ 0x101)
    rw [hloop]
    show some (_, (ptr.flush last).2) = _
    rw [← hpend _ (by omega)]
    rfl

end Flush

/-! ## What a call does -/

/-- What slot `j` of the flow holds. -/
def slotOf (flow : Option ReorderInfo) (j : Nat) : Option Nat := flow.bind fun ptr => slot ptr.p j

/-- Packets are released in circular order from the expected index, and none before one that
stays held and comes earlier. -/
structure InOrder (ptr : ReorderInfo) (flow : Option ReorderInfo) (curIdx curPkt : Nat)
    (chain : List (Option Nat × Nat)) : Prop where
  index : ∀ i q, (some i, q) ∈ chain → slot ptr.p i = some q ∨ i = curIdx ∧ q = curPkt
  circular : (chain.filterMap Prod.fst).Pairwise fun i j => ptr.rank i ≤ ptr.rank j
  kept : ∀ i q, (some i, q) ∈ chain → ∀ j w, slot ptr.p j = some w → slotOf flow j = some w →
    w ≠ curPkt → ptr.rank i < ptr.rank j

structure Outcome (ptr : ReorderInfo) (curIdx curPkt : Nat) (flow : Option ReorderInfo)
    (r : Result) : Prop where
  flowOk : ∀ ptr', flow = some ptr' → FlowOk ptr'
  perm : (r.chain.map Prod.snd ++ (r.freed.toList ++ heldPkts flow)).Perm (curPkt :: held ptr.p)
  count : r.pktCount = r.chain.length
  pend : ∀ ptr', flow = some ptr' → r.freed = none → ptr.pendPkts = (held ptr.p).length →
    ptr'.pendPkts = (held ptr'.p).length
  order : InOrder ptr flow curIdx curPkt r.chain
  replaced : ∀ q, r.freed = some q → slot ptr.p curIdx = some q ∧
    (slotOf flow curIdx = some curPkt ∨ (some curIdx, curPkt) ∈ r.chain)

theorem indexed_fst (out : List (Nat × Nat)) :
    (indexed out).filterMap Prod.fst = out.map Prod.fst := by
  unfold indexed
  rw [List.filterMap_map]
  show List.filterMap (some ∘ Prod.fst) out = out.map Prod.fst
  rw [List.filterMap_eq_map]

theorem indexed_snd (out : List (Nat × Nat)) : (indexed out).map Prod.snd = out.map Prod.snd := by
  unfold indexed
  rw [List.map_map]
  rfl

theorem mem_indexed {out : List (Nat × Nat)} {i q : Nat} :
    (some i, q) ∈ indexed out ↔ (i, q) ∈ out := by
  unfold indexed
  rw [List.mem_map]
  constructor
  · rintro ⟨⟨j, w⟩, hm, he⟩
    cases he
    exact hm
  · intro hm
    exact ⟨(i, q), hm, rfl⟩

theorem indexed_length (out : List (Nat × Nat)) : (indexed out).length = out.length :=
  List.length_map _

variable {b : InfoBuf} {curPkt : Nat} {r : Result}

section Branches

variable {ptr : ReorderInfo} {last curIdx expIdx curPkt : Nat}

/-- The flow after a flush. -/
def ReorderInfo.after (ptr : ReorderInfo) (last curIdx expIdx : Nat) : ReorderInfo :=
  { ptr with curIdx := curIdx, expIdx := expIdx, p := (ptr.flush last).1,
             pendPkts := ptr.pendPkts - (ptr.flush last).2.length }

theorem getHostreorderPkts_self (h : FlowOk ptr) (hlast : last ≤ ptr.maxIdx) :
    getHostreorderPkts ptr ptr.expIdx last =
      some (ptr.after last ptr.curIdx ptr.expIdx, (ptr.flush last).2) :=
  getHostreorderPkts_eq h hlast ptr.curIdx ptr.expIdx

theorem after_ok (h : FlowOk ptr) (hlast : last ≤ ptr.maxIdx) (hexp : expIdx ≤ ptr.maxIdx) :
    FlowOk (ptr.after last curIdx expIdx) := by
  obtain ⟨hsum, hle⟩ := flush_length_le h last
  have hlen := flush_slots ptr last
  have hlt := h.pendPkts_lt
  refine ⟨?_, ?_, hexp, ?_, ?_, ?_⟩
  · exact hlen ▸ h.maxIdx_lt
  · exact hlen ▸ h.length_le
  · intro i q hs
    exact h.slot_le i q ((flush_slot h hlast).mp hs).1
  · show (held (ptr.flush last).1).length ≤ ptr.pendPkts - (ptr.flush last).2.length
    omega
  · show ptr.pendPkts - (ptr.flush last).2.length < 0x100
    omega

theorem after_pend (h : FlowOk ptr) (hpend : ptr.pendPkts = (held ptr.p).length) :
    (ptr.after last curIdx expIdx).pendPkts = (held (ptr.after last curIdx expIdx).p).length := by
  obtain ⟨hsum, hle⟩ := flush_length_le h last
  show ptr.pendPkts - (ptr.flush last).2.length = (held (ptr.flush last).1).length
  omega

/-- The flow with a packet in a slot. -/
def ReorderInfo.put (ptr : ReorderInfo) (curIdx curPkt : Nat) : ReorderInfo :=
  { ptr with p := ptr.p.set curIdx (some curPkt), pendPkts := ptr.pendPkts + 1 }

theorem putPkt_eq (hlt : curIdx < ptr.p.length) (hpend : ptr.pendPkts < 0xff) :
    putPkt ptr curIdx curPkt = some (ptr.put curIdx curPkt) := by
  unfold putPkt ReorderInfo.put
  rw [if_neg (by omega), Nat.mod_eq_of_lt (by omega)]

/-- What is in the slot is replaced. -/
theorem put_perm (hlt : curIdx < ptr.p.length) :
    ((slot ptr.p curIdx).toList ++ held (ptr.put curIdx curPkt).p).Perm (curPkt :: held ptr.p) := by
  show ((slot ptr.p curIdx).toList ++ held (ptr.p.set curIdx (some curPkt))).Perm _
  cases hs : slot ptr.p curIdx with
  | none =>
    apply held_fill
    unfold slot at hs
    rw [List.getElem?_eq_getElem hlt] at hs ⊢
    exact congrArg some hs
  | some q => exact held_replace (slot_eq_some.mp hs)

theorem put_length (hlt : curIdx < ptr.p.length) :
    (slot ptr.p curIdx).toList.length + (held (ptr.put curIdx curPkt).p).length =
      (held ptr.p).length + 1 := by
  have hlen := (@put_perm ptr curIdx curPkt hlt).length_eq
  rwa [List.length_append, List.length_cons] at hlen

theorem put_pend (hlt : curIdx < ptr.p.length) (hfree : slot ptr.p curIdx = none)
    (hpend : ptr.pendPkts = (held ptr.p).length) :
    (ptr.put curIdx curPkt).pendPkts = (held (ptr.put curIdx curPkt).p).length := by
  have hlen := @put_length ptr curIdx curPkt hlt
  rw [hfree] at hlen
  show ptr.pendPkts + 1 = _
  rw [hpend, ← hlen]
  exact Nat.zero_add _

theorem put_ok (h : FlowOk ptr) (hcur : curIdx ≤ ptr.maxIdx) (hpend : ptr.pendPkts < 0xff) :
    FlowOk (ptr.put curIdx curPkt) := by
  have hmax := h.maxIdx_lt
  have hle := h.held_le
  have hlen := @put_length ptr curIdx curPkt (by omega)
  refine ⟨?_, ?_, h.expIdx_le, ?_, ?_, ?_⟩
  · show ptr.maxIdx < (ptr.p.set curIdx (some curPkt)).length
    rwa [List.length_set]
  · show (ptr.p.set curIdx (some curPkt)).length ≤ 0x100
    rw [List.length_set]
    exact h.length_le
  · intro i q hs
    have hs : slot (ptr.p.set curIdx (some curPkt)) i = some q := hs
    show i ≤ ptr.maxIdx
    rw [slot_set_some (by omega)] at hs
    split at hs
    · omega
    · exact h.slot_le i q hs
  · show (held (ptr.put curIdx curPkt).p).length ≤ ptr.pendPkts + 1
    omega
  · show ptr.pendPkts + 1 < 0x100
    omega

theorem FlowOk.move (h : FlowOk ptr) (hexp : expIdx ≤ ptr.maxIdx) :
    FlowOk { ptr with expIdx := expIdx, curIdx := curIdx } :=
  ⟨h.maxIdx_lt, h.length_le, hexp, h.slot_le, h.held_le, h.pendPkts_lt⟩

theorem put_slot (hlt : curIdx < ptr.p.length) (j : Nat) :
    slot (ptr.put curIdx curPkt).p j = if j = curIdx then some curPkt else slot ptr.p j :=
  slot_set_some hlt

/-- What a flush releases is in order, whatever is put in its place. -/
theorem flush_inOrder (h : FlowOk ptr) (hlast : last ≤ ptr.maxIdx) {flow : Option ReorderInfo}
    (hflow : ∀ j w, slotOf flow j = some w → w ≠ curPkt → slot (ptr.flush last).1 j = some w) :
    InOrder ptr flow curIdx curPkt (indexed (ptr.flush last).2) := by
  refine ⟨?_, ?_, ?_⟩
  · intro i q hm
    exact Or.inl (flush_mem h hlast (mem_indexed.mp hm)).1
  · rw [indexed_fst]
    exact flush_pairwise h hlast
  · intro i q hm j w _ hkept hne
    have h1 := (flush_mem h hlast (mem_indexed.mp hm)).2.2
    have h2 := ((flush_slot h hlast).mp (hflow j w hkept hne)).2
    omega

/-- A packet without an index behind a chain. -/
theorem InOrder.snoc_none {flow : Option ReorderInfo} {chain : List (Option Nat × Nat)}
    (h : InOrder ptr flow curIdx curPkt chain) (q : Nat) :
    InOrder ptr flow curIdx curPkt (chain ++ [(none, q)]) := by
  have hmem : ∀ i w, (some i, w) ∈ chain ++ [(none, q)] → (some i, w) ∈ chain := by
    intro i w hm
    rcases List.mem_append.mp hm with hm | hm
    · exact hm
    · cases List.mem_singleton.mp hm
  refine ⟨fun i w hm => h.index i w (hmem i w hm), ?_, fun i w hm => h.kept i w (hmem i w hm)⟩
  rw [List.filterMap_append]
  simpa using h.circular

theorem snoc_perm (out : List (Nat × Nat)) (hs : List Nat) (x : Option Nat × Nat) :
    ((indexed out ++ [x]).map Prod.snd ++ ((none : Option Nat).toList ++ hs)).Perm
      (x.2 :: (out.map Prod.snd ++ hs)) := by
  rw [List.map_append, indexed_snd]
  show (out.map Prod.snd ++ [x.2] ++ hs).Perm _
  rw [List.append_assoc]
  exact List.perm_middle

theorem alone_outcome (flow : Option ReorderInfo) (hflow : ∀ ptr', flow = some ptr' → ptr' = ptr)
    (h : FlowOk ptr) (hheld : heldPkts flow = held ptr.p) :
    Outcome ptr curIdx curPkt flow (alone curPkt) := by
  refine ⟨?_, ?_, rfl, ?_, ?_, nofun⟩
  · intro ptr' he
    rw [hflow ptr' he]
    exact h
  · rw [hheld]
    exact List.Perm.refl _
  · intro ptr' he _ hp
    rw [hflow ptr' he]
    exact hp
  · refine ⟨?_, List.Pairwise.nil, ?_⟩
    · intro i q hm
      cases List.mem_singleton.mp hm
    · intro i q hm
      cases List.mem_singleton.mp hm

/-- The flow is deleted: everything is flushed. -/
theorem delFlow_outcome (h : FlowOk ptr) :
    ∃ flow r, delFlow (some ptr) curPkt = some (flow, r) ∧ flow = none ∧
      Outcome ptr curIdx curPkt flow r := by
  have hempty := flush_all h
  have hperm := flush_perm ptr ptr.expIdx
  rw [hempty, List.append_nil] at hperm
  have horder : InOrder ptr none curIdx curPkt (indexed (ptr.flush ptr.expIdx).2) :=
    flush_inOrder h h.expIdx_le nofun
  unfold delFlow
  dsimp only
  rw [getHostreorderPkts_self h h.expIdx_le, Option.map_some]
  dsimp only
  split
  · next hnil =>
    refine ⟨_, _, rfl, rfl, alone_outcome none nofun h ?_⟩
    rw [hnil] at hperm
    exact hperm.symm.eq_nil.symm
  · refine ⟨_, _, rfl, rfl, nofun, ?_, ?_, nofun, horder.snoc_none curPkt, nofun⟩
    · exact (snoc_perm _ [] (none, curPkt)).trans ((hperm.append_right []).cons curPkt |>.trans
        (by rw [List.append_nil]))
    · rw [List.length_append, indexed_length]
      rfl

theorem moveWindow_outcome (h : FlowOk ptr) (hexp : b.expIdx.toNat ≤ ptr.maxIdx) :
    ∃ ptr' r, moveWindow ptr b curPkt = some (ptr', r) ∧
      Outcome ptr curIdx curPkt (some ptr') r := by
  have hlast : endIdx ptr b ≤ ptr.maxIdx := by
    unfold endIdx
    split
    · exact h.expIdx_le
    · exact hexp
  have hord : InOrder ptr (some (ptr.after (endIdx ptr b) ptr.curIdx b.expIdx.toNat)) curIdx curPkt
      (indexed (ptr.flush (endIdx ptr b)).2) := flush_inOrder h hlast fun j w hk _ => hk
  unfold moveWindow
  rw [getHostreorderPkts_self h hlast]
  refine ⟨ptr.after (endIdx ptr b) ptr.curIdx b.expIdx.toNat, _, rfl, ?_, ?_, ?_, ?_, ?_, nofun⟩
  · intro ptr' he
    cases he
    exact after_ok h hlast hexp
  · exact (snoc_perm _ _ (none, curPkt)).trans ((flush_perm ptr _).cons curPkt)
  · rw [List.length_append, indexed_length]
    rfl
  · intro ptr' he _ hp
    cases he
    exact after_pend h hp
  · exact hord.snoc_none curPkt

theorem flushCurrent_rank (h : FlowOk ptr) (hexp : expIdx ≤ ptr.maxIdx)
    (hf : flushCurrent ptr curIdx expIdx = true) : ptr.rank curIdx < ptr.span expIdx := by
  have he := h.expIdx_le
  have hs := span_cases h hexp
  unfold flushCurrent at hf
  unfold ReorderInfo.rank Slots.rank
  split at hf
  · have hf := of_decide_eq_true hf
    split <;> omega
  · have hf := of_decide_eq_true hf
    split <;> omega

theorem bothMoved_outcome (h : FlowOk ptr) (hcur : b.curIdx.toNat ≤ ptr.maxIdx)
    (hexp : b.expIdx.toNat ≤ ptr.maxIdx) (hok : bothMovedOk ptr b = true) :
    ∃ ptr' r, bothMoved ptr b curPkt = some (ptr', r) ∧
      Outcome ptr b.curIdx.toNat curPkt (some ptr') r := by
  have he := h.expIdx_le
  have hmax := h.maxIdx_lt
  have hlast : endIdx ptr b ≤ ptr.maxIdx := by
    unfold endIdx
    split
    · exact he
    · exact hexp
  unfold bothMovedOk at hok
  dsimp only at hok
  unfold bothMoved
  rw [getHostreorderPkts_self h hlast]
  dsimp only [Option.bind_eq_bind, Option.bind_some]
  split at hok
  · next hfc =>
    rw [if_pos hfc]
    refine ⟨ptr.after (endIdx ptr b) b.curIdx.toNat b.expIdx.toNat, _, rfl, ?_⟩
    have hord : InOrder ptr (some (ptr.after (endIdx ptr b) b.curIdx.toNat b.expIdx.toNat))
        b.curIdx.toNat curPkt (indexed (ptr.flush (endIdx ptr b)).2) :=
      flush_inOrder h hlast fun j w hk _ => hk
    refine ⟨?_, ?_, ?_, ?_, ⟨?_, ?_, ?_⟩, nofun⟩
    · intro ptr' he
      cases he
      exact after_ok h hlast hexp
    · exact (snoc_perm _ _ (some b.curIdx.toNat, curPkt)).trans ((flush_perm ptr _).cons curPkt)
    · rw [List.length_append, indexed_length]
      rfl
    · intro ptr' he _ hp
      cases he
      exact after_pend h hp
    · intro i q hm
      rcases List.mem_append.mp hm with hm | hm
      · exact hord.index i q hm
      · cases List.mem_singleton.mp hm
        exact Or.inr ⟨rfl, rfl⟩
    · -- the packet released at once comes last
      rw [List.filterMap_append, List.pairwise_append]
      refine ⟨hord.circular, List.pairwise_singleton _ _, ?_⟩
      intro i hi j hj
      cases List.mem_singleton.mp hj
      rw [indexed_fst] at hi
      obtain ⟨⟨i, q⟩, hm, rfl⟩ := List.mem_map.mp hi
      obtain ⟨hs, hi, hr⟩ := flush_mem h hlast hm
      obtain ⟨-, h2, -⟩ := span_spec h hlast
      have hall := List.all_eq_true.mp hok i ((mem_circ (by omega) h2).mpr ⟨by omega, hr⟩)
      rw [hs] at hall
      exact of_decide_eq_true ((Bool.or_eq_true _ _).mp hall |>.resolve_left Bool.false_ne_true)
    · intro i q hm j w hj hk hw
      rcases List.mem_append.mp hm with hm | hm
      · exact hord.kept i q hm j w hj hk hw
      · cases List.mem_singleton.mp hm
        have hrj := ((flush_slot h hlast).mp hk).2
        have hjle := h.slot_le j w hj
        have hrlt := rank_lt (n := ptr.maxIdx + 1) (e := ptr.expIdx) (i := j) (by omega) (by omega)
        have hspan : ptr.rank b.curIdx.toNat < ptr.span (endIdx ptr b) := by
          unfold endIdx
          split
          · have hr := rank_lt (n := ptr.maxIdx + 1) (e := ptr.expIdx) (i := b.curIdx.toNat)
              (by omega) (by omega)
            rcases span_cases h he with ⟨-, hs⟩ | ⟨hs, -⟩ | ⟨hs, -⟩
            · unfold ReorderInfo.rank
              omega
            · omega
            · omega
          · exact flushCurrent_rank h hexp hfc
        omega
  · next hfc =>
    obtain ⟨hfree, hpend⟩ := of_decide_eq_true hok
    rw [← flush_count h hlast] at hpend
    have hslots := flush_slots ptr (endIdx ptr b)
    have hlt : b.curIdx.toNat < (ptr.after (endIdx ptr b) ptr.curIdx ptr.expIdx).p.length := by
      show b.curIdx.toNat < (ptr.flush (endIdx ptr b)).1.length
      omega
    have hfree : slot (ptr.flush (endIdx ptr b)).1 b.curIdx.toNat = none := by
      cases hs : slot (ptr.flush (endIdx ptr b)).1 b.curIdx.toNat with
      | none => rfl
      | some w =>
        obtain ⟨hs1, hs2⟩ := (flush_slot h hlast).mp hs
        rcases hfree with hn | hn
        · rw [hn] at hs1
          cases hs1
        · omega
    have hafter : FlowOk (ptr.after (endIdx ptr b) ptr.curIdx ptr.expIdx) := after_ok h hlast he
    have hperm := @put_perm (ptr.after (endIdx ptr b) ptr.curIdx ptr.expIdx) _ curPkt hlt
    have hput := @put_ok _ _ curPkt hafter hcur hpend
    have hslot := @put_slot (ptr.after (endIdx ptr b) ptr.curIdx ptr.expIdx) _ curPkt hlt
    rw [show slot (ptr.after (endIdx ptr b) ptr.curIdx ptr.expIdx).p b.curIdx.toNat = none
      from hfree] at hperm
    rw [if_neg hfc, putPkt_eq hlt hpend]
    refine ⟨_, _, rfl, ?_, ?_, (indexed_length _).symm, ?_, ?_, nofun⟩
    · intro ptr' he
      cases he
      exact hput.move hexp
    · show ((indexed (ptr.flush (endIdx ptr b)).2).map Prod.snd ++ held _).Perm _
      rw [indexed_snd]
      exact (hperm.append_left _).trans
        (List.perm_middle.trans ((flush_perm ptr _).cons curPkt))
    · intro ptr' he _ hp
      cases he
      exact put_pend hlt hfree (after_pend h hp)
    · apply flush_inOrder h hlast
      intro j w hk hw
      have hk : slot ((ptr.after (endIdx ptr b) ptr.curIdx ptr.expIdx).put b.curIdx.toNat curPkt).p
        j = some w := hk
      rw [hslot] at hk
      split at hk
      · cases hk
        exact absurd rfl hw
      · exact hk

/-- Still in the hole: the packet takes its slot. -/
theorem inHole_outcome (h : FlowOk ptr) (hcur : curIdx ≤ ptr.maxIdx) (hpend : ptr.pendPkts < 0xff) :
    ∃ ptr' r, inHole ptr curIdx curPkt = some (ptr', r) ∧
      Outcome ptr curIdx curPkt (some ptr') r := by
  have hmax := h.maxIdx_lt
  have hlt : curIdx < ptr.p.length := by omega
  have hput := @put_ok ptr curIdx curPkt h hcur hpend
  have hperm := @put_perm ptr curIdx curPkt hlt
  unfold inHole
  rw [putPkt_eq hlt hpend]
  refine ⟨_, _, rfl, ?_, hperm, rfl, ?_, ⟨nofun, List.Pairwise.nil, nofun⟩, ?_⟩
  · intro ptr' he
    cases he
    exact hput.move hput.expIdx_le
  · intro ptr' he hfree hp
    cases he
    exact put_pend hlt hfree hp
  · intro q hq
    refine ⟨hq, Or.inl ?_⟩
    show slot (ptr.put curIdx curPkt).p curIdx = some curPkt
    rw [put_slot hlt, if_pos rfl]

/-- The expected packet goes through its slot. -/
theorem rightOne_outcome (h : FlowOk ptr) (hcur : curIdx = ptr.expIdx) (hexp : expIdx ≤ ptr.maxIdx)
    (hpend : ptr.pendPkts < 0xff) :
    ∃ ptr' r, rightOne ptr curIdx expIdx curPkt = some (ptr', r) ∧
      Outcome ptr curIdx curPkt (some ptr') r := by
  have he := h.expIdx_le
  have hmax := h.maxIdx_lt
  have hlt : curIdx < ptr.p.length := by omega
  have hput := @put_ok ptr curIdx curPkt h (by omega) hpend
  have hperm := @put_perm ptr curIdx curPkt hlt
  have hslot := @put_slot ptr curIdx curPkt hlt
  have hget := getHostreorderPkts_eq hput hexp curIdx expIdx
  have hlast : expIdx ≤ (ptr.put curIdx curPkt).maxIdx := hexp
  unfold rightOne
  rw [putPkt_eq hlt hpend]
  dsimp only [Option.bind_eq_bind, Option.bind_some]
  rw [show (ptr.put curIdx curPkt).expIdx = curIdx from hcur.symm] at hget
  rw [hget]
  have hord : InOrder (ptr.put curIdx curPkt)
      (some ((ptr.put curIdx curPkt).after expIdx curIdx expIdx)) curIdx curPkt
      (indexed ((ptr.put curIdx curPkt).flush expIdx).2) :=
    flush_inOrder hput hlast fun j w hk _ => hk
  refine ⟨(ptr.put curIdx curPkt).after expIdx curIdx expIdx, _, rfl, ?_, ?_,
    (indexed_length _).symm, ?_, ⟨?_, hord.circular, ?_⟩, ?_⟩
  · intro ptr' he
    cases he
    exact after_ok hput hlast hexp
  · show ((indexed _).map Prod.snd ++ ((slot ptr.p curIdx).toList ++
      held ((ptr.put curIdx curPkt).flush expIdx).1)).Perm _
    rw [indexed_snd]
    exact (List.perm_append_comm_assoc _ _ _).trans
      (((flush_perm (ptr.put curIdx curPkt) expIdx).append_left _).trans hperm)
  · intro ptr' he hfree hp
    cases he
    exact after_pend hput (put_pend hlt hfree hp)
  · intro i q hm
    have hi := hord.index i q hm
    rw [hslot] at hi
    split at hi
    · next heq =>
      rcases hi with hi | hi
      · cases hi
        exact Or.inr ⟨heq, rfl⟩
      · exact Or.inr hi
    · exact hi
  · intro i q hm j w _ hk hw
    exact hord.kept i q hm j w ((flush_slot hput hlast).mp hk).1 hk hw
  · intro q hq
    refine ⟨hq, Or.inr (mem_indexed.mpr (takeAll_of_mem ?_ ?_))⟩
    · obtain ⟨h1, h2, -⟩ := span_spec hput hlast
      refine (mem_circ (Nat.lt_succ_of_le hput.expIdx_le) h2).mpr ⟨?_, ?_⟩
      · show curIdx < ptr.maxIdx + 1
        omega
      · rw [hcur]
        show Slots.rank (ptr.maxIdx + 1) ptr.expIdx ptr.expIdx < _
        rw [rank_self]
        exact hcur ▸ h1
    · rw [hslot, if_pos rfl]

/-- The flow as a new hole finds it: everything held is released. -/
def ReorderInfo.cleared (ptr : ReorderInfo) (b : InfoBuf) : ReorderInfo where
  p := (ptr.flush ptr.expIdx).1
  maxIdx := b.maxIdx.toNat
  curIdx := b.curIdx.toNat
  expIdx := b.expIdx.toNat
  pendPkts := 0

theorem cleared_slot (h : FlowOk ptr) (b : InfoBuf) (j : Nat) : slot (ptr.cleared b).p j = none :=
  slot_of_held_nil (flush_all h)

theorem cleared_ok (h : FlowOk ptr) (hmax : b.maxIdx.toNat < ptr.p.length)
    (hexp : b.expIdx ≤ b.maxIdx) : FlowOk (ptr.cleared b) := by
  have hslots := flush_slots ptr ptr.expIdx
  refine ⟨?_, ?_, UInt8.le_iff_toNat_le.mp hexp, ?_, ?_, Nat.zero_lt_succ _⟩
  · exact hslots ▸ hmax
  · exact hslots ▸ h.length_le
  · intro i q hs
    rw [cleared_slot h b i] at hs
    cases hs
  · exact Nat.le_of_eq (congrArg List.length (flush_all h))

theorem newHole_eq (h : FlowOk ptr) (hcur : b.curIdx.toNat < ptr.p.length) :
    newHole ptr b curPkt = some ((ptr.cleared b).put b.curIdx.toNat curPkt,
      { chain := indexed (ptr.flush ptr.expIdx).2, pktCount := (ptr.flush ptr.expIdx).2.length,
        freed := none }) := by
  have hput : putPkt (ptr.cleared b) b.curIdx.toNat curPkt =
      some ((ptr.cleared b).put b.curIdx.toNat curPkt) :=
    putPkt_eq (by rwa [show (ptr.cleared b).p.length = ptr.p.length from flush_slots ptr _])
      (Nat.zero_lt_succ _)
  unfold newHole
  split
  · rw [getHostreorderPkts_self h h.expIdx_le]
    show (putPkt (ptr.cleared b) b.curIdx.toNat curPkt).bind _ = _
    rw [hput]
    rfl
  · next hpend =>
    -- nothing is held
    have hle := h.held_le
    have hnil : held ptr.p = [] := List.eq_nil_of_length_eq_zero (by omega)
    have hf : ptr.flush ptr.expIdx = (ptr.p, []) := takeAll_of_held_nil _ hnil
    have hc : ptr.cleared b = { ptr with curIdx := b.curIdx.toNat, expIdx := b.expIdx.toNat,
                                         maxIdx := b.maxIdx.toNat } := by
      unfold ReorderInfo.cleared
      rw [hf, show ptr.pendPkts = 0 by omega]
    show (putPkt { ptr with curIdx := b.curIdx.toNat, expIdx := b.expIdx.toNat,
                            maxIdx := b.maxIdx.toNat } b.curIdx.toNat curPkt).bind _ = _
    rw [← hc, hput, hf]
    rfl

/-- A new hole: the packet is the only one held. -/
theorem newHole_outcome (h : FlowOk ptr) (hmax : b.maxIdx.toNat < ptr.p.length)
    (hcur : b.curIdx ≤ b.maxIdx) (hexp : b.expIdx ≤ b.maxIdx) :
    ∃ ptr' r, newHole ptr b curPkt = some (ptr', r) ∧
      Outcome ptr b.curIdx.toNat curPkt (some ptr') r := by
  have hcur := UInt8.le_iff_toNat_le.mp hcur
  have hlt : b.curIdx.toNat < (ptr.cleared b).p.length := by
    rw [show (ptr.cleared b).p.length = ptr.p.length from flush_slots ptr _]
    omega
  have hok := cleared_ok h hmax hexp
  have hperm := @put_perm (ptr.cleared b) b.curIdx.toNat curPkt hlt
  rw [cleared_slot h b] at hperm
  refine ⟨_, _, newHole_eq h (by omega), ?_, ?_, (indexed_length _).symm, ?_, ?_, nofun⟩
  · intro ptr' he
    cases he
    exact put_ok hok hcur (Nat.zero_lt_succ _)
  · show ((indexed _).map Prod.snd ++ held _).Perm _
    rw [indexed_snd]
    exact (hperm.append_left _).trans (List.perm_middle.trans ((flush_perm ptr _).cons curPkt))
  · intro ptr' he _ _
    cases he
    exact put_pend hlt (cleared_slot h b _) (congrArg List.length (flush_all h)).symm
  · apply flush_inOrder h h.expIdx_le
    intro j w hk hw
    have hk : slot ((ptr.cleared b).put b.curIdx.toNat curPkt).p j = some w := hk
    rw [put_slot hlt] at hk
    split at hk
    · cases hk
      exact absurd rfl hw
    · exact hk

/-- **What a call does to a flow.** -/
theorem reorder_outcome (h : FlowOk ptr) (hok : reorderOk ptr b = true) :
    ∃ ptr' r, reorder ptr b curPkt = some (ptr', r) ∧
      Outcome ptr b.curIdx.toNat curPkt (some ptr') r := by
  have he := h.expIdx_le
  unfold reorderOk at hok
  unfold reorder
  dsimp only
  split at hok
  · next hnew =>
    obtain ⟨h1, h2, h3⟩ := of_decide_eq_true hok
    rw [if_pos hnew]
    exact newHole_outcome h h1 h2 h3
  · next hnew =>
    obtain ⟨hexp, hok⟩ := of_decide_eq_true hok
    rw [if_neg hnew]
    by_cases hvalid : b.has WLHOST_REORDERDATA_CURIDX_VALID = true
    · obtain ⟨hcur, hok⟩ := hok hvalid
      rw [if_pos hvalid]
      by_cases hin : b.expIdx.toNat = ptr.expIdx ∧ b.curIdx.toNat ≠ ptr.expIdx
      · rw [if_pos (Or.inl hin.1)] at hok
        rw [if_pos hin]
        exact inHole_outcome h hcur hok
      · rw [if_neg hin]
        by_cases hright : ptr.expIdx = b.curIdx.toNat
        · rw [if_pos (Or.inr hright)] at hok
          rw [if_pos hright]
          exact rightOne_outcome h hright.symm hexp hok
        · rw [if_neg (by omega)] at hok
          rw [if_neg hright]
          exact bothMoved_outcome h hcur hexp hok
    · rw [if_neg hvalid]
      exact moveWindow_outcome h hexp

end Branches

/-! ## Runs keep the packets -/

/-- The flow is in order, and every packet is in one place. -/
structure Inv (s : State) : Prop where
  flowOk : ∀ ptr, s.flow = some ptr → FlowOk ptr
  nodup : s.passed.Nodup
  perm : (s.chains.flatten ++ (s.freed ++ heldPkts s.flow)).Perm s.passed

theorem inv_init : Inv init := ⟨nofun, List.nodup_nil, List.Perm.refl _⟩

theorem flowOf_ok {s : State} (h : Inv s) (b : InfoBuf) : FlowOk (flowOf s b) := by
  unfold flowOf
  cases hf : s.flow with
  | none => exact newFlow_ok b.maxIdx
  | some ptr => exact h.flowOk ptr hf

theorem heldPkts_flowOf (s : State) (b : InfoBuf) : heldPkts s.flow = held (flowOf s b).p := by
  unfold flowOf
  cases s.flow with
  | none => exact (held_replicate _).symm
  | some ptr => rfl

/-- **What a call does.** -/
theorem processPktReorderInfo_outcome {s : State} (h : Inv s) {c : Call} (hok : sound s c = true) :
    ∃ flow r, processPktReorderInfo s.flow c.buf c.pkt c.malloc = some (flow, r) ∧
      Outcome (flowOf s c.buf) c.buf.curIdx.toNat c.pkt flow r := by
  have hflow := flowOf_ok h c.buf
  have hself : ∀ ptr', s.flow = some ptr' → ptr' = flowOf s c.buf := by
    intro ptr' he
    unfold flowOf
    rw [he]
    rfl
  unfold processPktReorderInfo
  by_cases hff : c.buf.flags = 0xFF
  · rw [if_pos hff]
    exact ⟨_, _, rfl, alone_outcome s.flow hself hflow (heldPkts_flowOf s c.buf)⟩
  · rw [if_neg hff]
    by_cases hdel : c.buf.has WLHOST_REORDERDATA_DEL_FLOW = true
    · rw [if_pos hdel]
      cases hf : s.flow with
      | none =>
        refine ⟨none, _, rfl, alone_outcome none nofun hflow ?_⟩
        rw [← heldPkts_flowOf, hf]
      | some ptr =>
        rw [← hself ptr hf] at hflow ⊢
        obtain ⟨flow, r, h1, -, h2⟩ := delFlow_outcome hflow
        exact ⟨flow, r, h1, h2⟩
    · have huse : usesFlow c.buf = true :=
        decide_eq_true ⟨hff, by rwa [Bool.not_eq_true] at hdel⟩
      obtain ⟨hmalloc, hok⟩ := of_decide_eq_true hok huse
      obtain ⟨ptr', r, hr, hout⟩ := @reorder_outcome c.buf _ c.pkt hflow hok
      rw [if_neg hdel]
      refine ⟨some ptr', r, ?_, hout⟩
      unfold flowOf at hr
      cases hf : s.flow with
      | none =>
        rw [hf] at hr
        show (if c.malloc = true then _ else _) = _
        rw [if_pos (hmalloc hf)]
        exact congrArg (Option.map _) hr
      | some ptr =>
        rw [hf] at hr
        exact congrArg (Option.map _) hr

variable {ptr ptr' : ReorderInfo}

theorem newHole_freed (h : newHole ptr b curPkt = some (ptr', r)) : r.freed = none := by
  unfold newHole at h
  split at h
  · obtain ⟨⟨_, _⟩, -, h⟩ := Option.bind_eq_some_iff.mp h
    obtain ⟨_, -, h⟩ := Option.bind_eq_some_iff.mp h
    cases h
    rfl
  · obtain ⟨⟨_, _⟩, -, h⟩ := Option.bind_eq_some_iff.mp h
    obtain ⟨_, -, h⟩ := Option.bind_eq_some_iff.mp h
    cases h
    rfl

theorem bothMoved_freed (h : bothMoved ptr b curPkt = some (ptr', r)) : r.freed = none := by
  obtain ⟨⟨_, _⟩, -, h⟩ := Option.bind_eq_some_iff.mp h
  dsimp only at h
  split at h
  · cases h
    rfl
  · obtain ⟨_, -, h⟩ := Option.bind_eq_some_iff.mp h
    cases h
    rfl

theorem moveWindow_freed (h : moveWindow ptr b curPkt = some (ptr', r)) : r.freed = none := by
  obtain ⟨⟨_, _⟩, -, h⟩ := Option.bind_eq_some_iff.mp h
  cases h
  rfl

theorem delFlow_freed {flow flow' : Option ReorderInfo}
    (h : delFlow flow curPkt = some (flow', r)) : r.freed = none := by
  unfold delFlow at h
  cases flow with
  | none =>
    cases h
    rfl
  | some ptr =>
    obtain ⟨⟨_, _⟩, -, h⟩ := Option.map_eq_some_iff.mp h
    dsimp only at h
    split at h <;> cases h <;> rfl

theorem inHole_freed {curIdx : Nat} (h : inHole ptr curIdx curPkt = some (ptr', r)) :
    r.freed = slot ptr.p curIdx := by
  obtain ⟨_, -, h⟩ := Option.bind_eq_some_iff.mp h
  cases h
  rfl

theorem rightOne_freed {curIdx expIdx : Nat}
    (h : rightOne ptr curIdx expIdx curPkt = some (ptr', r)) : r.freed = slot ptr.p curIdx := by
  obtain ⟨_, -, h⟩ := Option.bind_eq_some_iff.mp h
  obtain ⟨⟨_, _⟩, -, h⟩ := Option.bind_eq_some_iff.mp h
  cases h
  rfl

/-- Packets are freed only as duplicates. -/
theorem reorder_freed (h : reorder ptr b curPkt = some (ptr', r))
    (hdup : b.has WLHOST_REORDERDATA_NEW_HOLE = false →
      b.has WLHOST_REORDERDATA_CURIDX_VALID = true →
      b.expIdx.toNat = ptr.expIdx ∨ ptr.expIdx = b.curIdx.toNat →
      slot ptr.p b.curIdx.toNat = none) : r.freed = none := by
  unfold reorder at h
  dsimp only at h
  split at h
  · exact newHole_freed h
  · next hnew =>
    rw [Bool.not_eq_true] at hnew
    split at h
    · next hvalid =>
      split at h
      · next hin => rw [inHole_freed h, hdup hnew hvalid (Or.inl hin.1)]
      · split at h
        · next hright => rw [rightOne_freed h, hdup hnew hvalid (Or.inr hright)]
        · exact bothMoved_freed h
    · exact moveWindow_freed h

theorem freed_of_noDuplicate {s : State} {c : Call} {flow : Option ReorderInfo}
    (h : processPktReorderInfo s.flow c.buf c.pkt c.malloc = some (flow, r))
    (hdup : noDuplicate s c = true) : r.freed = none := by
  unfold noDuplicate usesFlow at hdup
  rw [decide_eq_true_iff, decide_eq_true_iff] at hdup
  unfold processPktReorderInfo at h
  split at h
  · cases h
    rfl
  · next hff =>
    split at h
    · exact delFlow_freed h
    · next hdel =>
      rw [Bool.not_eq_true] at hdel
      have hdup := hdup ⟨hff, hdel⟩
      unfold flowOf at hdup
      split at h
      · next ptr hf =>
        rw [hf] at hdup
        obtain ⟨⟨ptr', r'⟩, hr, h⟩ := Option.map_eq_some_iff.mp h
        cases h
        exact reorder_freed hr hdup
      · next hf =>
        rw [hf] at hdup
        split at h
        · obtain ⟨⟨ptr', r'⟩, hr, h⟩ := Option.map_eq_some_iff.mp h
          cases h
          exact reorder_freed hr hdup
        · cases h
          rfl

/-- `pend_pkts` is the number of packets held. -/
def Exact (s : State) : Prop := ∀ ptr, s.flow = some ptr → ptr.pendPkts = (held ptr.p).length

theorem exact_flowOf {s : State} (h : Exact s) (b : InfoBuf) :
    (flowOf s b).pendPkts = (held (flowOf s b).p).length := by
  unfold flowOf
  cases hf : s.flow with
  | none => exact (congrArg List.length (held_replicate _)).symm
  | some ptr => exact h ptr hf

/-- **One step.** -/
theorem step_spec {s : State} (h : Inv s) {c : Call} (hnew : c.pkt ∉ s.passed)
    (hok : sound s c = true) :
    ∃ s' r, step s c = some (s', r) ∧ Inv s' ∧
      Outcome (flowOf s c.buf) c.buf.curIdx.toNat c.pkt s'.flow r ∧
      (noDuplicate s c = true → Exact s → Exact s') := by
  obtain ⟨flow, r, hp, hout⟩ := processPktReorderInfo_outcome h hok
  refine ⟨{ flow := flow, passed := c.pkt :: s.passed,
            chains := r.chain.map Prod.snd :: s.chains, freed := r.freed.toList ++ s.freed },
    r, ?_, ⟨hout.flowOk, List.nodup_cons.mpr ⟨hnew, h.nodup⟩, ?_⟩, hout, ?_⟩
  · unfold step
    rw [if_neg hnew, hp]
    rfl
  · have hbefore := h.perm
    have hmoved := hout.perm
    rw [heldPkts_flowOf s c.buf] at hbefore
    rw [List.perm_iff_count] at hbefore hmoved ⊢
    intro q
    have h1 := hbefore q
    have h2 := hmoved q
    simp only [List.flatten_cons, List.count_append, List.count_cons] at h1 h2 ⊢
    omega
  · intro hdup hexact ptr' hf
    exact hout.pend ptr' hf (freed_of_noDuplicate hp hdup) (exact_flowOf hexact c.buf)

theorem pkt_new {s s' : State} {c : Call} (h : step s c = some (s', r)) :
    c.pkt ∉ s.passed := by
  unfold step at h
  split at h
  · cases h
  · assumption

theorem runs_keep (es : List Call) (s : State) (tr : List (Call × Result))
    (hm : meets step sound init es = true) (h : runs step init es = some (s, tr)) :
    Inv s ∧ ∀ x ∈ tr, x.2.pktCount = x.2.chain.length := by
  refine runs_inv_of_meets step sound
    (fun s tr => Inv s ∧ ∀ x ∈ tr, x.2.pktCount = x.2.chain.length)
    ?_ init s es tr ⟨inv_init, nofun⟩ hm h
  intro s tr c s' r ⟨hinv, hcount⟩ hok hs
  obtain ⟨s₁, r₁, hs₁, hinv', hout, -⟩ := step_spec hinv (pkt_new hs) hok
  rw [hs] at hs₁
  cases hs₁
  refine ⟨hinv', ?_⟩
  intro x hx
  rcases List.mem_append.mp hx with hx | hx
  · exact hcount x hx
  · cases List.mem_singleton.mp hx
    exact hout.count

theorem runs_exact (es : List Call) (s : State) (tr : List (Call × Result))
    (hm : meets step sound init es = true) (hd : meets step noDuplicate init es = true)
    (h : runs step init es = some (s, tr)) : Exact s := by
  have hboth : meets step (fun s c => sound s c && noDuplicate s c) init es = true :=
    meets_and step sound noDuplicate init es hm hd
  refine (runs_inv_of_meets step (fun s c => sound s c && noDuplicate s c)
    (fun s _ => Inv s ∧ Exact s) ?_ init s es tr ⟨inv_init, nofun⟩ hboth h).2
  intro s tr c s' r ⟨hinv, hexact⟩ hok hs
  obtain ⟨hok, hdup⟩ := (Bool.and_eq_true _ _).mp hok
  obtain ⟨s₁, r₁, hs₁, hinv', -, hex⟩ := step_spec hinv (pkt_new hs) hok
  rw [hs] at hs₁
  cases hs₁
  exact ⟨hinv', hex hdup hexact⟩

/-! ## Top theorem -/

/-- **Every frame once and in order.**  In a run whose calls meet the condition no call fails,
each packet passed in is in one slot, in one chain returned, or freed for the packet that took
its slot; the counts are those of the chains; chains are in circular order.  `pend_pkts` is not
below the number of packets held, and is that number if there were no duplicates. -/
theorem host_reorder_exact (es : List Call) (s : State) (tr : List (Call × Result))
    (hm : meets step sound init es = true) (h : runs step init es = some (s, tr)) :
    (∀ q ∈ s.passed, (s.chains.flatten ++ (s.freed ++ heldPkts s.flow)).count q = 1) ∧
    (∀ x ∈ tr, x.2.pktCount = x.2.chain.length) ∧
    (∀ ptr, s.flow = some ptr → (held ptr.p).length ≤ ptr.pendPkts) ∧
    (meets step noDuplicate init es = true →
      ∀ ptr, s.flow = some ptr → ptr.pendPkts = (held ptr.p).length) ∧
    ∀ c, c.pkt ∉ s.passed → sound s c = true →
      ∃ s' r, step s c = some (s', r) ∧
        InOrder (flowOf s c.buf) s'.flow c.buf.curIdx.toNat c.pkt r.chain ∧
        ∀ q, r.freed = some q → slot (flowOf s c.buf).p c.buf.curIdx.toNat = some q ∧
          (slotOf s'.flow c.buf.curIdx.toNat = some c.pkt ∨
            (some c.buf.curIdx.toNat, c.pkt) ∈ r.chain) := by
  obtain ⟨hinv, hcount⟩ := runs_keep es s tr hm h
  refine ⟨?_, hcount, fun ptr hf => (hinv.flowOk ptr hf).held_le,
    fun hd => runs_exact es s tr hm hd h, ?_⟩
  · intro q hq
    rw [hinv.perm.count_eq]
    exact List.count_eq_one_of_mem hinv.nodup hq
  · intro c hnew hok
    obtain ⟨s', r, hs, -, hout, -⟩ := step_spec hinv hnew hok
    exact ⟨s', r, hs, hout.order, hout.replaced⟩

/-- A frame with both indexes valid. -/
def frame (flags maxIdx curIdx expIdx : UInt8) (pkt : Nat) : Call where
  buf := { flags := flags, maxIdx := maxIdx, curIdx := curIdx, expIdx := expIdx }
  pkt := pkt
  malloc := true

/-- A hole that is filled: frames 1 and 2 wait for frame 0. -/
theorem host_reorder_exact_two :
    ∃ s tr, runs step init [frame 0x1c 3 1 0 11, frame 0xc 3 2 0 12, frame 0xc 3 0 3 10] =
        some (s, tr) ∧
      s.chains = [[10, 11, 12], [], []] ∧
      ∀ q ∈ s.passed, (s.chains.flatten ++ (s.freed ++ heldPkts s.flow)).count q = 1 := by
  obtain ⟨s, tr, h⟩ : ∃ s tr, runs step init
    [frame 0x1c 3 1 0 11, frame 0xc 3 2 0 12, frame 0xc 3 0 3 10] = some (s, tr) := ⟨_, _, rfl⟩
  refine ⟨s, tr, h, ?_, (host_reorder_exact _ s tr (by decide +kernel) h).1⟩
  cases h
  rfl

/-- The allocation fails: one packet is announced, and it is nowhere.  A duplicate in the hole is
counted again.  When both indexes move, what was in the slot is lost.  FLUSH_ALL releases
frame 2 behind frame 5. -/
theorem host_reorder_exact_fails :
    (step init { frame 0xc 7 0 1 10 with malloc := false }).map
      (fun x => (x.1.flow, x.2.chain, x.2.pktCount)) = some (none, [], 1) ∧
    (runs step init [frame 0x1c 7 1 0 11, frame 0xc 7 1 0 12]).map
      (fun x => (x.1.flow.map fun ptr => (ptr.pendPkts, held ptr.p))) = some (some (2, [12])) ∧
    (runs step init [frame 0x1c 7 5 0 15, frame 0xc 7 5 1 16]).map
      (fun x => (x.1.chains, x.1.freed, heldPkts x.1.flow)) = some ([[], []], [], [16]) ∧
    (runs step init [frame 0x1c 7 1 0 11, frame 0xc 7 5 0 15, frame 0xe 7 2 3 12]).map
      (fun x => x.1.chains) = some [[11, 15, 12], [], []] := by
  refine ⟨?_, ?_, ?_, ?_⟩ <;> rfl

/-! ## Counts in any state

What a call returns, whether it meets the conditions above or not. -/

/-- As many packets are returned as are counted, one more than the loop links at most. -/
def CountOk (r : Result) : Prop := r.pktCount = r.chain.length ∧ r.pktCount ≤ 0x102

theorem getLoop_length {maxIdx last fuel start : Nat} {p q : List (Option Nat)}
    {out : List (Nat × Nat)} (h : getLoop maxIdx last fuel p start = some (q, out)) :
    out.length ≤ fuel := by
  induction fuel generalizing p q start out with
  | zero => cases h
  | succ fuel ih =>
    have hlink : (match slot p start with
        | none => []
        | some q => [(start, q)]).length ≤ 1 := by
      split
      · exact Nat.zero_le 1
      · exact Nat.le_refl 1
    unfold getLoop at h
    dsimp only at h
    split at h
    · cases h
    · generalize (if (start + 1) % 0x100 > maxIdx then 0 else (start + 1) % 0x100) = next at h
      split at h
      · cases h
        exact Nat.le_trans hlink (Nat.le_add_left 1 fuel)
      · obtain ⟨⟨r, rest⟩, hrest, heq⟩ := Option.map_eq_some_iff.mp h
        obtain ⟨-, rfl⟩ := Prod.ext_iff.mp heq
        have hle := ih hrest
        rw [List.length_append]
        exact Nat.le_trans (Nat.add_le_add hlink hle) (Nat.le_of_eq (Nat.add_comm 1 fuel))

theorem getHostreorderPkts_length {start last : Nat} {out : List (Nat × Nat)}
    (h : getHostreorderPkts ptr start last = some (ptr', out)) :
    out.length ≤ 0x101 := by
  unfold getHostreorderPkts at h
  split at h
  · cases h
    exact Nat.zero_le _
  · obtain ⟨⟨p, rest⟩, hrest, heq⟩ := Option.map_eq_some_iff.mp h
    obtain ⟨-, rfl⟩ := Prod.ext_iff.mp heq
    exact getLoop_length hrest

theorem countOk_indexed {out : List (Nat × Nat)} {freed : Option Nat} (h : out.length ≤ 0x101) :
    CountOk ⟨indexed out, out.length, freed⟩ := by
  refine ⟨?_, Nat.le_succ_of_le h⟩
  exact (List.length_map _).symm

theorem countOk_concat {out : List (Nat × Nat)} {x : Option Nat × Nat} {freed : Option Nat}
    (h : out.length ≤ 0x101) : CountOk ⟨indexed out ++ [x], out.length + 1, freed⟩ := by
  refine ⟨?_, Nat.succ_le_succ h⟩
  rw [List.length_append, List.length_singleton]
  exact congrArg (· + 1) (List.length_map _).symm

theorem newHole_count (h : newHole ptr b curPkt = some (ptr', r)) : CountOk r := by
  unfold newHole at h
  split at h
  · obtain ⟨⟨_, out⟩, hflush, h⟩ := Option.bind_eq_some_iff.mp h
    obtain ⟨⟨_, _⟩, hget, heq⟩ := Option.map_eq_some_iff.mp hflush
    cases heq
    obtain ⟨_, -, h⟩ := Option.bind_eq_some_iff.mp h
    cases h
    exact countOk_indexed (getHostreorderPkts_length hget)
  · obtain ⟨⟨_, _⟩, hnil, h⟩ := Option.bind_eq_some_iff.mp h
    obtain ⟨_, -, h⟩ := Option.bind_eq_some_iff.mp h
    cases h
    cases hnil
    exact ⟨rfl, Nat.zero_le _⟩

theorem bothMoved_count (h : bothMoved ptr b curPkt = some (ptr', r)) : CountOk r := by
  obtain ⟨⟨_, _⟩, hget, h⟩ := Option.bind_eq_some_iff.mp h
  have hlen := getHostreorderPkts_length hget
  dsimp only at h
  split at h
  · cases h
    exact countOk_concat hlen
  · obtain ⟨_, -, h⟩ := Option.bind_eq_some_iff.mp h
    cases h
    exact countOk_indexed hlen

theorem reorder_count (h : reorder ptr b curPkt = some (ptr', r)) : CountOk r := by
  unfold reorder at h
  dsimp only at h
  split at h
  · exact newHole_count h
  split at h
  · split at h
    · obtain ⟨_, -, h⟩ := Option.bind_eq_some_iff.mp h
      cases h
      exact ⟨rfl, Nat.zero_le _⟩
    split at h
    · obtain ⟨_, -, h⟩ := Option.bind_eq_some_iff.mp h
      obtain ⟨⟨_, _⟩, hget, h⟩ := Option.bind_eq_some_iff.mp h
      cases h
      exact countOk_indexed (getHostreorderPkts_length hget)
    · exact bothMoved_count h
  · obtain ⟨⟨_, _⟩, hget, h⟩ := Option.bind_eq_some_iff.mp h
    cases h
    exact countOk_concat (getHostreorderPkts_length hget)

/-- Where memory is there, the count is that of the chain. -/
theorem processPktReorderInfo_count {flow flow' : Option ReorderInfo}
    (h : processPktReorderInfo flow b curPkt true = some (flow', r)) : CountOk r := by
  have halone : CountOk (alone curPkt) := ⟨rfl, Nat.le_add_left 1 _⟩
  unfold processPktReorderInfo at h
  split at h
  · cases h
    exact halone
  split at h
  · unfold delFlow at h
    cases flow with
    | none =>
      cases h
      exact halone
    | some ptr =>
      obtain ⟨⟨_, out⟩, hget, h⟩ := Option.map_eq_some_iff.mp h
      dsimp only at h
      split at h
      · cases h
        exact halone
      · cases h
        exact countOk_concat (getHostreorderPkts_length hget)
  · cases flow with
    | none =>
      obtain ⟨⟨_, _⟩, hr, h⟩ := Option.map_eq_some_iff.mp h
      cases h
      exact reorder_count hr
    | some ptr =>
      obtain ⟨⟨_, _⟩, hr, h⟩ := Option.map_eq_some_iff.mp h
      cases h
      exact reorder_count hr

end Bcmdhd.HostReorder
