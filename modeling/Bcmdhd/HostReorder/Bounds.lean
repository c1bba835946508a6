import Bcmdhd.HostReorder

/-!
# Host reordering with any indexes (`dhd_cdc.c`)

The indexes come from the device and are not validated.  A flush goes up from `start`, and from
`maxIdx` to 0, until it is at `last`; `maxIdx` may have been raised above the slots that were
allocated.

    getLoop ends inside the slots  ↔  flushOk          (getLoop_isSome_iff)
    a run of calls, of any flows, goes through  ↔  every call is safe where it is made
                                                       (reorder_safe_iff)
-/

namespace Bcmdhd.HostReorder

open Runs Slots

/-! ## Conditions -/

/-- A flush of `n` slots.  Where `maxIdx` is one of them it comes round to every index up to it;
else it has to stop before it leaves the slots. -/
def flushOk (n maxIdx start last : Nat) : Bool :=
  start < n && if maxIdx < n then last ≤ maxIdx else start < last && last ≤ n

def ReorderInfo.flushOk (ptr : ReorderInfo) (start last : Nat) : Bool :=
  ptr.pendPkts = 0 || HostReorder.flushOk ptr.p.length ptr.maxIdx start last

/-- A packet put in slot `curIdx` -/
def ReorderInfo.putOk (ptr : ReorderInfo) (curIdx : Nat) : Bool := curIdx < ptr.p.length

def rightOneOk (ptr : ReorderInfo) (curIdx expIdx : Nat) : Bool :=
  ptr.putOk curIdx &&
    ((ptr.pendPkts + 1) % 0x100 = 0 || flushOk ptr.p.length ptr.maxIdx curIdx expIdx)

def reorderSafe (ptr : ReorderInfo) (b : InfoBuf) : Bool :=
  let curIdx := b.curIdx.toNat
  let expIdx := b.expIdx.toNat
  if b.has WLHOST_REORDERDATA_NEW_HOLE then
    ptr.flushOk ptr.expIdx ptr.expIdx && ptr.putOk curIdx
  else if b.has WLHOST_REORDERDATA_CURIDX_VALID then
    if expIdx = ptr.expIdx ∧ curIdx ≠ ptr.expIdx then ptr.putOk curIdx
    else if ptr.expIdx = curIdx then rightOneOk ptr curIdx expIdx
    else ptr.flushOk ptr.expIdx (endIdx ptr b) && (flushCurrent ptr curIdx expIdx || ptr.putOk curIdx)
  else ptr.flushOk ptr.expIdx (endIdx ptr b)

/-- A call for a flow; one that does not use the flow is safe. -/
def callSafe (flow : Option ReorderInfo) (b : InfoBuf) (malloc : Bool) : Bool :=
  if b.flags = 0xFF then true
  else if b.has WLHOST_REORDERDATA_DEL_FLOW then flow.all fun ptr => ptr.flushOk ptr.expIdx ptr.expIdx
  else
    match flow with
    | some ptr => reorderSafe ptr b
    | none => !malloc || reorderSafe (newFlow b.maxIdx.toNat) b

/-! ## The loop -/

theorem flushOk_iff {n maxIdx start last : Nat} :
    flushOk n maxIdx start last = true ↔
      start < n ∧ (maxIdx < n ∧ last ≤ maxIdx ∨ n ≤ maxIdx ∧ start < last ∧ last ≤ n) := by
  unfold flushOk
  split <;> simp <;> omega

def nextIdx (maxIdx start : Nat) : Nat :=
  if (start + 1) % 0x100 > maxIdx then 0 else (start + 1) % 0x100

theorem getLoop_succ (maxIdx last fuel : Nat) (p : List (Option Nat)) (start : Nat) :
    (getLoop maxIdx last (fuel + 1) p start).isSome = true ↔
      start < p.length ∧ (nextIdx maxIdx start = last ∨
        (getLoop maxIdx last fuel (p.set start none) (nextIdx maxIdx start)).isSome = true) := by
  have hnext : (if (start + 1) % 0x100 > maxIdx then 0 else (start + 1) % 0x100) =
      nextIdx maxIdx start := rfl
  rw [getLoop]
  dsimp only
  rw [hnext]
  by_cases hlt : p.length ≤ start
  · rw [if_pos hlt]
    exact iff_of_false Bool.false_ne_true fun hc => Nat.not_lt.mpr hlt hc.1
  · rw [if_neg hlt]
    by_cases hend : nextIdx maxIdx start = last
    · rw [if_pos hend]
      exact iff_of_true rfl ⟨by omega, .inl hend⟩
    · rw [if_neg hend, Option.isSome_map]
      constructor
      · exact fun hs => ⟨by omega, .inr hs⟩
      · rintro ⟨-, he | hs⟩
        · exact absurd he hend
        · exact hs

/-- Slots that a flush goes through, where it ends. -/
def flushSteps (maxIdx start last : Nat) : Nat :=
  if start ≤ maxIdx then if start < last then last - start else maxIdx + 1 - start + last
  else last + 1

/-- One slot less is left, or the flush is at its end. -/
theorem flushOk_next {n maxIdx start last : Nat} (hn : n ≤ 0x100) (hmax : maxIdx < 0x100)
    (h : flushOk n maxIdx start last = true) (hend : nextIdx maxIdx start ≠ last) :
    flushOk n maxIdx (nextIdx maxIdx start) last = true ∧
      flushSteps maxIdx (nextIdx maxIdx start) last + 1 = flushSteps maxIdx start last := by
  rw [flushOk_iff] at h ⊢
  unfold nextIdx flushSteps at *
  by_cases hover : (start + 1) % 0x100 > maxIdx
  · rw [if_pos hover] at hend ⊢
    rw [if_pos (Nat.zero_le maxIdx)]
    split_ifs <;> omega
  · rw [if_neg hover] at hend ⊢
    split_ifs <;> omega

theorem getLoop_isSome {maxIdx start last fuel : Nat} {p : List (Option Nat)}
    (hlen : p.length ≤ 0x100) (hmax : maxIdx < 0x100)
    (h : flushOk p.length maxIdx start last = true) (hfuel : flushSteps maxIdx start last ≤ fuel) :
    (getLoop maxIdx last fuel p start).isSome = true := by
  induction fuel generalizing p start with
  | zero =>
    rw [flushOk_iff] at h
    unfold flushSteps at hfuel
    split at hfuel
    · split at hfuel <;> omega
    · omega
  | succ fuel ih =>
    rw [getLoop_succ]
    refine ⟨(flushOk_iff.mp h).1, ?_⟩
    by_cases hend : nextIdx maxIdx start = last
    · exact .inl hend
    · right
      obtain ⟨hok, hsteps⟩ := flushOk_next hlen hmax h hend
      apply ih
      · rwa [List.length_set]
      · rwa [List.length_set]
      · omega

/-- Otherwise the loop leaves the slots or goes round for ever: no fuel is enough. -/
theorem getLoop_eq_none {maxIdx start last : Nat} {p : List (Option Nat)} (hlen : p.length ≤ 0x100)
    (hmax : maxIdx < 0x100) (h : flushOk p.length maxIdx start last = false) (fuel : Nat) :
    getLoop maxIdx last fuel p start = none := by
  induction fuel generalizing p start with
  | zero => rfl
  | succ fuel ih =>
    have hno : ¬ flushOk p.length maxIdx start last = true := by simp [h]
    rw [flushOk_iff] at hno
    rw [← Option.not_isSome_iff_eq_none, getLoop_succ]
    rintro ⟨hlt, hend⟩
    -- the next index is not the end, and no better
    have hnext : nextIdx maxIdx start ≠ last ∧
        ¬ (nextIdx maxIdx start < p.length ∧ (maxIdx < p.length ∧ last ≤ maxIdx ∨
          p.length ≤ maxIdx ∧ nextIdx maxIdx start < last ∧ last ≤ p.length)) := by
      unfold nextIdx
      split <;> omega
    rcases hend with he | hs
    · exact hnext.1 he
    · have hbad : flushOk (p.set start none).length maxIdx (nextIdx maxIdx start) last = false := by
        rw [List.length_set, ← Bool.not_eq_true, flushOk_iff]
        exact hnext.2
      rw [ih (by rwa [List.length_set]) hbad] at hs
      cases hs

/-- **A flush ends inside the slots just when `flushOk` holds**, and then in at most 0x100 steps. -/
theorem getLoop_isSome_iff {maxIdx start last fuel : Nat} {p : List (Option Nat)}
    (hlen : p.length ≤ 0x100) (hmax : maxIdx < 0x100) (hfuel : 0x100 ≤ fuel) :
    (getLoop maxIdx last fuel p start).isSome = true ↔ flushOk p.length maxIdx start last = true := by
  cases hok : flushOk p.length maxIdx start last with
  | true =>
    refine iff_of_true (getLoop_isSome hlen hmax hok ?_) rfl
    rw [flushOk_iff] at hok
    unfold flushSteps
    split
    · split <;> omega
    · omega
  | false =>
    rw [getLoop_eq_none hlen hmax hok]
    exact iff_of_false Bool.false_ne_true Bool.false_ne_true

/-! ## One call -/

/-- What the bytes of the device leave of a flow: its indexes are bytes. -/
structure Bytes (ptr : ReorderInfo) : Prop where
  length_le : ptr.p.length ≤ 0x100
  maxIdx_lt : ptr.maxIdx < 0x100

theorem newFlow_bytes (maxIdx : UInt8) : Bytes (newFlow maxIdx.toNat) where
  length_le := by
    have hlt := maxIdx.toNat_lt
    unfold newFlow
    rw [List.length_replicate]
    omega
  maxIdx_lt := maxIdx.toNat_lt

/-- The rest of a computation that goes through for every result, or for none. -/
theorem isSome_bind {α β : Type} {x : Option α} {f : α → Option β} {c : Bool}
    (h : ∀ a, x = some a → (f a).isSome = c) : (x.bind f).isSome = (x.isSome && c) := by
  cases x with
  | none => rfl
  | some a => exact h a rfl

section
variable {ptr ptr' : ReorderInfo} {start last curIdx expIdx curPkt : Nat} {b : InfoBuf}
  {out : List (Nat × Nat)} {r : Result}

theorem getLoop_slots {maxIdx fuel : Nat} {p q : List (Option Nat)}
    (h : getLoop maxIdx last fuel p start = some (q, out)) : q.length = p.length := by
  induction fuel generalizing p start out with
  | zero => cases h
  | succ fuel ih =>
    rw [getLoop] at h
    dsimp only at h
    split at h
    · cases h
    · generalize (if (start + 1) % 0x100 > maxIdx then 0 else (start + 1) % 0x100) = next at h
      split at h
      · cases h
        exact List.length_set
      · obtain ⟨⟨q', out'⟩, hrec, heq⟩ := Option.map_eq_some_iff.mp h
        cases heq
        rw [ih hrec, List.length_set]

theorem getHostreorderPkts_frame (h : getHostreorderPkts ptr start last = some (ptr', out)) :
    ptr'.p.length = ptr.p.length ∧ ptr'.maxIdx = ptr.maxIdx := by
  unfold getHostreorderPkts at h
  split at h
  · cases h
    exact ⟨rfl, rfl⟩
  · obtain ⟨⟨q, out'⟩, hloop, heq⟩ := Option.map_eq_some_iff.mp h
    cases heq
    exact ⟨getLoop_slots hloop, rfl⟩

theorem getHostreorderPkts_isSome (hb : Bytes ptr) (start last : Nat) :
    (getHostreorderPkts ptr start last).isSome = ptr.flushOk start last := by
  unfold getHostreorderPkts ReorderInfo.flushOk
  by_cases h0 : ptr.pendPkts = 0
  · rw [if_pos h0, decide_eq_true h0]
    rfl
  · rw [if_neg h0, decide_eq_false h0, Option.isSome_map, Bool.false_or, Bool.eq_iff_iff]
    exact getLoop_isSome_iff hb.length_le hb.maxIdx_lt (by decide)

theorem putPkt_isSome (ptr : ReorderInfo) (curIdx curPkt : Nat) :
    (putPkt ptr curIdx curPkt).isSome = ptr.putOk curIdx := by
  unfold putPkt ReorderInfo.putOk
  split
  · next hle => exact (decide_eq_false (Nat.not_lt.mpr hle)).symm
  · next hlt => exact (decide_eq_true (Nat.not_le.mp hlt)).symm

theorem putPkt_frame (h : putPkt ptr curIdx curPkt = some ptr') :
    ptr'.p.length = ptr.p.length ∧ ptr'.maxIdx = ptr.maxIdx ∧
      ptr'.pendPkts = (ptr.pendPkts + 1) % 0x100 := by
  unfold putPkt at h
  split at h
  · cases h
  · cases h
    exact ⟨List.length_set, rfl, rfl⟩

theorem newHole_isSome (hb : Bytes ptr) (b : InfoBuf) (curPkt : Nat) :
    (newHole ptr b curPkt).isSome =
      (ptr.flushOk ptr.expIdx ptr.expIdx && ptr.putOk b.curIdx.toNat) := by
  unfold newHole
  split
  · next h0 =>
    refine (isSome_bind (c := ptr.putOk b.curIdx.toNat) ?_).trans ?_
    · rintro ⟨t, out⟩ hflush
      obtain ⟨⟨t', out'⟩, hget, heq⟩ := Option.map_eq_some_iff.mp hflush
      cases heq
      refine (isSome_bind (c := true) fun _ _ => rfl).trans ?_
      rw [Bool.and_true, putPkt_isSome]
      unfold ReorderInfo.putOk
      dsimp only
      rw [(getHostreorderPkts_frame hget).1]
    · rw [Option.isSome_map, getHostreorderPkts_isSome hb]
  · next h0 =>
    have hzero : ptr.pendPkts = 0 := not_not.mp h0
    refine (isSome_bind (c := ptr.putOk b.curIdx.toNat) ?_).trans ?_
    · rintro ⟨t, out⟩ ht
      cases ht
      refine (isSome_bind (c := true) fun _ _ => rfl).trans ?_
      rw [Bool.and_true, putPkt_isSome]
      rfl
    · unfold ReorderInfo.flushOk
      rw [decide_eq_true hzero]
      rfl

theorem inHole_isSome (ptr : ReorderInfo) (curIdx curPkt : Nat) :
    (inHole ptr curIdx curPkt).isSome = ptr.putOk curIdx := by
  refine (isSome_bind (c := true) fun _ _ => rfl).trans ?_
  rw [Bool.and_true, putPkt_isSome]

theorem rightOne_isSome (hb : Bytes ptr) (curIdx expIdx curPkt : Nat) :
    (rightOne ptr curIdx expIdx curPkt).isSome = rightOneOk ptr curIdx expIdx := by
  unfold rightOneOk
  rw [← putPkt_isSome ptr curIdx curPkt]
  refine isSome_bind fun t ht => ?_
  obtain ⟨hlen, hmax, hpend⟩ := putPkt_frame ht
  refine (isSome_bind (c := true) fun _ _ => rfl).trans ?_
  have hbt : Bytes { t with curIdx := curIdx, expIdx := expIdx } :=
    ⟨hlen ▸ hb.length_le, hmax ▸ hb.maxIdx_lt⟩
  rw [Bool.and_true, getHostreorderPkts_isSome hbt]
  unfold ReorderInfo.flushOk
  dsimp only
  rw [hlen, hmax, hpend]

theorem bothMoved_isSome (hb : Bytes ptr) (b : InfoBuf) (curPkt : Nat) :
    (bothMoved ptr b curPkt).isSome =
      (ptr.flushOk ptr.expIdx (endIdx ptr b) &&
        (flushCurrent ptr b.curIdx.toNat b.expIdx.toNat || ptr.putOk b.curIdx.toNat)) := by
  rw [← getHostreorderPkts_isSome hb]
  refine isSome_bind ?_
  rintro ⟨t, out⟩ hget
  dsimp only
  split
  · next hcur =>
    rw [hcur]
    rfl
  · next hcur =>
    refine (isSome_bind (c := true) fun _ _ => rfl).trans ?_
    rw [Bool.and_true, putPkt_isSome, Bool.eq_false_iff.mpr hcur, Bool.false_or]
    unfold ReorderInfo.putOk
    rw [(getHostreorderPkts_frame hget).1]

theorem moveWindow_isSome (hb : Bytes ptr) (b : InfoBuf) (curPkt : Nat) :
    (moveWindow ptr b curPkt).isSome = ptr.flushOk ptr.expIdx (endIdx ptr b) := by
  refine (isSome_bind (c := true) fun _ _ => rfl).trans ?_
  rw [Bool.and_true, getHostreorderPkts_isSome hb]

/-- Each branch goes through just when it is safe. -/
theorem reorder_isSome (hb : Bytes ptr) (b : InfoBuf) (curPkt : Nat) :
    (reorder ptr b curPkt).isSome = reorderSafe ptr b := by
  unfold reorder reorderSafe
  dsimp only
  split
  · exact newHole_isSome hb b curPkt
  · split
    · split
      · exact inHole_isSome ptr _ curPkt
      · split
        · exact rightOne_isSome hb _ _ curPkt
        · exact bothMoved_isSome hb b curPkt
    · exact moveWindow_isSome hb b curPkt

/-! ## What stays -/

theorem newHole_bytes (hb : Bytes ptr) (h : newHole ptr b curPkt = some (ptr', r)) :
    Bytes ptr' := by
  have hput : ∀ (t : ReorderInfo) {u : ReorderInfo}, t.p.length = ptr.p.length →
      putPkt { t with curIdx := b.curIdx.toNat, expIdx := b.expIdx.toNat,
                      maxIdx := b.maxIdx.toNat } b.curIdx.toNat curPkt = some u → Bytes u := by
    intro t u ht hu
    obtain ⟨hlen, hmax, -⟩ := putPkt_frame hu
    refine ⟨?_, ?_⟩
    · rw [hlen]
      exact ht ▸ hb.length_le
    · rw [hmax]
      exact b.maxIdx.toNat_lt
  unfold newHole at h
  split at h
  · obtain ⟨⟨t, out⟩, hflush, h⟩ := Option.bind_eq_some_iff.mp h
    obtain ⟨⟨t', out'⟩, hget, heq⟩ := Option.map_eq_some_iff.mp hflush
    cases heq
    obtain ⟨u, hu, h⟩ := Option.bind_eq_some_iff.mp h
    cases h
    exact hput { t' with pendPkts := 0 } (getHostreorderPkts_frame hget).1 hu
  · obtain ⟨⟨t, out⟩, ht, h⟩ := Option.bind_eq_some_iff.mp h
    cases ht
    obtain ⟨u, hu, h⟩ := Option.bind_eq_some_iff.mp h
    cases h
    exact hput ptr rfl hu

theorem inHole_bytes (hb : Bytes ptr) (h : inHole ptr curIdx curPkt = some (ptr', r)) :
    Bytes ptr' := by
  obtain ⟨t, ht, h⟩ := Option.bind_eq_some_iff.mp h
  cases h
  obtain ⟨hlen, hmax, -⟩ := putPkt_frame ht
  exact ⟨hlen ▸ hb.length_le, hmax ▸ hb.maxIdx_lt⟩

theorem rightOne_bytes (hb : Bytes ptr) (h : rightOne ptr curIdx expIdx curPkt = some (ptr', r)) :
    Bytes ptr' := by
  obtain ⟨t, ht, h⟩ := Option.bind_eq_some_iff.mp h
  obtain ⟨⟨u, out⟩, hu, h⟩ := Option.bind_eq_some_iff.mp h
  cases h
  obtain ⟨hlen, hmax, -⟩ := putPkt_frame ht
  obtain ⟨hlen', hmax'⟩ := getHostreorderPkts_frame hu
  exact ⟨by rw [hlen']; exact hlen ▸ hb.length_le, by rw [hmax']; exact hmax ▸ hb.maxIdx_lt⟩

theorem bothMoved_bytes (hb : Bytes ptr) (h : bothMoved ptr b curPkt = some (ptr', r)) :
    Bytes ptr' := by
  obtain ⟨⟨t, out⟩, hget, h⟩ := Option.bind_eq_some_iff.mp h
  obtain ⟨hlen, hmax⟩ := getHostreorderPkts_frame hget
  dsimp only at h
  split at h
  · cases h
    exact ⟨hlen ▸ hb.length_le, hmax ▸ hb.maxIdx_lt⟩
  · obtain ⟨u, hu, h⟩ := Option.bind_eq_some_iff.mp h
    cases h
    obtain ⟨hlen', hmax', -⟩ := putPkt_frame hu
    exact ⟨by rw [hlen']; exact hlen ▸ hb.length_le, by rw [hmax']; exact hmax ▸ hb.maxIdx_lt⟩

theorem moveWindow_bytes (hb : Bytes ptr) (h : moveWindow ptr b curPkt = some (ptr', r)) :
    Bytes ptr' := by
  obtain ⟨⟨t, out⟩, hget, h⟩ := Option.bind_eq_some_iff.mp h
  obtain ⟨hlen, hmax⟩ := getHostreorderPkts_frame hget
  cases h
  exact ⟨hlen ▸ hb.length_le, hmax ▸ hb.maxIdx_lt⟩

theorem reorder_bytes (hb : Bytes ptr) (h : reorder ptr b curPkt = some (ptr', r)) :
    Bytes ptr' := by
  unfold reorder at h
  dsimp only at h
  split at h
  · exact newHole_bytes hb h
  · split at h
    · split at h
      · exact inHole_bytes hb h
      · split at h
        · exact rightOne_bytes hb h
        · exact bothMoved_bytes hb h
    · exact moveWindow_bytes hb h

end

/-! ## Runs over all flows -/

/-- `reorder_bufs` -/
abbrev ReorderBufs := UInt8 → Option ReorderInfo

/-- A packet with its reorder info, and whether an allocation succeeds. -/
structure Msg where
  flowId : UInt8
  buf : InfoBuf
  pkt : Nat
  malloc : Bool

def noFlows : ReorderBufs := fun _ => none

/-- `dhd_process_pkt_reorder_info`; not enabled where a slot outside is touched, or the loop does
not end. -/
def process (s : ReorderBufs) (m : Msg) : Option (ReorderBufs × Result) :=
  (processPktReorderInfo (s m.flowId) m.buf m.pkt m.malloc).map fun (flow, r) =>
    (Function.update s m.flowId flow, r)

def safe (s : ReorderBufs) (m : Msg) : Bool := callSafe (s m.flowId) m.buf m.malloc

/-- Every flow has bytes for indexes. -/
def AllBytes (s : ReorderBufs) : Prop := ∀ i, ∀ ptr ∈ s i, Bytes ptr

theorem noFlows_bytes : AllBytes noFlows := nofun

theorem processPktReorderInfo_isSome {flow : Option ReorderInfo} (hb : ∀ ptr ∈ flow, Bytes ptr)
    (b : InfoBuf) (curPkt : Nat) (malloc : Bool) :
    (processPktReorderInfo flow b curPkt malloc).isSome = callSafe flow b malloc := by
  unfold processPktReorderInfo callSafe
  split
  · rfl
  · split
    · unfold delFlow
      cases flow with
      | none => rfl
      | some ptr =>
        show (Option.map _ _).isSome = _
        rw [Option.isSome_map, getHostreorderPkts_isSome (hb ptr rfl)]
        rfl
    · cases flow with
      | some ptr =>
        show (Option.map _ _).isSome = _
        rw [Option.isSome_map, reorder_isSome (hb ptr rfl)]
      | none =>
        cases malloc with
        | true =>
          show (Option.map _ _).isSome = _
          rw [Option.isSome_map, reorder_isSome (newFlow_bytes b.maxIdx)]
          rfl
        | false => rfl

theorem noFlow_bytes : ∀ ptr ∈ (none : Option ReorderInfo), Bytes ptr := by
  intro ptr hptr
  cases hptr

theorem processPktReorderInfo_bytes {flow flow' : Option ReorderInfo}
    (hb : ∀ ptr ∈ flow, Bytes ptr) {b : InfoBuf} {curPkt : Nat} {malloc : Bool} {r : Result}
    (h : processPktReorderInfo flow b curPkt malloc = some (flow', r)) :
    ∀ ptr ∈ flow', Bytes ptr := by
  have hre : ∀ {ptr : ReorderInfo} {f}, Bytes ptr → (∀ x, f x = (some x.1, x.2)) →
      (reorder ptr b curPkt).map f = some (flow', r) → ∀ ptr ∈ flow', Bytes ptr := by
    intro ptr f hptr hf hmap
    obtain ⟨⟨t, r'⟩, ht, heq⟩ := Option.map_eq_some_iff.mp hmap
    rw [hf] at heq
    cases heq
    intro u hu
    cases hu
    exact reorder_bytes hptr ht
  unfold processPktReorderInfo at h
  split at h
  · cases h
    exact hb
  · split at h
    · unfold delFlow at h
      cases flow with
      | none =>
        cases h
        exact noFlow_bytes
      | some ptr =>
        obtain ⟨⟨t, out⟩, -, heq⟩ := Option.map_eq_some_iff.mp h
        dsimp only at heq
        split at heq <;> cases heq <;> exact noFlow_bytes
    · cases flow with
      | some ptr => exact hre (hb ptr rfl) (fun _ => rfl) h
      | none =>
        dsimp only at h
        split at h
        · exact hre (newFlow_bytes b.maxIdx) (fun _ => rfl) h
        · cases h
          exact noFlow_bytes

theorem AllBytes.process {s s' : ReorderBufs} {m : Msg} {r : Result} (hb : AllBytes s)
    (h : process s m = some (s', r)) : AllBytes s' := by
  obtain ⟨⟨flow, r'⟩, hp, heq⟩ := Option.map_eq_some_iff.mp h
  cases heq
  intro i
  by_cases hi : i = m.flowId
  · subst hi
    rw [Function.update_self]
    exact processPktReorderInfo_bytes (hb m.flowId) hp
  · rw [Function.update_of_ne hi]
    exact hb i

theorem process_isSome {s : ReorderBufs} (hb : AllBytes s) (m : Msg) :
    (process s m).isSome = safe s m := by
  unfold process safe
  rw [Option.isSome_map, processPktReorderInfo_isSome (hb m.flowId)]

/-- **A run of calls touches only slots that were allocated, and ends, just when every call of it
is safe in the state that it is made in.** -/
theorem reorder_safe_iff (ms : List Msg) :
    (runs process noFlows ms).isSome = true ↔ meets process safe noFlows ms = true := by
  have key : ∀ s, AllBytes s →
      ((runs process s ms).isSome = true ↔ meets process safe s ms = true) := by
    induction ms with
    | nil => exact fun _ _ => iff_of_true rfl rfl
    | cons m ms ih =>
      intro s hb
      have hsafe := process_isSome hb m
      unfold runs meets
      cases hp : process s m with
      | none =>
        rw [hp] at hsafe
        rw [← hsafe]
        exact Iff.rfl
      | some x =>
        obtain ⟨s', r⟩ := x
        rw [hp] at hsafe
        rw [← hsafe, Option.isSome_some, Bool.true_and]
        dsimp only
        rw [← ih s' (hb.process hp)]
        cases runs process s' ms with
        | none => exact Iff.rfl
        | some y => exact Iff.rfl
  exact key noFlows noFlows_bytes

/-- A frame of flow 0 -/
def flow0 (flags maxIdx curIdx expIdx : UInt8) (pkt : Nat) : Msg where
  flowId := 0
  buf := ⟨flags, maxIdx, curIdx, expIdx⟩
  pkt := pkt
  malloc := true

/-- A frame of flow 0 behind a hole, in slot 1 of two -/
def behindHole : Msg := flow0 WLHOST_REORDERDATA_NEW_HOLE 1 1 0 7

def holed : ReorderBufs := Function.update noFlows 0 (some ⟨[none, some 7], 1, 1, 0, 1⟩)

/-- The first frame of a flow of two slots has index 2; and behind a hole, the window is moved to
index 5, where the flush never comes. -/
theorem reorder_unsafe :
    process noFlows (flow0 WLHOST_REORDERDATA_NEW_HOLE 1 2 0 7) = none ∧
    (∃ tr, runs process noFlows [behindHole] = some (holed, tr)) ∧
      process holed (flow0 0 1 0 5 8) = none ∧
      ∀ fuel, getLoop 1 5 fuel [none, some 7] 0 = none := by
  have hfirst : process noFlows behindHole = some (holed, ⟨[], 0, none⟩) := rfl
  refine ⟨rfl, ⟨_, rfl⟩, ?_, getLoop_eq_none (by decide) (by decide) rfl⟩
  have hbytes : AllBytes holed := noFlows_bytes.process hfirst
  rw [← Option.not_isSome_iff_eq_none, process_isSome hbytes]
  exact Bool.false_ne_true

end Bcmdhd.HostReorder
