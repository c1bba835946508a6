import Bcmdhd.Lib.Runs
import Bcmdhd.Lib.RingIndex

/-!
# Host-to-dongle message rings (`dhd_msgbuf.c`)

The host reserves items of a ring with `dhd_prot_alloc_ring_space`; the dongle
consumes them and advances its read index, which the host re-reads only when a
reservation fails.  `step` is one reservation or one advance of the dongle.

    runs (step nib) (init N fr) es = some (s, tr) →
      reserved slots are consecutive, never unread ones, at most N - 1 unread ∧ …
                                                             (h2d_producer_safe)

A pointer into the ring buffer is the index of its item from `HOST_RING_BASE`.
`max_items` is a `uint16`, so `wr + alloced` and the counts below do not overflow.
-/

namespace Bcmdhd.H2DRing

open Runs RingIndex

/-! ## The ring -/

def phaseBitInit : Nat := 0x80

def phaseNibbleInit : Nat := 0xA0

def phaseNibbleWrap : Nat := 0x50

/-- The fields of `msgbuf_ring_t` that the producer side of an H2D ring uses. -/
structure MsgbufRing where
  maxItems : Nat
  /-- `DHD_IS_FLOWRING(ring->idx, max_tx_flowrings)` -/
  isFlowring : Bool
  /-- the dongle's read index, as last seen by the host -/
  rd : Nat
  wr : Nat
  currentPhase : Nat
deriving DecidableEq, Repr

/-- `CHECK_WRITE_SPACE(r, w, d)` -/
def checkWriteSpace (r w d : Nat) : Nat :=
  if r > w then r - w - 1
  else if r = 0 ∨ w = 0 then d - w - 1
  else d - w

/-- `dhd_prot_get_ring_space` does not return `NULL` for lack of space. -/
def spaceAvailable (ring : MsgbufRing) (nitems : Nat) (exactlyNitems : Bool) : Bool :=
  let ringAvailCnt := checkWriteSpace ring.rd ring.wr ring.maxItems
  !(ringAvailCnt == 0 ||
    (exactlyNitems && decide (ringAvailCnt < nitems) && decide (ring.maxItems - ring.wr ≥ nitems)))

inductive Space
  /-- no space: `NULL` -/
  | unavailable
  /-- the branch behind `ASSERT(0)`: `NULL` -/
  | assertion
  /-- the item index of `ret_ptr` and `*alloced` -/
  | space (start alloced : Nat)
deriving DecidableEq, Repr

def getRingSpace (ring : MsgbufRing) (nitems : Nat) (exactlyNitems : Bool) : MsgbufRing × Space :=
  if spaceAvailable ring nitems exactlyNitems = false then (ring, .unavailable)
  else
    let alloced := min nitems (checkWriteSpace ring.rd ring.wr ring.maxItems)
    if ring.wr + alloced = ring.maxItems then ({ ring with wr := 0 }, .space ring.wr alloced)
    else if ring.wr + alloced < ring.maxItems then
      ({ ring with wr := ring.wr + alloced }, .space ring.wr alloced)
    else (ring, .assertion)

/-- The phase of a new lap. -/
def flipPhase (frPhaseNibble : Bool) (ring : MsgbufRing) : Nat :=
  if ring.isFlowring && frPhaseNibble then
    if ring.currentPhase = phaseNibbleInit then phaseNibbleWrap else phaseNibbleInit
  else if ring.currentPhase ≠ 0 then 0 else phaseBitInit

/-- The phase changes when the space starts at `HOST_RING_BASE`. -/
def setPhase (frPhaseNibble : Bool) (ring : MsgbufRing) (start : Nat) : MsgbufRing :=
  if start = 0 then { ring with currentPhase := flipPhase frPhaseNibble ring } else ring

/-- `fresh` is the read index that the host gets if it has to refresh its copy. -/
def allocRingSpace (frPhaseNibble : Bool) (ring : MsgbufRing) (nitems : Nat)
    (exactlyNitems : Bool) (fresh : Nat) : MsgbufRing × Option (Nat × Nat) :=
  if nitems = 0 then (ring, none)
  else
    match getRingSpace ring nitems exactlyNitems with
    | (ring, .space start alloced) => (setPhase frPhaseNibble ring start, some (start, alloced))
    | (ring, _) =>
      match getRingSpace { ring with rd := fresh } nitems exactlyNitems with
      | (ring, .space start alloced) => (setPhase frPhaseNibble ring start, some (start, alloced))
      | (ring, _) => (ring, none)

/-! ## Host and dongle -/

structure H2D where
  ring : MsgbufRing
  /-- the dongle's read index -/
  dongleRd : Nat
deriving DecidableEq, Repr

def init (maxItems : Nat) (isFlowring : Bool) : H2D := ⟨⟨maxItems, isFlowring, 0, 0, 0⟩, 0⟩

/-- `i` is an index the dongle's read index has had since the host last saw it. -/
def isReadIndex (s : H2D) (i : Nat) : Bool :=
  decide (i < s.ring.maxItems) &&
    decide (dist s.ring.maxItems s.ring.rd i ≤ dist s.ring.maxItems s.ring.rd s.dongleRd)

/-- The dongle reads `k` more items, up to the write index at most. -/
def dongleRead (s : H2D) (k : Nat) : Option H2D :=
  if k ≤ dist s.ring.maxItems s.dongleRd s.ring.wr then
    some { s with dongleRd := (s.dongleRd + k) % s.ring.maxItems }
  else none

inductive Call
  | alloc (nitems : Nat) (exactlyNitems : Bool) (fresh : Nat)
  | read (k : Nat)
deriving DecidableEq, Repr

/-- A reservation asks for at most `max_items` items (the code asserts it). -/
def step (frPhaseNibble : Bool) (s : H2D) : Call → Option (H2D × Option (Nat × Nat))
  | .alloc nitems exactlyNitems fresh =>
    if nitems ≤ s.ring.maxItems && isReadIndex s fresh then
      let (ring, r) := allocRingSpace frPhaseNibble s.ring nitems exactlyNitems fresh
      some ({ s with ring }, r)
    else none
  | .read k => (dongleRead s k).map fun s' => (s', none)

/-- The slots a call hands out. -/
def slotsOf : Call × Option (Nat × Nat) → List Nat
  | (_, some (start, alloced)) => List.range' start alloced
  | (_, none) => []

def readOf : Call × Option (Nat × Nat) → Nat
  | (.read k, _) => k
  | _ => 0

def handedOut (tr : List (Call × Option (Nat × Nat))) : List Nat := tr.flatMap slotsOf

/-- Handed out and not yet read by the dongle, which reads in order. -/
def unread (tr : List (Call × Option (Nat × Nat))) : List Nat :=
  (handedOut tr).drop (tr.map readOf).sum

/-! ## Lemmas -/

/-- The free space the host sees, with `W` items written and `C` known to be read. -/
theorem checkWriteSpace_le {n W C : Nat} (hCW : C ≤ W) (h : W - C < n) :
    checkWriteSpace (C % n) (W % n) n ≤ n - 1 - (W - C) ∧
      W % n + checkWriteSpace (C % n) (W % n) n ≤ n := by
  have hn : 0 < n := by omega
  have hC := Nat.mod_lt C hn
  have hW := Nat.mod_lt W hn
  have hs := sub_of_mod hCW h
  unfold checkWriteSpace
  split
  · split at hs <;> omega
  · split
    · split at hs <;> omega
    · split at hs <;> omega

variable {ring : MsgbufRing}

/-- One attempt: it fails and changes nothing, or it gives the next `a` items. -/
theorem getRingSpace_cases {W C : Nat} (nitems : Nat) (exactlyNitems : Bool)
    (hwr : ring.wr = W % ring.maxItems) (hrd : ring.rd = C % ring.maxItems) (hCW : C ≤ W)
    (h : W - C < ring.maxItems) :
    (spaceAvailable ring nitems exactlyNitems = false ∧
      getRingSpace ring nitems exactlyNitems = (ring, .unavailable)) ∨
    (spaceAvailable ring nitems exactlyNitems = true ∧ ∃ a,
      getRingSpace ring nitems exactlyNitems =
        ({ ring with wr := (W + a) % ring.maxItems }, .space (W % ring.maxItems) a) ∧
      a ≤ nitems ∧ (1 ≤ nitems → 1 ≤ a) ∧ W + a - C < ring.maxItems ∧
      W % ring.maxItems + a ≤ ring.maxItems ∧
      (exactlyNitems = true → a < nitems → ring.maxItems - W % ring.maxItems < nitems)) := by
  obtain ⟨hle, hend⟩ := checkWriteSpace_le hCW h
  unfold getRingSpace
  cases hs : spaceAvailable ring nitems exactlyNitems with
  | false => exact .inl ⟨rfl, by simp⟩
  | true =>
    refine .inr ⟨rfl, min nitems (checkWriteSpace ring.rd ring.wr ring.maxItems), ?_⟩
    unfold spaceAvailable at hs
    simp only [Bool.not_eq_true', Bool.or_eq_false_iff, beq_eq_false_iff_ne,
      Bool.and_eq_false_iff, decide_eq_false_iff_not] at hs
    rw [hrd, hwr] at hs ⊢
    generalize hk : checkWriteSpace (C % ring.maxItems) (W % ring.maxItems) ring.maxItems = k at *
    obtain ⟨hpos, hex⟩ := hs
    refine ⟨?_, by omega, by omega, by omega, by omega, ?_⟩
    · rw [if_neg (by decide), add_mod_wrap (by omega)]
      by_cases he : W % ring.maxItems + min nitems k = ring.maxItems
      · simp only [if_pos he]
      · rw [if_neg he, if_neg he, if_pos (by omega)]
    · intro he hlt
      rcases hex with (hex | hex) | hex
      · rw [hex] at he; cases he
      · omega
      · omega

/-- `W` items were handed out, the dongle read `R`, and the host saw it read `C`. -/
structure Counts (s : H2D) (W R C : Nat) : Prop where
  wr : s.ring.wr = W % s.ring.maxItems
  dongleRd : s.dongleRd = R % s.ring.maxItems
  rd : s.ring.rd = C % s.ring.maxItems
  C_le : C ≤ R
  R_le : R ≤ W
  room : W - C < s.ring.maxItems

theorem Counts.init {n : Nat} (fr : Bool) (hn : 0 < n) : Counts (init n fr) 0 0 0 :=
  { wr := (Nat.zero_mod n).symm
    dongleRd := (Nat.zero_mod n).symm
    rd := (Nat.zero_mod n).symm
    C_le := Nat.le_refl 0
    R_le := Nat.le_refl 0
    room := hn }

/-- An index the host may read is that of a counter between `C` and `R`. -/
theorem isReadIndex_counter {s : H2D} {W R C i : Nat} (h : Counts s W R C)
    (hi : isReadIndex s i = true) : ∃ C', C ≤ C' ∧ C' ≤ R ∧ i = C' % s.ring.maxItems := by
  unfold isReadIndex at hi
  rw [Bool.and_eq_true, decide_eq_true_eq, decide_eq_true_eq] at hi
  obtain ⟨hlt, hd⟩ := hi
  have hroom := h.room
  have hR := h.R_le
  rw [h.rd, h.dongleRd, dist_mod h.C_le (by omega)] at hd
  have hC := h.C_le
  exact ⟨C + dist s.ring.maxItems (C % s.ring.maxItems) i, by omega, by omega,
    (add_dist_mod hlt).symm⟩

theorem dongleRead_counts {s s' : H2D} {W R C k : Nat} (h : Counts s W R C)
    (hs : dongleRead s k = some s') :
    s'.ring = s.ring ∧ R + k ≤ W ∧ Counts s' W (R + k) C := by
  unfold dongleRead at hs
  split at hs
  · next hk =>
    cases hs
    have hroom := h.room
    have hC := h.C_le
    rw [h.dongleRd, h.wr, dist_mod h.R_le (by omega)] at hk
    have hR := h.R_le
    exact ⟨rfl, by omega,
      { wr := h.wr
        dongleRd := by simp [h.dongleRd]
        rd := h.rd
        C_le := by omega
        R_le := by omega
        room := h.room }⟩
  · cases hs

/-- A reservation fails, and only the cached read index may change, or it gives the
next `a` items. -/
theorem allocRingSpace_cases {s : H2D} {W R C fresh : Nat} (nib : Bool) (nitems : Nat)
    (exactlyNitems : Bool) (h : Counts s W R C) (hf : isReadIndex s fresh = true) :
    ∃ C', C ≤ C' ∧ C' ≤ R ∧
      (allocRingSpace nib s.ring nitems exactlyNitems fresh =
          ({ s.ring with rd := C' % s.ring.maxItems }, none) ∨
        (spaceAvailable s.ring nitems exactlyNitems = true ∨
          spaceAvailable { s.ring with rd := fresh } nitems exactlyNitems = true) ∧ ∃ a,
        allocRingSpace nib s.ring nitems exactlyNitems fresh =
          ({ s.ring with
              rd := C' % s.ring.maxItems
              wr := (W + a) % s.ring.maxItems
              currentPhase :=
                if W % s.ring.maxItems = 0 then flipPhase nib s.ring else s.ring.currentPhase },
            some (W % s.ring.maxItems, a)) ∧
        a ≤ nitems ∧ 1 ≤ a ∧ W + a - C' < s.ring.maxItems ∧
        W % s.ring.maxItems + a ≤ s.ring.maxItems ∧
        (exactlyNitems = true → a < nitems →
          s.ring.maxItems - W % s.ring.maxItems < nitems)) := by
  have hroom := h.room
  have hC := h.C_le
  have hR := h.R_le
  obtain ⟨C', hCC', hC'R, rfl⟩ := isReadIndex_counter h hf
  unfold allocRingSpace
  split
  · exact ⟨C, Nat.le_refl C, hC, .inl (by rw [← h.rd])⟩
  · next hz =>
    rcases getRingSpace_cases nitems exactlyNitems h.wr h.rd (by omega) hroom with
      ⟨-, hg⟩ | ⟨hsp, a, hg, h1, h2, h3, h4, h5⟩
    · -- the refreshed copy
      rcases @getRingSpace_cases { s.ring with rd := C' % s.ring.maxItems } _ C' nitems
          exactlyNitems h.wr rfl (by omega) (by simp only; omega) with
        ⟨-, hg'⟩ | ⟨hsp, a, hg', h1, h2, h3, h4, h5⟩
      · exact ⟨C', hCC', hC'R, .inl (by simp only [hg, hg'])⟩
      · refine ⟨C', hCC', hC'R, .inr ⟨.inr hsp, a, ?_, h1, h2 (by omega), h3, h4, h5⟩⟩
        simp only [hg, hg', setPhase]
        split <;> rfl
    · refine ⟨C, Nat.le_refl C, hC, .inr ⟨.inl hsp, a, ?_, h1, h2 (by omega), h3, h4, h5⟩⟩
      simp only [hg, setPhase, ← h.rd]
      split <;> rfl

/-- The invariant of a run: the counters, and the slots they count. -/
def Inv (n : Nat) (s : H2D) (tr : List (Call × Option (Nat × Nat))) : Prop :=
  s.ring.maxItems = n ∧ ∃ W R C, Counts s W R C ∧
    handedOut tr = (List.range W).map (· % n) ∧ (tr.map readOf).sum = R

theorem handedOut_snoc (tr : List (Call × Option (Nat × Nat))) (e : Call × Option (Nat × Nat)) :
    handedOut (tr ++ [e]) = handedOut tr ++ slotsOf e := by
  simp [handedOut]

theorem sum_readOf_snoc (tr : List (Call × Option (Nat × Nat))) (e : Call × Option (Nat × Nat)) :
    ((tr ++ [e]).map readOf).sum = (tr.map readOf).sum + readOf e := by
  simp

theorem step_inv {n : Nat} {nib : Bool} (s : H2D) (tr : List (Call × Option (Nat × Nat)))
    (c : Call) (s' : H2D) (r : Option (Nat × Nat)) (hi : Inv n s tr)
    (hs : step nib s c = some (s', r)) : Inv n s' (tr ++ [(c, r)]) := by
  obtain ⟨rfl, W, R, C, h, hout, hread⟩ := hi
  have hR := h.R_le
  cases c with
  | alloc nitems ex fresh =>
    simp only [step] at hs
    split at hs
    · next hg =>
      rw [Bool.and_eq_true, decide_eq_true_eq] at hg
      obtain ⟨C', h1, h2, ha | ⟨-, a, ha, h3, h4, h5, h6, h7⟩⟩ :=
        allocRingSpace_cases nib nitems ex h hg.2
      · rw [ha] at hs
        simp only [Option.some.injEq, Prod.mk.injEq] at hs
        obtain ⟨rfl, rfl⟩ := hs
        refine ⟨rfl, W, R, C', ⟨h.wr, h.dongleRd, rfl, h2, hR, ?_⟩, ?_, ?_⟩
        · have := h.room; simp only; omega
        · rw [handedOut_snoc, hout]; simp [slotsOf]
        · rw [sum_readOf_snoc, hread]; rfl
      · rw [ha] at hs
        simp only [Option.some.injEq, Prod.mk.injEq] at hs
        obtain ⟨rfl, rfl⟩ := hs
        refine ⟨rfl, W + a, R, C', ⟨rfl, h.dongleRd, rfl, h2, by omega, h5⟩, ?_, ?_⟩
        · rw [handedOut_snoc, hout, slotsOf, range'_mod h6, List.range_add, List.map_append,
            List.range'_eq_map_range]
        · rw [sum_readOf_snoc, hread]; rfl
    · cases hs
  | read k =>
    simp only [step, Option.map_eq_some_iff, Prod.mk.injEq] at hs
    obtain ⟨t, ht, rfl, rfl⟩ := hs
    obtain ⟨hring, hk, hcounts⟩ := dongleRead_counts h ht
    refine ⟨by rw [hring], W, R + k, C, hcounts, ?_, ?_⟩
    · rw [handedOut_snoc, hout]; simp [slotsOf]
    · rw [sum_readOf_snoc, hread]; rfl

theorem runs_keep_inv {n : Nat} (hn : 0 < n) (nib fr : Bool) (es : List Call) (s : H2D)
    (tr : List (Call × Option (Nat × Nat))) (h : runs (step nib) (init n fr) es = some (s, tr)) :
    Inv n s tr :=
  runs_inv (step nib) (Inv n) step_inv (init n fr) s es tr
    ⟨rfl, 0, 0, 0, Counts.init fr hn, rfl, rfl⟩ h

/-- The unread slots are those of the counters in `[R, W)`. -/
theorem unread_eq {n W R : Nat} {tr : List (Call × Option (Nat × Nat))}
    (hout : handedOut tr = (List.range W).map (· % n)) (hread : (tr.map readOf).sum = R) :
    unread tr = (List.range' R (W - R)).map (· % n) := by
  unfold unread
  rw [hout, hread, ← List.map_drop, List.range_eq_range', List.drop_range']
  simp

/-- No attempt reaches the `ASSERT(0)` of `dhd_prot_get_ring_space`. -/
theorem getRingSpace_ne_assertion {s : H2D} {W R C i : Nat} (h : Counts s W R C)
    (hi : isReadIndex s i = true) (nitems : Nat) (ex : Bool) :
    (getRingSpace { s.ring with rd := i } nitems ex).2 ≠ .assertion := by
  obtain ⟨C', h1, h2, rfl⟩ := isReadIndex_counter h hi
  have hroom := h.room
  have hR := h.R_le
  rcases @getRingSpace_cases { s.ring with rd := C' % s.ring.maxItems } _ C' nitems ex h.wr
      rfl (by omega) (by simp only; omega) with ⟨-, hg⟩ | ⟨-, a, hg, -⟩
  · rw [hg]; intro he; cases he
  · rw [hg]; intro he; cases he

/-! ## One item -/

/-- The write index is one of the ring's. -/
def WrInside (ring : MsgbufRing) : Prop := ring.wr < ring.maxItems

/-- There is space for one item, at once or after the host looked at the read index again. -/
def hasSpace (ring : MsgbufRing) (fresh : Nat) : Bool :=
  spaceAvailable ring 1 false || spaceAvailable { ring with rd := fresh } 1 false

/-- The write index after one more item. -/
def nextWr (ring : MsgbufRing) : Nat := if ring.wr + 1 = ring.maxItems then 0 else ring.wr + 1

theorem getRingSpace_one (h : WrInside ring) :
    getRingSpace ring 1 false =
      if spaceAvailable ring 1 false then ({ ring with wr := nextWr ring }, .space ring.wr 1)
      else (ring, .unavailable) := by
  unfold WrInside at h
  unfold getRingSpace
  cases hs : spaceAvailable ring 1 false with
  | false => rw [if_pos rfl, if_neg Bool.noConfusion]
  | true =>
    rw [if_neg Bool.noConfusion, if_pos rfl]
    simp only [spaceAvailable, Bool.false_and, Bool.or_false, Bool.not_eq_true',
      beq_eq_false_iff_ne] at hs
    have hone : min 1 (checkWriteSpace ring.rd ring.wr ring.maxItems) = 1 := by omega
    unfold nextWr
    dsimp only
    rw [hone]
    split
    · rfl
    · rw [if_pos (by omega)]

/-- One item is had just when there is space, at the write index. -/
theorem allocRingSpace_one (h : WrInside ring) (nib : Bool) (fresh : Nat) :
    (hasSpace ring fresh = false ∧
      allocRingSpace nib ring 1 false fresh = ({ ring with rd := fresh }, none)) ∨
    (hasSpace ring fresh = true ∧ ∃ rd, allocRingSpace nib ring 1 false fresh =
      (setPhase nib { ring with rd, wr := nextWr ring } ring.wr, some (ring.wr, 1))) := by
  have hfresh : WrInside { ring with rd := fresh } := h
  unfold allocRingSpace hasSpace
  rw [if_neg Nat.one_ne_zero, getRingSpace_one h]
  cases spaceAvailable ring 1 false with
  | true => exact .inr ⟨rfl, ring.rd, rfl⟩
  | false =>
    rw [Bool.false_or, if_neg Bool.false_ne_true]
    dsimp only
    rw [getRingSpace_one hfresh]
    cases spaceAvailable { ring with rd := fresh } 1 false with
    | true => exact .inr ⟨rfl, fresh, rfl⟩
    | false => exact .inl ⟨rfl, rfl⟩

theorem allocRingSpace_isSome (h : WrInside ring) (nib : Bool) (fresh : Nat) :
    (allocRingSpace nib ring 1 false fresh).2.isSome = hasSpace ring fresh := by
  rcases allocRingSpace_one h nib fresh with ⟨hno, hr⟩ | ⟨hyes, rd, hr⟩
  · rw [hr, hno]
    rfl
  · rw [hr, hyes]
    rfl

theorem getRingSpace_inside (h : WrInside ring) (nitems : Nat) (exactlyNitems : Bool) :
    WrInside (getRingSpace ring nitems exactlyNitems).1 := by
  unfold WrInside at *
  unfold getRingSpace
  split
  · exact h
  · dsimp only
    split
    · exact Nat.zero_lt_of_lt h
    · split
      · assumption
      · exact h

theorem setPhase_inside (h : WrInside ring) (nib : Bool) (start : Nat) :
    WrInside (setPhase nib ring start) := by
  unfold setPhase
  split
  · exact h
  · exact h

theorem allocRingSpace_inside (h : WrInside ring) (nib : Bool) (nitems : Nat) (exactlyNitems : Bool)
    (fresh : Nat) :
    WrInside (allocRingSpace nib ring nitems exactlyNitems fresh).1 := by
  have h1 := getRingSpace_inside h nitems exactlyNitems
  have hfresh : WrInside { (getRingSpace ring nitems exactlyNitems).1 with rd := fresh } := h1
  have h2 := getRingSpace_inside hfresh nitems exactlyNitems
  unfold allocRingSpace
  split
  · exact h
  · split
    · next heq =>
      rw [heq] at h1
      exact setPhase_inside h1 nib _
    · next heq =>
      rw [heq] at h2
      split
      · next heq2 =>
        rw [heq2] at h2
        exact setPhase_inside h2 nib _
      · next heq2 =>
        rw [heq2] at h2
        exact h2

/-! ## Top theorem -/

/-- **Producer safety**, for every ring size and every interleaving of reservations with
advances of the dongle, whatever stale read index the host works with. -/
theorem h2d_producer_safe (N : Nat) (hN : 2 ≤ N) (nib fr : Bool) (es : List Call) (s : H2D)
    (tr : List (Call × Option (Nat × Nat)))
    (h : runs (step nib) (init N fr) es = some (s, tr)) :
    handedOut tr = (List.range (handedOut tr).length).map (· % N) ∧
    (unread tr).length ≤ N - 1 ∧
    s.ring.wr < N ∧
    (∀ nitems ex fresh s' start alloced,
      step nib s (.alloc nitems ex fresh) = some (s', some (start, alloced)) →
      1 ≤ alloced ∧ alloced ≤ nitems ∧ start = s.ring.wr ∧ start + alloced ≤ N ∧
      (∀ i, start ≤ i → i < start + alloced → i ∉ unread tr) ∧
      (ex = true → alloced < nitems → N - start < nitems)) ∧
    (∀ i, isReadIndex s i = true → ∀ nitems ex,
      (getRingSpace { s.ring with rd := i } nitems ex).2 ≠ .assertion) := by
  obtain ⟨rfl, W, R, C, hc, hout, hread⟩ := runs_keep_inv (by omega) nib fr es s tr h
  have hroom := hc.room
  have hC := hc.C_le
  have hR := hc.R_le
  have hun := unread_eq hout hread
  refine ⟨by rw [hout]; simp, ?_, ?_, ?_, fun i hi => getRingSpace_ne_assertion hc hi⟩
  · rw [hun, List.length_map, List.length_range']; omega
  · rw [hc.wr]; exact Nat.mod_lt W (by omega)
  · intro nitems ex fresh s' start alloced hs
    simp only [step] at hs
    split at hs
    · next hg =>
      rw [Bool.and_eq_true, decide_eq_true_eq] at hg
      obtain ⟨C', h1, h2, ha | ⟨-, a, ha, h3, h4, h5, h6, h7⟩⟩ :=
        allocRingSpace_cases nib nitems ex hc hg.2
      · rw [ha] at hs
        simp at hs
      · rw [ha] at hs
        simp only [Option.some.injEq, Prod.mk.injEq] at hs
        obtain ⟨-, rfl, rfl⟩ := hs
        refine ⟨h4, h3, hc.wr.symm, h6, ?_, h7⟩
        intro i hlo hhi hmem
        rw [hun, List.mem_map] at hmem
        obtain ⟨k, hk, rfl⟩ := hmem
        rw [List.mem_range'_1] at hk
        -- `i` is the slot of a counter in `[W, W + alloced)`
        have hslot : (W + (k % s.ring.maxItems - W % s.ring.maxItems)) % s.ring.maxItems =
            k % s.ring.maxItems := by
          rw [add_mod_wrap (by omega), if_neg (by omega)]; omega
        exact mod_notMem (n := s.ring.maxItems) (r := R) (k := k) (by omega) (by omega) (by omega)
          hslot.symm
    · cases hs

/-- Item 3 is reserved after the read index was read again, one behind that of the dongle, and the
ring wraps. -/
def wrapping : List Call := [.alloc 3 true 0, .read 2, .alloc 2 false 1, .alloc 1 true 2]

theorem h2d_producer_safe_wrapping : ∃ s tr,
    runs (step false) (init 4 false) wrapping = some (s, tr) ∧
      tr.map Prod.snd = [some (0, 3), none, some (3, 1), some (0, 1)] ∧ unread tr = [2, 3, 0] ∧
      handedOut tr = (List.range (handedOut tr).length).map (· % 4) ∧
      (unread tr).length ≤ 4 - 1 ∧ s.ring.wr < 4 := by
  refine ⟨_, _, rfl, rfl, rfl, ?_⟩
  obtain ⟨hout, hun, hwr, -⟩ := h2d_producer_safe 4 (by decide) false false wrapping _ _ rfl
  exact ⟨hout, hun, hwr⟩

end Bcmdhd.H2DRing
