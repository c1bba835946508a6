import Bcmdhd.Lib.Bits
import Bcmdhd.Lib.Runs
import Mathlib.Logic.Function.Basic

/-!
# Multiword bitmap allocator

`bcm_mwbmap`: a bitmap of free indices in words of 32 bits, and above it a bitmap of the words
that are not zero.

    1 ≤ items_max ≤ 64K, every call is an alloc or items_max < 64K →
      no assertion fires, alloc hands out the smallest free index      (mwbmap_alloc_smallest)

`total` has 16 bits, so that it is 0 for 64K indices: there each free and each force asserts.
-/

namespace Bcmdhd.MultiwordBitmap

open Bits Scan Runs

def ITEMS_MAX : Nat := 64 * 1024

abbrev Word := BitVec 32

/-! ## Algorithm -/

/-- The arrays are functions of the index, zero beyond their ends. -/
structure Mwbmap where
  wmaps : Nat
  imaps : Nat
  ifree : Int
  total : Nat
  wdBitmap : Nat → Word
  wdCount : Nat → Int
  idBitmap : Nat → Word

inductive Assertion
  | failed
deriving DecidableEq, Repr

/-- `ASSERT`, `ASSERT_FP` and `MWBMAP_ASSERT` -/
def assert (p : Prop) [Decidable p] : Except Assertion Unit :=
  if p then .ok () else .error .failed

/-- `for (wordix = 0; wordix < n; wordix++) a[wordix] = v` -/
def fill {α : Type} (a : Nat → α) (n : Nat) (v : α) : Nat → α := fun i => if i < n then v else a i

def cntsetbits (x : Word) : Nat := ones x

/-- The loop of `C_bcm_count_leading_zeros`; 32 rounds are enough. -/
def shifts : Nat → Word → Nat
  | 0, _ => 0
  | k + 1, x => if x = 0 then 0 else shifts k (x >>> 1) + 1

def countLeadingZeros (x : Word) : Nat := 32 - shifts 32 x

/-- `bitmap & -bitmap`, which is not taken of the sign bit alone -/
def trailingOne (bitmap : Word) : Word :=
  if bitmap ≠ (1 : Word) <<< 31 then bitmap &&& -bitmap else bitmap

/-- The loop and the fixup, the same for both hierarchies: `words` words of ones, and only the
low `extra` bits of the last word. -/
def setupBitmap (words extra : Nat) : Nat → Word :=
  let bitmap := fill (fun _ => 0) words (~~~(0 : Word))
  if extra ≠ 0 then
    Function.update bitmap (words - 1) (bitmap (words - 1) ^^^ (~~~(0 : Word)) <<< extra)
  else bitmap

def setupCount (words extra : Nat) : Nat → Int :=
  let wdCount := fill (fun _ => 0) words 32
  if extra ≠ 0 then Function.update wdCount (words - 1) (extra : Int) else wdCount

def wordsFor (n : Nat) : Nat := n / 32 + if n % 32 ≠ 0 then 1 else 0

def mwbmapInit (itemsMax : Nat) : Except Assertion Mwbmap := do
  assert (itemsMax ≤ ITEMS_MAX)
  let imaps := wordsFor itemsMax % 0x10000
  let wmaps := wordsFor imaps % 0x10000
  return { wmaps := wmaps, imaps := imaps, ifree := itemsMax, total := itemsMax % 0x10000,
           wdBitmap := setupBitmap wmaps (imaps % 32),
           wdCount := setupCount imaps (itemsMax % 32),
           idBitmap := setupBitmap imaps (itemsMax % 32) }

/-- The index, or `none` for `BCM_MWBMAP_INVALID_IDX`. -/
def mwbmapAlloc (m : Mwbmap) : Except Assertion (Option Nat × Mwbmap) :=
  -- the first word of the first hierarchy that is not zero
  match lowest (fun wordix => m.wdBitmap wordix != 0) m.wmaps with
  | none => do
    assert (m.ifree = 0)
    return (none, m)
  | some wdix => do
    let bitix := countLeadingZeros (trailingOne (m.wdBitmap wdix))
    let bitix := if bitix ≤ 31 then 31 - bitix else 0
    let wordix := wdix * 32 + bitix
    let count := m.wdCount wordix - 1
    assert (count = (cntsetbits (m.idBitmap wordix) : Int) - 1)
    let bitmap := if count = 0 then (1 : Word) <<< bitix else 0
    let wdBitmap := Function.update m.wdBitmap wdix (m.wdBitmap wdix ^^^ bitmap)
    assert (m.idBitmap wordix ≠ 0)
    let bitmap := trailingOne (m.idBitmap wordix)
    let bitix := wordix * 32 + 31 - countLeadingZeros bitmap
    let ifree := m.ifree - 1
    assert (0 ≤ ifree)
    return (some bitix,
      { m with wdBitmap := wdBitmap,
               wdCount := Function.update m.wdCount wordix count,
               ifree := ifree,
               idBitmap := Function.update m.idBitmap wordix (m.idBitmap wordix ^^^ bitmap) })

def mwbmapForce (m : Mwbmap) (bitix : Nat) : Except Assertion Mwbmap := do
  assert (bitix < m.total)
  let wordix := bitix / 32
  let bitmap := (1 : Word) <<< (bitix % 32)
  assert (m.idBitmap wordix &&& bitmap = bitmap)
  let ifree := m.ifree - 1
  assert (0 ≤ ifree)
  let idBitmap := Function.update m.idBitmap wordix (m.idBitmap wordix ^^^ bitmap)
  let count := m.wdCount wordix - 1
  assert (count = cntsetbits (idBitmap wordix))
  let wdix := wordix / 32
  let bitmap := if count = 0 then (1 : Word) <<< (wordix % 32) else 0
  return { m with ifree := ifree,
                  idBitmap := idBitmap,
                  wdCount := Function.update m.wdCount wordix count,
                  wdBitmap := Function.update m.wdBitmap wdix (m.wdBitmap wdix ^^^ bitmap) }

def mwbmapFree (m : Mwbmap) (bitix : Nat) : Except Assertion Mwbmap := do
  assert (bitix < m.total)
  let wordix := bitix / 32
  let bitmap := (1 : Word) <<< (bitix % 32)
  assert (m.idBitmap wordix &&& bitmap = 0)
  let ifree := m.ifree + 1
  assert (ifree ≤ m.total)
  let idBitmap := Function.update m.idBitmap wordix (m.idBitmap wordix ||| bitmap)
  let count := m.wdCount wordix + 1
  assert (count = cntsetbits (idBitmap wordix))
  assert (count ≤ 32)
  let wdix := wordix / 32
  let bitmap := (1 : Word) <<< (wordix % 32)
  return { m with ifree := ifree,
                  idBitmap := idBitmap,
                  wdCount := Function.update m.wdCount wordix count,
                  wdBitmap := Function.update m.wdBitmap wdix (m.wdBitmap wdix ||| bitmap) }

/-- The two loops, as one over `idmap_ix`. -/
def mwbmapAudit (m : Mwbmap) : Except Assertion Unit := do
  let freeCnt ← (List.range (32 * m.wmaps)).foldlM (fun freeCnt idmapIx =>
    if m.wdBitmap (idmapIx / 32) &&& (1 : Word) <<< (idmapIx % 32) ≠ 0 then do
      let count := m.wdCount idmapIx
      assert (count = cntsetbits (m.idBitmap idmapIx))
      assert (count ≠ 0)
      return freeCnt + count
    else return freeCnt) (0 : Int)
  assert (freeCnt = m.ifree)

/-! ## Runs -/

inductive Call
  | alloc
  | free (bitix : Nat)
  | force (bitix : Nat)
deriving DecidableEq, Repr

inductive Result
  | index (bitix : Option Nat)
  | done
  | assertion
deriving DecidableEq, Repr

def isFree (m : Mwbmap) (i : Nat) : Bool := (m.idBitmap (i / 32)).getLsbD (i % 32)

/-- A call under audit; free only of an allocated index, force only of a free one. -/
def step (itemsMax : Nat) (m : Mwbmap) : Call → Option (Mwbmap × Result)
  | .alloc =>
    match mwbmapAudit m >>= fun _ => mwbmapAlloc m with
    | .ok (r, m') => some (m', .index r)
    | .error _ => some (m, .assertion)
  | .free i =>
    if i < itemsMax ∧ isFree m i = false then
      match mwbmapAudit m >>= fun _ => mwbmapFree m i with
      | .ok m' => some (m', .done)
      | .error _ => some (m, .assertion)
    else none
  | .force i =>
    if i < itemsMax ∧ isFree m i = true then
      match mwbmapAudit m >>= fun _ => mwbmapForce m i with
      | .ok m' => some (m', .done)
      | .error _ => some (m, .assertion)
    else none

/-! ## Invariant -/

structure Inv (itemsMax : Nat) (m : Mwbmap) : Prop where
  covers : itemsMax ≤ 32 * (32 * m.wmaps)
  total_eq : m.total = itemsMax % 0x10000
  ifree_eq : m.ifree = count (isFree m) itemsMax
  wd_bit : ∀ v, (m.wdBitmap (v / 32)).getLsbD (v % 32) = decide (m.idBitmap v ≠ 0)
  wd_count : ∀ v, m.wdCount v = cntsetbits (m.idBitmap v)
  beyond : ∀ i, itemsMax ≤ i → isFree m i = false

theorem shiftLeft_eq (k : Nat) : (1 : Word) <<< k = BitVec.twoPow 32 k :=
  (BitVec.twoPow_eq 32 k).symm

theorem xor_zero (x : Word) : x ^^^ (0 : Word) = x := BitVec.xor_zero

theorem assert_ok {p : Prop} [Decidable p] (h : p) : assert p = .ok () := if_pos h

theorem countLeadingZeros_twoPow (k : Fin 32) : countLeadingZeros (BitVec.twoPow 32 k) = 31 - k := by
  revert k
  decide

theorem trailingOne_eq {x : Word} {k : Nat} (h : lowest x.getLsbD 32 = some k) :
    trailingOne x = BitVec.twoPow 32 k := by
  unfold trailingOne
  split
  · exact and_neg_self h
  · next hx =>
    have hx : x = BitVec.twoPow 32 31 := by
      rw [← shiftLeft_eq]
      exact not_not.mp hx
    obtain ⟨hk, hxk, -⟩ := lowest_eq_some.mp h
    rw [hx, BitVec.getLsbD_twoPow] at hxk
    have h31 : 31 = k := by simpa using hxk
    rw [hx, h31]

section Update

variable {n i : Nat} {m : Mwbmap}

/-- What taking a free index makes of the state. -/
def take (m : Mwbmap) (i : Nat) : Mwbmap :=
  { m with
    ifree := m.ifree - 1
    idBitmap := Function.update m.idBitmap (i / 32)
      (m.idBitmap (i / 32) ^^^ BitVec.twoPow 32 (i % 32))
    wdCount := Function.update m.wdCount (i / 32) (m.wdCount (i / 32) - 1)
    wdBitmap := Function.update m.wdBitmap (i / 32 / 32) (m.wdBitmap (i / 32 / 32) ^^^
      if m.wdCount (i / 32) - 1 = 0 then BitVec.twoPow 32 (i / 32 % 32) else 0) }

/-- What giving an index back makes of the state. -/
def give (m : Mwbmap) (i : Nat) : Mwbmap :=
  { m with
    ifree := m.ifree + 1
    idBitmap := Function.update m.idBitmap (i / 32)
      (m.idBitmap (i / 32) ||| BitVec.twoPow 32 (i % 32))
    wdCount := Function.update m.wdCount (i / 32) (m.wdCount (i / 32) + 1)
    wdBitmap := Function.update m.wdBitmap (i / 32 / 32)
      (m.wdBitmap (i / 32 / 32) ||| BitVec.twoPow 32 (i / 32 % 32)) }

theorem isFree_take (m : Mwbmap) (i j : Nat) :
    isFree (take m i) j = if j = i then !isFree m i else isFree m j := by
  unfold isFree take
  dsimp only
  by_cases hw : j / 32 = i / 32
  · rw [hw, Function.update_self, getLsbD_xor_twoPow (Nat.mod_lt _ (by omega))]
    by_cases hj : j = i
    · rw [if_pos (by rw [hj]), if_pos hj, hj]
    · rw [if_neg (by omega), if_neg hj]
  · rw [Function.update_of_ne hw, if_neg fun h => hw (by rw [h])]

theorem isFree_give (m : Mwbmap) (i j : Nat) :
    isFree (give m i) j = if j = i then true else isFree m j := by
  unfold isFree give
  dsimp only
  by_cases hw : j / 32 = i / 32
  · rw [hw, Function.update_self, getLsbD_or_twoPow (Nat.mod_lt _ (by omega))]
    by_cases hj : j = i
    · rw [if_pos hj, decide_eq_true (by rw [hj]), Bool.or_true]
    · rw [if_neg hj, decide_eq_false (by omega), Bool.or_false]
  · rw [Function.update_of_ne hw, if_neg fun h => hw (by rw [h])]

/-- One bit less in the word. -/
theorem cntsetbits_take (hf : isFree m i = true) :
    cntsetbits (m.idBitmap (i / 32)) = cntsetbits ((take m i).idBitmap (i / 32)) + 1 := by
  unfold cntsetbits take
  dsimp only
  rw [Function.update_self]
  exact ones_xor_twoPow (Nat.mod_lt _ (by omega)) hf

theorem cntsetbits_give (hf : isFree m i = false) :
    cntsetbits ((give m i).idBitmap (i / 32)) = cntsetbits (m.idBitmap (i / 32)) + 1 := by
  unfold cntsetbits give
  dsimp only
  rw [Function.update_self]
  exact ones_or_twoPow (Nat.mod_lt _ (by omega)) hf

theorem cntsetbits_eq_zero {x : Word} : cntsetbits x = 0 ↔ x = 0 := ones_eq_zero

theorem take_inv (h : Inv n m) (hi : i < n) (hf : isFree m i = true) : Inv n (take m i) where
  covers := h.covers
  total_eq := h.total_eq
  ifree_eq := by
    have hc : count (isFree m) n = count (isFree (take m i)) n + 1 := by
      apply count_update hi hf
      · rw [isFree_take, if_pos rfl, hf]
        rfl
      · intro j _ hj
        rw [isFree_take, if_neg hj]
    show m.ifree - 1 = _
    rw [h.ifree_eq]
    omega
  wd_bit := by
    intro v
    have hold := h.wd_bit v
    have hcnt := cntsetbits_take hf
    have hwc := h.wd_count (i / 32)
    have hz := @cntsetbits_eq_zero ((take m i).idBitmap (i / 32))
    show (Function.update m.wdBitmap _ _ (v / 32)).getLsbD (v % 32) = _
    by_cases hv : v = i / 32
    · subst hv
      have hx : m.idBitmap (i / 32) ≠ 0 := by
        intro hx
        rw [cntsetbits_eq_zero.mpr hx] at hcnt
        omega
      rw [decide_eq_true hx] at hold
      rw [Function.update_self]
      by_cases hc : m.wdCount (i / 32) - 1 = 0
      · rw [if_pos hc, getLsbD_xor_twoPow (Nat.mod_lt _ (by omega)), if_pos rfl, hold,
          decide_eq_false (not_not.mpr (hz.mp (by omega)))]
        rfl
      · rw [if_neg hc, xor_zero, hold]
        have hne : (take m i).idBitmap (i / 32) ≠ 0 := by
          intro h0
          have h1 := hz.mpr h0
          omega
        rw [decide_eq_true hne]
    · rw [show (take m i).idBitmap v = m.idBitmap v from Function.update_of_ne hv _ _, ← hold]
      by_cases hw : v / 32 = i / 32 / 32
      · rw [hw, Function.update_self]
        split
        · rw [getLsbD_xor_twoPow (Nat.mod_lt _ (by omega)), if_neg (by omega)]
        · rw [xor_zero]
      · rw [Function.update_of_ne hw]
  wd_count := by
    intro v
    show Function.update m.wdCount _ _ v = _
    by_cases hv : v = i / 32
    · subst hv
      have hcnt := cntsetbits_take hf
      rw [Function.update_self, h.wd_count]
      omega
    · rw [Function.update_of_ne hv, h.wd_count]
      exact congrArg (fun x => (cntsetbits x : Int)) (Function.update_of_ne hv _ _).symm
  beyond := by
    intro j hj
    rw [isFree_take, if_neg (by omega)]
    exact h.beyond j hj

theorem give_inv (h : Inv n m) (hi : i < n) (hf : isFree m i = false) : Inv n (give m i) where
  covers := h.covers
  total_eq := h.total_eq
  ifree_eq := by
    have hc : count (isFree (give m i)) n = count (isFree m) n + 1 := by
      apply count_update hi
      · rw [isFree_give, if_pos rfl]
      · exact hf
      · intro j _ hj
        rw [isFree_give, if_neg hj]
    show m.ifree + 1 = _
    rw [h.ifree_eq]
    omega
  wd_bit := by
    intro v
    have hold := h.wd_bit v
    show (Function.update m.wdBitmap _ _ (v / 32)).getLsbD (v % 32) = _
    by_cases hv : v = i / 32
    · subst hv
      have hcnt := cntsetbits_give hf
      have hne : (give m i).idBitmap (i / 32) ≠ 0 := by
        intro h0
        rw [cntsetbits_eq_zero.mpr h0] at hcnt
        omega
      rw [Function.update_self, getLsbD_or_twoPow (Nat.mod_lt _ (by omega)), decide_eq_true rfl,
        Bool.or_true, decide_eq_true hne]
    · rw [show (give m i).idBitmap v = m.idBitmap v from Function.update_of_ne hv _ _, ← hold]
      by_cases hw : v / 32 = i / 32 / 32
      · rw [hw, Function.update_self, getLsbD_or_twoPow (Nat.mod_lt _ (by omega)),
          decide_eq_false (by omega), Bool.or_false]
      · rw [Function.update_of_ne hw]
  wd_count := by
    intro v
    show Function.update m.wdCount _ _ v = _
    by_cases hv : v = i / 32
    · subst hv
      have hcnt := cntsetbits_give hf
      rw [Function.update_self, h.wd_count]
      omega
    · rw [Function.update_of_ne hv, h.wd_count]
      exact congrArg (fun x => (cntsetbits x : Int)) (Function.update_of_ne hv _ _).symm
  beyond := by
    intro j hj
    rw [isFree_give, if_neg (by omega)]
    exact h.beyond j hj

end Update

/-! ## The calls -/

section Calls

variable {n i : Nat} {m : Mwbmap}

theorem Inv.ifree_pos (h : Inv n m) (hi : i < n) (hf : isFree m i = true) : 0 ≤ m.ifree - 1 := by
  have hc : count (isFree m) n ≠ 0 := by
    intro h0
    rw [count_eq_zero.mp h0 i hi] at hf
    cases hf
  rw [h.ifree_eq]
  omega

theorem mwbmapForce_eq (h : Inv n m) (hn : n < 0x10000) (hi : i < n) (hf : isFree m i = true) :
    mwbmapForce m i = .ok (take m i) := by
  have htot := h.total_eq
  have hbit : m.idBitmap (i / 32) &&& BitVec.twoPow 32 (i % 32) = BitVec.twoPow 32 (i % 32) := by
    rw [BitVec.and_twoPow, show (m.idBitmap (i / 32)).getLsbD (i % 32) = true from hf, if_pos rfl]
  have hcnt := cntsetbits_take hf
  have hwc := h.wd_count (i / 32)
  unfold mwbmapForce
  simp only [shiftLeft_eq, Function.update_self]
  rw [assert_ok (by omega), assert_ok hbit, assert_ok (h.ifree_pos hi hf), assert_ok ?_]
  · rfl
  · have hid : (take m i).idBitmap (i / 32) = m.idBitmap (i / 32) ^^^ BitVec.twoPow 32 (i % 32) :=
      Function.update_self _ _ _
    rw [← hid]
    omega

theorem cntsetbits_le (x : Word) : cntsetbits x ≤ 32 := by
  unfold cntsetbits ones count
  exact (List.countP_le_length).trans (Nat.le_of_eq (List.length_range))

theorem mwbmapFree_eq (h : Inv n m) (hn : n < 0x10000) (hi : i < n) (hf : isFree m i = false) :
    mwbmapFree m i = .ok (give m i) := by
  have htot := h.total_eq
  have hbit : m.idBitmap (i / 32) &&& BitVec.twoPow 32 (i % 32) = 0 := by
    rw [BitVec.and_twoPow, show (m.idBitmap (i / 32)).getLsbD (i % 32) = false from hf]
    rfl
  have hcnt := cntsetbits_give hf
  have hwc := h.wd_count (i / 32)
  have hle := cntsetbits_le ((give m i).idBitmap (i / 32))
  have hfree : m.ifree + 1 ≤ m.total := by
    have hg := (give_inv h hi hf).ifree_eq
    have hc : count (isFree (give m i)) n ≤ n := by
      unfold count
      exact (List.countP_le_length).trans (Nat.le_of_eq (List.length_range))
    have hg' : (give m i).ifree = m.ifree + 1 := rfl
    omega
  unfold mwbmapFree
  simp only [shiftLeft_eq, Function.update_self]
  rw [assert_ok (by omega), assert_ok hbit, assert_ok hfree, assert_ok ?_, assert_ok (by omega)]
  · rfl
  · have hid : (give m i).idBitmap (i / 32) = m.idBitmap (i / 32) ||| BitVec.twoPow 32 (i % 32) :=
      Function.update_self _ _ _
    rw [← hid]
    omega

theorem Inv.word_of_isFree (h : Inv n m) (hf : isFree m i = true) :
    (m.wdBitmap (i / 32 / 32)).getLsbD (i / 32 % 32) = true := by
  rw [h.wd_bit]
  apply decide_eq_true
  intro hz
  unfold isFree at hf
  rw [hz, BitVec.ofNat_eq_ofNat, BitVec.getLsbD_zero] at hf
  cases hf

/-- The lowest bit of the lowest word is the lowest index. -/
theorem lowest_isFree (h : Inv n m) {wdix j k : Nat}
    (hwd : lowest (fun w => m.wdBitmap w != 0) m.wmaps = some wdix)
    (hj : lowest (m.wdBitmap wdix).getLsbD 32 = some j)
    (hk : lowest (m.idBitmap (wdix * 32 + j)).getLsbD 32 = some k) :
    lowest (isFree m) n = some ((wdix * 32 + j) * 32 + k) := by
  obtain ⟨-, -, hwd'⟩ := lowest_eq_some.mp hwd
  obtain ⟨hj32, -, hj'⟩ := lowest_eq_some.mp hj
  obtain ⟨hk32, hkx, hk'⟩ := lowest_eq_some.mp hk
  have hfree : isFree m ((wdix * 32 + j) * 32 + k) = true := by
    unfold isFree
    rw [show ((wdix * 32 + j) * 32 + k) / 32 = wdix * 32 + j by omega,
      show ((wdix * 32 + j) * 32 + k) % 32 = k by omega]
    exact hkx
  rw [lowest_eq_some]
  refine ⟨?_, hfree, ?_⟩
  · by_contra hn
    rw [h.beyond _ (by omega)] at hfree
    cases hfree
  · intro i hi
    cases hf : isFree m i with
    | false => rfl
    | true =>
      exfalso
      have hw := h.word_of_isFree hf
      rcases Nat.lt_trichotomy (i / 32 / 32) wdix with hlt | heq | hgt
      · have hz := hwd' _ hlt
        rw [bne_eq_false_iff_eq] at hz
        rw [hz, BitVec.ofNat_eq_ofNat, BitVec.getLsbD_zero] at hw
        cases hw
      · rcases Nat.lt_trichotomy (i / 32 % 32) j with hlt | heq' | hgt
        · rw [heq, hj' _ hlt] at hw
          cases hw
        · have hb : (m.idBitmap (i / 32)).getLsbD (i % 32) = true := hf
          rw [show i / 32 = wdix * 32 + j by omega, hk' _ (by omega)] at hb
          cases hb
        · omega
      · omega

theorem mwbmapAlloc_eq (h : Inv n m) : mwbmapAlloc m =
    .ok (match lowest (isFree m) n with
      | none => (none, m)
      | some i => (some i, take m i)) := by
  unfold mwbmapAlloc
  cases hwd : lowest (fun w => m.wdBitmap w != 0) m.wmaps with
  | none =>
    have hnone : ∀ i < n, isFree m i = false := by
      intro i hi
      cases hf : isFree m i with
      | false => rfl
      | true =>
        have hw := h.word_of_isFree hf
        have hc := h.covers
        have hz := lowest_eq_none.mp hwd (i / 32 / 32) (by omega)
        rw [bne_eq_false_iff_eq] at hz
        rw [hz, BitVec.ofNat_eq_ofNat, BitVec.getLsbD_zero] at hw
        cases hw
    have hzero : m.ifree = 0 := by
      rw [h.ifree_eq, count_eq_zero.mpr hnone]
      rfl
    rw [lowest_eq_none.mpr hnone]
    dsimp only
    rw [assert_ok hzero]
    rfl
  | some wdix =>
    obtain ⟨-, hne, -⟩ := lowest_eq_some.mp hwd
    rw [bne_iff_ne] at hne
    obtain ⟨j, hj⟩ := exists_lowest hne
    obtain ⟨hj32, hjx, -⟩ := lowest_eq_some.mp hj
    have hid : m.idBitmap (wdix * 32 + j) ≠ 0 := by
      have hb := h.wd_bit (wdix * 32 + j)
      rw [show (wdix * 32 + j) / 32 = wdix by omega, show (wdix * 32 + j) % 32 = j by omega,
        hjx] at hb
      exact of_decide_eq_true hb.symm
    obtain ⟨k, hk⟩ := exists_lowest hid
    obtain ⟨hk32, -, -⟩ := lowest_eq_some.mp hk
    have hlow := lowest_isFree h hwd hj hk
    obtain ⟨hi, hf, -⟩ := lowest_eq_some.mp hlow
    have hwc := h.wd_count (wdix * 32 + j)
    have hifree := h.ifree_pos hi hf
    have hclz : ∀ b < 32, countLeadingZeros (BitVec.twoPow 32 b) = 31 - b :=
      fun b hb => countLeadingZeros_twoPow ⟨b, hb⟩
    rw [hlow]
    dsimp only
    rw [trailingOne_eq hj, hclz j hj32, if_pos (by omega), show 31 - (31 - j) = j by omega,
      assert_ok (by omega), assert_ok hid, trailingOne_eq hk, hclz k hk32, assert_ok hifree]
    unfold take
    rw [show ((wdix * 32 + j) * 32 + k) / 32 = wdix * 32 + j by omega,
      show ((wdix * 32 + j) * 32 + k) % 32 = k by omega,
      show (wdix * 32 + j) / 32 = wdix by omega, show (wdix * 32 + j) % 32 = j by omega,
      show (wdix * 32 + j) * 32 + 31 - (31 - k) = (wdix * 32 + j) * 32 + k by omega, shiftLeft_eq]
    rfl

theorem count_isFree (m : Mwbmap) (k : Nat) :
    count (isFree m) (32 * k) = ((List.range k).map fun v => cntsetbits (m.idBitmap v)).sum := by
  rw [count_words]
  congr 1
  apply List.map_congr_left
  intro v _
  apply count_congr
  intro b hb
  unfold isFree
  rw [show (32 * v + b) / 32 = v by omega, show (32 * v + b) % 32 = b by omega]

/-- One round of the audit. -/
def auditStep (m : Mwbmap) (freeCnt : Int) (idmapIx : Nat) : Except Assertion Int :=
  if m.wdBitmap (idmapIx / 32) &&& (1 : Word) <<< (idmapIx % 32) ≠ 0 then do
    let count := m.wdCount idmapIx
    assert (count = cntsetbits (m.idBitmap idmapIx))
    assert (count ≠ 0)
    return freeCnt + count
  else return freeCnt

theorem auditStep_eq (h : Inv n m) (c : Int) (v : Nat) :
    auditStep m c v = .ok (c + cntsetbits (m.idBitmap v)) := by
  have hwc := h.wd_count v
  have hbit := h.wd_bit v
  unfold auditStep
  rw [shiftLeft_eq, BitVec.and_twoPow, hbit]
  by_cases hz : m.idBitmap v = 0
  · rw [cntsetbits_eq_zero.mpr hz]
    simp only [hz, ne_eq, not_true_eq_false, decide_false, Bool.false_eq_true, if_false]
    rw [if_neg (by simp), Int.ofNat_zero, Int.add_zero]
    rfl
  · have hne : cntsetbits (m.idBitmap v) ≠ 0 := fun h0 => hz (cntsetbits_eq_zero.mp h0)
    have hpow : BitVec.twoPow 32 (v % 32) ≠ 0 := by
      intro h0
      have hb := congrArg (fun x => BitVec.getLsbD x (v % 32)) h0
      have hlt : v % 32 < 32 := Nat.mod_lt _ (by omega)
      simp [hlt] at hb
    simp only [ne_eq, hz, not_false_eq_true, decide_true, if_true]
    rw [if_pos hpow, assert_ok hwc, assert_ok (by omega), hwc]
    rfl

/-- The audit counts word by word what `ifree` counts. -/
theorem mwbmapAudit_eq (h : Inv n m) : mwbmapAudit m = .ok () := by
  have hfold : ∀ k, (List.range k).foldlM (auditStep m) (0 : Int) =
      .ok (((List.range k).map fun v => cntsetbits (m.idBitmap v)).sum : Nat) := by
    intro k
    induction k with
    | zero => rfl
    | succ k ih =>
      rw [List.range_succ, List.foldlM_append, ih]
      show (auditStep m _ k >>= fun c => pure c) = _
      rw [auditStep_eq h, List.map_append, List.sum_append]
      show Except.ok _ = _
      simp
  have hcount : m.ifree = ((List.range (32 * m.wmaps)).map fun v => cntsetbits (m.idBitmap v)).sum := by
    rw [h.ifree_eq, ← count_isFree, count_of_above h.covers fun i hi _ => h.beyond i hi]
  show ((List.range (32 * m.wmaps)).foldlM (auditStep m) 0 >>= fun c => assert (c = m.ifree)) = _
  rw [hfold]
  exact assert_ok hcount.symm

end Calls

/-! ## The start -/

theorem ones_bit (b : Nat) : (~~~(0 : Word)).getLsbD b = decide (b < 32) := by
  rw [BitVec.getLsbD_not, BitVec.ofNat_eq_ofNat, BitVec.getLsbD_zero, Bool.not_false, Bool.and_true]

theorem ones_xor_bit {k b : Nat} (hb : b < 32) :
    (~~~(0 : Word) ^^^ (~~~(0 : Word)) <<< k).getLsbD b = decide (b < k) := by
  rw [BitVec.getLsbD_xor, BitVec.getLsbD_shiftLeft, ones_bit, ones_bit, decide_eq_true hb]
  by_cases hk : b < k
  · simp [hk]
  · rw [decide_eq_false hk, decide_eq_true (show b - k < 32 by omega)]
    rfl

theorem wordsFor_of_eq {N : Nat} (h : N % 32 = 0) : wordsFor N = N / 32 := by
  unfold wordsFor
  rw [if_neg (by omega), Nat.add_zero]

theorem wordsFor_of_ne {N : Nat} (h : N % 32 ≠ 0) : wordsFor N = N / 32 + 1 := by
  unfold wordsFor
  rw [if_pos h]

theorem lt_wordsFor {N v : Nat} : v < wordsFor N ↔ 32 * v < N := by
  by_cases h : N % 32 = 0
  · rw [wordsFor_of_eq h]
    omega
  · rw [wordsFor_of_ne h]
    omega

theorem zero_bit (b : Nat) : (0 : Word).getLsbD b = false := BitVec.getLsbD_zero

theorem setupBitmap_bit {N v b : Nat} (hb : b < 32) :
    (setupBitmap (wordsFor N) (N % 32) v).getLsbD b = decide (32 * v + b < N) := by
  unfold setupBitmap fill
  dsimp only
  by_cases he : N % 32 = 0
  · rw [if_neg (by omega), wordsFor_of_eq he]
    by_cases hv : v < N / 32
    · rw [if_pos hv, ones_bit]
      exact decide_eq_decide.mpr (by omega)
    · rw [if_neg hv, zero_bit]
      exact (decide_eq_false (by omega)).symm
  · rw [if_pos he, wordsFor_of_ne he, Nat.add_sub_cancel]
    by_cases hv : v = N / 32
    · rw [hv, Function.update_self, if_pos (by omega), ones_xor_bit hb]
      exact decide_eq_decide.mpr (by omega)
    · rw [Function.update_of_ne hv]
      by_cases hv' : v < N / 32 + 1
      · rw [if_pos hv', ones_bit]
        exact decide_eq_decide.mpr (by omega)
      · rw [if_neg hv', zero_bit]
        exact (decide_eq_false (by omega)).symm

theorem setupBitmap_ne_zero (N v : Nat) :
    setupBitmap (wordsFor N) (N % 32) v ≠ 0 ↔ v < wordsFor N := by
  rw [lt_wordsFor]
  constructor
  · intro hne
    by_contra hv
    apply hne
    apply BitVec.eq_of_getLsbD_eq
    intro b hb
    rw [setupBitmap_bit hb, zero_bit]
    exact decide_eq_false (by omega)
  · intro hv hz
    have hbit := @setupBitmap_bit N v 0 (by omega)
    rw [hz, zero_bit] at hbit
    have hno := of_decide_eq_false hbit.symm
    omega

theorem setupCount_eq (N v : Nat) :
    setupCount (wordsFor N) (N % 32) v = cntsetbits (setupBitmap (wordsFor N) (N % 32) v) := by
  have hones : cntsetbits (setupBitmap (wordsFor N) (N % 32) v) = min 32 (N - 32 * v) := by
    unfold cntsetbits ones
    apply count_of_below (Nat.min_le_left _ _)
    intro b hb
    rw [setupBitmap_bit hb]
    exact decide_eq_decide.mpr (by omega)
  rw [hones]
  unfold setupCount fill
  dsimp only
  by_cases he : N % 32 = 0
  · rw [if_neg (by omega), wordsFor_of_eq he]
    by_cases hv : v < N / 32
    · rw [if_pos hv]
      omega
    · rw [if_neg hv]
      omega
  · rw [if_pos he, wordsFor_of_ne he, Nat.add_sub_cancel]
    by_cases hv : v = N / 32
    · rw [hv, Function.update_self]
      omega
    · rw [Function.update_of_ne hv]
      by_cases hv' : v < N / 32 + 1
      · rw [if_pos hv']
        omega
      · rw [if_neg hv']
        omega

theorem wordsFor_le {N k : Nat} (h : N ≤ 32 * k) : wordsFor N ≤ k := by
  by_contra hk
  have hlt := lt_wordsFor.mp (Nat.lt_of_not_le hk)
  omega

theorem le_wordsFor (N : Nat) : N ≤ 32 * wordsFor N := by
  by_contra h
  have hlt := lt_wordsFor.mpr (Nat.lt_of_not_le h)
  omega

theorem init_inv {n : Nat} (hn : n ≤ ITEMS_MAX) :
    ∃ m, mwbmapInit n = .ok m ∧ Inv n m ∧ ∀ i, isFree m i = decide (i < n) := by
  have hw : wordsFor n ≤ 2048 := wordsFor_le hn
  have hw' : wordsFor (wordsFor n) ≤ 64 := wordsFor_le hw
  have hcov := le_wordsFor n
  have hcov' := le_wordsFor (wordsFor n)
  have hfree : ∀ i, (setupBitmap (wordsFor n) (n % 32) (i / 32)).getLsbD (i % 32) =
      decide (i < n) := by
    intro i
    rw [setupBitmap_bit (Nat.mod_lt _ (by omega)), Nat.div_add_mod]
  unfold mwbmapInit
  dsimp only
  rw [assert_ok hn, Nat.mod_eq_of_lt (show wordsFor n < 0x10000 by omega),
    Nat.mod_eq_of_lt (show wordsFor (wordsFor n) < 0x10000 by omega)]
  refine ⟨_, rfl, ?_, hfree⟩
  exact
    { covers := by
        dsimp only
        omega
      total_eq := rfl
      ifree_eq := congrArg Nat.cast (count_of_below (Nat.le_refl n) fun i _ => hfree i).symm
      wd_bit := by
        intro v
        dsimp only
        rw [setupBitmap_bit (Nat.mod_lt _ (by omega)), Nat.div_add_mod]
        exact decide_eq_decide.mpr (setupBitmap_ne_zero n v).symm
      wd_count := setupCount_eq n
      beyond := fun i hi => (hfree i).trans (decide_eq_false (by omega)) }

/-! ## Runs keep the invariant -/

/-- An alloc, or `total` holds the number of indices. -/
def totalFits (itemsMax : Nat) (_ : Mwbmap) : Call → Bool
  | .alloc => true
  | .free _ => itemsMax ≠ ITEMS_MAX
  | .force _ => itemsMax ≠ ITEMS_MAX

section Run

variable {n : Nat} {m m' : Mwbmap} {r : Result}

theorem step_alloc (h : Inv n m) :
    step n m .alloc = some (match lowest (isFree m) n with
      | none => (m, .index none)
      | some i => (take m i, .index (some i))) := by
  unfold step
  rw [mwbmapAudit_eq h]
  show (match mwbmapAlloc m with
    | .ok (r, m') => some (m', Result.index r)
    | .error _ => some (m, .assertion)) = _
  rw [mwbmapAlloc_eq h]
  cases lowest (isFree m) n <;> rfl

theorem step_free (h : Inv n m) (hn : n ≤ ITEMS_MAX) {i : Nat} (hi : i < n)
    (hf : isFree m i = false) :
    step n m (.free i) = some (if n ≠ ITEMS_MAX then (give m i, .done) else (m, .assertion)) := by
  have hmax : ITEMS_MAX = 65536 := rfl
  rw [step, if_pos ⟨hi, hf⟩, mwbmapAudit_eq h]
  show (match mwbmapFree m i with
    | .ok m' => some (m', Result.done)
    | .error _ => some (m, .assertion)) = _
  by_cases hne : n ≠ ITEMS_MAX
  · rw [mwbmapFree_eq h (by omega) hi hf, if_pos hne]
  · have htot := h.total_eq
    have hno : assert (i < m.total) = .error .failed := if_neg (by omega)
    unfold mwbmapFree
    rw [hno, if_neg hne]
    rfl

theorem step_force (h : Inv n m) (hn : n ≤ ITEMS_MAX) {i : Nat} (hi : i < n)
    (hf : isFree m i = true) :
    step n m (.force i) = some (if n ≠ ITEMS_MAX then (take m i, .done) else (m, .assertion)) := by
  have hmax : ITEMS_MAX = 65536 := rfl
  rw [step, if_pos ⟨hi, hf⟩, mwbmapAudit_eq h]
  show (match mwbmapForce m i with
    | .ok m' => some (m', Result.done)
    | .error _ => some (m, .assertion)) = _
  by_cases hne : n ≠ ITEMS_MAX
  · rw [mwbmapForce_eq h (by omega) hi hf, if_pos hne]
  · have htot := h.total_eq
    have hno : assert (i < m.total) = .error .failed := if_neg (by omega)
    unfold mwbmapForce
    rw [hno, if_neg hne]
    rfl

/-- A call asserts exactly if `total` does not fit. -/
theorem step_cases (h : Inv n m) (hn : n ≤ ITEMS_MAX) {e : Call}
    (hs : step n m e = some (m', r)) :
    Inv n m' ∧ (r = .assertion ↔ totalFits n m e = false) := by
  cases e with
  | alloc =>
    rw [step_alloc h] at hs
    cases hl : lowest (isFree m) n with
    | none =>
      rw [hl] at hs
      cases hs
      exact ⟨h, nofun, nofun⟩
    | some i =>
      obtain ⟨hi, hf, -⟩ := lowest_eq_some.mp hl
      rw [hl] at hs
      cases hs
      exact ⟨take_inv h hi hf, nofun, nofun⟩
  | free i =>
    by_cases hg : i < n ∧ isFree m i = false
    · rw [step_free h hn hg.1 hg.2] at hs
      unfold totalFits
      by_cases hne : n ≠ ITEMS_MAX
      · rw [if_pos hne] at hs
        cases hs
        simp [hne, give_inv h hg.1 hg.2]
      · rw [if_neg hne] at hs
        cases hs
        simp [hne, h]
    · rw [step, if_neg hg] at hs
      cases hs
  | force i =>
    by_cases hg : i < n ∧ isFree m i = true
    · rw [step_force h hn hg.1 hg.2] at hs
      unfold totalFits
      by_cases hne : n ≠ ITEMS_MAX
      · rw [if_pos hne] at hs
        cases hs
        simp [hne, take_inv h hg.1 hg.2]
      · rw [if_neg hne] at hs
        cases hs
        simp [hne, h]
    · rw [step, if_neg hg] at hs
      cases hs

end Run

/-- **Smallest free index.**  After every run whose calls are allocs, or on fewer than 64K indices,
the word-level bitmap has the bits of the words that are not zero, `ifree` is the number of free
indices, none of them beyond `items_max`, and an alloc takes the smallest free index, or none if
there is none.  No call of the run has asserted, and the next one asserts only if it is a free or a
force on 64K indices. -/
theorem mwbmap_alloc_smallest (n : Nat) (hn : n ≤ ITEMS_MAX) : ∃ m, mwbmapInit n = .ok m ∧
    ∀ es t tr, meets (step n) (totalFits n) m es = true → runs (step n) m es = some (t, tr) →
      (∀ v, (t.wdBitmap (v / 32)).getLsbD (v % 32) = decide (t.idBitmap v ≠ 0)) ∧
      t.ifree = count (isFree t) n ∧
      (∀ i, n ≤ i → isFree t i = false) ∧
      (∀ x ∈ tr, x.2 ≠ .assertion) ∧
      (∃ t', step n t .alloc = some (t', .index (lowest (isFree t) n)) ∧
        ∀ j, isFree t' j = (isFree t j && lowest (isFree t) n != some j)) ∧
      ∀ e t' r, step n t e = some (t', r) → (r = .assertion ↔ totalFits n t e = false) := by
  obtain ⟨m, hm, hinv, -⟩ := init_inv hn
  refine ⟨m, hm, fun es t tr hmeets hr => ?_⟩
  obtain ⟨ht, htr⟩ := runs_inv_of_meets (step n) (totalFits n)
    (fun s tr => Inv n s ∧ ∀ x ∈ tr, x.2 ≠ Result.assertion)
    (by
      intro s tr e s' r hi hc hs
      obtain ⟨hs', hassert⟩ := step_cases hi.1 hn hs
      refine ⟨hs', ?_⟩
      intro x hx
      rcases List.mem_append.mp hx with hx | hx
      · exact hi.2 x hx
      · rw [List.mem_singleton.mp hx]
        intro ha
        rw [hassert.mp ha] at hc
        cases hc)
    m t es tr ⟨hinv, nofun⟩ hmeets hr
  refine ⟨ht.wd_bit, ht.ifree_eq, ht.beyond, htr, ?_, fun e t' r hs => (step_cases ht hn hs).2⟩
  have hs := step_alloc ht
  cases hl : lowest (isFree t) n with
  | none =>
    rw [hl] at hs
    exact ⟨t, hs, fun j => by simp⟩
  | some i =>
    obtain ⟨-, hf, -⟩ := lowest_eq_some.mp hl
    rw [hl] at hs
    refine ⟨take t i, hs, ?_⟩
    intro j
    rw [isFree_take]
    by_cases hj : j = i
    · simp [hj, hf]
    · simp [hj, Ne.symm hj]

/-- 33 indices, one of them in the last word. -/
theorem mwbmap_alloc_smallest_two : ∃ m, mwbmapInit 33 = .ok m ∧
    ∀ es t tr, meets (step 33) (totalFits 33) m es = true → runs (step 33) m es = some (t, tr) →
      (∀ v, (t.wdBitmap (v / 32)).getLsbD (v % 32) = decide (t.idBitmap v ≠ 0)) ∧
      t.ifree = count (isFree t) 33 ∧
      (∀ i, 33 ≤ i → isFree t i = false) ∧
      (∀ x ∈ tr, x.2 ≠ .assertion) ∧
      (∃ t', step 33 t .alloc = some (t', .index (lowest (isFree t) 33)) ∧
        ∀ j, isFree t' j = (isFree t j && lowest (isFree t) 33 != some j)) ∧
      ∀ e t' r, step 33 t e = some (t', r) → (r = .assertion ↔ totalFits 33 t e = false) :=
  mwbmap_alloc_smallest 33 (by decide)

/-- The largest size admitted: an index freed after its alloc asserts. -/
theorem mwbmap_alloc_smallest_fails : ∃ m t, mwbmapInit ITEMS_MAX = .ok m ∧
    runs (step ITEMS_MAX) m [.alloc, .free 0] =
      some (t, [(.alloc, .index (some 0)), (.free 0, .assertion)]) := by
  obtain ⟨m, hm, hinv, hfree⟩ := init_inv (Nat.le_refl ITEMS_MAX)
  have h0 : isFree m 0 = true := (hfree 0).trans (decide_eq_true (by decide))
  have hl : lowest (isFree m) ITEMS_MAX = some 0 :=
    lowest_eq_some.mpr ⟨by decide, h0, fun j hj => absurd hj (Nat.not_lt_zero j)⟩
  have ha := step_alloc hinv
  rw [hl] at ha
  have hf := step_free (take_inv hinv (by decide) h0) (Nat.le_refl _) (i := 0) (by decide)
    (by rw [isFree_take, if_pos rfl, h0]; rfl)
  rw [if_neg (not_not.mpr rfl)] at hf
  refine ⟨m, take m 0, hm, ?_⟩
  rw [runs_cons_eq_some]
  refine ⟨take m 0, .index (some 0), [(.free 0, .assertion)], ha, ?_, rfl⟩
  rw [runs_cons_eq_some]
  exact ⟨take m 0, .assertion, [], hf, rfl, rfl⟩

end Bcmdhd.MultiwordBitmap
