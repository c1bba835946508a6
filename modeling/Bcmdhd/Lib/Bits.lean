import Bcmdhd.Lib.Scan
import Mathlib.Data.BitVec

/-!
# Words of bits

A bitmap is a function from word indices to words of `w` bits; index `i` is bit `i % w` of
word `i / w`.

* `and_neg_self`: `x &&& -x` is the lowest bit of `x`.
* `count_update`: a count changes by one when one index changes.
* `count_words`: the count over words is the sum of the words' counts.
* `eq_of_bitAt`: bitmaps with the same bits are the same.
* `bitAt_update`, `bitAt_foldl`: the bits after a word is written, or one bit after another.
-/

namespace Bits

open Scan

/-! ## Counting -/

def count (p : Nat → Bool) (n : Nat) : Nat := (List.range n).countP p

variable {p p' : Nat → Bool} {n i : Nat}

theorem count_succ (p : Nat → Bool) (n : Nat) :
    count p (n + 1) = count p n + if p n then 1 else 0 := by
  unfold count
  rw [List.range_succ, List.countP_append, List.countP_singleton]

theorem count_congr (h : ∀ i < n, p i = p' i) : count p n = count p' n := by
  unfold count
  apply List.countP_congr
  intro i hi
  rw [h i (List.mem_range.mp hi)]

/-- One index leaves. -/
theorem count_update (hi : i < n) (hp : p i = true) (hp' : p' i = false)
    (h : ∀ j < n, j ≠ i → p j = p' j) : count p n = count p' n + 1 := by
  induction n with
  | zero => omega
  | succ n ih =>
    rw [count_succ, count_succ]
    by_cases hin : i = n
    · subst hin
      rw [hp, hp', count_congr fun j hj => h j (by omega) (by omega)]
      simp
    · rw [ih (by omega) fun j hj => h j (by omega), h n (by omega) (by omega)]
      omega

theorem count_eq_zero : count p n = 0 ↔ ∀ i < n, p i = false := by
  unfold count
  rw [List.countP_eq_zero]
  constructor
  · intro h i hi
    simpa using h i (List.mem_range.mpr hi)
  · intro h i hi
    simpa using h i (List.mem_range.mp hi)

theorem count_of_below {m : Nat} (hmn : m ≤ n) (h : ∀ i < n, p i = decide (i < m)) :
    count p n = m := by
  induction n with
  | zero => exact (Nat.le_zero.mp hmn).symm
  | succ n ih =>
    rw [count_succ, h n (by omega)]
    by_cases hm : m = n + 1
    · have hall : count p n = count (fun _ => true) n :=
        count_congr fun i hi => by rw [h i (by omega)]; exact decide_eq_true (by omega)
      rw [hall, if_pos (decide_eq_true (by omega)), hm]
      unfold count
      rw [List.countP_true, List.length_range]
    · rw [ih (by omega) fun i hi => h i (by omega), if_neg (by simp; omega)]
      rfl

/-- Only the indices below `m` matter. -/
theorem count_of_above {m : Nat} (hmn : m ≤ n) (h : ∀ i, m ≤ i → i < n → p i = false) :
    count p n = count p m := by
  obtain ⟨k, rfl⟩ := Nat.exists_eq_add_of_le hmn
  induction k with
  | zero => rfl
  | succ k ih =>
    rw [← Nat.add_assoc, count_succ, h (m + k) (by omega) (by omega),
      ih (by omega) fun i h1 h2 => h i h1 (by omega)]
    rfl

/-- Word by word. -/
theorem count_words (w : Nat) (p : Nat → Bool) (k : Nat) :
    count p (w * k) = ((List.range k).map fun v => count (fun b => p (w * v + b)) w).sum := by
  induction k with
  | zero => rfl
  | succ k ih =>
    rw [List.range_succ, List.map_append, List.sum_append, ← ih, Nat.mul_succ]
    unfold count
    rw [List.range_add, List.countP_append, List.countP_map]
    simp only [List.map_cons, List.map_nil, List.sum_singleton]
    rfl

/-! ## Words -/

section Words

variable {w : Nat} (x : BitVec w)

/-- The number of bits set. -/
def ones : Nat := count x.getLsbD w

variable {x}

theorem ones_eq_zero : ones x = 0 ↔ x = 0 := by
  unfold ones
  rw [count_eq_zero]
  constructor
  · intro h
    apply BitVec.eq_of_getLsbD_eq
    intro i hi
    rw [h i hi, BitVec.ofNat_eq_ofNat, BitVec.getLsbD_zero]
  · rintro rfl i -
    rw [BitVec.ofNat_eq_ofNat, BitVec.getLsbD_zero]

theorem getLsbD_xor_twoPow {i j : Nat} (hi : i < w) :
    (x ^^^ BitVec.twoPow w i).getLsbD j = if j = i then !x.getLsbD j else x.getLsbD j := by
  rw [BitVec.getLsbD_xor, BitVec.getLsbD_twoPow]
  by_cases hj : j = i
  · simp [hj, hi]
  · simp [hj, Ne.symm hj]

theorem getLsbD_or_twoPow {i j : Nat} (hi : i < w) :
    (x ||| BitVec.twoPow w i).getLsbD j = (x.getLsbD j || decide (j = i)) := by
  rw [BitVec.getLsbD_or, BitVec.getLsbD_twoPow]
  by_cases hj : j = i
  · simp [hj, hi]
  · simp [hj, Ne.symm hj]

theorem ones_xor_twoPow {i : Nat} (hi : i < w) (hx : x.getLsbD i = true) :
    ones x = ones (x ^^^ BitVec.twoPow w i) + 1 := by
  apply count_update hi hx
  · rw [getLsbD_xor_twoPow hi, if_pos rfl, hx]
    rfl
  · intro j _ hj
    rw [getLsbD_xor_twoPow hi, if_neg hj]

theorem ones_or_twoPow {i : Nat} (hi : i < w) (hx : x.getLsbD i = false) :
    ones (x ||| BitVec.twoPow w i) = ones x + 1 := by
  apply count_update hi
  · rw [getLsbD_or_twoPow hi, decide_eq_true rfl, Bool.or_true]
  · exact hx
  · intro j _ hj
    rw [getLsbD_or_twoPow hi, decide_eq_false hj, Bool.or_false]

theorem exists_lowest (hx : x ≠ 0) : ∃ i, lowest x.getLsbD w = some i := by
  cases h : lowest x.getLsbD w with
  | some i => exact ⟨i, rfl⟩
  | none => exact absurd (ones_eq_zero.mp (count_eq_zero.mpr (lowest_eq_none.mp h))) hx

/-- All bits but the lowest one set are cleared. -/
theorem and_neg_self {i : Nat} (h : lowest x.getLsbD w = some i) :
    x &&& -x = BitVec.twoPow w i := by
  obtain ⟨hi, hxi, hlt⟩ := lowest_eq_some.mp h
  apply BitVec.eq_of_getLsbD_eq
  intro j hj
  rw [BitVec.getLsbD_and, BitVec.getLsbD_neg, BitVec.getLsbD_twoPow]
  rcases Nat.lt_trichotomy j i with hji | rfl | hji
  · rw [hlt j hji]
    simp [hi]
    omega
  · have hno : ¬ ∃ k < j, x.getLsbD k = true := by
      rintro ⟨k, hk, hxk⟩
      rw [hlt k hk] at hxk
      cases hxk
    simp [hxi, hj, hno]
  · have hyes : ∃ k < j, x.getLsbD k = true := ⟨i, hji, hxi⟩
    simp [hj, hyes]
    omega

end Words

/-! ## Bitmaps -/

section Bitmaps

variable {w : Nat} {a b : Nat → BitVec w} {k : Nat}

def bitAt (a : Nat → BitVec w) (k : Nat) : Bool := (a (k / w)).getLsbD (k % w)

theorem bitAt_mul_add (a : Nat → BitVec w) {i j : Nat} (hj : j < w) :
    bitAt a (w * i + j) = (a i).getLsbD j := by
  unfold bitAt
  rw [Nat.mul_add_div (by omega), Nat.div_eq_of_lt hj, Nat.add_zero, Nat.mul_add_mod,
    Nat.mod_eq_of_lt hj]

theorem eq_of_bitAt (h : ∀ k, bitAt a k = bitAt b k) : a = b := by
  funext i
  apply BitVec.eq_of_getLsbD_eq
  intro j hj
  rw [← bitAt_mul_add a hj, ← bitAt_mul_add b hj]
  exact h _

theorem bitAt_update (a : Nat → BitVec w) (i : Nat) (x : BitVec w) (k : Nat) :
    bitAt (Function.update a i x) k = if k / w = i then x.getLsbD (k % w) else bitAt a k := by
  unfold bitAt
  by_cases hi : k / w = i
  · rw [if_pos hi, hi, Function.update_self]
  · rw [if_neg hi, Function.update_of_ne hi]

/-- Each write gives its bits the value `v`. -/
theorem bitAt_foldl {v : Bool} {put : (Nat → BitVec w) → Nat → Nat → BitVec w}
    {at' : Nat → Nat → Prop} [∀ i k, Decidable (at' i k)]
    (hput : ∀ a i k, bitAt (put a i) k = if at' i k then v else bitAt a k) (is : List Nat)
    (a : Nat → BitVec w) (k : Nat) :
    bitAt (is.foldl put a) k = if ∃ i ∈ is, at' i k then v else bitAt a k := by
  induction is generalizing a with
  | nil => rw [List.foldl_nil, if_neg fun ⟨i, hi, _⟩ => List.not_mem_nil hi]
  | cons i is ih =>
    rw [List.foldl_cons, ih, hput]
    by_cases htail : ∃ j ∈ is, at' j k
    · rw [if_pos htail, if_pos]
      exact htail.imp fun j hj => ⟨List.mem_cons_of_mem i hj.1, hj.2⟩
    · rw [if_neg htail]
      by_cases hi : at' i k
      · rw [if_pos hi, if_pos ⟨i, List.mem_cons_self, hi⟩]
      · rw [if_neg hi, if_neg]
        rintro ⟨j, hj, hk⟩
        rcases List.mem_cons.mp hj with rfl | hj
        · exact hi hk
        · exact htail ⟨j, hj, hk⟩

end Bitmaps

end Bits
