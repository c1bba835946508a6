import Mathlib.Algebra.GroupWithZero.Nat
import Mathlib.Data.List.Range

/-!
# The highest and the lowest index with a property

Below a bound `n`, scanned down and up.  A scan need not start at the bound where no
index above has the property (`highest_of_above`), and neither need a sum over the indices
(`sum_filter_of_above`).  What all entries of a table have is found in one pass (`get_mem_zipIdx`).
-/

namespace Scan

/-- The highest index below `n` with `p`. -/
def highest (p : Nat → Bool) : Nat → Option Nat
  | 0 => none
  | n + 1 => if p n then some n else highest p n

/-- The lowest index below `n` with `p`. -/
def lowest (p : Nat → Bool) (n : Nat) : Option Nat := (List.range n).find? p

variable {p p' : Nat → Bool} {m n i : Nat}

theorem highest_some (hi : highest p n = some i) : i < n ∧ p i = true := by
  induction n with
  | zero => cases hi
  | succ n ih =>
    unfold highest at hi
    split at hi
    · next hp =>
      cases hi
      exact ⟨Nat.lt_succ_self _, hp⟩
    · obtain ⟨hlt, hp⟩ := ih hi
      exact ⟨by omega, hp⟩

theorem highest_exists (hi : i < n) (hp : p i = true) : ∃ k, highest p n = some k := by
  induction n with
  | zero => omega
  | succ n ih =>
    unfold highest
    by_cases hn : p n = true
    · exact ⟨n, if_pos hn⟩
    · rw [if_neg hn]
      apply ih
      have hne : i ≠ n := by
        rintro rfl
        exact hn hp
      omega

theorem highest_none (h : ∀ i < n, p i = false) : highest p n = none := by
  cases hh : highest p n with
  | none => rfl
  | some i =>
    obtain ⟨hlt, hp⟩ := highest_some hh
    rw [h i hlt] at hp
    cases hp

/-- Indices without `p` at the upper end do not matter. -/
theorem highest_of_above (hmn : m ≤ n) (h : ∀ i, m ≤ i → i < n → p i = false) :
    highest p n = highest p m := by
  obtain ⟨k, rfl⟩ := Nat.exists_eq_add_of_le hmn
  induction k with
  | zero => rfl
  | succ k ih =>
    rw [← Nat.add_assoc, highest, h (m + k) (by omega) (by omega), if_neg Bool.false_ne_true]
    exact ih (by omega) fun i h1 h2 => h i h1 (by omega)

theorem highest_congr (h : ∀ i < n, p i = p' i) : highest p n = highest p' n := by
  induction n with
  | zero => rfl
  | succ n ih =>
    unfold highest
    rw [h n (Nat.lt_succ_self n), ih fun i hi => h i (by omega)]

theorem lowest_eq_some : lowest p n = some i ↔ i < n ∧ p i = true ∧ ∀ j < i, p j = false := by
  unfold lowest
  rw [List.find?_range_eq_some, List.mem_range]
  constructor
  · rintro ⟨hp, hi, hj⟩
    exact ⟨hi, hp, fun j hlt => by simpa using hj j hlt⟩
  · rintro ⟨hi, hp, hj⟩
    exact ⟨hp, hi, fun j hlt => by simpa using hj j hlt⟩

theorem lowest_eq_none : lowest p n = none ↔ ∀ i < n, p i = false := by
  unfold lowest
  rw [List.find?_range_eq_none]
  constructor
  · intro h i hi
    simpa using h i hi
  · intro h i hi
    simpa using h i hi

/-- A sum over indices that are zero at the upper end. -/
theorem sum_filter_of_above (b : Nat → Bool) {f : Nat → Nat} (hmn : m ≤ n)
    (h : ∀ i, m ≤ i → i < n → f i = 0) :
    (((List.range n).filter b).map f).sum = (((List.range m).filter b).map f).sum := by
  obtain ⟨k, rfl⟩ := Nat.exists_eq_add_of_le hmn
  induction k with
  | zero => rfl
  | succ k ih =>
    rw [← Nat.add_assoc, List.range_succ, List.filter_append, List.map_append, List.sum_append,
      ih (by omega) fun i h1 h2 => h i h1 (by omega)]
    have hzero := h (m + k) (by omega) (by omega)
    by_cases hb : b (m + k) = true
    · simp [hb, hzero]
    · simp [hb]

/-! ## Tables -/

theorem get_mem_zipIdx {α : Type*} {n : Nat} (table : Vector α n) (i : Fin n) :
    (table.get i, i.val) ∈ table.toList.zipIdx := by
  rw [List.mem_zipIdx_iff_getElem?, Vector.getElem?_toList]
  exact Vector.getElem?_eq_getElem i.isLt

end Scan
