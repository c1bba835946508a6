import Mathlib.Data.Nat.ModEq

/-!
# One's complement sums

Words of 16 bits are added with the carry out of the top added at the bottom.  The sum is the sum
of the numbers modulo `0xFFFF`, where zero stands for itself only:

    total ws = canon ws.sum                                                         (total_eq)

So it is the same in either byte order, up to a swap (`swap_canon`), and with the complement of the
sum the words add up to a multiple of `0xFFFF` (`complement_modEq`).
-/

namespace OnesComplement

/-- The carry out of the top goes in at the bottom. -/
def add (a b : Nat) : Nat := (a + b) % 0x10000 + (a + b) / 0x10000

def total (ws : List Nat) : Nat := ws.foldl add 0

/-- What a number folds to. -/
def canon (n : Nat) : Nat := if n = 0 then 0 else (n - 1) % 0xFFFF + 1

theorem canon_le (n : Nat) : canon n ≤ 0xFFFF := by
  unfold canon
  split <;> omega

theorem canon_modEq (n : Nat) : canon n ≡ n [MOD 0xFFFF] := by
  unfold canon Nat.ModEq
  split <;> omega

theorem canon_eq_zero_iff (n : Nat) : canon n = 0 ↔ n = 0 := by
  unfold canon
  split <;> omega

/-- Sixteen bits are told apart by the remainder, zero and `0xFFFF` aside. -/
theorem canon_unique {v n : Nat} (hv : v ≤ 0xFFFF) (hmod : v ≡ n [MOD 0xFFFF])
    (hzero : v = 0 ↔ n = 0) : v = canon n := by
  unfold Nat.ModEq at hmod
  unfold canon
  split <;> omega

theorem canon_eq_max_iff (n : Nat) : canon n = 0xFFFF ↔ 0 < n ∧ n ≡ 0 [MOD 0xFFFF] := by
  unfold canon Nat.ModEq
  split <;> omega

theorem canon_of_le {n : Nat} (h : n ≤ 0xFFFF) : canon n = n :=
  (canon_unique h rfl Iff.rfl).symm

theorem canon_congr {m n : Nat} (hmod : m ≡ n [MOD 0xFFFF]) (hzero : m = 0 ↔ n = 0) :
    canon m = canon n :=
  canon_unique (canon_le m) ((canon_modEq m).trans hmod) ((canon_eq_zero_iff m).trans hzero)

/-- The high part may be added to the low one. -/
theorem canon_fold (n : Nat) : canon (n % 0x10000 + n / 0x10000) = canon n := by
  refine canon_congr ?_ (by omega)
  unfold Nat.ModEq
  omega

theorem add_eq {a b : Nat} (ha : a ≤ 0xFFFF) (hb : b ≤ 0xFFFF) : add a b = canon (a + b) := by
  unfold add
  rw [← canon_fold]
  exact (canon_of_le (by omega)).symm

theorem foldl_add_eq {ws : List Nat} (h : ∀ w ∈ ws, w ≤ 0xFFFF) (n : Nat) :
    ws.foldl add (canon n) = canon (n + ws.sum) := by
  induction ws generalizing n with
  | nil => rfl
  | cons w ws ih =>
    obtain ⟨hw, hws⟩ := List.forall_mem_cons.mp h
    have hadd : add (canon n) w = canon (n + w) := by
      rw [add_eq (canon_le n) hw]
      refine canon_congr ((canon_modEq n).add_right w) ?_
      rw [Nat.add_eq_zero_iff, Nat.add_eq_zero_iff, canon_eq_zero_iff]
    rw [List.foldl_cons, hadd, ih hws, List.sum_cons, Nat.add_assoc]

theorem total_eq {ws : List Nat} (h : ∀ w ∈ ws, w ≤ 0xFFFF) : total ws = canon ws.sum := by
  have hfold := foldl_add_eq h 0
  rw [Nat.zero_add] at hfold
  exact hfold

/-! ## Byte order -/

def swap (w : Nat) : Nat := w % 0x100 * 0x100 + w / 0x100

theorem swap_modEq (w : Nat) : swap w ≡ 0x100 * w [MOD 0xFFFF] := by
  unfold swap Nat.ModEq
  omega

theorem swap_le {w : Nat} (h : w ≤ 0xFFFF) : swap w ≤ 0xFFFF := by
  unfold swap
  omega

theorem swap_eq_zero_iff (w : Nat) : swap w = 0 ↔ w = 0 := by
  unfold swap
  omega

theorem swap_complement {w : Nat} (h : w ≤ 0xFFFF) : swap (0xFFFF - w) = 0xFFFF - swap w := by
  unfold swap
  omega

theorem modEq_of_mul {m n : Nat} (h : 0x100 * m ≡ 0x100 * n [MOD 0xFFFF]) :
    m ≡ n [MOD 0xFFFF] := by
  unfold Nat.ModEq at *
  omega

theorem swap_canon {m n : Nat} (hmod : 0x100 * m ≡ n [MOD 0xFFFF]) (hzero : m = 0 ↔ n = 0) :
    swap (canon m) = canon n := by
  refine canon_unique (swap_le (canon_le m)) ?_ ?_
  · exact (swap_modEq _).trans (((canon_modEq m).mul_left 0x100).trans hmod)
  · rw [swap_eq_zero_iff, canon_eq_zero_iff, hzero]

/-! ## Complement -/

theorem complement_modEq (n : Nat) : n + (0xFFFF - canon n) ≡ 0 [MOD 0xFFFF] := by
  have hle := canon_le n
  have hmod := canon_modEq n
  unfold Nat.ModEq at *
  omega

theorem complement_pos (n : Nat) : 0 < n + (0xFFFF - canon n) := by
  have hzero := canon_eq_zero_iff n
  omega

end OnesComplement
