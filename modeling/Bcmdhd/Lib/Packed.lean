import Mathlib.Data.Nat.Basic

/-!
# Fields packed at their alignment

`endAt field start n` is where the fields below `n` end, one behind the other from `start`, each at
the next multiple of its alignment.

* `le_endAt`, `endAt_le_endAt`: the fields only go up.
* `endAt_shift`: moving the start by a multiple of every alignment moves all fields.
-/

namespace Packed

structure Field where
  len : Nat
  align : Nat

/-- The next multiple of `align`. -/
def up (pos align : Nat) : Nat := (pos + (align - 1)) / align * align

def endAt (field : Nat → Option Field) (start : Nat) : Nat → Nat
  | 0 => start
  | n + 1 =>
    match field n with
    | none => endAt field start n
    | some f => up (endAt field start n) f.align + f.len

variable {field : Nat → Option Field} {f : Field} {start n m : Nat}

theorem le_up {pos align : Nat} (h : 0 < align) : pos ≤ up pos align := by
  have hdiv := Nat.div_add_mod (pos + (align - 1)) align
  have hmod := Nat.mod_lt (pos + (align - 1)) h
  unfold up
  rw [Nat.mul_comm]
  omega

theorem up_shift {base align : Nat} (pos : Nat) (h : 0 < align) (hbase : align ∣ base) :
    up (base + pos) align = base + up pos align := by
  obtain ⟨c, rfl⟩ := hbase
  unfold up
  rw [Nat.add_assoc, Nat.mul_add_div h, Nat.add_mul, Nat.mul_comm c align]

theorem up_of_dvd {pos align : Nat} (h : 0 < align) (hpos : align ∣ pos) : up pos align = pos := by
  have hzero : up 0 align = 0 := by
    unfold up
    rw [Nat.zero_add, Nat.div_eq_of_lt (by omega), Nat.zero_mul]
  have hshift := up_shift 0 h hpos
  rwa [Nat.add_zero, hzero, Nat.add_zero] at hshift

theorem endAt_succ_none (h : field n = none) : endAt field start (n + 1) = endAt field start n := by
  show (match field n with
    | none => endAt field start n
    | some f => up (endAt field start n) f.align + f.len) = _
  rw [h]

theorem endAt_succ_some (h : field n = some f) :
    endAt field start (n + 1) = up (endAt field start n) f.align + f.len := by
  show (match field n with
    | none => endAt field start n
    | some f => up (endAt field start n) f.align + f.len) = _
  rw [h]

theorem endAt_le_succ (h : ∀ f, field n = some f → 0 < f.align) :
    endAt field start n ≤ endAt field start (n + 1) := by
  cases hf : field n with
  | none =>
    rw [endAt_succ_none hf]
  | some f =>
    rw [endAt_succ_some hf]
    have hup := @le_up (endAt field start n) f.align (h f hf)
    omega

theorem endAt_le_endAt (hnm : n ≤ m) (h : ∀ j < m, ∀ f, field j = some f → 0 < f.align) :
    endAt field start n ≤ endAt field start m := by
  induction m with
  | zero =>
    obtain rfl : n = 0 := by omega
    exact Nat.le_refl _
  | succ m ih =>
    rcases Nat.lt_or_ge m n with hlt | hge
    · obtain rfl : n = m + 1 := by omega
      exact Nat.le_refl _
    · have hstep := ih hge fun j hj => h j (Nat.lt_succ_of_lt hj)
      exact Nat.le_trans hstep (endAt_le_succ (h m (Nat.lt_succ_self m)))

theorem le_endAt (h : ∀ j < n, ∀ f, field j = some f → 0 < f.align) :
    start ≤ endAt field start n := by
  have hle := @endAt_le_endAt field start 0 n (Nat.zero_le n) h
  exact hle

/-- A start that is a multiple of every alignment moves all fields. -/
theorem endAt_shift {base : Nat}
    (h : ∀ j < n, ∀ f, field j = some f → 0 < f.align ∧ f.align ∣ base) :
    endAt field (base + start) n = base + endAt field start n := by
  induction n with
  | zero => rfl
  | succ n ih =>
    have hrest := ih fun j hj => h j (Nat.lt_succ_of_lt hj)
    cases hf : field n with
    | none => rw [endAt_succ_none hf, endAt_succ_none hf, hrest]
    | some f =>
      obtain ⟨hpos, hdvd⟩ := h n (Nat.lt_succ_self n) f hf
      rw [endAt_succ_some hf, endAt_succ_some hf, hrest, up_shift _ hpos hdvd, Nat.add_assoc]

end Packed
