import Mathlib.Data.Nat.ModEq

/-!
# Indices of a circular buffer

A reader and a writer of a buffer of `n` slots are described by two counters that
only grow: how many items were read and how many were written.  The index a party
keeps is its counter modulo `n`.  As long as the counters are less than `n` apart the
indices tell them apart (`mod_eq_iff`), and an index that grows by `k` without
passing the end of the buffer wraps to `0` exactly when it reaches it (`add_mod_wrap`).
`dist` measures, on the indices alone, how far apart the counters are (`dist_mod`).
-/

namespace RingIndex

/-- Counters less than `n` apart have the same index only if they are equal. -/
theorem mod_eq_iff {n a b : Nat} (hab : a ≤ b) (h : b - a < n) : a % n = b % n ↔ a = b := by
  constructor
  · intro he
    have hd : n ∣ b - a := (Nat.modEq_iff_dvd' hab).1 he
    have h0 : b - a = 0 := Nat.eq_zero_of_dvd_of_lt hd h
    omega
  · rintro rfl; rfl

/-- The slots of the counters in `[r, w)` do not contain the slot of `w`. -/
theorem mod_notMem {n r w k : Nat} (hr : r ≤ k) (hk : k < w) (h : w - r < n) : k % n ≠ w % n := by
  intro he
  have := (mod_eq_iff (Nat.le_of_lt hk) (by omega)).1 he
  omega

theorem succ_mod (n a : Nat) : (a + 1) % n = (a % n + 1) % n := by
  simp [Nat.add_mod]

/-- The writer's next slot is the reader's slot exactly when `n - 1` items are unread. -/
theorem succ_mod_eq_iff {n r w : Nat} (hrw : r ≤ w) (h : w - r < n) :
    (w % n + 1) % n = r % n ↔ w + 1 - r = n := by
  rw [← succ_mod]
  constructor
  · intro he
    apply Classical.byContradiction
    intro hne
    have := (mod_eq_iff (n := n) (a := r) (b := w + 1) (by omega) (by omega)).1 he.symm
    omega
  · intro he
    rw [show w + 1 = r + n by omega, Nat.add_mod_right]

/-- An index that advances by `k ≤ n - index` wraps exactly at the end. -/
theorem add_mod_wrap {n a k : Nat} (h : a % n + k ≤ n) :
    (a + k) % n = if a % n + k = n then 0 else a % n + k := by
  have hsplit : (a + k) % n = (a % n + k) % n := by simp
  rw [hsplit]
  split
  · next he => rw [he, Nat.mod_self]
  · next hne => exact Nat.mod_eq_of_lt (by omega)

/-- Distance from the reader's index forward to the writer's. -/
theorem sub_of_mod {n r w : Nat} (hrw : r ≤ w) (h : w - r < n) :
    w - r = if r % n ≤ w % n then w % n - r % n else n - r % n + w % n := by
  have hn : 0 < n := by omega
  have hr := Nat.mod_lt r hn
  have hw := Nat.mod_lt w hn
  have er := Nat.div_add_mod r n
  have ew := Nat.div_add_mod w n
  generalize r / n = qr at er
  generalize w / n = qw at ew
  generalize r % n = mr at *
  generalize w % n = mw at *
  rcases Nat.lt_trichotomy qw qr with hq | rfl | hq
  · have : n * (qw + 1) ≤ n * qr := Nat.mul_le_mul_left n hq
    rw [Nat.mul_add, Nat.mul_one] at this
    omega
  · split <;> omega
  · have h1 : n * (qr + 1) ≤ n * qw := Nat.mul_le_mul_left n hq
    rw [Nat.mul_add, Nat.mul_one] at h1
    have h2 : n * qw < n * (qr + 2) := by rw [Nat.mul_add]; omega
    have h3 : qw < qr + 2 := Nat.lt_of_mul_lt_mul_left h2
    have h4 : qw = qr + 1 := by omega
    subst h4
    rw [Nat.mul_add, Nat.mul_one] at ew
    split <;> omega

/-- The slots from index `a` forward to index `b`. -/
def dist (n a b : Nat) : Nat := if a ≤ b then b - a else n - a + b

theorem dist_mod {n r w : Nat} (hrw : r ≤ w) (h : w - r < n) : dist n (r % n) (w % n) = w - r :=
  (sub_of_mod hrw h).symm

/-- The index `b` is the counter `dist` further on than `a`'s. -/
theorem add_dist_mod {n r b : Nat} (hb : b < n) : (r + dist n (r % n) b) % n = b := by
  have hr := Nat.mod_lt r (Nat.zero_lt_of_lt hb)
  rw [Nat.add_mod]
  unfold dist
  split
  · rw [Nat.mod_eq_of_lt (a := b - r % n) (by omega),
      Nat.add_sub_cancel' (by assumption)]
    exact Nat.mod_eq_of_lt hb
  · rw [Nat.mod_eq_of_lt (a := n - r % n + b) (by omega),
      show r % n + (n - r % n + b) = n + b by omega, Nat.add_mod_left]
    exact Nat.mod_eq_of_lt hb

/-- The counters from `w` to the end of the buffer are in `w`'s lap. -/
theorem add_div_lap {n w k : Nat} (h : w % n + k < n) : (w + k) / n = w / n := by
  have hw := Nat.div_add_mod w n
  have hn : 0 < n := by omega
  calc (w + k) / n = (n * (w / n) + (w % n + k)) / n := by congr 1; omega
    _ = w / n + (w % n + k) / n := Nat.mul_add_div hn _ _
    _ = w / n := by rw [Nat.div_eq_of_lt h, Nat.add_zero]

/-- A region that does not pass the end holds the slots of consecutive counters. -/
theorem range'_mod {n w k : Nat} (h : w % n + k ≤ n) :
    List.range' (w % n) k = (List.range' w k).map (· % n) := by
  apply List.ext_getElem
  · simp
  · intro i h1 h2
    rw [List.length_range'] at h1
    simp only [List.getElem_range', List.getElem_map, Nat.one_mul]
    rw [add_mod_wrap (by omega), if_neg (by omega)]

end RingIndex
