import Mathlib.Data.BitVec

/-!
# Sequence numbers of fixed width and the window they may move in

The receiver names the end of the window; what it offers is the distance from the next
sequence number to that end, modulo the number of values of the width `w`.

* `offered_advance`: taking numbers inside the window shortens it by as many.
* `numbers`: the consecutive numbers of a batch.
-/

namespace SeqWindow

variable {w : Nat}

/-- Numbers from `seq` up to `max`. -/
def offered (seq max : BitVec w) : Nat := (max - seq).toNat

/-- The numbers of a batch of `n`. -/
def numbers (seq : BitVec w) (n : Nat) : List (BitVec w) :=
  (List.range n).map fun i => seq + BitVec.ofNat w i

@[simp] theorem length_numbers (seq : BitVec w) (n : Nat) : (numbers seq n).length = n := by
  simp [numbers]

theorem numbers_one (seq : BitVec w) : numbers seq 1 = [seq] := by
  simp [numbers]

theorem getElem_numbers (seq : BitVec w) (n i : Nat) (h : i < (numbers seq n).length) :
    (numbers seq n)[i] = seq + BitVec.ofNat w i := by
  simp [numbers]

theorem getElem_numbers_ofNat (k n i : Nat) (h : i < (numbers (BitVec.ofNat w k) n).length) :
    (numbers (BitVec.ofNat w k) n)[i] = BitVec.ofNat w (k + i) := by
  rw [getElem_numbers, BitVec.ofNat_add]

theorem toNat_ofNat_of_le_offered (seq max : BitVec w) (n : Nat) (h : n ≤ offered seq max) :
    (BitVec.ofNat w n).toNat = n := by
  rw [BitVec.toNat_ofNat]
  exact Nat.mod_eq_of_lt (Nat.lt_of_le_of_lt h (BitVec.isLt _))

theorem offered_advance (seq max : BitVec w) (n : Nat) (h : n ≤ offered seq max) :
    offered (seq + BitVec.ofNat w n) max = offered seq max - n := by
  have hn := toNat_ofNat_of_le_offered seq max n h
  have hle : BitVec.ofNat w n ≤ max - seq := by
    rw [BitVec.le_def, hn]
    exact h
  unfold offered
  rw [← BitVec.sub_sub, BitVec.toNat_sub_of_le hle, hn]

end SeqWindow
