import Bcmdhd.Lib.Records
import Mathlib.Algebra.GroupWithZero.Nat

/-!
# Little-endian numbers in a buffer

* `load_store`: a number of `w` bytes, read back.
* `load_store_of_off`: a store elsewhere does not change it.
* `load_lt`: it is below `256 ^ w`.
* `store_first`, `store_rest`, `store_of_off`: a store, byte by byte.
-/

namespace Records

/-- The low `w` bytes of `n`, the lowest first. -/
def leBytes : Nat → Nat → List UInt8
  | 0, _ => []
  | w + 1, n => UInt8.ofNat n :: leBytes w (n / 256)

def leValue : List UInt8 → Nat
  | [] => 0
  | b :: bs => b.toNat + 256 * leValue bs

def load (buf : Nat → UInt8) (pos w : Nat) : Nat := leValue (readAt buf pos w)

def store (buf : Nat → UInt8) (pos w n : Nat) : Nat → UInt8 := writeAt buf pos (leBytes w n)

@[simp] theorem leBytes_length (w n : Nat) : (leBytes w n).length = w := by
  induction w generalizing n with
  | zero => rfl
  | succ w ih =>
    unfold leBytes
    rw [List.length_cons, ih]

theorem leValue_leBytes (w n : Nat) : leValue (leBytes w n) = n % 256 ^ w := by
  induction w generalizing n with
  | zero =>
    show 0 = n % 1
    omega
  | succ w ih =>
    unfold leBytes leValue
    have hlow : (UInt8.ofNat n).toNat = n % 256 := UInt8.toNat_ofNat'
    rw [ih, hlow, Nat.pow_succ', Nat.mod_mul (a := 256)]

theorem leValue_lt (bs : List UInt8) : leValue bs < 256 ^ bs.length := by
  induction bs with
  | nil => exact Nat.one_pos
  | cons b bs ih =>
    have hb := b.toNat_lt
    show b.toNat + 256 * leValue bs < 256 ^ (bs.length + 1)
    rw [Nat.pow_succ']
    omega

theorem load_lt (buf : Nat → UInt8) (pos w : Nat) : load buf pos w < 256 ^ w := by
  have hlt := leValue_lt (readAt buf pos w)
  rwa [readAt_length] at hlt

theorem load_store (buf : Nat → UInt8) (pos w n : Nat) :
    load (store buf pos w n) pos w = n % 256 ^ w := by
  have hread := readAt_writeAt buf pos (leBytes w n)
  rw [leBytes_length] at hread
  unfold load store
  rw [hread, leValue_leBytes]

theorem load_store_of_off {buf : Nat → UInt8} {pos p w v n : Nat}
    (h : p + w ≤ pos ∨ pos + v ≤ p) : load (store buf pos v n) p w = load buf p w := by
  unfold load store
  rw [readAt_writeAt_of_off]
  rwa [leBytes_length]

theorem readAt_store_of_off {buf : Nat → UInt8} {pos p n v x : Nat}
    (h : p + n ≤ pos ∨ pos + v ≤ p) : readAt (store buf pos v x) p n = readAt buf p n := by
  unfold store
  rw [readAt_writeAt_of_off]
  rwa [leBytes_length]

theorem load_one (buf : Nat → UInt8) (pos : Nat) : load buf pos 1 = (buf pos).toNat :=
  Nat.add_zero _

section
variable {buf buf' : Nat → UInt8} {pos w n n' i : Nat}

theorem store_congr (h : buf i = buf' i) : store buf pos w n i = store buf' pos w n i := by
  unfold store writeAt
  split
  · rw [h]
  · exact h

/-- Of numbers that differ in the first byte, the same is stored behind it. -/
theorem store_rest (h : buf i = buf' i) (hi : i ≠ pos) (hn : n / 256 = n' / 256) :
    store buf pos (w + 1) n i = store buf' pos (w + 1) n' i := by
  unfold store writeAt leBytes
  split
  · obtain ⟨k, hk⟩ : ∃ k, i - pos = k + 1 := ⟨i - pos - 1, by omega⟩
    rw [hk, List.getElem?_cons_succ, List.getElem?_cons_succ, hn, h]
  · exact h

theorem store_first : store buf pos (w + 1) n pos = UInt8.ofNat n := by
  unfold store writeAt leBytes
  rw [if_pos (Nat.le_refl pos), Nat.sub_self]
  rfl

theorem store_of_off (h : i < pos ∨ pos + w ≤ i) : store buf pos w n i = buf i :=
  writeAt_of_off (by rwa [leBytes_length])

end

end Records
