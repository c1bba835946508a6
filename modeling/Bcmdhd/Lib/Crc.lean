/-!
# Reflected CRCs

A register of `w` bits takes one bit at a time at its low end: the bit is added, and the register
moves down by one, with the polynomial added if a one fell out.  All of it is linear over `xor`.

    feed poly c (bits n x) ^^^ (x >>> n) = shifts poly n (c ^^^ x)                    (feed_bits)

So a byte may be added at once (`feed_byte`) and looked up (`shifts_eight`), and the complement of
the register always leaves the same value behind a string (`crc_complement`).
-/

namespace Crc

variable {w : Nat}

/-! ## Bit by bit -/

/-- One step down, by division of what falls out. -/
def shift (poly c : BitVec w) : BitVec w :=
  if c.getLsbD 0 then (c >>> 1) ^^^ poly else c >>> 1

def shifts (poly : BitVec w) : Nat → BitVec w → BitVec w
  | 0, c => c
  | n + 1, c => shifts poly n (shift poly c)

/-- The bit `b` comes in. -/
def bitStep (poly c : BitVec w) (b : Bool) : BitVec w :=
  shift poly (c ^^^ (BitVec.ofBool b).setWidth w)

def feed (poly c : BitVec w) (bs : List Bool) : BitVec w := bs.foldl (bitStep poly) c

/-- The low `n` bits, the lowest first. -/
def bits (n : Nat) (x : BitVec w) : List Bool := (List.range n).map x.getLsbD

theorem bits_add (m n : Nat) (x : BitVec w) : bits (m + n) x = bits m x ++ bits n (x >>> m) := by
  unfold bits
  rw [List.range_add, List.map_append, List.map_map]
  congr 1
  refine List.map_congr_left fun i _ => ?_
  rw [BitVec.getLsbD_ushiftRight]
  rfl

theorem bits_setWidth {v n : Nat} (hw : n ≤ w) (x : BitVec v) :
    bits n (x.setWidth w) = bits n x := by
  refine List.map_congr_left fun i hi => ?_
  have hn : i < n := List.mem_range.mp hi
  rw [BitVec.getLsbD_setWidth, decide_eq_true (by omega), Bool.true_and]

/-! ## Linearity -/

theorem xor_swap (a b c d : BitVec w) : a ^^^ b ^^^ (c ^^^ d) = a ^^^ c ^^^ (b ^^^ d) := by
  rw [BitVec.xor_assoc, ← BitVec.xor_assoc b, BitVec.xor_comm b c, BitVec.xor_assoc,
    ← BitVec.xor_assoc]

theorem shift_xor (poly a b : BitVec w) :
    shift poly (a ^^^ b) = shift poly a ^^^ shift poly b := by
  unfold shift
  rw [BitVec.getLsbD_xor, BitVec.ushiftRight_xor_distrib]
  cases a.getLsbD 0 with
  | false =>
    cases b.getLsbD 0 with
    | false => rfl
    | true => exact BitVec.xor_assoc _ _ _
  | true =>
    cases b.getLsbD 0 with
    | false =>
      show a >>> 1 ^^^ b >>> 1 ^^^ poly = a >>> 1 ^^^ poly ^^^ b >>> 1
      rw [BitVec.xor_assoc, BitVec.xor_assoc, BitVec.xor_comm poly]
    | true =>
      show a >>> 1 ^^^ b >>> 1 = a >>> 1 ^^^ poly ^^^ (b >>> 1 ^^^ poly)
      rw [xor_swap, BitVec.xor_self, BitVec.xor_zero]

/-- A register without its lowest bit only moves. -/
theorem shift_clear (poly : BitVec w) {c : BitVec w} (h : c.getLsbD 0 = false) :
    shift poly c = c >>> 1 := by
  unfold shift
  rw [h]
  rfl

/-- The lowest bit, and the rest. -/
theorem shift_split (poly c x : BitVec w) :
    shift poly (c ^^^ x) = bitStep poly c (x.getLsbD 0) ^^^ x >>> 1 := by
  obtain ⟨y, hy⟩ : ∃ y, y = (BitVec.ofBool (x.getLsbD 0)).setWidth w := ⟨_, rfl⟩
  have hlow : (y ^^^ x).getLsbD 0 = false := by
    rw [BitVec.getLsbD_xor, hy, BitVec.getLsbD_setWidth, BitVec.getLsbD_ofBool]
    by_cases hw : 0 < w
    · simp [hw]
    · rw [BitVec.getLsbD_of_ge x 0 (Nat.le_of_not_lt hw), Bool.and_false, Bool.and_false]
      rfl
  have hshift : y >>> 1 = 0#w := by
    apply BitVec.eq_of_getLsbD_eq
    intro i hi
    rw [hy, BitVec.getLsbD_ushiftRight, BitVec.getLsbD_setWidth, BitVec.getLsbD_ofBool]
    simp
  have hx : x = y ^^^ (y ^^^ x) := by rw [← BitVec.xor_assoc, BitVec.xor_self, BitVec.zero_xor]
  have hmove : shift poly (y ^^^ x) = x >>> 1 := by
    rw [shift_clear poly hlow, BitVec.ushiftRight_xor_distrib, hshift, BitVec.zero_xor]
  unfold bitStep
  rw [← hy, ← hmove, ← shift_xor, BitVec.xor_assoc, ← hx]

theorem feed_append (poly c : BitVec w) (bs bs' : List Bool) :
    feed poly c (bs ++ bs') = feed poly (feed poly c bs) bs' := List.foldl_append

theorem feed_bits (poly c x : BitVec w) (n : Nat) :
    feed poly c (bits n x) ^^^ x >>> n = shifts poly n (c ^^^ x) := by
  induction n generalizing c x with
  | zero => exact congrArg (c ^^^ ·) (BitVec.ushiftRight_zero x)
  | succ n ih =>
    rw [Nat.add_comm n 1, bits_add, BitVec.shiftRight_add, feed_append, ih]
    show shifts poly n (bitStep poly c (x.getLsbD 0) ^^^ x >>> 1) = shifts poly (1 + n) (c ^^^ x)
    rw [← shift_split, Nat.add_comm 1 n]
    rfl

/-! ## Bytes -/

variable (poly : BitVec w)

theorem byte_out (b : BitVec 8) : b.setWidth w >>> 8 = 0#w := by
  apply BitVec.eq_of_getLsbD_eq
  intro i _
  rw [BitVec.getLsbD_ushiftRight, BitVec.getLsbD_setWidth, BitVec.getLsbD_of_ge b _ (by omega)]
  simp

/-- A byte that is added at once. -/
theorem feed_byte (hw : 8 ≤ w) (c : BitVec w) (b : BitVec 8) :
    feed poly c (bits 8 b) = shifts poly 8 (c ^^^ b.setWidth w) := by
  rw [← feed_bits, byte_out, BitVec.xor_zero, bits_setWidth hw]

/-- The low byte goes through a table, the others only move. -/
theorem shifts_eight (hw : 8 ≤ w) (c : BitVec w) :
    shifts poly 8 c = shifts poly 8 ((c.setWidth 8).setWidth w) ^^^ c >>> 8 := by
  have hlow : bits 8 c = bits 8 (c.setWidth 8) := (bits_setWidth (Nat.le_refl 8) c).symm
  have hfeed := feed_byte poly hw 0#w (c.setWidth 8)
  rw [BitVec.zero_xor] at hfeed
  rw [← hfeed, ← hlow, feed_bits, BitVec.zero_xor]

/-- The low `n` bytes, the lowest first. -/
def leBytes : Nat → BitVec w → List (BitVec 8)
  | 0, _ => []
  | n + 1, x => x.setWidth 8 :: leBytes n (x >>> 8)

def crc (c : BitVec w) (s : List (BitVec 8)) : BitVec w := feed poly c (s.flatMap (bits 8))

theorem leBytes_bits (n : Nat) (x : BitVec w) :
    (leBytes n x).flatMap (bits 8) = bits (8 * n) x := by
  induction n generalizing x with
  | zero => rfl
  | succ n ih =>
    have hn : 8 * (n + 1) = 8 + 8 * n := by omega
    rw [hn, bits_add]
    show bits 8 (x.setWidth 8) ++ (leBytes n (x >>> 8)).flatMap (bits 8) = _
    rw [ih, bits_setWidth (Nat.le_refl 8)]

theorem crc_append (c : BitVec w) (s t : List (BitVec 8)) :
    crc poly c (s ++ t) = crc poly (crc poly c s) t := by
  unfold crc
  rw [List.flatMap_append, feed_append]

/-- The complement of the register behind a string. -/
theorem crc_complement {n : Nat} (hn : 8 * n = w) (c : BitVec w) :
    crc poly c (leBytes n (~~~c)) = shifts poly w (BitVec.allOnes w) := by
  have hout : ~~~c >>> w = 0#w := by
    apply BitVec.eq_of_getLsbD_eq
    intro i _
    rw [BitVec.getLsbD_ushiftRight, BitVec.getLsbD_of_ge _ _ (Nat.le_add_right w i)]
    simp
  have hones : c ^^^ ~~~c = BitVec.allOnes w := by
    apply BitVec.eq_of_getLsbD_eq
    intro i hi
    simp [hi]
  unfold crc
  rw [leBytes_bits, hn, ← hones, ← feed_bits, hout, BitVec.xor_zero]

end Crc
