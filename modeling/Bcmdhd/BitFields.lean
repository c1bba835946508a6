import Bcmdhd.Lib.Bits
import Bcmdhd.Lib.CountedLoop

/-!
# Packed bit fields (`setbits`, `getbits`)

A field of up to 32 bits starts at any bit of an array of bytes.  Its first and its last byte may be
partial ones; what is between them is written byte by byte.

    1 ≤ nbits ≤ 32 →
      `getbits` gives what `setbits` has been given, and the other bits are as they were  ↔
        the bits of the value above the field that fall into its last byte are set there
                                                                              (setbits_iff)

The value is not cut to the field.  A field that goes past bit 2³² - 1 has its last byte at the
front of the array, and is right by luck only (`Round`).  `size` is left out: only an assertion
looks at it.
-/

namespace Bcmdhd.BitFields

open Bits CountedLoop

/-! ## Algorithm -/

abbrev Bytes := Nat → BitVec 8

/-- first byte -/
def fbyte (stbit : Nat) : Nat := stbit >>> 3

/-- last byte, `(stbit + nbits - 1) >> 3` -/
def lbyte (stbit nbits : Nat) : Nat := ((stbit + nbits + (WORD - 1)) % WORD) >>> 3

/-- first bit in the first byte -/
def fbit (stbit : Nat) : Nat := stbit &&& 7

/-- remaining bits of the last byte when not 0 -/
def rbits (stbit nbits : Nat) : Nat :=
  (if 8 - fbit stbit < nbits then nbits - (8 - fbit stbit) else 0) &&& 7

/-- `(1 << n) - 1` -/
def lowOnes (n : Nat) : BitVec 32 := 1#32 <<< n - 1#32

/-- `addr[i] &= ~mask; addr[i] |= (uint8)val;` -/
def merge (addr : Bytes) (i : Nat) (mask : BitVec 8) (val : BitVec 32) : Bytes :=
  Function.update addr i (addr i &&& ~~~ mask ||| val.setWidth 8)

/-- The first partial byte: what is left to do. -/
def setFirst (addr : Bytes) (stbit nbits : Nat) (val : BitVec 32) :
    Bytes × BitVec 32 × Nat × Nat :=
  if 0 < fbit stbit then
    (merge addr (fbyte stbit) (0xff#8 <<< fbit stbit) (val <<< fbit stbit),
      val >>> (8 - fbit stbit), nbits - (8 - fbit stbit), fbyte stbit + 1)
  else (addr, val, nbits, fbyte stbit)

/-- `lbyte --` -/
def before (byte : Nat) : Nat := (byte + (WORD - 1)) % WORD

/-- The last partial byte, and the last full byte. -/
def setLast (addr : Bytes) (stbit nbits left : Nat) (val : BitVec 32) : Bytes × Nat :=
  let last := lbyte stbit nbits
  let rbits := rbits stbit nbits
  if 0 < rbits then
    (merge addr last ((lowOnes rbits).setWidth 8) (val >>> (left - rbits)), before last)
  else (addr, last)

def setFull (t : Bytes × BitVec 32) (byte : Nat) : Bytes × BitVec 32 :=
  (Function.update t.1 byte (t.2.setWidth 8), t.2 >>> 8)

def setbits (fuel : Nat) (addr : Bytes) (stbit nbits : Nat) (val : BitVec 32) : Option Bytes :=
  if fbyte stbit = lbyte stbit nbits then
    some (merge addr (fbyte stbit) ((lowOnes nbits <<< fbit stbit).setWidth 8) (val <<< fbit stbit))
  else
    let (addr, val, left, first) := setFirst addr stbit nbits val
    let (addr, last) := setLast addr stbit nbits left val
    (forLoop (fun byte => byte ≤ last) setFull fuel first (addr, val)).map Prod.fst

/-- The first partial byte: its bits, their number, and the first full byte. -/
def getFirst (addr : Bytes) (stbit : Nat) : BitVec 32 × Nat × Nat :=
  if 0 < fbit stbit then
    (((addr (fbyte stbit)).setWidth 32 &&& (0xff#8 <<< fbit stbit).setWidth 32) >>> fbit stbit,
      8 - fbit stbit, fbyte stbit + 1)
  else (0#32, 0, fbyte stbit)

def getLast (addr : Bytes) (stbit nbits : Nat) (val : BitVec 32) : BitVec 32 × Nat :=
  let last := lbyte stbit nbits
  let rbits := rbits stbit nbits
  if 0 < rbits then
    let mask := (lowOnes rbits).setWidth 8
    (val ||| ((addr last).setWidth 32 &&& mask.setWidth 32) <<< (nbits - rbits), before last)
  else (val, last)

def getbits (fuel : Nat) (addr : Bytes) (stbit nbits : Nat) : Option (BitVec 32) :=
  if fbyte stbit = lbyte stbit nbits then
    let mask := (lowOnes nbits <<< fbit stbit).setWidth 8
    some (((addr (fbyte stbit)).setWidth 32 &&& mask.setWidth 32) >>> fbit stbit)
  else
    let (val, bits, first) := getFirst addr stbit
    let (val, last) := getLast addr stbit nbits val
    forLoop (fun byte => byte ≤ last)
      (fun val byte => val ||| (addr byte).setWidth 32 <<< ((byte - first) <<< 3 + bits)) fuel
      first val

/-! ## What they are for -/

/-- The field is read as it has been written, and the other bits have not changed. -/
def Packs (addr : Bytes) (stbit nbits : Nat) (val : BitVec 32) : Prop :=
  ∃ fuel addr' val',
    setbits fuel addr stbit nbits val = some addr' ∧
    getbits fuel addr' stbit nbits = some val' ∧
    val'.toNat = val.toNat % 2 ^ nbits ∧
    ∀ k, k < stbit ∨ stbit + nbits ≤ k → bitAt addr' k = bitAt addr k

/-- The bits of the value above the field that fall into its last byte are set there. -/
def Harmless (addr : Bytes) (stbit nbits : Nat) (val : BitVec 32) : Prop :=
  ∀ k, nbits ≤ k → (stbit + k) / 8 = (stbit + nbits - 1) / 8 → val.getLsbD k = true →
    bitAt addr (stbit + k) = true

/-- For a field that goes past bit 2³² - 1: the bits of the value that are not written are 0, and
what is written to a byte at the front of the array is there already. -/
def Round (addr : Bytes) (stbit nbits : Nat) (val : BitVec 32) : Prop :=
  (∀ k, (8 - stbit % 8) % 8 ≤ k → k < nbits - (stbit + nbits) % 8 → val.getLsbD k = false) ∧
    (0 < (stbit + nbits) % 8 → WORD + 8 < stbit + nbits ∧
      ∀ j < 8, let old := bitAt addr (8 * ((stbit + nbits - WORD) / 8) + j)
        let new := val.getLsbD (nbits - (stbit + nbits) % 8 + j)
        if j < (stbit + nbits) % 8 then old = new else new = true → old = true)

/-! ## Numbers -/

section
variable {stbit nbits : Nat}

theorem fbyte_eq (stbit : Nat) : fbyte stbit = stbit / 8 := Nat.shiftRight_eq_div_pow stbit 3

theorem fbit_eq (stbit : Nat) : fbit stbit = stbit % 8 := Nat.and_two_pow_sub_one_eq_mod stbit 3

theorem lbyte_eq (h1 : 1 ≤ nbits) (h : stbit + nbits ≤ WORD) :
    lbyte stbit nbits = (stbit + nbits - 1) / 8 := by
  have hmod : (stbit + nbits + (WORD - 1)) % WORD = stbit + nbits - 1 := by
    unfold WORD at h ⊢
    omega
  unfold lbyte
  rw [hmod]
  exact Nat.shiftRight_eq_div_pow _ 3

/-- Behind bit 2³² - 1. -/
theorem lbyte_round (h32 : nbits ≤ 32) (hst : stbit < WORD) (h : WORD < stbit + nbits) :
    lbyte stbit nbits = (stbit + nbits - 1 - WORD) / 8 := by
  have hmod : (stbit + nbits + (WORD - 1)) % WORD = stbit + nbits - 1 - WORD := by
    unfold WORD at h hst ⊢
    omega
  unfold lbyte
  rw [hmod]
  exact Nat.shiftRight_eq_div_pow _ 3

theorem rbits_eq (h : 8 - stbit % 8 < nbits) : rbits stbit nbits = (stbit + nbits) % 8 := by
  unfold rbits
  rw [fbit_eq, if_pos h, Nat.and_two_pow_sub_one_eq_mod _ 3]
  omega

end

/-! ## Bits of the parts -/

theorem getLsbD_lowOnes {n j : Nat} (hn : n < 32) :
    (lowOnes n).getLsbD j = decide (j < n) := by
  have hpow : 2 ^ n < 2 ^ 32 := Nat.pow_lt_pow_right (by decide) hn
  have hone : 1 ≤ 2 ^ n := Nat.one_le_two_pow
  have htoNat : (lowOnes n).toNat = 2 ^ n - 1 := by
    unfold lowOnes
    rw [BitVec.toNat_sub, BitVec.toNat_shiftLeft, BitVec.toNat_ofNat, Nat.one_shiftLeft,
      Nat.mod_eq_of_lt hpow]
    omega
  rw [BitVec.getLsbD, htoNat, Nat.testBit_two_pow_sub_one]

theorem bitAt_merge (addr : Bytes) (i : Nat) (mask : BitVec 8) (val : BitVec 32) (k : Nat) :
    bitAt (merge addr i mask val) k =
      if k / 8 = i then (bitAt addr k && !mask.getLsbD (k % 8)) || val.getLsbD (k % 8)
      else bitAt addr k := by
  have hlt : k % 8 < 8 := Nat.mod_lt _ (by decide)
  unfold merge
  rw [bitAt_update]
  by_cases hi : k / 8 = i
  · rw [if_pos hi, if_pos hi, BitVec.getLsbD_or, BitVec.getLsbD_and, BitVec.getLsbD_not,
      BitVec.getLsbD_setWidth, decide_eq_true hlt, ← hi, Bool.true_and, Bool.true_and]
    rfl
  · rw [if_neg hi, if_neg hi]

/-- Whole bytes. -/
theorem bitAt_setFull (m first : Nat) (addr : Bytes) (val : BitVec 32) (k : Nat) :
    bitAt ((List.range' first m).foldl setFull (addr, val)).1 k =
      if 8 * first ≤ k ∧ k < 8 * (first + m) then val.getLsbD (k - 8 * first) else bitAt addr k := by
  induction m generalizing first addr val with
  | zero => rw [List.range'_zero, List.foldl_nil, if_neg (by omega)]
  | succ m ih =>
    have hlt : k % 8 < 8 := Nat.mod_lt _ (by decide)
    have hturn : setFull (addr, val) first =
        (Function.update addr first (val.setWidth 8), val >>> 8) := rfl
    rw [List.range'_succ, List.foldl_cons, hturn, ih, bitAt_update, BitVec.getLsbD_setWidth,
      BitVec.getLsbD_ushiftRight]
    by_cases hrest : 8 * (first + 1) ≤ k ∧ k < 8 * (first + 1 + m)
    · rw [if_pos hrest, if_pos (by omega)]
      congr 1
      omega
    · rw [if_neg hrest]
      by_cases hfirst : k / 8 = first
      · rw [if_pos hfirst, if_pos (by omega), decide_eq_true hlt, Bool.true_and]
        congr 1
        omega
      · rw [if_neg hfirst, if_neg (by omega)]

theorem getLsbD_high {f j : Nat} (hj : j < 8) : (0xff#8 <<< f).getLsbD j = decide (f ≤ j) := by
  have hones : (0xff#8 : BitVec 8) = BitVec.allOnes 8 := rfl
  rw [BitVec.getLsbD_shiftLeft, hones, BitVec.getLsbD_allOnes, decide_eq_true hj,
    decide_eq_true (Nat.lt_of_le_of_lt (Nat.sub_le j f) hj), Bool.true_and, Bool.and_true,
    ← decide_not]
  exact decide_eq_decide.mpr Nat.not_lt

theorem getLsbD_shiftLeft_32 (val : BitVec 32) {f j : Nat} (hj : j < 8) :
    (val <<< f).getLsbD j = (decide (f ≤ j) && val.getLsbD (j - f)) := by
  rw [BitVec.getLsbD_shiftLeft, decide_eq_true (by omega), Bool.true_and]
  by_cases hf : f ≤ j
  · rw [decide_eq_true hf, decide_eq_false (by omega)]
    rfl
  · rw [decide_eq_false hf, decide_eq_true (by omega)]
    rfl

section
variable {stbit nbits : Nat}

/-- The bits of a first partial byte. -/
def taken (stbit : Nat) : Nat := (8 - stbit % 8) % 8

theorem setFirst_spec (addr : Bytes) (stbit nbits : Nat) (val : BitVec 32) :
    ∃ addr', setFirst addr stbit nbits val =
        (addr', val >>> taken stbit, nbits - taken stbit, (stbit + taken stbit) / 8) ∧
      ∀ k, bitAt addr' k =
        if stbit ≤ k ∧ k < stbit + taken stbit then val.getLsbD (k - stbit) else bitAt addr k := by
  unfold setFirst
  rw [fbit_eq, fbyte_eq]
  by_cases hf : 0 < stbit % 8
  · have htaken : taken stbit = 8 - stbit % 8 := Nat.mod_eq_of_lt (by omega)
    rw [if_pos hf, htaken, show (stbit + (8 - stbit % 8)) / 8 = stbit / 8 + 1 by omega]
    refine ⟨_, rfl, fun k => ?_⟩
    have hlt : k % 8 < 8 := Nat.mod_lt _ (by decide)
    rw [bitAt_merge, getLsbD_high hlt, getLsbD_shiftLeft_32 val hlt]
    by_cases hdiv : k / 8 = stbit / 8
    · rw [if_pos hdiv]
      by_cases hge : stbit % 8 ≤ k % 8
      · rw [if_pos (by omega), decide_eq_true hge, Bool.not_true, Bool.and_false, Bool.false_or,
          Bool.true_and]
        congr 1
        omega
      · rw [if_neg (by omega), decide_eq_false hge, Bool.not_false, Bool.and_true, Bool.false_and,
          Bool.or_false]
    · rw [if_neg hdiv, if_neg (by omega)]
  · have htaken : taken stbit = 0 := by
      unfold taken
      omega
    rw [if_neg hf, htaken]
    refine ⟨addr, rfl, fun k => ?_⟩
    rw [if_neg (by omega)]

/-- What a bit of the last partial byte becomes. -/
def lastBit (addr : Bytes) (stbit nbits : Nat) (val : BitVec 32) (k : Nat) : Bool :=
  let r := (stbit + nbits) % 8
  if k % 8 < r then val.getLsbD (nbits - r + k % 8)
  else bitAt addr k || val.getLsbD (nbits - r + k % 8)

theorem setLast_spec (addr : Bytes) (h : 8 - stbit % 8 < nbits) (val : BitVec 32) :
    ∃ addr', setLast addr stbit nbits (nbits - taken stbit) (val >>> taken stbit) =
        (addr', if 0 < (stbit + nbits) % 8 then before (lbyte stbit nbits) else lbyte stbit nbits) ∧
      ∀ k, bitAt addr' k =
        if 0 < (stbit + nbits) % 8 ∧ k / 8 = lbyte stbit nbits then lastBit addr stbit nbits val k
        else bitAt addr k := by
  unfold setLast
  dsimp only
  rw [rbits_eq h]
  by_cases hr : 0 < (stbit + nbits) % 8
  · rw [if_pos hr, if_pos hr]
    refine ⟨_, rfl, fun k => ?_⟩
    have hlt : k % 8 < 8 := Nat.mod_lt _ (by decide)
    have hsum : taken stbit + (nbits - taken stbit - (stbit + nbits) % 8 + k % 8) =
        nbits - (stbit + nbits) % 8 + k % 8 := by
      unfold taken
      omega
    rw [bitAt_merge, BitVec.getLsbD_setWidth, decide_eq_true hlt, Bool.true_and,
      getLsbD_lowOnes (by omega), BitVec.getLsbD_ushiftRight, BitVec.getLsbD_ushiftRight, hsum]
    unfold lastBit
    dsimp only
    by_cases hdiv : k / 8 = lbyte stbit nbits
    · rw [if_pos hdiv, if_pos ⟨hr, hdiv⟩]
      by_cases hlow : k % 8 < (stbit + nbits) % 8
      · rw [if_pos hlow, decide_eq_true hlow, Bool.not_true, Bool.and_false, Bool.false_or]
      · rw [if_neg hlow, decide_eq_false hlow, Bool.not_false, Bool.and_true]
    · rw [if_neg hdiv, if_neg fun hand => hdiv hand.2]
  · rw [if_neg hr, if_neg hr]
    exact ⟨addr, rfl, fun k => (if_neg fun hand => hr hand.1).symm⟩

/-- The last full byte. -/
def fullLast (stbit nbits : Nat) : Nat :=
  if 0 < (stbit + nbits) % 8 then before (lbyte stbit nbits) else lbyte stbit nbits

/-- A field in more than one byte, with `m` full bytes in the middle: the first `d` bits lie one
after another, and the last byte is not among theirs. -/
structure Split (stbit nbits d m : Nat) : Prop where
  more : fbyte stbit ≠ lbyte stbit nbits
  first : 8 - stbit % 8 < nbits
  length : d = taken stbit + 8 * m
  middle : fullLast stbit nbits + 1 - (stbit + taken stbit) / 8 = m
  ends : fullLast stbit nbits + 1 < WORD
  fits : d ≤ nbits - (stbit + nbits) % 8
  apart : ∀ k, stbit ≤ k → k < stbit + d → 0 < (stbit + nbits) % 8 → k / 8 ≠ lbyte stbit nbits

theorem Split.setbits {d m : Nat} (h : Split stbit nbits d m) (addr : Bytes) (val : BitVec 32)
    {fuel : Nat} (hfuel : m < fuel) :
    ∃ addr', setbits fuel addr stbit nbits val = some addr' ∧ ∀ k, bitAt addr' k =
      if stbit ≤ k ∧ k < stbit + d then val.getLsbD (k - stbit)
      else if 0 < (stbit + nbits) % 8 ∧ k / 8 = lbyte stbit nbits then lastBit addr stbit nbits val k
      else bitAt addr k := by
  obtain ⟨addr₁, hfirst, hbits₁⟩ := setFirst_spec addr stbit nbits val
  obtain ⟨addr₂, hlast, hbits₂⟩ := setLast_spec addr₁ h.first val
  have hstart : 8 * ((stbit + taken stbit) / 8) = stbit + taken stbit := by
    unfold taken
    omega
  have hmiddle := h.middle
  have hends := h.ends
  unfold fullLast at hmiddle hends
  unfold BitFields.setbits
  rw [if_neg h.more, hfirst]
  dsimp only
  rw [hlast]
  dsimp only
  rw [forLoop_le _ hends fuel _ (by omega), hmiddle]
  refine ⟨_, rfl, fun k => ?_⟩
  have hlength := h.length
  rw [bitAt_setFull, hbits₂, hbits₁, Nat.mul_add, hstart]
  by_cases hin : stbit ≤ k ∧ k < stbit + d
  · rw [if_pos hin]
    by_cases hmid : stbit + taken stbit ≤ k
    · rw [if_pos (by omega), BitVec.getLsbD_ushiftRight]
      congr 1
      omega
    · rw [if_neg (by omega), if_neg fun hand => h.apart k hin.1 hin.2 hand.1 hand.2,
        if_pos (by omega)]
  · rw [if_neg hin, if_neg (by omega)]
    by_cases hl : 0 < (stbit + nbits) % 8 ∧ k / 8 = lbyte stbit nbits
    · have hold : bitAt addr₁ k = bitAt addr k := by rw [hbits₁, if_neg (by omega)]
      rw [if_pos hl, if_pos hl]
      unfold lastBit
      rw [hold]
    · rw [if_neg hl, if_neg hl, if_neg (by omega)]

theorem getFirst_spec (addr : Bytes) (stbit : Nat) :
    ∃ val, getFirst addr stbit = (val, taken stbit, (stbit + taken stbit) / 8) ∧
      ∀ k, val.getLsbD k = (decide (k < taken stbit) && bitAt addr (stbit + k)) := by
  unfold getFirst
  rw [fbit_eq, fbyte_eq]
  by_cases hf : 0 < stbit % 8
  · have htaken : taken stbit = 8 - stbit % 8 := Nat.mod_eq_of_lt (by omega)
    rw [if_pos hf, htaken, show (stbit + (8 - stbit % 8)) / 8 = stbit / 8 + 1 by omega]
    refine ⟨_, rfl, fun k => ?_⟩
    rw [BitVec.getLsbD_ushiftRight, BitVec.getLsbD_and, BitVec.getLsbD_setWidth,
      BitVec.getLsbD_setWidth]
    by_cases hlt : stbit % 8 + k < 8
    · rw [getLsbD_high hlt, decide_eq_true (by omega), decide_eq_true (by omega),
        decide_eq_true (by omega), Bool.true_and, Bool.true_and, Bool.and_true]
      unfold bitAt
      rw [show (stbit + k) / 8 = stbit / 8 by omega, show (stbit + k) % 8 = stbit % 8 + k by omega,
        Bool.true_and]
    · rw [BitVec.getLsbD_of_ge _ _ (by omega), Bool.and_false, Bool.false_and,
        decide_eq_false (by omega), Bool.false_and]
  · have htaken : taken stbit = 0 := by
      unfold taken
      omega
    rw [if_neg hf, htaken]
    refine ⟨0#32, rfl, fun k => ?_⟩
    rw [BitVec.getLsbD_zero, decide_eq_false (Nat.not_lt_zero k), Bool.false_and]

theorem getLast_spec (addr : Bytes) (h : 8 - stbit % 8 < nbits) (val : BitVec 32) :
    ∃ val', getLast addr stbit nbits val = (val', fullLast stbit nbits) ∧
      ∀ k < 32, val'.getLsbD k = (val.getLsbD k ||
        (decide (nbits - (stbit + nbits) % 8 ≤ k ∧ k < nbits) &&
          bitAt addr (8 * lbyte stbit nbits + (k - (nbits - (stbit + nbits) % 8))))) := by
  unfold getLast fullLast
  dsimp only
  rw [rbits_eq h]
  by_cases hr : 0 < (stbit + nbits) % 8
  · rw [if_pos hr, if_pos hr]
    refine ⟨_, rfl, fun k hk => ?_⟩
    rw [BitVec.getLsbD_or, BitVec.getLsbD_shiftLeft, decide_eq_true hk, Bool.true_and,
      BitVec.getLsbD_and, BitVec.getLsbD_setWidth, BitVec.getLsbD_setWidth, BitVec.getLsbD_setWidth,
      getLsbD_lowOnes (by omega)]
    congr 1
    by_cases hin : nbits - (stbit + nbits) % 8 ≤ k ∧ k < nbits
    · rw [decide_eq_true hin, decide_eq_false (by omega), decide_eq_true (by omega),
        decide_eq_true (by omega), decide_eq_true (by omega), bitAt_mul_add addr (by omega)]
      simp
    · rw [decide_eq_false hin, Bool.false_and]
      by_cases hlow : k < nbits - (stbit + nbits) % 8
      · rw [decide_eq_true hlow, Bool.not_true, Bool.false_and]
      · rw [decide_eq_false (p := k - (nbits - (stbit + nbits) % 8) < (stbit + nbits) % 8) (by omega),
          Bool.and_false, Bool.and_false, Bool.and_false, Bool.and_false]
  · rw [if_neg hr, if_neg hr]
    refine ⟨val, rfl, fun k _ => ?_⟩
    rw [decide_eq_false (by omega), Bool.false_and, Bool.or_false]

/-- Whole bytes, from byte `b` on. -/
theorem getFull_spec (addr : Bytes) (first bits n b : Nat) (hb : first ≤ b) (val : BitVec 32) {k : Nat}
    (hk : k < 32) :
    ((List.range' b n).foldl (fun val byte => val ||| (addr byte).setWidth 32 <<<
        ((byte - first) <<< 3 + bits)) val).getLsbD k =
      (val.getLsbD k || (decide (bits + 8 * (b - first) ≤ k ∧ k < bits + 8 * (b - first + n)) &&
        bitAt addr (8 * first + (k - bits)))) := by
  induction n generalizing b val with
  | zero =>
    rw [List.range'_zero, List.foldl_nil, decide_eq_false (by omega), Bool.false_and, Bool.or_false]
  | succ n ih =>
    have hshift : (b - first) <<< 3 = 8 * (b - first) := by
      rw [Nat.shiftLeft_eq]
      omega
    rw [List.range'_succ, List.foldl_cons, ih (b + 1) (by omega), BitVec.getLsbD_or,
      BitVec.getLsbD_shiftLeft, decide_eq_true hk, Bool.true_and, BitVec.getLsbD_setWidth, hshift,
      Bool.or_assoc]
    congr 1
    by_cases hlow : k < 8 * (b - first) + bits
    · have hnext : ¬ (bits + 8 * (b + 1 - first) ≤ k ∧ k < bits + 8 * (b + 1 - first + n)) := by
        omega
      rw [decide_eq_true hlow, decide_eq_false hnext, Bool.not_true, Bool.false_and, Bool.false_and,
        Bool.or_false, decide_eq_false (by omega), Bool.false_and]
    · by_cases hbyte : k < 8 * (b - first) + bits + 8
      · rw [decide_eq_false hlow, decide_eq_true (by omega), decide_eq_false (by omega),
          decide_eq_true (by omega), Bool.not_false, Bool.true_and, Bool.true_and, Bool.true_and,
          Bool.false_and, Bool.or_false]
        unfold bitAt
        rw [show (8 * first + (k - bits)) / 8 = b by omega,
          show (8 * first + (k - bits)) % 8 = k - (8 * (b - first) + bits) by omega]
      · rw [BitVec.getLsbD_of_ge _ _ (by omega), Bool.and_false, Bool.and_false, Bool.false_or]
        congr 1
        exact decide_eq_decide.mpr (by omega)

theorem Split.getbits {d m : Nat} (h : Split stbit nbits d m) (addr : Bytes) {fuel : Nat}
    (hfuel : m < fuel) :
    ∃ val, getbits fuel addr stbit nbits = some val ∧ ∀ k < 32, val.getLsbD k =
      if k < d then bitAt addr (stbit + k)
      else decide (nbits - (stbit + nbits) % 8 ≤ k ∧ k < nbits) &&
        bitAt addr (8 * lbyte stbit nbits + (k - (nbits - (stbit + nbits) % 8))) := by
  obtain ⟨val₁, hfirst, hbits₁⟩ := getFirst_spec addr stbit
  obtain ⟨val₂, hlast, hbits₂⟩ := getLast_spec addr h.first val₁
  have hstart : 8 * ((stbit + taken stbit) / 8) = stbit + taken stbit := by
    unfold taken
    omega
  have hmiddle := h.middle
  unfold BitFields.getbits
  rw [if_neg h.more, hfirst]
  dsimp only
  rw [hlast]
  dsimp only
  rw [forLoop_le _ h.ends fuel _ (by omega), hmiddle]
  refine ⟨_, rfl, fun k hk => ?_⟩
  have hlength := h.length
  have hfits := h.fits
  rw [getFull_spec addr _ _ _ _ (Nat.le_refl _) _ hk, hbits₂ k hk, hbits₁, hstart]
  by_cases hd : k < d
  · rw [if_pos hd, decide_eq_false (p := _ ≤ k ∧ k < nbits) (by omega), Bool.false_and, Bool.or_false]
    by_cases hf : k < taken stbit
    · rw [decide_eq_true hf, decide_eq_false (by omega), Bool.true_and, Bool.false_and, Bool.or_false]
    · rw [decide_eq_false hf, decide_eq_true (by omega), Bool.true_and, Bool.false_and, Bool.false_or]
      congr 1
      omega
  · rw [if_neg hd, decide_eq_false (p := k < taken stbit) (by omega), Bool.false_and, Bool.false_or,
      decide_eq_false (p := taken stbit + _ ≤ k ∧ _) (by omega), Bool.false_and, Bool.or_false]

end

/-! ## The result -/

section
variable {addr : Bytes} {stbit nbits : Nat} {val : BitVec 32}

theorem toNat_eq_mod {val' : BitVec 32} : val'.toNat = val.toNat % 2 ^ nbits ↔
    ∀ k < 32, val'.getLsbD k = (decide (k < nbits) && val.getLsbD k) := by
  constructor
  · intro h k _
    rw [BitVec.getLsbD, h, Nat.testBit_mod_two_pow]
    rfl
  · intro h
    apply Nat.eq_of_testBit_eq
    intro k
    rw [Nat.testBit_mod_two_pow]
    by_cases hk : k < 32
    · exact h k hk
    · have hv := BitVec.getLsbD_of_ge val k (by omega)
      have hv' := BitVec.getLsbD_of_ge val' k (by omega)
      rw [BitVec.getLsbD] at hv hv'
      rw [hv, hv', Bool.and_false]

theorem setbits_add {addr' : Bytes} {fuel : Nat} (h : setbits fuel addr stbit nbits val = some addr')
    (n : Nat) : setbits (fuel + n) addr stbit nbits val = some addr' := by
  unfold setbits at h ⊢
  split
  · next heq => rwa [if_pos heq] at h
  · next hne =>
    rw [if_neg hne] at h
    obtain ⟨t, ht, rfl⟩ := Option.map_eq_some_iff.mp h
    exact Option.map_eq_some_iff.mpr ⟨t, forLoop_add ht n, rfl⟩

theorem getbits_add {val' : BitVec 32} {fuel : Nat} (h : getbits fuel addr stbit nbits = some val')
    (n : Nat) : getbits (fuel + n) addr stbit nbits = some val' := by
  unfold getbits at h ⊢
  split
  · next heq => rwa [if_pos heq] at h
  · next hne =>
    rw [if_neg hne] at h
    exact forLoop_add h n

/-- The calls end, and what they give is known. -/
theorem packs_iff_of_run {fuel : Nat} {addr' : Bytes} {val' : BitVec 32}
    (hset : setbits fuel addr stbit nbits val = some addr')
    (hget : getbits fuel addr' stbit nbits = some val') : Packs addr stbit nbits val ↔
      val'.toNat = val.toNat % 2 ^ nbits ∧
        ∀ k, k < stbit ∨ stbit + nbits ≤ k → bitAt addr' k = bitAt addr k := by
  constructor
  · rintro ⟨n, addr₁, val₁, hset₁, hget₁, hall⟩
    have heq : addr₁ = addr' := by
      have hlong := setbits_add hset n
      rw [Nat.add_comm, setbits_add hset₁ fuel] at hlong
      exact Option.some_inj.mp hlong
    subst heq
    have hlong := getbits_add hget n
    rw [Nat.add_comm, getbits_add hget₁ fuel] at hlong
    rwa [Option.some_inj.mp hlong] at hall
  · rintro ⟨hval, hrest⟩
    exact ⟨fuel, addr', val', hset, hget, hval, hrest⟩

theorem Split.packs_iff {d m : Nat} (h : Split stbit nbits d m) (h32 : nbits ≤ 32) :
    Packs addr stbit nbits val ↔
      (∀ k, d ≤ k → k < nbits - (stbit + nbits) % 8 → val.getLsbD k = false) ∧
        ∀ k, k < stbit ∨ stbit + nbits ≤ k → 0 < (stbit + nbits) % 8 →
          k / 8 = lbyte stbit nbits → lastBit addr stbit nbits val k = bitAt addr k := by
  obtain ⟨addr', hset, hbits⟩ := h.setbits addr val (Nat.lt_succ_self m)
  obtain ⟨val', hget, hread⟩ := h.getbits addr' (Nat.lt_succ_self m)
  have hfits := h.fits
  -- what is read
  have hval : ∀ k < 32, val'.getLsbD k =
      if k < d then val.getLsbD k
      else decide (nbits - (stbit + nbits) % 8 ≤ k ∧ k < nbits) && val.getLsbD k := by
    intro k hk
    rw [hread k hk]
    by_cases hd : k < d
    · rw [if_pos hd, if_pos hd, hbits, if_pos (by omega), Nat.add_sub_cancel_left]
    · rw [if_neg hd, if_neg hd]
      by_cases hin : nbits - (stbit + nbits) % 8 ≤ k ∧ k < nbits
      · rw [decide_eq_true hin, Bool.true_and, Bool.true_and, hbits]
        generalize hpos : 8 * lbyte stbit nbits + (k - (nbits - (stbit + nbits) % 8)) = pos
        have hdiv : pos / 8 = lbyte stbit nbits := by omega
        have hmod : pos % 8 = k - (nbits - (stbit + nbits) % 8) := by omega
        have hout : ¬ (stbit ≤ pos ∧ pos < stbit + d) :=
          fun hp => h.apart pos hp.1 hp.2 (by omega) hdiv
        rw [if_neg hout, if_pos ⟨by omega, hdiv⟩]
        unfold lastBit
        dsimp only
        rw [hmod, if_pos (by omega)]
        congr 1
        omega
      · rw [decide_eq_false hin, Bool.false_and, Bool.false_and]
  rw [packs_iff_of_run hset hget, toNat_eq_mod]
  apply and_congr
  · constructor
    · intro hall k hd hk
      have heq := hall k (by omega)
      rw [hval k (by omega), if_neg (by omega), decide_eq_false (by omega), Bool.false_and,
        decide_eq_true (by omega), Bool.true_and] at heq
      exact heq.symm
    · intro hgap k hk
      rw [hval k hk]
      by_cases hd : k < d
      · rw [if_pos hd, decide_eq_true (by omega), Bool.true_and]
      · rw [if_neg hd]
        by_cases hmid : k < nbits - (stbit + nbits) % 8
        · rw [hgap k (by omega) hmid, Bool.and_false, Bool.and_false]
        · congr 1
          exact decide_eq_decide.mpr (by omega)
  · refine forall_congr' fun k => imp_congr_right fun hout => ?_
    rw [hbits, if_neg (by omega)]
    by_cases hl : 0 < (stbit + nbits) % 8 ∧ k / 8 = lbyte stbit nbits
    · rw [if_pos hl]
      exact ⟨fun heq _ _ => heq, fun heq => heq hl.1 hl.2⟩
    · rw [if_neg hl]
      exact iff_of_true rfl fun hr hdiv => absurd ⟨hr, hdiv⟩ hl

/-- All bits are in the same byte. -/
theorem packs_iff_sameByte (h1 : 1 ≤ nbits) (h : stbit + nbits ≤ WORD)
    (hsame : stbit / 8 = (stbit + nbits - 1) / 8) :
    Packs addr stbit nbits val ↔ Harmless addr stbit nbits val := by
  have hbyte : fbyte stbit = lbyte stbit nbits := by rw [fbyte_eq, lbyte_eq h1 h, hsame]
  have hmask : ∀ j < 8, ((lowOnes nbits <<< (stbit % 8)).setWidth 8).getLsbD j =
      decide (stbit % 8 ≤ j ∧ j < stbit % 8 + nbits) := by
    intro j hj
    rw [BitVec.getLsbD_setWidth, decide_eq_true hj, Bool.true_and, getLsbD_shiftLeft_32 _ hj,
      getLsbD_lowOnes (by omega), ← Bool.decide_and]
    exact decide_eq_decide.mpr (by omega)
  have hset : setbits 0 addr stbit nbits val = some (merge addr (stbit / 8)
      ((lowOnes nbits <<< (stbit % 8)).setWidth 8) (val <<< (stbit % 8))) := by
    unfold setbits
    rw [if_pos hbyte, fbyte_eq, fbit_eq]
  generalize haddr' : merge addr (stbit / 8) ((lowOnes nbits <<< (stbit % 8)).setWidth 8)
    (val <<< (stbit % 8)) = addr' at hset
  have hbits : ∀ k, bitAt addr' k = if k / 8 = stbit / 8 then
      (bitAt addr k && !decide (stbit % 8 ≤ k % 8 ∧ k % 8 < stbit % 8 + nbits)) ||
        (decide (stbit % 8 ≤ k % 8) && val.getLsbD (k % 8 - stbit % 8)) else bitAt addr k := by
    intro k
    have hlt : k % 8 < 8 := Nat.mod_lt _ (by decide)
    rw [← haddr', bitAt_merge, hmask _ hlt, getLsbD_shiftLeft_32 _ hlt]
  have hget : getbits 0 addr' stbit nbits = some (((addr' (stbit / 8)).setWidth 32 &&&
      ((lowOnes nbits <<< (stbit % 8)).setWidth 8).setWidth 32) >>> (stbit % 8)) := by
    unfold getbits
    rw [if_pos hbyte, fbyte_eq, fbit_eq]
  rw [packs_iff_of_run hset hget, toNat_eq_mod, and_iff_right]
  · constructor
    · intro hrest k hk hlast hval
      have heq := hrest (stbit + k) (Or.inr (by omega))
      rw [hbits, if_pos (by omega), decide_eq_false (by omega), Bool.not_false, Bool.and_true,
        decide_eq_true (by omega), Bool.true_and, show (stbit + k) % 8 - stbit % 8 = k by omega, hval,
        Bool.or_true] at heq
      exact heq.symm
    · intro hharm k hk
      rw [hbits]
      by_cases hdiv : k / 8 = stbit / 8
      · rw [if_pos hdiv, decide_eq_false (by omega), Bool.not_false, Bool.and_true]
        rcases hk with hk | hk
        · rw [decide_eq_false (by omega), Bool.false_and, Bool.or_false]
        · cases hval : val.getLsbD (k % 8 - stbit % 8) with
          | false => rw [Bool.and_false, Bool.or_false]
          | true =>
            have hold := hharm (k % 8 - stbit % 8) (by omega) (by omega) hval
            rw [show stbit + (k % 8 - stbit % 8) = k by omega] at hold
            rw [hold, Bool.true_or]
      · rw [if_neg hdiv]
  · intro k hk
    rw [BitVec.getLsbD_ushiftRight, BitVec.getLsbD_and, BitVec.getLsbD_setWidth,
      BitVec.getLsbD_setWidth]
    by_cases hlt : stbit % 8 + k < 8
    · have hbit : (addr' (stbit / 8)).getLsbD (stbit % 8 + k) = bitAt addr' (stbit + k) := by
        rw [← bitAt_mul_add addr' hlt]
        congr 1
        omega
      rw [hbit, hmask _ hlt, hbits, if_pos (by omega), show (stbit + k) % 8 = stbit % 8 + k by omega,
        show stbit % 8 + k - stbit % 8 = k by omega, decide_eq_true (by omega), Bool.true_and,
        Bool.true_and]
      by_cases hn : k < nbits
      · rw [decide_eq_true (by omega), decide_eq_true (by omega), decide_eq_true hn]
        simp
      · rw [decide_eq_false (by omega), decide_eq_false hn, Bool.and_false, Bool.false_and]
    · rw [BitVec.getLsbD_of_ge _ _ (by omega), Bool.and_false, Bool.false_and,
        decide_eq_false (by omega), Bool.false_and]

theorem before_eq {byte : Nat} (h : 0 < byte) (hlt : byte < WORD) : before byte = byte - 1 := by
  unfold before
  unfold WORD at hlt ⊢
  omega

/-- The first and the last byte differ. -/
theorem split_of_ne (h1 : 1 ≤ nbits) (h : stbit + nbits ≤ WORD)
    (hne : stbit / 8 ≠ (stbit + nbits - 1) / 8) :
    Split stbit nbits (nbits - (stbit + nbits) % 8)
      ((nbits - (stbit + nbits) % 8 - taken stbit) / 8) := by
  have hl := lbyte_eq h1 h
  have hfull : fullLast stbit nbits + 1 = (stbit + nbits) / 8 := by
    unfold fullLast
    rw [hl]
    split
    · rw [before_eq (by omega) (by unfold WORD at h ⊢; omega)]
      omega
    · omega
  have htaken : taken stbit = (8 - stbit % 8) % 8 := rfl
  have hword : WORD = 0x100000000 := rfl
  refine ⟨?_, by omega, by omega, by omega, by omega, Nat.le_refl _, fun k _ hk hr => ?_⟩
  · rw [fbyte_eq, hl]
    exact hne
  · rw [hl]
    omega

theorem harmless_iff (h1 : 1 ≤ nbits) (h : stbit + nbits ≤ WORD)
    (hne : stbit / 8 ≠ (stbit + nbits - 1) / 8) :
    (∀ k, k < stbit ∨ stbit + nbits ≤ k → 0 < (stbit + nbits) % 8 →
      k / 8 = lbyte stbit nbits → lastBit addr stbit nbits val k = bitAt addr k) ↔
      Harmless addr stbit nbits val := by
  rw [lbyte_eq h1 h]
  constructor
  · intro hall k hk hdiv hval
    have heq := hall (stbit + k) (Or.inr (by omega)) (by omega) hdiv
    unfold lastBit at heq
    dsimp only at heq
    rw [if_neg (by omega), show nbits - (stbit + nbits) % 8 + (stbit + k) % 8 = k by omega, hval,
      Bool.or_true] at heq
    exact heq.symm
  · intro hharm k hk hr hdiv
    unfold lastBit
    dsimp only
    rw [if_neg (by omega)]
    cases hval : val.getLsbD (nbits - (stbit + nbits) % 8 + k % 8) with
    | false => rw [Bool.or_false]
    | true =>
      have hold := hharm (nbits - (stbit + nbits) % 8 + k % 8) (by omega) (by omega) hval
      rw [show stbit + (nbits - (stbit + nbits) % 8 + k % 8) = k by omega] at hold
      rw [hold, Bool.true_or]

/-! ## Behind bit 2³² - 1 -/

/-- The last full byte is the one before byte 0: the loop does not end. -/
theorem setbits_endless (h32 : nbits ≤ 32) (hst : stbit < WORD) (h : WORD < stbit + nbits)
    (hr : 0 < (stbit + nbits) % 8) (hfront : stbit + nbits ≤ WORD + 8) (fuel : Nat) :
    setbits fuel addr stbit nbits val = none := by
  have hword : WORD = 0x100000000 := rfl
  have hl : lbyte stbit nbits = 0 := by
    rw [lbyte_round h32 hst h]
    omega
  have htaken : taken stbit ≤ 8 := by
    unfold taken
    omega
  obtain ⟨addr₁, hfirst, -⟩ := setFirst_spec addr stbit nbits val
  obtain ⟨addr₂, hlast, -⟩ := @setLast_spec stbit nbits addr₁ (by omega) val
  unfold setbits
  rw [if_neg (by rw [fbyte_eq, hl]; omega), hfirst]
  dsimp only
  rw [hlast]
  dsimp only
  rw [if_pos hr, hl, forLoop_endless setFull _ fuel _ (by omega)]
  · rfl
  · intro byte hbyte
    exact decide_eq_true (Nat.le_sub_one_of_lt hbyte)

/-- Nothing is written between the first and the last byte. -/
theorem split_round (h32 : nbits ≤ 32) (hst : stbit < WORD) (h : WORD < stbit + nbits)
    (hback : 0 < (stbit + nbits) % 8 → WORD + 8 < stbit + nbits) :
    Split stbit nbits (taken stbit) 0 := by
  have hword : WORD = 0x100000000 := rfl
  have hl := lbyte_round h32 hst h
  have htaken : taken stbit = (8 - stbit % 8) % 8 := rfl
  have hfull : fullLast stbit nbits < 8 := by
    unfold fullLast
    rw [hl]
    split
    · rw [before_eq (by omega) (by omega)]
      omega
    · omega
  refine ⟨?_, by omega, rfl, by omega, by omega, by omega, fun k hk _ _ => ?_⟩
  · rw [fbyte_eq, hl]
    omega
  · rw [hl]
    omega

theorem lastBit_eq_iff (k : Nat) : lastBit addr stbit nbits val k = bitAt addr k ↔
    if k % 8 < (stbit + nbits) % 8 then
      bitAt addr k = val.getLsbD (nbits - (stbit + nbits) % 8 + k % 8)
    else val.getLsbD (nbits - (stbit + nbits) % 8 + k % 8) = true → bitAt addr k = true := by
  unfold lastBit
  dsimp only
  split
  · exact eq_comm
  · cases bitAt addr k <;> cases val.getLsbD (nbits - (stbit + nbits) % 8 + k % 8) <;> decide

theorem packs_iff_round (h32 : nbits ≤ 32) (hst : stbit < WORD) (h : WORD < stbit + nbits) :
    Packs addr stbit nbits val ↔ Round addr stbit nbits val := by
  have hword : WORD = 0x100000000 := rfl
  by_cases hback : 0 < (stbit + nbits) % 8 → WORD + 8 < stbit + nbits
  · rw [(split_round h32 hst h hback).packs_iff h32]
    apply and_congr_right
    intro _
    constructor
    · intro hall hr
      refine ⟨hback hr, fun j hj => ?_⟩
      have heq := hall (8 * ((stbit + nbits - WORD) / 8) + j) (by omega) hr
        (by rw [lbyte_round h32 hst h]; omega)
      rw [lastBit_eq_iff, Nat.mul_add_mod, Nat.mod_eq_of_lt hj] at heq
      exact heq
    · intro hall k _ hr hdiv
      rw [lbyte_round h32 hst h] at hdiv
      have hbyte := (hall hr).2 (k % 8) (Nat.mod_lt _ (by decide))
      dsimp only at hbyte
      rw [show 8 * ((stbit + nbits - WORD) / 8) + k % 8 = k by omega] at hbyte
      exact (lastBit_eq_iff k).mpr hbyte
  · have hfront := Classical.not_imp.mp hback
    constructor
    · rintro ⟨fuel, addr', val', hset, -⟩
      rw [setbits_endless h32 hst h hfront.1 (Nat.not_lt.mp hfront.2)] at hset
      cases hset
    · intro hround
      exact absurd (hround.2 hfront.1).1 hfront.2

end

/-! ## Top theorem -/

/-- **Fields.**  What is written is read, and nothing else changes, just when the bits of the value
above the field do no harm. -/
theorem setbits_iff (addr : Bytes) (stbit nbits : Nat) (val : BitVec 32) (hst : stbit < WORD)
    (h1 : 1 ≤ nbits) (h32 : nbits ≤ 32) : Packs addr stbit nbits val ↔
      if stbit + nbits ≤ WORD then Harmless addr stbit nbits val else Round addr stbit nbits val := by
  by_cases hfits : stbit + nbits ≤ WORD
  · rw [if_pos hfits]
    by_cases hsame : stbit / 8 = (stbit + nbits - 1) / 8
    · exact packs_iff_sameByte h1 hfits hsame
    · rw [(split_of_ne h1 hfits hsame).packs_iff h32, ← harmless_iff h1 hfits hsame]
      exact and_iff_right fun k hk hk' => absurd hk' (Nat.not_lt_of_le hk)
  · rw [if_neg hfits]
    exact packs_iff_round h32 hst (Nat.lt_of_not_le hfits)

/-- A value of 12 bits behind the third bit. -/
theorem setbits_packs : Packs (fun _ => 0#8) 3 12 0xABC#32 := by
  refine (setbits_iff (fun _ => 0#8) 3 12 0xABC#32 (by decide) (by decide) (by decide)).mpr ?_
  rw [if_pos (by decide)]
  intro k hk _ hval
  have hlt : (0xABC#32 : BitVec 32).toNat < 2 ^ k :=
    Nat.lt_of_lt_of_le (by decide) (Nat.pow_le_pow_right (by decide) hk)
  rw [BitVec.getLsbD, Nat.testBit_lt_two_pow hlt] at hval
  cases hval

/-- A value of 5 bits in a field of 4: the bit behind the field is set. -/
theorem setbits_fails : ¬ Packs (fun _ => 0#8) 0 4 0x1F#32 := by
  rintro ⟨fuel, addr', val', hset, -, -, hrest⟩
  have hbit := hrest 4 (Or.inr (by decide))
  rw [Option.some_inj.mp (hset.symm.trans rfl)] at hbit
  exact absurd hbit (by decide)

end Bcmdhd.BitFields
