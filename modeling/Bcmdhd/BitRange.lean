import Bcmdhd.Lib.Bits
import Bcmdhd.Lib.CountedLoop

/-!
# Ranges of bits (`set_bitrange`, `clr_bitrange`, `set_bitrange_u32`, `clr_bitrange_u32`)

A range from `start` to `end` goes round behind `maxbit` if `start` is the greater one.  The byte
functions write the bits one by one, and whole bytes between the first and the last one; the `_u32`
functions write words with masks.

    start, end ≤ maxbit →
      all of them write the bits of the range, and no other  ↔
        the range does not go up to bit 2³² - 1                        (bitrange_iff)

Behind that bit the index of the byte functions is 0 again.
-/

namespace Bcmdhd.BitRange

open Bits CountedLoop

/-! ## Algorithm -/

abbrev Bytes := Nat → BitVec 8
abbrev Word := BitVec 32

def NBBY : Nat := 8

def setbit (array : Bytes) (i : Nat) : Bytes :=
  Function.update array (i / NBBY) (array (i / NBBY) ||| 1#8 <<< (i % NBBY))

def clrbit (array : Bytes) (i : Nat) : Bytes :=
  Function.update array (i / NBBY) (array (i / NBBY) &&& ~~~ (1#8 <<< (i % NBBY)))

/-- `for (i = first; i <= last; i++) op(array, i)` -/
def eachBit (op : Bytes → Nat → Bytes) (fuel : Nat) (array : Bytes) (first last : Nat) :
    Option Bytes :=
  forLoop (fun i => i ≤ last) op fuel first array

/-- `set_bitrange` and `clr_bitrange`: `op` writes one bit, and `full` is a byte of them. -/
def bitrange (op : Bytes → Nat → Bytes) (full : BitVec 8) :
    Nat → Bytes → Nat → Nat → Nat → Option Bytes
  | 0, _, _, _, _ => none
  | fuel + 1, array, start, end', maxbit =>
    let startbyte := start / NBBY
    let endbyte := end' / NBBY
    if start ≤ end' then
      if 1 < endbyte - startbyte then do
        let startbytelastbit := (startbyte + 1) * NBBY - 1
        let endbytestartbit := endbyte * NBBY
        let array ← forLoop (fun i => i < endbyte) (fun array i => Function.update array i full) fuel
          (startbyte + 1) array
        let array ← eachBit op fuel array start startbytelastbit
        eachBit op fuel array endbytestartbit end'
      else eachBit op fuel array start end'
    else do
      let array ← bitrange op full fuel array start maxbit maxbit
      bitrange op full fuel array 0 end' maxbit

def setBitrange : Nat → Bytes → Nat → Nat → Nat → Option Bytes := bitrange setbit 0xFF#8

def clrBitrange : Nat → Bytes → Nat → Nat → Nat → Option Bytes := bitrange clrbit 0x0#8

def U32MAX : Word := ~~~ 0#32
def U32MSBNUM : Nat := 31

/-- What differs between `set_bitrange_u32` and `clr_bitrange_u32`. -/
structure Access where
  /-- from the mask of some bits, `setbitsword` or `clrbitsword` -/
  bitsword : Word → Word
  /-- the same of two masks for the bits in both -/
  both : Word → Word → Word
  /-- `|=` or `&=` -/
  store : Word → Word → Word
  full : Word

def setAccess : Access := ⟨id, (· &&& ·), (· ||| ·), U32MAX⟩

def clrAccess : Access := ⟨(~~~ ·), fun x y => ~~~ x ||| ~~~ y, (· &&& ·), 0#32⟩

def bitrangeU32 (op : Access) :
    Nat → (Nat → Word) → Nat → Nat → Nat → Option (Nat → Word)
  | 0, _, _, _, _ => none
  | fuel + 1, array, start, end', maxbit =>
    let startword := start / 32
    let endword := end' / 32
    let startwordstartbit := start % 32
    let endwordlastbit := end' % 32
    if end' < start then do
      let array ← bitrangeU32 op fuel array start maxbit maxbit
      bitrangeU32 op fuel array 0 end' maxbit
    else if endword - startword ≠ 0 then do
      let bitsword := op.bitsword (U32MAX <<< startwordstartbit)
      let array := Function.update array startword (op.store (array startword) bitsword)
      let array ← forLoop (fun i => i ≤ endword - 1)
        (fun array i => Function.update array i op.full) fuel (startword + 1) array
      let bitsword := op.bitsword (U32MAX >>> (U32MSBNUM - endwordlastbit))
      pure (Function.update array endword (op.store (array endword) bitsword))
    else
      let bitsword :=
        op.both (U32MAX <<< startwordstartbit) (U32MAX >>> (U32MSBNUM - endwordlastbit))
      pure (Function.update array startword (op.store (array startword) bitsword))

def setBitrangeU32 : Nat → (Nat → Word) → Nat → Nat → Nat → Option (Nat → Word) :=
  bitrangeU32 setAccess

def clrBitrangeU32 : Nat → (Nat → Word) → Nat → Nat → Nat → Option (Nat → Word) :=
  bitrangeU32 clrAccess

/-! ## What they are for -/

/-- The bits of the range, in the order in which it is gone through. -/
def rangeBits (start end' maxbit : Nat) : List Nat :=
  if start ≤ end' then List.range' start (end' + 1 - start)
  else List.range' start (maxbit + 1 - start) ++ List.range (end' + 1)

/-- The bytes of each word, the first one lowest. -/
def words (array : Bytes) (i : Nat) : Word :=
  array (4 * i + 3) ++ array (4 * i + 2) ++ array (4 * i + 1) ++ array (4 * i)

/-- The function of bytes and the one of words end, with the bits of the range written one by one
and the others as they were. -/
def Writes (byBytes : Nat → Bytes → Nat → Nat → Nat → Option Bytes)
    (byWords : Nat → (Nat → Word) → Nat → Nat → Nat → Option (Nat → Word))
    (op : Bytes → Nat → Bytes) (array : Bytes) (start end' maxbit : Nat) : Prop :=
  ∃ fuel array' words',
    byBytes fuel array start end' maxbit = some array' ∧
    byWords fuel (words array) start end' maxbit = some words' ∧
    array' = (rangeBits start end' maxbit).foldl op array ∧
    words' = words array' ∧
    ∀ k, k ∉ rangeBits start end' maxbit → bitAt array' k = bitAt array k

/-- The last bit that is counted up to. -/
def lastBit (start end' maxbit : Nat) : Nat := if start ≤ end' then end' else maxbit

/-! ## One bit, one byte, one word -/

/-- `op` writes the value `v` to a bit, and `full` is a byte of `v`. -/
structure Puts (v : Bool) (op : Bytes → Nat → Bytes) (full : BitVec 8) : Prop where
  bit : ∀ array i k, bitAt (op array i) k = if k = i then v else bitAt array k
  byte : ∀ j < 8, full.getLsbD j = v

theorem eq_iff_div_mod {k i : Nat} : k = i ↔ k / 8 = i / 8 ∧ k % 8 = i % 8 := by omega

theorem getLsbD_one_shift {w i j : Nat} (hj : j < w) :
    ((1#w) <<< i).getLsbD j = decide (j = i) := by
  rw [BitVec.getLsbD_shiftLeft, BitVec.getLsbD_one]
  by_cases hij : j = i
  · simp [hij, hij ▸ hj]
    omega
  · simp [hij]
    omega

theorem puts_setbit : Puts true setbit 0xFF#8 where
  bit array i k := by
    have hlt : k % 8 < 8 := Nat.mod_lt _ (by decide)
    unfold setbit NBBY
    rw [bitAt_update, BitVec.getLsbD_or, getLsbD_one_shift hlt]
    by_cases hdiv : k / 8 = i / 8
    · rw [if_pos hdiv, ← hdiv]
      by_cases hmod : k % 8 = i % 8
      · rw [if_pos (eq_iff_div_mod.mpr ⟨hdiv, hmod⟩), decide_eq_true hmod, Bool.or_true]
      · rw [if_neg fun h => hmod (eq_iff_div_mod.mp h).2, decide_eq_false hmod, Bool.or_false]
        rfl
    · rw [if_neg hdiv, if_neg fun h => hdiv (eq_iff_div_mod.mp h).1]
  byte := by decide

theorem puts_clrbit : Puts false clrbit 0x0#8 where
  bit array i k := by
    have hlt : k % 8 < 8 := Nat.mod_lt _ (by decide)
    unfold clrbit NBBY
    rw [bitAt_update, BitVec.getLsbD_and, BitVec.getLsbD_not, getLsbD_one_shift hlt]
    by_cases hdiv : k / 8 = i / 8
    · rw [if_pos hdiv, ← hdiv]
      by_cases hmod : k % 8 = i % 8
      · rw [if_pos (eq_iff_div_mod.mpr ⟨hdiv, hmod⟩), decide_eq_true hmod, Bool.not_true,
          Bool.and_false, Bool.and_false]
      · rw [if_neg fun h => hmod (eq_iff_div_mod.mp h).2, decide_eq_false hmod, Bool.not_false,
          decide_eq_true hlt, Bool.and_true, Bool.and_true]
        rfl
    · rw [if_neg hdiv, if_neg fun h => hdiv (eq_iff_div_mod.mp h).1]
  byte := by decide

section
variable {v : Bool} {op : Bytes → Nat → Bytes} {full : BitVec 8}

theorem Puts.foldl (h : Puts v op full) (is : List Nat) (array : Bytes) (k : Nat) :
    bitAt (is.foldl op array) k = if k ∈ is then v else bitAt array k := by
  rw [bitAt_foldl h.bit is array k]
  exact if_congr exists_eq_right' rfl rfl

/-- Whole units of `w` bits. -/
theorem fill_bitAt {w : Nat} (hw : 0 < w) {full : BitVec w} (hfull : ∀ j < w, full.getLsbD j = v)
    (is : List Nat) (array : Nat → BitVec w) (k : Nat) :
    bitAt (is.foldl (fun array i => Function.update array i full) array) k =
      if k / w ∈ is then v else bitAt array k := by
  have hput : ∀ (a : Nat → BitVec w) i k,
      bitAt (Function.update a i full) k = if k / w = i then v else bitAt a k := by
    intro a i k
    rw [bitAt_update, hfull _ (Nat.mod_lt _ hw)]
  rw [bitAt_foldl hput is array k]
  exact if_congr exists_eq_right' rfl rfl

theorem ite_or_ite {α : Type*} {P Q : Prop} [Decidable P] [Decidable Q] (x y : α) :
    (if P then x else if Q then x else y) = if P ∨ Q then x else y := by
  by_cases hp : P
  · rw [if_pos hp, if_pos (Or.inl hp)]
  · rw [if_neg hp]
    exact if_congr (or_iff_right hp).symm rfl rfl

/-! ## Bytes -/

theorem bitrange_forward (h : Puts v op full) (fuel : Nat) {start end' : Nat} (hle : start ≤ end')
    (hend : end' + 1 < WORD) (hfuel : end' + 1 < fuel) (array : Bytes) (maxbit : Nat) :
    ∃ array', bitrange op full (fuel + 1) array start end' maxbit = some array' ∧
      ∀ k, bitAt array' k = if start ≤ k ∧ k ≤ end' then v else bitAt array k := by
  unfold bitrange eachBit NBBY
  dsimp only
  rw [if_pos hle]
  by_cases hfar : 1 < end' / 8 - start / 8
  · rw [if_pos hfar, forLoop_lt _ (by omega) fuel _ (by omega)]
    dsimp only [Option.bind_eq_bind, Option.bind_some]
    rw [forLoop_le _ (by omega) fuel _ (by omega)]
    dsimp only [Option.bind_some]
    rw [forLoop_le _ hend fuel _ (by omega)]
    refine ⟨_, rfl, fun k => ?_⟩
    rw [h.foldl, h.foldl, fill_bitAt (by decide) h.byte, ite_or_ite, ite_or_ite]
    refine if_congr ?_ rfl rfl
    rw [List.mem_range'_1, List.mem_range'_1, List.mem_range'_1]
    omega
  · rw [if_neg hfar, forLoop_le _ hend fuel _ (by omega)]
    refine ⟨_, rfl, fun k => ?_⟩
    rw [h.foldl]
    refine if_congr ?_ rfl rfl
    rw [List.mem_range'_1]
    omega

/-- Up to the last index of all there is no end. -/
theorem eachBit_endless (fuel : Nat) (array : Bytes) {first : Nat} (h : first < WORD) :
    eachBit op fuel array first (WORD - 1) = none :=
  forLoop_endless op (fun _ hi => decide_eq_true (Nat.le_sub_one_of_lt hi)) fuel first h array

theorem bitrange_endless (fuel : Nat) (array : Bytes) {start : Nat} (h : start < WORD)
    (maxbit : Nat) : bitrange op full fuel array start (WORD - 1) maxbit = none := by
  cases fuel with
  | zero => rfl
  | succ fuel =>
    unfold bitrange
    dsimp only
    rw [if_pos (Nat.le_sub_one_of_lt h)]
    split
    · rw [Option.bind_eq_bind, Option.bind_eq_none_iff]
      intro array₁ _
      rw [Option.bind_eq_none_iff]
      intro array₂ _
      exact eachBit_endless fuel array₂ (by decide)
    · exact eachBit_endless fuel array h

end

/-! ## Words -/

/-- `op` writes the value `v` to the bits of a mask. -/
structure Stores (v : Bool) (op : Access) : Prop where
  one : ∀ x m j, j < 32 →
    (op.store x (op.bitsword m)).getLsbD j = if m.getLsbD j = true then v else x.getLsbD j
  both : ∀ x m m' j, j < 32 → (op.store x (op.both m m')).getLsbD j =
    if m.getLsbD j = true ∧ m'.getLsbD j = true then v else x.getLsbD j
  full : ∀ j < 32, op.full.getLsbD j = v

theorem stores_set : Stores true setAccess where
  one x m j _ := by
    unfold setAccess
    rw [BitVec.getLsbD_or]
    cases hm : m.getLsbD j <;> simp [hm]
  both x m m' j _ := by
    unfold setAccess
    rw [BitVec.getLsbD_or, BitVec.getLsbD_and]
    cases m.getLsbD j <;> cases m'.getLsbD j <;> simp
  full := by decide

theorem stores_clr : Stores false clrAccess where
  one x m j hj := by
    unfold clrAccess
    rw [BitVec.getLsbD_and, BitVec.getLsbD_not, decide_eq_true hj]
    cases m.getLsbD j <;> simp
  both x m m' j hj := by
    unfold clrAccess
    rw [BitVec.getLsbD_and, BitVec.getLsbD_or, BitVec.getLsbD_not, BitVec.getLsbD_not,
      decide_eq_true hj]
    cases m.getLsbD j <;> cases m'.getLsbD j <;> simp
  full := by decide

theorem getLsbD_high (s : Nat) {j : Nat} (hj : j < 32) :
    (U32MAX <<< s).getLsbD j = true ↔ s ≤ j := by
  unfold U32MAX
  rw [BitVec.getLsbD_shiftLeft, BitVec.getLsbD_not, BitVec.getLsbD_zero]
  simp [hj]
  omega

theorem getLsbD_low {e j : Nat} (he : e < 32) :
    (U32MAX >>> (U32MSBNUM - e)).getLsbD j = true ↔ j ≤ e := by
  unfold U32MAX U32MSBNUM
  rw [BitVec.getLsbD_ushiftRight, BitVec.getLsbD_not, BitVec.getLsbD_zero]
  simp
  omega

section
variable {v : Bool} {op : Access}

theorem Stores.one_bitAt (h : Stores v op) (array : Nat → Word) (i : Nat) (m : Word) (k : Nat) :
    bitAt (Function.update array i (op.store (array i) (op.bitsword m))) k =
      if k / 32 = i ∧ m.getLsbD (k % 32) = true then v else bitAt array k := by
  rw [bitAt_update]
  by_cases hi : k / 32 = i
  · rw [if_pos hi, h.one _ _ _ (Nat.mod_lt _ (by decide)), ← hi]
    exact if_congr (and_iff_right rfl).symm rfl rfl
  · rw [if_neg hi, if_neg fun hand => hi hand.1]

theorem Stores.both_bitAt (h : Stores v op) (array : Nat → Word) (i : Nat) (m m' : Word) (k : Nat) :
    bitAt (Function.update array i (op.store (array i) (op.both m m'))) k =
      if k / 32 = i ∧ m.getLsbD (k % 32) = true ∧ m'.getLsbD (k % 32) = true then v
      else bitAt array k := by
  rw [bitAt_update]
  by_cases hi : k / 32 = i
  · rw [if_pos hi, h.both _ _ _ _ (Nat.mod_lt _ (by decide)), ← hi]
    exact if_congr (and_iff_right rfl).symm rfl rfl
  · rw [if_neg hi, if_neg fun hand => hi hand.1]

theorem bitrangeU32_forward (h : Stores v op) (fuel : Nat) {start end' : Nat} (hle : start ≤ end')
    (hend : end' < WORD) (hfuel : end' + 1 < fuel) (array : Nat → Word) (maxbit : Nat) :
    ∃ array', bitrangeU32 op (fuel + 1) array start end' maxbit = some array' ∧
      ∀ k, bitAt array' k = if start ≤ k ∧ k ≤ end' then v else bitAt array k := by
  have hhigh : ∀ k, (U32MAX <<< (start % 32)).getLsbD (k % 32) = true ↔ start % 32 ≤ k % 32 :=
    fun k => getLsbD_high _ (Nat.mod_lt k (by decide))
  have hlow : ∀ k, (U32MAX >>> (U32MSBNUM - end' % 32)).getLsbD (k % 32) = true ↔
      k % 32 ≤ end' % 32 := fun k => getLsbD_low (Nat.mod_lt end' (by decide))
  have hword : WORD = 0x100000000 := rfl
  unfold bitrangeU32
  dsimp only
  rw [if_neg (by omega)]
  by_cases hfar : end' / 32 - start / 32 ≠ 0
  · rw [if_pos hfar, forLoop_le _ (by omega) fuel _ (by omega)]
    refine ⟨_, rfl, fun k => ?_⟩
    rw [h.one_bitAt, fill_bitAt (by decide) h.full, h.one_bitAt, ite_or_ite, ite_or_ite]
    refine if_congr ?_ rfl rfl
    rw [hhigh, hlow, List.mem_range'_1]
    omega
  · rw [if_neg hfar]
    refine ⟨_, rfl, fun k => ?_⟩
    rw [h.both_bitAt]
    refine if_congr ?_ rfl rfl
    rw [hhigh, hlow]
    omega

end

/-! ## Top theorem -/

/-- The words have the bits of the bytes. -/
theorem bitAt_words (array : Bytes) (k : Nat) : bitAt (words array) k = bitAt array k := by
  have hlt : k % 32 < 32 := Nat.mod_lt _ (by decide)
  unfold bitAt words
  rw [BitVec.getLsbD_append, BitVec.getLsbD_append, BitVec.getLsbD_append]
  have hbyte : ∀ i j, k / 8 = i → k % 8 = j →
      (array i).getLsbD j = (array (k / 8)).getLsbD (k % 8) := by
    rintro i j rfl rfl
    rfl
  by_cases h0 : k % 32 < 8
  · rw [if_pos h0]
    exact hbyte _ _ (by omega) (by omega)
  · rw [if_neg h0]
    by_cases h1 : k % 32 - 8 < 8
    · rw [if_pos h1]
      exact hbyte _ _ (by omega) (by omega)
    · rw [if_neg h1]
      by_cases h2 : k % 32 - 8 - 8 < 8
      · rw [if_pos h2]
        exact hbyte _ _ (by omega) (by omega)
      · rw [if_neg h2]
        exact hbyte _ _ (by omega) (by omega)

theorem mem_rangeBits_of_le {start end' maxbit k : Nat} (h : start ≤ end') :
    k ∈ rangeBits start end' maxbit ↔ start ≤ k ∧ k ≤ end' := by
  unfold rangeBits
  rw [if_pos h, List.mem_range'_1]
  omega

theorem mem_rangeBits_of_lt {start end' maxbit k : Nat} (h : end' < start) :
    k ∈ rangeBits start end' maxbit ↔ k ≤ end' ∨ start ≤ k ∧ k ≤ maxbit := by
  unfold rangeBits
  rw [if_neg (Nat.not_le_of_lt h), List.mem_append, List.mem_range'_1, List.mem_range]
  omega

section
variable {v : Bool} {op : Bytes → Nat → Bytes} {full : BitVec 8} {start end' maxbit : Nat}

theorem bitrange_spec (h : Puts v op full) (hs : start ≤ maxbit) (he : end' ≤ maxbit)
    (hlast : lastBit start end' maxbit + 1 < WORD) (array : Bytes) :
    ∃ array', bitrange op full (maxbit + 4) array start end' maxbit = some array' ∧
      ∀ k, bitAt array' k = if k ∈ rangeBits start end' maxbit then v else bitAt array k := by
  unfold lastBit at hlast
  by_cases hle : start ≤ end'
  · rw [if_pos hle] at hlast
    obtain ⟨array', hrun, hbits⟩ :=
      bitrange_forward h (maxbit + 3) hle hlast (by omega) array maxbit
    refine ⟨array', hrun, fun k => ?_⟩
    rw [hbits]
    exact if_congr (mem_rangeBits_of_le hle).symm rfl rfl
  · rw [if_neg hle] at hlast
    obtain ⟨array₁, hrun₁, hbits₁⟩ :=
      bitrange_forward h (maxbit + 2) hs hlast (by omega) array maxbit
    obtain ⟨array₂, hrun₂, hbits₂⟩ :=
      bitrange_forward h (maxbit + 2) (Nat.zero_le end') (by omega) (by omega) array₁ maxbit
    refine ⟨array₂, ?_, fun k => ?_⟩
    · unfold bitrange
      dsimp only
      rw [if_neg hle, hrun₁]
      exact hrun₂
    · rw [hbits₂, hbits₁, ite_or_ite]
      refine if_congr ?_ rfl rfl
      rw [mem_rangeBits_of_lt (Nat.lt_of_not_le hle)]
      omega

theorem bitrangeU32_spec {op : Access} (h : Stores v op) (hs : start ≤ maxbit) (he : end' ≤ maxbit)
    (hm : maxbit < WORD) (array : Nat → Word) :
    ∃ array', bitrangeU32 op (maxbit + 4) array start end' maxbit = some array' ∧
      ∀ k, bitAt array' k = if k ∈ rangeBits start end' maxbit then v else bitAt array k := by
  by_cases hle : start ≤ end'
  · obtain ⟨array', hrun, hbits⟩ :=
      bitrangeU32_forward h (maxbit + 3) hle (by omega) (by omega) array maxbit
    refine ⟨array', hrun, fun k => ?_⟩
    rw [hbits]
    exact if_congr (mem_rangeBits_of_le hle).symm rfl rfl
  · obtain ⟨array₁, hrun₁, hbits₁⟩ :=
      bitrangeU32_forward h (maxbit + 2) hs hm (by omega) array maxbit
    obtain ⟨array₂, hrun₂, hbits₂⟩ := bitrangeU32_forward h (maxbit + 2) (Nat.zero_le end')
      (by omega) (by omega) array₁ maxbit
    refine ⟨array₂, ?_, fun k => ?_⟩
    · unfold bitrangeU32
      dsimp only
      rw [if_pos (by omega), hrun₁]
      exact hrun₂
    · rw [hbits₂, hbits₁, ite_or_ite]
      refine if_congr ?_ rfl rfl
      rw [mem_rangeBits_of_lt (Nat.lt_of_not_le hle)]
      omega

theorem writes_iff {byWords : Access} (h : Puts v op full) (hw : Stores v byWords)
    (hs : start ≤ maxbit) (he : end' ≤ maxbit) (hm : maxbit < WORD) (array : Bytes) :
    Writes (bitrange op full) (bitrangeU32 byWords) op array start end' maxbit ↔
      lastBit start end' maxbit ≠ WORD - 1 := by
  have hword : WORD = 0x100000000 := rfl
  constructor
  · rintro ⟨fuel, array', words', hrun, -⟩ hlast
    unfold lastBit at hlast
    by_cases hle : start ≤ end'
    · rw [if_pos hle] at hlast
      rw [hlast, bitrange_endless fuel array (by omega)] at hrun
      cases hrun
    · rw [if_neg hle] at hlast
      cases fuel with
      | zero => cases hrun
      | succ fuel =>
        unfold bitrange at hrun
        dsimp only at hrun
        rw [if_neg hle, hlast, bitrange_endless fuel array (by omega)] at hrun
        cases hrun
  · intro hlast
    have hlt : lastBit start end' maxbit + 1 < WORD := by
      unfold lastBit at hlast ⊢
      split <;> split at hlast <;> omega
    obtain ⟨array', hrun, hbits⟩ := bitrange_spec h hs he hlt array
    obtain ⟨words', hrunw, hbitsw⟩ := bitrangeU32_spec hw hs he hm (words array)
    refine ⟨maxbit + 4, array', words', hrun, hrunw, ?_, ?_, fun k hk => ?_⟩
    · apply eq_of_bitAt
      intro k
      rw [hbits, h.foldl]
    · apply eq_of_bitAt
      intro k
      rw [hbitsw, bitAt_words, bitAt_words, hbits]
    · rw [hbits, if_neg hk]

end

/-- **Ranges.**  Byte by byte, word by word and bit by bit the bits of the range are written and no
other, just when the range does not go up to bit 2³² - 1. -/
theorem bitrange_iff (array : Bytes) (start end' maxbit : Nat) (hs : start ≤ maxbit)
    (he : end' ≤ maxbit) (hm : maxbit < WORD) :
    (Writes setBitrange setBitrangeU32 setbit array start end' maxbit ∧
      Writes clrBitrange clrBitrangeU32 clrbit array start end' maxbit) ↔
      lastBit start end' maxbit ≠ WORD - 1 := by
  have hset := writes_iff puts_setbit stores_set hs he hm array
  have hclr := writes_iff puts_clrbit stores_clr hs he hm array
  exact ⟨fun h => hset.mp h.1, fun h => ⟨hset.mpr h, hclr.mpr h⟩⟩

/-- A range that goes round. -/
theorem bitrange_round :
    Writes setBitrange setBitrangeU32 setbit (fun _ => 0#8) 37 5 40 ∧
      Writes clrBitrange clrBitrangeU32 clrbit (fun _ => 0#8) 37 5 40 :=
  (bitrange_iff (fun _ => 0#8) 37 5 40 (by decide) (by decide) (by decide)).mpr (by decide)

/-- All bits of the greatest array: the functions of bytes do not end. -/
theorem bitrange_fails :
    ¬ Writes setBitrange setBitrangeU32 setbit (fun _ => 0#8) 0 0xFFFFFFFF 0xFFFFFFFF := by
  rintro ⟨fuel, array', words', hrun, -⟩
  have hnone : setBitrange fuel (fun _ => 0#8) 0 0xFFFFFFFF 0xFFFFFFFF = none :=
    bitrange_endless fuel _ (by decide) _
  rw [hnone] at hrun
  cases hrun

end Bcmdhd.BitRange
