import Bcmdhd.StrToUll

/-!
# Hex strings (`bcm_format_hex` and `bcmhex2bin` in `bcmutils.c`)

Bytes are written with two digits each, and read back from pairs of digits, behind an optional
`0x`.  The loop over the pairs looks at its count after the first turn.

    0 < bytes ≤ 65535 →  bcmhex2bin (bcm_format_hex bytes) = bytes                (hex_decode)
    0 < digits →  bcmhex2bin reads and writes inside, and returns the number of bytes written
-/

namespace Bcmdhd.HexString

open StrToUll (isxdigit bcmStrtoull Ulong)

/-! ## Algorithm -/

def hexDigit (n : Nat) : UInt8 := if n < 10 then UInt8.ofNat (48 + n) else UInt8.ofNat (55 + n)

/-- `bcm_format_hex`, each byte by `%02X` -/
def formatHex (bytes : List UInt8) : List UInt8 :=
  bytes.flatMap fun b => [hexDigit (b.toNat / 16), hexDigit (b.toNat % 16)]

/-- `none` when the index is outside. -/
def store (buf : List UInt8) (i : Nat) (b : UInt8) : Option (List UInt8) :=
  if i < buf.length then some (buf.set i b) else none

/-- What is returned, and how many bytes of the buffer have been written. -/
structure Result where
  ret : Nat
  buf : List UInt8
  written : Nat

/-- The turn `i` of the loop and `k` turns after it, from `hex` on; `none` when a byte outside is
read or written. -/
def convert (u : Ulong) (hex : List UInt8) (outLen : Nat) : Nat → Nat → List UInt8 → Option Result
  | k, i, buf => do
    let c ← hex[2 * i]?
    let d ← hex[2 * i + 1]?
    -- char is not a hex digit
    if ¬ isxdigit c ∨ ¬ isxdigit d then return ⟨0, buf, i⟩
    else
      let buf ← store buf i (UInt8.ofNat (bcmStrtoull u [c, d] 16).1)
      match k with
      | 0 => return ⟨outLen, buf, i + 1⟩
      | k + 1 => convert u hex outLen k (i + 1) buf

/-- `do … while (++i < out_len)` -/
def turnsAfter (outLen : Nat) : Nat := outLen - 1

/-- `(hex[0] == '0') && ((hex[1] == 'x') || (hex[1] == 'X'))` -/
def hexRadix (hex : List UInt8) : Option Bool := do
  let c ← hex[0]?
  if c = 48 then (hex[1]?).map fun d => decide (d = 120 ∨ d = 88) else some false

def bcmhex2bin (u : Ulong) (hex buf : List UInt8) : Option Result :=
  if hex.length % 2 ≠ 0 then some ⟨0, buf, 0⟩
  else do
    let radix ← hexRadix hex
    let hex := if radix then hex.drop 2 else hex
    if 0xFFFF < hex.length / 2 then return ⟨0, buf, 0⟩
    else if buf.length < hex.length / 2 then return ⟨0, buf, 0⟩
    else convert u hex (hex.length / 2) (turnsAfter (hex.length / 2)) 0 buf

/-! ## Digits -/

open StrToUll (ctype D X S digit isspace ismask_mem isxdigit_eq valueOf_eq scan)

theorem ctype_xdigit : ∀ e ∈ ctype.toList.zipIdx, decide (e.1 &&& (D ||| X) ≠ 0) = true →
    decide (e.1 &&& S ≠ 0) = false ∧ UInt8.ofNat e.2 ≠ 43 ∧ UInt8.ofNat e.2 ≠ 45 ∧
      UInt8.ofNat e.2 ≠ 120 ∧ UInt8.ofNat e.2 ≠ 88 := by
  decide +kernel

theorem xdigit_plain {c : UInt8} (h : isxdigit c = true) :
    isspace c = false ∧ c ≠ 43 ∧ c ≠ 45 ∧ c ≠ 120 ∧ c ≠ 88 := by
  have hall := ctype_xdigit _ (ismask_mem c) h
  rwa [UInt8.ofNat_toNat] at hall

theorem strtoull_pair (u : Ulong) {c d : UInt8} (hc : isxdigit c = true) (hd : isxdigit d = true) :
    (bcmStrtoull u [c, d] 16).1 = 16 * digit c + digit d := by
  obtain ⟨hspace, hplus, hminus, -⟩ := xdigit_plain hc
  obtain ⟨-, -, -, hx, hX⟩ := xdigit_plain hd
  have hc16 : digit c < 16 := by rwa [isxdigit_eq, decide_eq_true_eq] at hc
  have hd16 : digit d < 16 := by rwa [isxdigit_eq, decide_eq_true_eq] at hd
  have hsign : StrToUll.sign ([c, d].dropWhile isspace) = (false, [c, d]) := by
    rw [List.dropWhile_cons_of_neg (by rw [hspace]; decide)]
    unfold StrToUll.sign
    rw [List.headD_cons, if_neg hplus, if_neg hminus]
  have hradix : StrToUll.radix 16 [c, d] = (16, [c, d]) := by
    have hno : StrToUll.hexPrefix [c, d] = false := by
      refine decide_eq_false ?_
      rintro ⟨-, h | h⟩
      · exact hx h
      · exact hX h
    unfold StrToUll.radix
    rw [if_neg (by decide), hno, if_neg (by simp)]
  have hscan : scan 16 false [c, d] 0 0 = .done (16 * digit c + digit d) [] := by
    have h₁ : (0 * 16 + digit c) % StrToUll.uint64Size = digit c := by
      unfold StrToUll.uint64Size
      omega
    have h₂ : (digit c * 16 + digit d) % StrToUll.uint64Size = 16 * digit c + digit d := by
      unfold StrToUll.uint64Size
      omega
    unfold scan
    rw [if_pos ⟨hc, by rwa [valueOf_eq hc16]⟩, valueOf_eq hc16]
    dsimp only
    rw [h₁, if_neg fun h => Nat.not_lt_zero _ h.1]
    unfold scan
    rw [if_pos ⟨hd, by rwa [valueOf_eq hd16]⟩, valueOf_eq hd16]
    dsimp only
    rw [h₂, if_neg fun h => by omega]
    rfl
  unfold bcmStrtoull
  rw [hsign]
  dsimp only
  rw [hradix]
  dsimp only
  rw [hscan]
  rfl

/-! ## The loop -/

/-- The bytes that pairs of digits stand for. -/
def decode : List UInt8 → List UInt8
  | c :: d :: t => UInt8.ofNat (16 * digit c + digit d) :: decode t
  | _ => []

theorem decode_cons (c d : UInt8) (t : List UInt8) :
    decode (c :: d :: t) = UInt8.ofNat (16 * digit c + digit d) :: decode t := rfl

/-- One turn, with a pair of digits and a free byte. -/
theorem convert_turn (u : Ulong) {n k i : Nat} {l t out free : List UInt8} {c d : UInt8} (b : UInt8)
    (hl : l.length = 2 * i) (hc : isxdigit c = true) (hd : isxdigit d = true)
    (hout : out.length = i) :
    convert u (l ++ c :: d :: t) n k i (out ++ b :: free) =
      match k with
      | 0 => some ⟨n, out ++ UInt8.ofNat (16 * digit c + digit d) :: free, i + 1⟩
      | k + 1 => convert u (l ++ c :: d :: t) n k (i + 1)
        (out ++ UInt8.ofNat (16 * digit c + digit d) :: free) := by
  have hread : ∀ j, (l ++ c :: d :: t)[2 * i + j]? = (c :: d :: t)[j]? := by
    intro j
    rw [← hl, List.getElem?_append_right (Nat.le_add_right _ _), Nat.add_sub_cancel_left]
  have hstore : store (out ++ b :: free) i (UInt8.ofNat (16 * digit c + digit d)) =
      some (out ++ UInt8.ofNat (16 * digit c + digit d) :: free) := by
    unfold store
    rw [if_pos (by rw [List.length_append, hout, List.length_cons]; omega), ← hout,
      List.set_append_right _ _ (Nat.le_refl _), Nat.sub_self]
    rfl
  have hno : ¬ (¬ isxdigit c = true ∨ ¬ isxdigit d = true) := by
    rintro (h | h)
    · exact h hc
    · exact h hd
  have h₀ : (l ++ c :: d :: t)[2 * i]? = some c := hread 0
  have h₁ : (l ++ c :: d :: t)[2 * i + 1]? = some d := hread 1
  rw [convert.eq_def]
  dsimp only
  rw [h₀, h₁]
  dsimp only [Option.bind_eq_bind, Option.bind_some]
  rw [if_neg hno, strtoull_pair u hc hd, hstore]
  cases k <;> rfl

/-- The pairs of `t` are read behind `l`, and go behind `out` into the buffer. -/
theorem convert_eq (u : Ulong) {n k i : Nat} {l t out free : List UInt8} (hl : l.length = 2 * i)
    (ht : t.length = 2 * (k + 1)) (hx : ∀ c ∈ t, isxdigit c = true) (hout : out.length = i)
    (hfree : k + 1 ≤ free.length) :
    convert u (l ++ t) n k i (out ++ free) =
      some ⟨n, out ++ decode t ++ free.drop (k + 1), i + (k + 1)⟩ := by
  induction k generalizing i l t out free with
  | zero =>
    match t, free, ht, hfree with
    | [c, d], b :: free, _, _ =>
      rw [convert_turn u b hl (hx c (by simp)) (hx d (by simp)) hout, List.append_assoc]
      rfl
  | succ k ih =>
    match t, free, ht, hfree with
    | c :: d :: t, b :: free, ht, hfree =>
      have hxt : ∀ e ∈ t, isxdigit e = true := fun e he =>
        hx e (List.mem_cons_of_mem c (List.mem_cons_of_mem d he))
      have hl' : (l ++ [c, d]).length = 2 * (i + 1) := by
        rw [List.length_append, hl]
        rfl
      have hout' : (out ++ [UInt8.ofNat (16 * digit c + digit d)]).length = i + 1 := by
        rw [List.length_append, hout]
        rfl
      have hnext := ih hl' (Nat.add_right_cancel (Nat.add_right_cancel ht)) hxt hout'
        (Nat.le_of_succ_le_succ hfree)
      rw [convert_turn u b hl (hx c (by simp)) (hx d (by simp)) hout]
      simp only [List.append_assoc, List.cons_append, List.nil_append] at hnext ⊢
      rw [hnext, decode_cons]
      simp only [List.cons_append, List.drop_succ_cons]
      congr 2
      omega

/-! ## Strings -/

/-- No prefix, or one of the two. -/
def radixes : List (List UInt8) := [[], [48, 120], [48, 88]]

theorem hexRadix_eq {pre : List UInt8} (hpre : pre ∈ radixes) {c d : UInt8} (t : List UInt8)
    (hd : isxdigit d = true) :
    hexRadix (pre ++ c :: d :: t) = some (decide (pre ≠ [])) ∧
      (if pre ≠ [] then (pre ++ c :: d :: t).drop 2 else pre ++ c :: d :: t) = c :: d :: t := by
  obtain ⟨-, -, -, hx, hX⟩ := xdigit_plain hd
  unfold radixes at hpre
  simp only [List.mem_cons, List.not_mem_nil, or_false] at hpre
  rcases hpre with rfl | rfl | rfl
  · refine ⟨?_, rfl⟩
    have hno : decide (d = 120 ∨ d = 88) = false := by
      refine decide_eq_false ?_
      rintro (h | h)
      · exact hx h
      · exact hX h
    show (if c = 48 then some (decide (d = 120 ∨ d = 88)) else some false) = some false
    rw [hno, ite_self]
  · exact ⟨rfl, rfl⟩
  · exact ⟨rfl, rfl⟩

/-- A string of digits, with a prefix or not. -/
theorem hex2bin_eq (u : Ulong) {pre t : List UInt8} (hpre : pre ∈ radixes) (hne : t ≠ [])
    (hx : ∀ c ∈ t, isxdigit c = true) (buf : List UInt8) :
    bcmhex2bin u (pre ++ t) buf =
      some (if t.length % 2 ≠ 0 ∨ 0xFFFF < t.length / 2 ∨ buf.length < t.length / 2 then ⟨0, buf, 0⟩
        else ⟨t.length / 2, decode t ++ buf.drop (t.length / 2), t.length / 2⟩) := by
  have hlen : (pre ++ t).length % 2 = t.length % 2 := by
    have hpre2 : pre.length % 2 = 0 := by
      unfold radixes at hpre
      simp only [List.mem_cons, List.not_mem_nil, or_false] at hpre
      rcases hpre with rfl | rfl | rfl <;> rfl
    rw [List.length_append]
    omega
  unfold bcmhex2bin
  rw [hlen]
  by_cases hodd : t.length % 2 ≠ 0
  · rw [if_pos hodd, if_pos (Or.inl hodd)]
  · rw [if_neg hodd]
    obtain ⟨n, hn⟩ : ∃ n, t.length = 2 * (n + 1) := by
      have hpos := List.length_pos_iff.mpr hne
      exact ⟨t.length / 2 - 1, by omega⟩
    have hhalf : t.length / 2 = n + 1 := by omega
    obtain ⟨hradix, hdrop⟩ : hexRadix (pre ++ t) = some (decide (pre ≠ [])) ∧
        (if pre ≠ [] then (pre ++ t).drop 2 else pre ++ t) = t := by
      match t, hn, hx with
      | c :: d :: m, _, hx => exact hexRadix_eq hpre m (hx d (by simp))
    rw [hradix]
    dsimp only [Option.bind_eq_bind, Option.bind_some]
    simp only [decide_eq_true_eq]
    rw [hdrop, hhalf]
    by_cases hmax : 0xFFFF < n + 1
    · rw [if_pos hmax, if_pos (Or.inr (Or.inl hmax))]
      rfl
    · rw [if_neg hmax]
      by_cases hfit : buf.length < n + 1
      · rw [if_pos hfit, if_pos (Or.inr (Or.inr hfit))]
        rfl
      · rw [if_neg hfit, if_neg (by rintro (h | h | h) <;> contradiction)]
        have h := convert_eq u (n := n + 1) (i := 0) (l := []) rfl hn hx List.length_nil
          (Nat.le_of_not_lt hfit)
        rw [Nat.zero_add] at h
        exact h

theorem hexDigit_all : ∀ n, n < 16 → isxdigit (hexDigit n) = true ∧ digit (hexDigit n) = n := by
  decide

theorem formatHex_cons (b : UInt8) (bytes : List UInt8) :
    formatHex (b :: bytes) = hexDigit (b.toNat / 16) :: hexDigit (b.toNat % 16) :: formatHex bytes :=
  rfl

theorem formatHex_length (bytes : List UInt8) : (formatHex bytes).length = 2 * bytes.length := by
  induction bytes with
  | nil => rfl
  | cons b bytes ih =>
    rw [formatHex_cons, List.length_cons, List.length_cons, ih, List.length_cons]
    omega

theorem formatHex_digits (bytes : List UInt8) : ∀ c ∈ formatHex bytes, isxdigit c = true := by
  induction bytes with
  | nil => exact nofun
  | cons b bytes ih =>
    have hb := b.toNat_lt
    rw [formatHex_cons, List.forall_mem_cons, List.forall_mem_cons]
    exact ⟨(hexDigit_all _ (by omega)).1, (hexDigit_all _ (by omega)).1, ih⟩

theorem decode_formatHex (bytes : List UInt8) : decode (formatHex bytes) = bytes := by
  induction bytes with
  | nil => rfl
  | cons b bytes ih =>
    have hb := b.toNat_lt
    rw [formatHex_cons, decode_cons, ih, (hexDigit_all _ (by omega)).2, (hexDigit_all _ (by omega)).2,
      Nat.div_add_mod, UInt8.ofNat_toNat]

theorem formatHex_ne_nil {bytes : List UInt8} (h : bytes ≠ []) : formatHex bytes ≠ [] := by
  have hlen := formatHex_length bytes
  have hpos := List.length_pos_iff.mpr h
  exact List.ne_nil_of_length_pos (by omega)

/-- Output is limited to 64K. -/
theorem formatHex_long (u : Ulong) {bytes : List UInt8} (h : 0xFFFF < bytes.length)
    (buf : List UInt8) : bcmhex2bin u (formatHex bytes) buf = some ⟨0, buf, 0⟩ := by
  have hne : bytes ≠ [] := List.ne_nil_of_length_pos (by omega)
  have hhalf : (formatHex bytes).length / 2 = bytes.length := by
    rw [formatHex_length]
    omega
  have heq := hex2bin_eq u List.mem_cons_self (formatHex_ne_nil hne) (formatHex_digits bytes) buf
  rw [hhalf, if_pos (Or.inr (Or.inl h))] at heq
  exact heq

/-- Bytes come back, and a string of digits is read and decoded inside its length and the one of
the buffer. -/
theorem hex_decode (u : Ulong) :
    (∀ bytes buf : List UInt8, bytes ≠ [] → bytes.length ≤ 0xFFFF → bytes.length ≤ buf.length →
      bcmhex2bin u (formatHex bytes) buf =
        some ⟨bytes.length, bytes ++ buf.drop bytes.length, bytes.length⟩) ∧
    ∀ pre t buf : List UInt8, pre ∈ radixes → t ≠ [] → (∀ c ∈ t, isxdigit c = true) →
      bcmhex2bin u (pre ++ t) buf =
        some (if t.length % 2 ≠ 0 ∨ 0xFFFF < t.length / 2 ∨ buf.length < t.length / 2 then
            ⟨0, buf, 0⟩
          else ⟨t.length / 2, decode t ++ buf.drop (t.length / 2), t.length / 2⟩) := by
  refine ⟨fun bytes buf hne hmax hfit => ?_, fun pre t buf hpre hne hx => hex2bin_eq u hpre hne hx buf⟩
  have hpos := List.length_pos_iff.mpr hne
  have hhalf : (formatHex bytes).length / 2 = bytes.length := by
    rw [formatHex_length]
    omega
  have hsmall : ¬ ((formatHex bytes).length % 2 ≠ 0 ∨ 0xFFFF < bytes.length ∨
      buf.length < bytes.length) := by
    rw [formatHex_length]
    omega
  have h := hex2bin_eq u List.mem_cons_self (formatHex_ne_nil hne) (formatHex_digits bytes) buf
  rw [hhalf, if_neg hsmall, decode_formatHex] at h
  exact h

/-- Three bytes into a longer buffer, and the digits of four, with a prefix, into one of two. -/
theorem hex_decode_three :
    bcmhex2bin .bits64 (formatHex [0xAB, 0x07, 0xF0]) [9, 9, 9, 7] =
        some ⟨3, [0xAB, 0x07, 0xF0, 7], 3⟩ ∧
      bcmhex2bin .bits64 ([48, 120] ++ formatHex [0x4B, 0, 0xFF, 0x10]) [9, 9, 9, 9, 7] =
        some ⟨4, [0x4B, 0, 0xFF, 0x10, 7], 4⟩ ∧
      bcmhex2bin .bits64 ([48, 120] ++ formatHex [0x4B, 0, 0xFF, 0x10]) [9, 7] =
        some ⟨0, [9, 7], 0⟩ := by
  have hdigits : ∀ c ∈ formatHex [0x4B, 0, 0xFF, 0x10], isxdigit c = true := formatHex_digits _
  refine ⟨(hex_decode .bits64).1 _ _ (by decide) (by decide) (by decide), ?_,
    (hex_decode .bits64).2 [48, 120] _ _ (by decide) (by decide) hdigits⟩
  exact (hex_decode .bits64).2 [48, 120] _ _ (by decide) (by decide) hdigits

/-- More than 64K do not come back, and without a digit the first turn reads outside. -/
theorem hex_decode_fails :
    bcmhex2bin .bits64 (formatHex (List.replicate 65536 1)) (List.replicate 65536 0) =
        some ⟨0, List.replicate 65536 0, 0⟩ ∧
      bcmhex2bin .bits64 [] [] = none ∧ bcmhex2bin .bits64 [48, 120] [] = none := by
  refine ⟨formatHex_long .bits64 ?_ _, rfl, rfl⟩
  rw [List.length_replicate]
  decide

end Bcmdhd.HexString
