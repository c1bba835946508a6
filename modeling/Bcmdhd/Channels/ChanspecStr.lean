import Bcmdhd.Channels.CreateChspec
import Bcmdhd.StrToUll

/-!
# Chanspecs as text (`wf_chspec_aton`, `wf_chspec_ntoa`)

A chanspec is written as the number of its primary channel, with a band in front and a bandwidth or
a sideband behind.  The numbers are read by `bcm_strtoul`, and keep 32 bits.

    aton (ntoa c) = c,  and ntoa c has room in its buffer, where c is valid           (ntoaExact)

A number that was formatted is read (`readUint_decimal`), so is the suffix behind it
(`atonSuffix_str`), and the parts make the chanspec again (`parts_back`).
-/

namespace Bcmdhd.Channels

open StrToUll (bcmStrtoull uint64Size isspace ismask digit numeral)

/-! ## Algorithm -/

/-- Letters, and `/`, `+` and the blank. -/
def chG : UInt8 := 0x67
def chL : UInt8 := 0x6c
def chU : UInt8 := 0x75
def chSlash : UInt8 := 0x2f
def chPlus : UInt8 := 0x2b
def chBlank : UInt8 := 0x20

def isupper (c : UInt8) : Bool := ismask c &&& StrToUll.U ≠ 0

def tolower (c : UInt8) : UInt8 := if isupper c then c + 32 else c

/-- `none` where no number was read; an `unsigned int`, and what is behind it. -/
def readUint (p : List UInt8) : Option (Nat × List UInt8) :=
  let r := bcmStrtoull .bits64 p 10
  if r.2 = p then none else some (uint r.1, r.2)

def bandOfNum : Nat → Option Band
  | 2 => some .b2G
  | 5 => some .b5G
  | 6 => some .b6G
  | _ => none

def bwOfNum : Nat → Option Bw
  | 20 => some .bw20
  | 40 => some .bw40
  | 80 => some .bw80
  | 160 => some .bw160
  | _ => none

/-- The sideband is `WL_CHANSPEC_CTL_SB_U` or `WL_CHANSPEC_CTL_SB_L`. -/
def wfCreate40MHzChspecPrimarySb (primaryChannel : Nat) (upper : Bool) (band : Band) : Nat :=
  let centerChannel :=
    if upper then uint (0x100000000 + primaryChannel - CH_10MHZ_APART)
    else uint (primaryChannel + CH_10MHZ_APART)
  wfCreate40MHzChspec primaryChannel centerChannel band

/-- The chanspec of all the parts read; `sbUl` is `u` or `l`, or was not read. -/
def fromParts (band : Band) (priCh : Nat) (bw : Bw) (sbUl : Option UInt8) : Nat :=
  match sbUl with
  | some c => wfCreate40MHzChspecPrimarySb priCh (c = chU) band
  | none =>
    if bw = .bw20 then wfCreate20MHzChspec priCh band
    else wfCreateChspecFromPrimary priCh bw band

/-- `done_read:` -/
def doneRead (band : Band) (priCh : Nat) (bw : Bw) (sbUl : Option UInt8) (a : List UInt8) : Nat :=
  -- skip trailing white space
  let a := a.dropWhile (· = chBlank)
  if a.headD 0 ≠ 0 then 0
  else if wfChspecMalformed (fromParts band priCh bw sbUl) then 0
  else fromParts band priCh bw sbUl

/-- What follows the slash. -/
def atonBw (band : Band) (priCh : Nat) (a : List UInt8) : Nat :=
  match readUint a with
  | none => 0
  | some (num, a) =>
    match bwOfNum num with
    | none => 0
    | some bw =>
      let c := tolower (a.headD 0)
      -- a 2g/40 channel should have a l/u spec now
      if band = .b2G ∧ bw = .bw40 ∧ (c = chU ∨ c = chL) then
        doneRead band priCh bw (some c) (a.drop 1)
      else if c = chPlus then 0
      else doneRead band priCh bw none a

/-- What follows the channel. -/
def atonSuffix (band : Band) (priCh : Nat) (a : List UInt8) : Nat :=
  let c := tolower (a.headD 0)
  if c = 0 then doneRead band priCh .bw20 none a
  else if c = chU ∨ c = chL then doneRead band priCh .bw40 (some c) (a.drop 1)
  else if c ≠ chSlash then 0
  else atonBw band priCh (a.drop 1)

def defaultBand (priCh : Nat) : Band := if priCh ≤ CH_MAX_2G_CHANNEL then .b2G else .b5G

def wfChspecAton (a : List UInt8) : Nat :=
  match readUint a with
  | none => 0
  | some (num, a) =>
    if tolower (a.headD 0) = chG then
      match bandOfNum num with
      | none => 0
      | some band =>
        match readUint (a.drop 1) with
        | none => 0
        | some (priCh, a) => atonSuffix band priCh a
    else atonSuffix (defaultBand num) num a

def CHANSPEC_STR_LEN : Nat := 20

/-- `2g`, `5g` and `6g` where the band is not the default one. -/
def bandStr (chspec : Nat) : List UInt8 :=
  if bandOf chspec = .b2G ∧ CH_MAX_2G_CHANNEL < CHSPEC_CHANNEL chspec then [0x32, chG]
  else if bandOf chspec = .b5G ∧ CHSPEC_CHANNEL chspec ≤ CH_MAX_2G_CHANNEL then [0x35, chG]
  else if bandOf chspec = .b6G then [0x36, chG]
  else []

/-- `wf_chspec_bw_str` -/
def bwStr : Bw → List UInt8
  | .bw20 => [0x32, 0x30]
  | .bw40 => [0x34, 0x30]
  | .bw80 => [0x38, 0x30]
  | .bw160 => [0x31, 0x36, 0x30]

/-- `%d` -/
def decimal (n : Nat) : List UInt8 := (Nat.toDigits 10 n).map fun c => UInt8.ofNat c.toNat

/-- What `wf_chspec_ntoa` formats. -/
def formatted (chspec : Nat) : Option (List UInt8) :=
  if wfChspecMalformed chspec then none
  else
    let priChan := decimal (wfChspecPrimary20Chan chspec)
    match bwOf chspec with
    | some .bw20 => some (bandStr chspec ++ priChan)
    | some bw =>
      -- primary20 sideband string instead of BW for 40MHz
      if bw = .bw40 ∧ bandOf chspec ≠ .b6G then
        some (bandStr chspec ++ priChan ++ [if CHSPEC_CTL_SB chspec = 1 then chU else chL])
      else some (bandStr chspec ++ priChan ++ chSlash :: bwStr bw)
    -- malformed
    | none => none

/-- `NULL`, or what `snprintf` puts in a buffer of `CHANSPEC_STR_LEN`. -/
def wfChspecNtoa (chspec : Nat) : Option (List UInt8) :=
  (formatted chspec).map fun text => text.take (CHANSPEC_STR_LEN - 1)

def Bw.mhz : Bw → Nat
  | .bw20 => 20
  | .bw40 => 40
  | .bw80 => 80
  | .bw160 => 160

/-- The text of a valid chanspec has room in the buffer, and is read as this chanspec. -/
def NtoaExact (chspec : Nat) : Prop :=
  wfChspecValid chspec = true →
    ∃ text, formatted chspec = some text ∧ text.length < CHANSPEC_STR_LEN ∧
      wfChspecNtoa chspec = some text ∧ wfChspecAton text = chspec

/-! ## Numbers -/

/-- To the base of ten every digit is read, unless the value falls. -/
theorem bcmStrtoull_ten {p text : List UInt8} {minus : Bool}
    (hsign : StrToUll.sign (p.dropWhile isspace) = (minus, text)) :
    let digits := text.takeWhile fun c => digit c < 10
    if minus = false ∧ StrToUll.Falls 10 digits then
      (bcmStrtoull .bits64 p 10).1 = uint64Size - 1 ∧ (bcmStrtoull .bits64 p 10).2 <:+ text
    else
      bcmStrtoull .bits64 p 10 =
        (if minus then (uint64Size - numeral 10 digits % uint64Size % uint64Size) % uint64Size
          else numeral 10 digits % uint64Size, text.dropWhile fun c => digit c < 10) := by
  let n : StrToUll.Number := ⟨minus, 10, text⟩
  have hall : ∀ c ∈ n.digits, digit c < 16 := by
    intro c hc
    have hmem : c ∈ text.takeWhile fun c => decide (digit c < 10) := hc
    have hten := List.mem_takeWhile_imp hmem
    rw [decide_eq_true_eq] at hten
    omega
  have hscan := n.scan_text minus
  rw [n.hexDigits_eq hall, n.hexRest_eq.mpr hall] at hscan
  have hradix : StrToUll.radix 10 text = (10, text) := rfl
  unfold bcmStrtoull
  rw [hsign]
  dsimp only
  rw [hradix]
  dsimp only
  by_cases hfalls : minus = false ∧ StrToUll.Falls n.base n.digits
  · rw [if_pos hfalls] at hscan
    rw [hscan]
    refine (if_pos hfalls).mpr ?_
    exact ⟨rfl, List.dropWhile_suffix _⟩
  · rw [if_neg hfalls] at hscan
    rw [hscan]
    refine (if_neg hfalls).mpr ?_
    rfl

/-! ## Round trip -/

theorem decimal_digits : ∀ n < 0x100, (∀ c ∈ decimal n, 48 ≤ c ∧ c ≤ 57) ∧ decimal n ≠ [] ∧
    (decimal n).length ≤ 3 ∧ numeral 10 (decimal n) = n := by
  -- the digits as a list of booleans: `∀ c` would be decided over every byte
  have hall : ∀ n < 0x100, (decimal n).all (fun c => decide (48 ≤ c ∧ c ≤ 57)) = true ∧
      decimal n ≠ [] ∧ (decimal n).length ≤ 3 ∧ numeral 10 (decimal n) = n := by
    decide +kernel
  intro n hn
  obtain ⟨hdigits, hrest⟩ := hall n hn
  exact ⟨fun c hc => of_decide_eq_true (List.all_eq_true.mp hdigits c hc), hrest⟩

theorem digit_of_range {c : UInt8} (h : 48 ≤ c ∧ c ≤ 57) : digit c < 10 := by
  have hle : c.toNat ≤ 57 := UInt8.le_iff_toNat_le.mp h.2
  unfold digit
  rw [if_pos h]
  omega

/-- A digit is no blank. -/
theorem not_isspace {c : UInt8} (h : 48 ≤ c ∧ c ≤ 57) : isspace c = false := by
  have hall : ∀ n < 10, isspace (UInt8.ofNat (n + 48)) = false := by decide +kernel
  have hge : 48 ≤ c.toNat := UInt8.le_iff_toNat_le.mp h.1
  have hle : c.toNat ≤ 57 := UInt8.le_iff_toNat_le.mp h.2
  have hc := hall (c.toNat - 48) (by omega)
  rwa [Nat.sub_add_cancel hge, UInt8.ofNat_toNat] at hc

/-- No sign is in front of a digit. -/
theorem sign_digits {ds rest : List UInt8} (hne : ds ≠ []) (hds : ∀ c ∈ ds, 48 ≤ c ∧ c ≤ 57) :
    StrToUll.sign ((ds ++ rest).dropWhile isspace) = (false, ds ++ rest) := by
  cases ds with
  | nil => exact absurd rfl hne
  | cons c ds =>
    have hc := hds c List.mem_cons_self
    have hplus : ¬ c = 43 := by
      rintro rfl
      exact absurd hc (by decide)
    have hminus : ¬ c = 45 := by
      rintro rfl
      exact absurd hc (by decide)
    unfold StrToUll.sign
    rw [List.cons_append, List.dropWhile_cons_of_neg (by rw [not_isspace hc]; decide),
      List.headD_cons, if_neg hplus, if_neg hminus]

/-- A number that was formatted is read. -/
theorem readUint_decimal {n : Nat} {rest : List UInt8} (hn : n < 0x100)
    (hrest : ∀ c ∈ rest.head?, ¬ digit c < 10) : readUint (decimal n ++ rest) = some (n, rest) := by
  obtain ⟨hdigits, hne, -, hvalue⟩ := decimal_digits n hn
  generalize decimal n = ds at hdigits hne hvalue ⊢
  have hten : ∀ c ∈ ds, decide (digit c < 10) = true :=
    fun c hc => decide_eq_true (digit_of_range (hdigits c hc))
  have hstop : rest.takeWhile (fun c => digit c < 10) = [] ∧
      rest.dropWhile (fun c => digit c < 10) = rest := by
    cases rest with
    | nil => exact ⟨rfl, rfl⟩
    | cons c rest =>
      have hc : ¬ decide (digit c < 10) = true := by
        rw [decide_eq_true_eq]
        exact hrest c rfl
      exact ⟨List.takeWhile_cons_of_neg hc, List.dropWhile_cons_of_neg hc⟩
  have hread := bcmStrtoull_ten (@sign_digits ds rest hne hdigits)
  have htake : (ds ++ rest).takeWhile (fun c => digit c < 10) = ds := by
    rw [List.takeWhile_append_of_pos hten, hstop.1, List.append_nil]
  have hdrop : (ds ++ rest).dropWhile (fun c => digit c < 10) = rest := by
    rw [List.dropWhile_append_of_pos hten, hstop.2]
  dsimp only at hread
  rw [htake, hdrop, hvalue, if_neg] at hread
  · unfold readUint
    dsimp only
    rw [hread, if_neg]
    · show some (uint (n % uint64Size), rest) = some (n, rest)
      rw [Nat.mod_eq_of_lt (Nat.lt_trans hn (by decide))]
      unfold uint
      rw [Nat.mod_eq_of_lt (Nat.lt_trans hn (by decide))]
    · intro heq
      exact hne (List.append_left_eq_self.mp heq.symm)
  · rintro ⟨-, hfalls⟩
    have hlarge := hfalls.large (by decide)
    rw [hvalue] at hlarge
    unfold uint64Size at hlarge
    omega

section
variable {bw : Bw} {band : Band} {n : Nat}

theorem code_bandOf (n : Nat) : CHSPEC_BAND n = (bandOf n).code := by
  have hlt : CHSPEC_BAND n < 4 := Nat.mod_lt _ (by decide)
  unfold bandOf
  generalize CHSPEC_BAND n = k at hlt ⊢
  obtain rfl | rfl | rfl | rfl : k = 0 ∨ k = 1 ∨ k = 2 ∨ k = 3 := by omega
  all_goals rfl

theorem code_bwOf {n : Nat} (h : bwOf n = some bw) : CHSPEC_BW n = bw.code := by
  have hlt : CHSPEC_BW n < 8 := Nat.mod_lt _ (by decide)
  unfold bwOf at h
  generalize CHSPEC_BW n = k at hlt h ⊢
  obtain rfl | rfl | rfl | rfl | rfl | rfl | rfl | rfl :
      k = 0 ∨ k = 1 ∨ k = 2 ∨ k = 3 ∨ k = 4 ∨ k = 5 ∨ k = 6 ∨ k = 7 := by omega
  all_goals first | (cases h; rfl) | cases h

/-- A chanspec that is not malformed has a sideband of its bandwidth. -/
theorem sideband_lt {n : Nat} (h : wfChspecMalformed n = false) (hbw : bwOf n = some bw) :
    CHSPEC_CTL_SB n < sidebands bw := by
  have hsb : sbMalformed n = false := (Bool.or_eq_false_iff.mp h).2
  unfold sbMalformed at hsb
  rw [hbw] at hsb
  cases bw with
  | bw20 =>
    have hnot : ¬ CHSPEC_CTL_SB n ≠ 0 := of_decide_eq_false hsb
    show CHSPEC_CTL_SB n < 1
    omega
  | bw40 =>
    have hnot : ¬ 1 < CHSPEC_CTL_SB n := of_decide_eq_false hsb
    show CHSPEC_CTL_SB n < 2
    omega
  | bw80 =>
    have hnot : ¬ 3 < CHSPEC_CTL_SB n := of_decide_eq_false hsb
    show CHSPEC_CTL_SB n < 4
    omega
  | bw160 => exact Nat.mod_lt _ (by decide)

theorem not_malformed {n : Nat} (h : wfChspecValid n = true) : wfChspecMalformed n = false := by
  unfold wfChspecValid at h
  rw [Bool.and_eq_true, Bool.not_eq_true'] at h
  exact h.1

/-- A valid chanspec is the word of its fields. -/
theorem word_of_valid {n : Nat} (hn : n < 0x10000) (h : wfChspecValid n = true) :
    ∃ channel sb bw band, channel < 0x100 ∧ wfValidChan channel band bw = true ∧
      sb < sidebands bw ∧ n = word channel sb bw band := by
  obtain ⟨bw, hbw, hchan⟩ := valid_fields h
  have hsb := sideband_lt (not_malformed h) hbw
  have hch : CHSPEC_CHANNEL n < 0x100 := Nat.mod_lt _ (by decide)
  have hsb8 : CHSPEC_CTL_SB n < 8 := Nat.mod_lt _ (by decide)
  refine ⟨CHSPEC_CHANNEL n, CHSPEC_CTL_SB n, bw, bandOf n, hch, hchan, hsb, ?_⟩
  rw [word_eq hch hsb8, ← code_bandOf, ← code_bwOf hbw]
  unfold CHSPEC_BAND CHSPEC_BW CHSPEC_CTL_SB CHSPEC_CHANNEL
  omega

/-- The sideband that is formatted. -/
def sbStr (bw : Bw) (band : Band) (sb : Nat) : Option UInt8 :=
  if bw = .bw40 ∧ band ≠ .b6G then some (if sb = 1 then chU else chL) else none

/-- What is formatted behind the channel. -/
def suffixStr (bw : Bw) : Option UInt8 → List UInt8
  | some c => [c]
  | none => if bw = .bw20 then [] else chSlash :: bwStr bw

/-- The parts of a valid word make it again, and its band is the default one or is formatted. -/
theorem parts_back : ∀ channel < 0x100, wfValidChan channel band bw = true → ∀ sb < sidebands bw,
    fromParts band (wfChspecPrimary20Chan (word channel sb bw band)) bw (sbStr bw band sb) =
        word channel sb bw band ∧
      (band = .b6G ∨ band = defaultBand (wfChspecPrimary20Chan (word channel sb bw band)) ∧
        bandStr (word channel sb bw band) = []) := by
  cases bw <;> cases band <;> decide +kernel

theorem formatted_word {channel sb : Nat} (hch : channel < 0x100) (hsb : sb < 8)
    (hvalid : wfChspecValid (word channel sb bw band) = true) :
    formatted (word channel sb bw band) = some (bandStr (word channel sb bw band) ++
      decimal (wfChspecPrimary20Chan (word channel sb bw band)) ++
        suffixStr bw (sbStr bw band sb)) := by
  obtain ⟨-, hctl, hbw, hband⟩ := fields_word bw band hch hsb
  have hmal : wfChspecMalformed (word channel sb bw band) = false := not_malformed hvalid
  unfold formatted
  rw [hmal, hbw, hband, hctl]
  unfold suffixStr sbStr
  cases bw with
  | bw20 => simp
  | bw40 =>
    by_cases hb : band = .b6G
    · simp [hb]
    · simp [hb]
  | bw80 => simp
  | bw160 => simp

theorem doneRead_nil {sbUl : Option UInt8}
    (hmal : wfChspecMalformed (fromParts band n bw sbUl) = false) :
    doneRead band n bw sbUl [] = fromParts band n bw sbUl := by
  unfold doneRead
  dsimp only [List.dropWhile_nil, List.headD_nil]
  rw [hmal]
  rfl

theorem bwStr_decimal (bw : Bw) : bwStr bw = decimal bw.mhz ∧ bw.mhz < 0x100 ∧
    bwOfNum bw.mhz = some bw := by
  cases bw <;> decide

theorem tolower_zero : tolower 0 = 0 := by decide

theorem tolower_suffix : tolower chL = chL ∧ tolower chU = chU ∧ tolower chSlash = chSlash := by
  decide +kernel

theorem atonBw_str (n : Nat) : atonBw band n (bwStr bw) = doneRead band n bw none [] := by
  obtain ⟨hstr, hlt, hnum⟩ := bwStr_decimal bw
  have hread : readUint (bwStr bw) = some (bw.mhz, []) := by
    have hdecimal := @readUint_decimal bw.mhz [] hlt (fun c hc => by cases hc)
    rwa [List.append_nil, ← hstr] at hdecimal
  unfold atonBw
  rw [hread]
  dsimp only
  rw [hnum]
  have hend : tolower (([] : List UInt8).headD 0) = 0 := tolower_zero
  refine (if_neg ?_).trans (if_neg ?_)
  · rintro ⟨-, -, h | h⟩
    · exact absurd (hend.symm.trans h) (by decide)
    · exact absurd (hend.symm.trans h) (by decide)
  · intro h
    exact absurd (hend.symm.trans h) (by decide)

/-- The suffix that is formatted is read. -/
theorem atonSuffix_str {sb : Nat} (n : Nat) : atonSuffix band n (suffixStr bw (sbStr bw band sb)) =
    doneRead band n bw (sbStr bw band sb) [] := by
  obtain ⟨hl, hu, hslash⟩ := tolower_suffix
  unfold sbStr
  by_cases hforty : bw = .bw40 ∧ band ≠ .b6G
  · rw [if_pos hforty, hforty.1]
    unfold suffixStr atonSuffix
    dsimp only [List.headD_cons]
    by_cases hsb : sb = 1
    · rw [if_pos hsb, hu]
      rfl
    · rw [if_neg hsb, hl]
      rfl
  · rw [if_neg hforty]
    unfold suffixStr atonSuffix
    dsimp only
    by_cases hbw : bw = .bw20
    · rw [if_pos hbw, hbw, List.headD_nil, tolower_zero]
      rfl
    · rw [if_neg hbw, List.headD_cons, hslash]
      exact atonBw_str n

/-- A channel that is formatted is read, and so is the band in front. -/
theorem wfChspecAton_decimal {suffix : List UInt8} (hn : n < 0x100)
    (hdigit : ∀ c ∈ suffix.head?, ¬ digit c < 10) (hg : tolower (suffix.headD 0) ≠ chG) :
    wfChspecAton (decimal n ++ suffix) = atonSuffix (defaultBand n) n suffix ∧
      wfChspecAton ([0x36, chG] ++ decimal n ++ suffix) = atonSuffix .b6G n suffix := by
  have hread := readUint_decimal hn hdigit
  constructor
  · unfold wfChspecAton
    rw [hread]
    dsimp only
    rw [if_neg hg]
  · have hsix : readUint ([0x36, chG] ++ decimal n ++ suffix) =
        some (6, chG :: (decimal n ++ suffix)) :=
      @readUint_decimal 6 (chG :: (decimal n ++ suffix)) (by decide)
        (fun c hc => by obtain rfl := Option.mem_some_iff.mp hc; decide)
    have hlower : tolower chG = chG := by decide
    unfold wfChspecAton
    rw [hsix]
    refine (if_pos hlower).trans ?_
    show (match readUint (decimal n ++ suffix) with
      | none => 0
      | some (priCh, a) => atonSuffix .b6G priCh a) = atonSuffix .b6G n suffix
    rw [hread]

/-- No digit and no `g` is behind the channel. -/
theorem suffixStr_head (sb : Nat) :
    (∀ c ∈ (suffixStr bw (sbStr bw band sb)).head?, ¬ digit c < 10) ∧
      tolower ((suffixStr bw (sbStr bw band sb)).headD 0) ≠ chG ∧
      (suffixStr bw (sbStr bw band sb)).length ≤ 4 := by
  obtain ⟨hl, hu, hslash⟩ := tolower_suffix
  have hletter : ∀ c : UInt8, ¬ digit c < 10 → tolower c ≠ chG → ∀ cs : List UInt8,
      cs.length ≤ 3 → (∀ d ∈ (c :: cs).head?, ¬ digit d < 10) ∧
        tolower ((c :: cs).headD 0) ≠ chG ∧ (c :: cs).length ≤ 4 := by
    intro c hdigit hg cs hlen
    refine ⟨?_, hg, Nat.succ_le_succ hlen⟩
    intro d hd
    obtain rfl := Option.mem_some_iff.mp hd
    exact hdigit
  unfold sbStr suffixStr
  split
  · next c hc =>
    split at hc
    · cases hc
      split
      · exact hletter chU (by decide) (by rw [hu]; decide) [] (Nat.zero_le _)
      · exact hletter chL (by decide) (by rw [hl]; decide) [] (Nat.zero_le _)
    · cases hc
  · split
    · refine ⟨fun c hc => ?_, ?_, Nat.zero_le _⟩
      · cases hc
      · rw [List.headD_nil, tolower_zero]
        decide
    · refine hletter chSlash (by decide) (by rw [hslash]; decide) (bwStr bw) ?_
      cases bw <;> decide

theorem bandStr_6g {chspec : Nat} (h : bandOf chspec = .b6G) : bandStr chspec = [0x36, chG] := by
  unfold bandStr
  rw [h]
  simp

/-- Every valid word is formatted within the buffer, and read back. -/
theorem word_back {channel sb : Nat} (hch : channel < 0x100)
    (hchan : wfValidChan channel band bw = true) (hsb : sb < sidebands bw) :
    ∃ text, formatted (word channel sb bw band) = some text ∧ text.length < CHANSPEC_STR_LEN ∧
      wfChspecAton text = word channel sb bw band := by
  have hsb8 : sb < 8 := Nat.lt_of_lt_of_le hsb (by cases bw <;> decide)
  have hvalid := (valid_word_iff hch hsb).mpr hchan
  obtain ⟨-, -, -, hband⟩ := fields_word bw band hch hsb8
  obtain ⟨hparts, hfront⟩ := parts_back channel hch hchan sb hsb
  refine ⟨_, formatted_word hch hsb8 hvalid, ?_⟩
  have hlt := primary20_lt (word channel sb bw band)
  generalize hn : wfChspecPrimary20Chan (word channel sb bw band) = n at hparts hfront hlt ⊢
  obtain ⟨hdigit, hg, hlen⟩ := @suffixStr_head bw band sb
  obtain ⟨hplain, hsix⟩ := wfChspecAton_decimal hlt hdigit hg
  have hdone : atonSuffix band n (suffixStr bw (sbStr bw band sb)) = word channel sb bw band := by
    rw [atonSuffix_str, doneRead_nil (by rw [hparts]; exact not_malformed hvalid), hparts]
  have hthree := (decimal_digits n hlt).2.2.1
  unfold CHANSPEC_STR_LEN
  rcases hfront with hb | ⟨hb, hnil⟩
  · rw [bandStr_6g (hband.trans hb)]
    constructor
    · simp only [List.length_append, List.length_cons, List.length_nil]
      omega
    · rw [hsix, ← hb, hdone]
  · rw [hnil, List.nil_append]
    constructor
    · rw [List.length_append]
      omega
    · rw [hplain, ← hb, hdone]

theorem ntoaExact {n : Nat} (hn : n < 0x10000) : NtoaExact n := by
  intro h
  obtain ⟨channel, sb, bw, band, hch, hchan, hsb, rfl⟩ := word_of_valid hn h
  obtain ⟨text, htext, hlen, hback⟩ := word_back hch hchan hsb
  refine ⟨text, htext, hlen, ?_, hback⟩
  unfold wfChspecNtoa
  rw [htext]
  exact congrArg some (List.take_of_length_le (Nat.le_sub_one_of_lt hlen))

end

end Bcmdhd.Channels
