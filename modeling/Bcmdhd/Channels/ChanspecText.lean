import Bcmdhd.Channels.ChanspecStr

/-!
# What a text means as a chanspec (`wf_chspec_aton`)

The form is a channel, with a band in front and a bandwidth or a sideband behind.  `bcm_strtoul`
skips blanks and takes a sign, letters may be capitals, and a band may stand in front of a sideband
too.

    aton s ≠ 0  →  s is of this form, and the chanspec is valid; it is the one that is
                   written if no number is cut off                            (chspec_text_means)

A number that is not one comes out as 0 or as all ones, and these are no channel, no band and no
bandwidth.
-/

namespace Bcmdhd.Channels

open StrToUll (bcmStrtoull uint64Size isspace digit numeral)

/-! ## What is written -/

/-- A string, without its terminating zero. -/
structure CString where
  chars : List UInt8
  nonzero : ∀ c ∈ chars, c ≠ 0

inductive Sign
  | none | plus | minus
  deriving DecidableEq

def Sign.text : Sign → List UInt8
  | .none => []
  | .plus => [43]
  | .minus => [45]

/-- A decimal number of any length. -/
structure Numeral where
  blanks : List UInt8
  sign : Sign
  digits : List UInt8
  isspace_blanks : ∀ c ∈ blanks, isspace c = true
  digit_digits : ∀ c ∈ digits, digit c < 10
  digits_ne : digits ≠ []

namespace Numeral

variable (n : Numeral)

def text : List UInt8 := n.blanks ++ n.sign.text ++ n.digits

def value : Nat := numeral 10 n.digits

/-- Nothing is cut off. -/
def Fits : Prop := n.sign ≠ .minus ∧ n.value < 0x100000000

/-- The digits only. -/
def Bare : Prop := n.blanks = [] ∧ n.sign = .none

end Numeral

def Band.num : Band → Nat
  | .b2G => 2
  | .b6G => 6
  | .b4G => 4
  | .b5G => 5

/-- Behind the channel: nothing, a sideband, or a bandwidth and perhaps a sideband. -/
inductive Suffix
  | none
  | sideband (ul : UInt8)
  | bandwidth (bw : Numeral) (ul : Option UInt8)

namespace Suffix

def text : Suffix → List UInt8
  | .none => []
  | .sideband ul => [ul]
  | .bandwidth bw ul => chSlash :: bw.text ++ ul.toList

def sbUl : Suffix → Option UInt8
  | .none => Option.none
  | .sideband ul => some ul
  | .bandwidth _ ul => ul

/-- The letters are `u` and `l`, or capitals. -/
def Ok (s : Suffix) : Prop := ∀ c ∈ s.sbUl, tolower c = chU ∨ tolower c = chL

def Fits : Suffix → Prop
  | .none | .sideband _ => True
  | .bandwidth bw _ => bw.Fits

/-- 20 MHz where nothing else is written, and 40 MHz with a sideband. -/
def bwIs (bw : Bw) : Suffix → Prop
  | .none => bw = .bw20
  | .sideband _ => bw = .bw40
  | .bandwidth n _ => n.value = bw.mhz

def sbIs (sb : Nat) (s : Suffix) : Prop := ∀ c ∈ s.sbUl, sb = if tolower c = chU then 1 else 0

end Suffix

/-- `[<band>g]<channel><suffix>` and trailing blanks. -/
structure Written where
  band : Option (Numeral × UInt8)
  channel : Numeral
  suffix : Suffix
  blanks : Nat

namespace Written

variable (w : Written)

def bandText : Option (Numeral × UInt8) → List UInt8
  | none => []
  | some (n, g) => n.text ++ [g]

def text : List UInt8 :=
  bandText w.band ++ w.channel.text ++ w.suffix.text ++ List.replicate w.blanks chBlank

def Ok : Prop := (∀ b ∈ w.band, tolower b.2 = chG) ∧ w.suffix.Ok

/-- No number is cut off, and the channel has eight bits. -/
def Fits : Prop :=
  (∀ b ∈ w.band, b.1.Fits) ∧ w.channel.Fits ∧ w.channel.value ≤ 0xFF ∧ w.suffix.Fits

/-- The band that is written, else the default one. -/
def bandIs (band : Band) : Prop :=
  match w.band with
  | some b => b.1.value = band.num
  | none => band = defaultBand w.channel.value

/-- The chanspec has the band, the bandwidth, the sideband and the primary channel. -/
def Meant (chspec : Nat) : Prop :=
  w.bandIs (bandOf chspec) ∧ (∃ bw, bwOf chspec = some bw ∧ w.suffix.bwIs bw) ∧
    w.suffix.sbIs (CHSPEC_CTL_SB chspec) ∧ wfChspecPrimary20Chan chspec = w.channel.value

/-- The form with small letters and bare numbers, and no band in front of a sideband alone. -/
def Documented : Prop :=
  (∀ b ∈ w.band, b.1.Bare ∧ b.2 = chG) ∧ w.channel.Bare ∧
    match w.suffix with
    | .none => True
    | .sideband ul => w.band = none ∧ (ul = chU ∨ ul = chL)
    | .bandwidth bw ul => bw.Bare ∧ ∀ c ∈ ul, c = chU ∨ c = chL

end Written

/-- A string that is accepted is of the form, and means what is written. -/
def AtonMeans (s : CString) : Prop :=
  wfChspecAton s.chars ≠ 0 →
    ∃ w : Written, s.chars = w.text ∧ w.Ok ∧ wfChspecValid (wfChspecAton s.chars) = true ∧
      (w.Fits → w.Meant (wfChspecAton s.chars))

/-- Of the documented form, with no exception of any number. -/
def AtonExact (s : CString) : Prop :=
  wfChspecAton s.chars ≠ 0 →
    ∃ w : Written, s.chars = w.text ∧ w.Documented ∧ wfChspecValid (wfChspecAton s.chars) = true ∧
      w.Meant (wfChspecAton s.chars)

/-! ## Numbers -/

theorem sign_text (cp : List UInt8) :
    ∃ sg : Sign, cp = sg.text ++ (StrToUll.sign cp).2 ∧
      ((StrToUll.sign cp).1 = true ↔ sg = .minus) := by
  cases cp with
  | nil => exact ⟨.none, rfl, by decide⟩
  | cons c cp =>
    unfold StrToUll.sign
    rw [List.headD_cons]
    by_cases hplus : c = 43
    · rw [if_pos hplus]
      exact ⟨.plus, by rw [hplus]; rfl, by simp⟩
    · rw [if_neg hplus]
      by_cases hminus : c = 45
      · rw [if_pos hminus]
        exact ⟨.minus, by rw [hminus]; rfl, by simp⟩
      · rw [if_neg hminus]
        exact ⟨.none, rfl, by simp⟩

/-- What is behind a number is the end of the string. -/
theorem readUint_suffix {p rest : List UInt8} {num : Nat} (h : readUint p = some (num, rest)) :
    rest <:+ p := by
  unfold readUint at h
  dsimp only at h
  split at h
  · cases h
  · cases h
    obtain ⟨⟨minus, text⟩, hsign⟩ : ∃ x, StrToUll.sign (p.dropWhile isspace) = x := ⟨_, rfl⟩
    obtain ⟨sg, htext, -⟩ := sign_text (p.dropWhile isspace)
    have hread := bcmStrtoull_ten hsign
    rw [hsign] at htext
    have hp : text <:+ p :=
      (htext ▸ List.suffix_append sg.text text).trans (List.dropWhile_suffix _)
    dsimp only at hread
    split at hread
    · exact hread.2.trans hp
    · rw [hread]
      exact (List.dropWhile_suffix _).trans hp

/-- A number that was read is a numeral, or comes out as nothing or as all ones. -/
theorem readUint_cases {p rest : List UInt8} {num : Nat} (h : readUint p = some (num, rest)) :
    num < 0x100000000 ∧ ((∃ n : Numeral, p = n.text ++ rest ∧ (n.Fits → num = n.value)) ∨
      num = 0 ∨ num = 0xFFFFFFFF) := by
  unfold readUint at h
  dsimp only at h
  split at h
  · cases h
  · cases h
    obtain ⟨⟨minus, text⟩, hsign⟩ : ∃ x, StrToUll.sign (p.dropWhile isspace) = x := ⟨_, rfl⟩
    obtain ⟨sg, htext, hminus⟩ := sign_text (p.dropWhile isspace)
    have hread := bcmStrtoull_ten hsign
    rw [hsign] at htext hminus
    refine ⟨Nat.mod_lt _ (by decide), ?_⟩
    dsimp only at hread
    split at hread
    · right
      right
      rw [hread.1]
      rfl
    · rw [hread]
      by_cases hnil : text.takeWhile (fun c => digit c < 10) = []
      · right
        left
        rw [hnil]
        cases minus <;> rfl
      · left
        refine ⟨⟨p.takeWhile isspace, sg, text.takeWhile fun c => digit c < 10, ?_, ?_, hnil⟩,
          ?_, ?_⟩
        · intro c hc
          exact List.mem_takeWhile_imp hc
        · intro c hc
          have hten := List.mem_takeWhile_imp hc
          rwa [decide_eq_true_eq] at hten
        · show p = p.takeWhile isspace ++ sg.text ++ text.takeWhile _ ++ text.dropWhile _
          rw [List.append_assoc, List.takeWhile_append_dropWhile, List.append_assoc, ← htext,
            List.takeWhile_append_dropWhile]
        · rintro ⟨hne, hlt⟩
          have hpos : minus = false := by
            cases minus with
            | false => rfl
            | true => exact absurd (hminus.mp rfl) hne
          have hvalue : numeral 10 (text.takeWhile fun c => digit c < 10) < 0x100000000 := hlt
          rw [hpos]
          show uint (numeral 10 (text.takeWhile fun c => digit c < 10) % uint64Size) =
            numeral 10 (text.takeWhile fun c => digit c < 10)
          unfold uint uint64Size
          omega

/-! ## The parts put together -/

section
variable {band : Band} {bw : Bw} {priCh : Nat} {upper : Bool} {sbUl : Option UInt8}

/-- The chanspec has the band, the bandwidth and the primary channel. -/
def Holds (band : Band) (bw : Bw) (priCh chspec : Nat) : Prop :=
  bandOf chspec = band ∧ bwOf chspec = some bw ∧ wfChspecPrimary20Chan chspec = priCh

theorem create20_holds (h : wfCreate20MHzChspec priCh band ≠ INVCHANSPEC) :
    priCh ≠ 0 ∧ priCh < 0x100 ∧ wfChspecValid (wfCreate20MHzChspec priCh band) = true ∧
      Holds band .bw20 priCh (wfCreate20MHzChspec priCh band) := by
  have hlt : priCh < 0x100 := by
    by_contra hbig
    exact h (create20_of_big hbig)
  rw [create20_eq hlt] at h ⊢
  obtain ⟨hvalid, hband, hbw, hpri, hch⟩ := sound_of_lt hlt h
  refine ⟨?_, hlt, hvalid, hband, hbw, hpri⟩
  obtain ⟨bw, hbw', hchan⟩ := valid_fields hvalid
  have hpos := (valid_lt hchan).2.1
  omega

/-- The centre is two channels above the lower sideband, and two below the upper one. -/
theorem create40_holds (hp : priCh < 0x100000000)
    (h : wfCreate40MHzChspecPrimarySb priCh upper band ≠ INVCHANSPEC) :
    priCh ≠ 0 ∧ priCh < 0x100 ∧
      wfChspecValid (wfCreate40MHzChspecPrimarySb priCh upper band) = true ∧
      Holds band .bw40 priCh (wfCreate40MHzChspecPrimarySb priCh upper band) ∧
      CHSPEC_CTL_SB (wfCreate40MHzChspecPrimarySb priCh upper band) = if upper then 1 else 0 := by
  unfold wfCreate40MHzChspecPrimarySb wfCreate40MHzChspec at h ⊢
  dsimp only at h ⊢
  generalize hcenter : (if upper = true then uint (0x100000000 + priCh - CH_10MHZ_APART)
    else uint (priCh + CH_10MHZ_APART)) = center at h ⊢
  cases hsb : channelToSb center priCh .bw40 with
  | none => exact absurd (createCentered_of_none hsb) h
  | some sb =>
    rw [createCentered_of_some hsb] at h ⊢
    split at h
    · next hvalid =>
      rw [if_pos hvalid]
      have hchan : wfValidChan center band .bw40 = true := hvalid
      obtain ⟨hinv, hedge, htop⟩ := valid_lt hchan
      have hlt : center < 0x100 := Nat.lt_trans hinv (by decide)
      have hsb2 : sb < 2 := channelToSb_lt hsb
      obtain ⟨-, hctl, hbw, hband⟩ := fields_word .bw40 band hlt (by omega : sb < 8)
      have hpri := ((channelToSb_eq_some hlt (Nat.le_of_lt hedge)).mp hsb).1
      have hpri20 := @primary20_word center .bw40 band sb hlt hsb2 hchan
      have hto : centerChanToEdge .bw40 = 2 := rfl
      rw [hto] at hedge htop hpri hpri20
      have hupper : sb = if upper then 1 else 0 := by
        unfold uint CH_10MHZ_APART at hcenter
        cases upper with
        | true =>
          rw [if_pos rfl] at hcenter ⊢
          omega
        | false =>
          rw [if_neg Bool.false_ne_true] at hcenter ⊢
          omega
      refine ⟨by omega, by omega, (valid_word_iff hlt hsb2).mpr hchan, ⟨hband, hbw, ?_⟩, ?_⟩
      · rw [hpri20, hpri]
      · rw [hctl, hupper]
    · exact absurd rfl h

/-- Nothing and all ones are no channels. -/
theorem fromPrimary_none (bw : Bw) (band : Band) :
    wfCreateChspecFromPrimary 0 bw band = INVCHANSPEC ∧
      wfCreateChspecFromPrimary 0xFFFFFFFF bw band = INVCHANSPEC := by
  cases bw <;> cases band <;> decide +kernel

theorem fromPrimary_holds (hp : priCh < 0x100000000)
    (h : wfCreateChspecFromPrimary priCh bw band ≠ INVCHANSPEC) :
    priCh ≠ 0 ∧ priCh ≠ 0xFFFFFFFF ∧
      wfChspecValid (wfCreateChspecFromPrimary priCh bw band) = true ∧
      (priCh < 0x100 → Holds band bw priCh (wfCreateChspecFromPrimary priCh bw band)) := by
  refine ⟨?_, ?_, ?_⟩
  · rintro rfl
    exact h (fromPrimary_none bw band).1
  · rintro rfl
    exact h (fromPrimary_none bw band).2
  · obtain ⟨center, hcenter, heq⟩ := fromPrimary_spec hp h
    rw [heq] at h ⊢
    have hasm := create_ne_inv_iff.mp h
    obtain ⟨sb, hsb, hvalid⟩ := hasm
    refine ⟨by rw [create_eq_word hsb hvalid]; exact hvalid, ?_⟩
    intro hlt
    obtain ⟨-, hband, hbw, hpri, -⟩ := sound_of_lt (center_lt hlt hcenter ⟨sb, hsb, hvalid⟩) h
    exact ⟨hband, hbw, hpri⟩

/-- A sideband makes it 40 MHz. -/
def partsBw (bw : Bw) (sbUl : Option UInt8) : Bw := if sbUl.isSome then .bw40 else bw

theorem fromParts_holds (hp : priCh < 0x100000000)
    (h : fromParts band priCh bw sbUl ≠ INVCHANSPEC) :
    priCh ≠ 0 ∧ priCh ≠ 0xFFFFFFFF ∧ wfChspecValid (fromParts band priCh bw sbUl) = true ∧
      (priCh < 0x100 → Holds band (partsBw bw sbUl) priCh (fromParts band priCh bw sbUl) ∧
        ∀ c ∈ sbUl, CHSPEC_CTL_SB (fromParts band priCh bw sbUl) = if c = chU then 1 else 0) := by
  cases sbUl with
  | some c =>
    obtain ⟨hne, hlt, hvalid, hholds, hsb⟩ := create40_holds hp h
    refine ⟨hne, by omega, hvalid, fun _ => ⟨hholds, ?_⟩⟩
    intro d hd
    obtain rfl := Option.mem_some_iff.mp hd
    refine hsb.trans ?_
    simp only [decide_eq_true_eq]
  | none =>
    unfold fromParts at h ⊢
    dsimp only at h ⊢
    by_cases hbw : bw = .bw20
    · rw [if_pos hbw] at h ⊢
      obtain ⟨hne, hlt, hvalid, hholds⟩ := create20_holds h
      refine ⟨hne, by omega, hvalid, fun _ => ⟨?_, fun c hc => by cases hc⟩⟩
      rw [hbw]
      exact hholds
    · rw [if_neg hbw] at h ⊢
      obtain ⟨hne, hmax, hvalid, hholds⟩ := fromPrimary_holds hp h
      exact ⟨hne, hmax, hvalid, fun hlt => ⟨hholds hlt, fun c hc => by cases hc⟩⟩

end

/-! ## The string -/

theorem ctype_lower : ∀ e ∈ StrToUll.ctype.toList.zipIdx,
    ((if decide (e.1 &&& StrToUll.U ≠ 0) then UInt8.ofNat e.2 + 32 else UInt8.ofNat e.2) = chSlash →
      UInt8.ofNat e.2 = chSlash) ∧
    ((if decide (e.1 &&& StrToUll.U ≠ 0) then UInt8.ofNat e.2 + 32 else UInt8.ofNat e.2) = 0 →
      UInt8.ofNat e.2 = 0) := by
  decide +kernel

/-- A slash and the end of the string are no letters. -/
theorem tolower_inj {c : UInt8} :
    (tolower c = chSlash → c = chSlash) ∧ (tolower c = 0 → c = 0) := by
  have h := ctype_lower _ (StrToUll.ismask_mem c)
  rwa [UInt8.ofNat_toNat] at h

/-- A character was read. -/
theorem cons_of_tolower {a : List UInt8} {c : UInt8} (hc : c ≠ 0) (h : tolower (a.headD 0) = c) :
    a = a.headD 0 :: a.drop 1 := by
  cases a with
  | nil =>
    exact absurd (h.symm.trans tolower_zero) hc
  | cons x a => rfl

section
variable {band : Band} {bw : Bw} {priCh : Nat} {sbUl : Option UInt8} {a : List UInt8}

/-- Only blanks are left. -/
theorem doneRead_spec (h0 : ∀ c ∈ a, c ≠ 0) (h : doneRead band priCh bw sbUl a ≠ 0) :
    (∃ n, a = List.replicate n chBlank) ∧
      doneRead band priCh bw sbUl a = fromParts band priCh bw sbUl ∧
      fromParts band priCh bw sbUl ≠ INVCHANSPEC := by
  unfold doneRead at h ⊢
  dsimp only at h ⊢
  split at h
  · exact absurd rfl h
  · next hend =>
    rw [if_neg hend]
    split at h
    · exact absurd rfl h
    · next hmal =>
      rw [if_neg hmal]
      refine ⟨⟨a.length, ?_⟩, rfl, ?_⟩
      · have hnil : a.dropWhile (· = chBlank) = [] := by
          cases hdrop : a.dropWhile (· = chBlank) with
          | nil => rfl
          | cons c rest =>
            rw [hdrop] at hend
            have hmem : c ∈ a := (List.dropWhile_suffix _).subset (hdrop ▸ List.mem_cons_self)
            exact absurd (h0 c hmem) hend
        rw [List.dropWhile_eq_nil_iff] at hnil
        exact List.eq_replicate_iff.mpr ⟨rfl, fun c hc => of_decide_eq_true (hnil c hc)⟩
      · intro heq
        rw [heq] at hmal
        exact hmal (by decide)

/-- What is behind the channel is a suffix, and the chanspec has what it says. -/
def Reads (band : Band) (priCh : Nat) (a : List UInt8) (chspec : Nat) : Prop :=
  ∃ suffix : Suffix, ∃ n, a = suffix.text ++ List.replicate n chBlank ∧ suffix.Ok ∧
    priCh ≠ 0 ∧ priCh ≠ 0xFFFFFFFF ∧ wfChspecValid chspec = true ∧
    (suffix.Fits → priCh < 0x100 → bandOf chspec = band ∧
      (∃ bw, bwOf chspec = some bw ∧ suffix.bwIs bw) ∧ suffix.sbIs (CHSPEC_CTL_SB chspec) ∧
        wfChspecPrimary20Chan chspec = priCh)

theorem reads_of_done {suffix : Suffix} (hp : priCh < 0x100000000) (h0 : ∀ c ∈ a, c ≠ 0)
    (h : doneRead band priCh bw sbUl a ≠ 0) (hok : suffix.Ok)
    (hbw : suffix.Fits → suffix.bwIs (partsBw bw sbUl)) (hsb : sbUl = suffix.sbUl.map tolower) :
    Reads band priCh (suffix.text ++ a) (doneRead band priCh bw sbUl a) := by
  obtain ⟨⟨n, hblanks⟩, hdone, hinv⟩ := doneRead_spec h0 h
  obtain ⟨hne, hmax, hvalid, hholds⟩ := fromParts_holds hp hinv
  rw [hdone]
  refine ⟨suffix, n, by rw [hblanks], hok, hne, hmax, hvalid, ?_⟩
  intro hfits hlt
  obtain ⟨⟨hband, hbwOf, hpri⟩, hctl⟩ := hholds hlt
  refine ⟨hband, ⟨_, hbwOf, hbw hfits⟩, ?_, hpri⟩
  intro c hc
  exact hctl (tolower c) (by rw [hsb]; exact Option.mem_map_of_mem tolower hc)

theorem bwOfNum_eq {num : Nat} (h : bwOfNum num = some bw) : num = bw.mhz := by
  unfold bwOfNum at h
  split at h <;> cases h <;> rfl

theorem bandOfNum_eq {num : Nat} (h : bandOfNum num = some band) : num = band.num := by
  unfold bandOfNum at h
  split at h <;> cases h <;> rfl

theorem mhz_range (bw : Bw) : 0 < bw.mhz ∧ bw.mhz < 0xFFFFFFFF := by
  cases bw <;> decide

theorem num_range (band : Band) : 0 < band.num ∧ band.num < 0xFFFFFFFF := by
  cases band <;> decide

theorem atonBw_reads (hp : priCh < 0x100000000) (h0 : ∀ c ∈ a, c ≠ 0)
    (h : atonBw band priCh a ≠ 0) : Reads band priCh (chSlash :: a) (atonBw band priCh a) := by
  unfold atonBw at h ⊢
  cases hread : readUint a with
  | none =>
    rw [hread] at h
    exact absurd rfl h
  | some r =>
    obtain ⟨num, rest⟩ := r
    rw [hread] at h
    dsimp only at h ⊢
    cases hnum : bwOfNum num with
    | none =>
      rw [hnum] at h
      exact absurd rfl h
    | some bw =>
      rw [hnum] at h
      dsimp only at h ⊢
      have hmhz := bwOfNum_eq hnum
      have hrange := mhz_range bw
      obtain ⟨-, hcases⟩ := readUint_cases hread
      obtain ⟨n, htext, hvalue⟩ : ∃ n : Numeral, a = n.text ++ rest ∧ (n.Fits → num = n.value) := by
        rcases hcases with hn | hzero | hones
        · exact hn
        · omega
        · omega
      have hrest : ∀ c ∈ rest, c ≠ 0 := by
        intro c hc
        exact h0 c ((readUint_suffix hread).subset hc)
      split at h
      · next hul =>
        rw [if_pos hul]
        obtain ⟨-, hforty, hletter⟩ := hul
        have hne0 : tolower (rest.headD 0) ≠ 0 := by
          rcases hletter with hu | hl
          · rw [hu]
            decide
          · rw [hl]
            decide
        have hcons := cons_of_tolower hne0 rfl
        have hsplit : chSlash :: a =
            (Suffix.bandwidth n (some (rest.headD 0))).text ++ rest.drop 1 := by
          show chSlash :: a = (chSlash :: n.text ++ [rest.headD 0]) ++ rest.drop 1
          rw [List.append_assoc, List.singleton_append, ← hcons, htext, List.cons_append]
        rw [hsplit]
        refine reads_of_done hp ?_ h ?_ ?_ rfl
        · intro c hc
          exact hrest c (List.mem_of_mem_drop hc)
        · intro c hc
          obtain rfl := Option.mem_some_iff.mp hc
          exact hletter
        · intro hfits
          show n.value = 40
          rw [← hvalue hfits, hmhz, hforty]
          rfl
      · next hul =>
        rw [if_neg hul]
        split at h
        · exact absurd rfl h
        · next hplus =>
          rw [if_neg hplus]
          have hsplit : chSlash :: a = (Suffix.bandwidth n none).text ++ rest := by
            show chSlash :: a = (chSlash :: n.text ++ []) ++ rest
            rw [List.append_nil, htext, List.cons_append]
          rw [hsplit]
          refine reads_of_done hp hrest h ?_ ?_ rfl
          · intro c hc
            cases hc
          · intro hfits
            show n.value = bw.mhz
            rw [← hvalue hfits, hmhz]

theorem atonSuffix_reads (hp : priCh < 0x100000000) (h0 : ∀ c ∈ a, c ≠ 0)
    (h : atonSuffix band priCh a ≠ 0) : Reads band priCh a (atonSuffix band priCh a) := by
  have hdrop : ∀ c ∈ a.drop 1, c ≠ 0 := by
    intro c hc
    exact h0 c (List.mem_of_mem_drop hc)
  unfold atonSuffix at h ⊢
  dsimp only at h ⊢
  split at h
  · next hzero =>
    rw [if_pos hzero]
    exact @reads_of_done _ _ _ _ _ .none hp h0 h (fun c hc => by cases hc) (fun _ => rfl) rfl
  · next hzero =>
    rw [if_neg hzero]
    have hcons := cons_of_tolower hzero rfl
    split at h
    · next hletter =>
      rw [if_pos hletter]
      have hsplit : a = (Suffix.sideband (a.headD 0)).text ++ a.drop 1 := hcons
      have hreads := @reads_of_done band .bw40 priCh _ _ (.sideband (a.headD 0)) hp hdrop h
        (fun c hc => by obtain rfl := Option.mem_some_iff.mp hc; exact hletter) (fun _ => rfl) rfl
      rwa [← hsplit] at hreads
    · next hletter =>
      rw [if_neg hletter]
      split at h
      · exact absurd rfl h
      · next hslash =>
        rw [if_neg hslash]
        have hreads := atonBw_reads hp hdrop h
        rwa [← tolower_inj.1 (Decidable.not_not.mp hslash), ← hcons] at hreads

end

/-- The channel is read, and what is behind it; `front` is the band that was written. -/
theorem written_of_reads {front : Option (Numeral × UInt8)} {band : Band} {p a : List UInt8}
    {num chspec : Nat} (hread : readUint p = some (num, a)) (h : Reads band num a chspec)
    (hband : (∀ b ∈ front, b.1.Fits) → match front with
      | some b => b.1.value = band.num
      | none => band = defaultBand num) (hok : ∀ b ∈ front, tolower b.2 = chG) :
    ∃ w : Written, Written.bandText front ++ p = w.text ∧ w.Ok ∧ wfChspecValid chspec = true ∧
      (w.Fits → w.Meant chspec) := by
  obtain ⟨suffix, n, htext, hsuffix, hne, hmax, hvalid, hmeant⟩ := h
  obtain ⟨-, ⟨channel, hp, hvalue⟩ | hzero | hones⟩ := readUint_cases hread
  · refine ⟨⟨front, channel, suffix, n⟩, ?_, ⟨hok, hsuffix⟩, hvalid, ?_⟩
    · show Written.bandText front ++ p =
        Written.bandText front ++ channel.text ++ suffix.text ++ List.replicate n chBlank
      rw [hp, htext, List.append_assoc, List.append_assoc]
    · rintro ⟨hfront, hchannel, hlt, hfits⟩
      have hnum : num = channel.value := hvalue hchannel
      have heq : channel.value ≤ 0xFF := hlt
      obtain ⟨hbandOf, hbw, hsb, hpri⟩ := hmeant hfits (by omega)
      refine ⟨?_, hbw, hsb, hpri.trans hnum⟩
      have hmatch := hband hfront
      unfold Written.bandIs
      rw [hbandOf]
      cases front with
      | some b => exact hmatch
      | none =>
        show band = defaultBand channel.value
        rw [← hnum]
        exact hmatch
  · exact absurd hzero hne
  · exact absurd hones hmax

/-- A string that is accepted has the form and the meaning. -/
theorem atonMeans (s : CString) : AtonMeans s := by
  intro h
  unfold wfChspecAton at h ⊢
  cases hread : readUint s.chars with
  | none =>
    rw [hread] at h
    exact absurd rfl h
  | some r =>
    obtain ⟨num, a⟩ := r
    rw [hread] at h
    dsimp only at h ⊢
    obtain ⟨hp, hcases⟩ := readUint_cases hread
    split at h
    · next hg =>
      rw [if_pos hg]
      cases hnum : bandOfNum num with
      | none =>
        rw [hnum] at h
        exact absurd rfl h
      | some band =>
        rw [hnum] at h
        dsimp only at h ⊢
        have heq := bandOfNum_eq hnum
        have hrange := num_range band
        obtain ⟨n, htext, hvalue⟩ : ∃ n : Numeral, s.chars = n.text ++ a ∧
            (n.Fits → num = n.value) := by
          rcases hcases with hn | hzero | hones
          · exact hn
          · omega
          · omega
        have hcons := cons_of_tolower (by decide) hg
        cases hchannel : readUint (a.drop 1) with
        | none =>
          rw [hchannel] at h
          exact absurd rfl h
        | some r =>
          obtain ⟨priCh, rest⟩ := r
          rw [hchannel] at h
          dsimp only at h ⊢
          have hrest : ∀ c ∈ rest, c ≠ 0 := by
            intro c hc
            have hmem := List.mem_of_mem_drop ((readUint_suffix hchannel).subset hc)
            exact s.nonzero c ((readUint_suffix hread).subset hmem)
          have hreads := atonSuffix_reads (readUint_cases hchannel).1 hrest h
          obtain ⟨w, hw⟩ := @written_of_reads (some (n, a.headD 0)) band _ _ _ _ hchannel hreads
            (fun hfits => (hvalue (hfits _ rfl)).symm.trans heq)
            (fun b hb => by obtain rfl := Option.mem_some_iff.mp hb; exact hg)
          refine ⟨w, ?_⟩
          rw [← hw.1, htext]
          refine ⟨?_, hw.2⟩
          show n.text ++ a = n.text ++ [a.headD 0] ++ a.drop 1
          rw [List.append_assoc, List.singleton_append, ← hcons]
    · next hg =>
      rw [if_neg hg]
      have ha : ∀ c ∈ a, c ≠ 0 := by
        intro c hc
        exact s.nonzero c ((readUint_suffix hread).subset hc)
      have hreads := atonSuffix_reads hp ha h
      exact @written_of_reads none (defaultBand num) _ _ _ _ hread hreads (fun _ => rfl)
        (fun b hb => by cases hb)

/-- Text and chanspecs: what is accepted means what is written, and what is formatted is read
back. -/
theorem chspec_text_means :
    (∀ s : CString, AtonMeans s) ∧ ∀ chspec : BitVec 16, NtoaExact chspec.toNat :=
  ⟨atonMeans, fun chspec => ntoaExact chspec.isLt⟩

/-! ## Strings that are not of the documented form -/

section
variable {w : Written}

theorem Numeral.text_of_bare {n : Numeral} (h : n.Bare) : n.text = n.digits := by
  unfold Numeral.text
  rw [h.1, h.2]
  rfl

theorem Numeral.digit_of_bare {n : Numeral} (h : n.Bare) : ∀ c ∈ n.text, digit c < 10 := by
  rw [Numeral.text_of_bare h]
  exact n.digit_digits

theorem front_chars (h : w.Documented) : ∀ c ∈ Written.bandText w.band ++ w.channel.text,
    digit c < 10 ∨ c = chG ∧ w.band ≠ none := by
  obtain ⟨hband, hchannel, -⟩ := h
  intro c hc
  rcases List.mem_append.mp hc with hc | hc
  · cases hb : w.band with
    | none =>
      rw [hb] at hc
      cases hc
    | some b =>
      rw [hb] at hc
      obtain ⟨hbare, hg⟩ := hband b hb
      rcases List.mem_append.mp hc with hc | hc
      · exact Or.inl (Numeral.digit_of_bare hbare c hc)
      · exact Or.inr ⟨(List.mem_singleton.mp hc).trans hg, Option.some_ne_none b⟩
  · exact Or.inl (Numeral.digit_of_bare hchannel c hc)

theorem suffix_chars (h : w.Documented) : ∀ c ∈ w.suffix.text,
    digit c < 10 ∨ c = chU ∨ c = chL ∨ c = chSlash := by
  obtain ⟨-, -, hsuffix⟩ := h
  intro c hc
  cases hs : w.suffix with
  | none =>
    rw [hs] at hc
    cases hc
  | sideband ul =>
    rw [hs] at hc hsuffix
    have hul := hsuffix.2
    rw [← List.mem_singleton.mp hc] at hul
    exact Or.inr (hul.imp_right Or.inl)
  | bandwidth n ul =>
    rw [hs] at hc hsuffix
    rcases List.mem_append.mp hc with hc | hc
    · rcases List.mem_cons.mp hc with hslash | hc
      · exact Or.inr (Or.inr (Or.inr hslash))
      · exact Or.inl (Numeral.digit_of_bare hsuffix.1 c hc)
    · exact Or.inr ((hsuffix.2 c (Option.mem_toList.mp hc)).imp_right Or.inl)

/-- Where a character is. -/
theorem mem_text {c : UInt8} : c ∈ w.text ↔ c ∈ Written.bandText w.band ++ w.channel.text ∨
    c ∈ w.suffix.text ∨ c ∈ List.replicate w.blanks chBlank := by
  unfold Written.text
  rw [List.mem_append, List.mem_append, or_assoc]

/-- Between the digits are these characters only. -/
theorem documented_chars (h : w.Documented) : ∀ c ∈ w.text,
    digit c < 10 ∨ c ∈ [chG, chU, chL, chSlash, chBlank] := by
  intro c hc
  rcases mem_text.mp hc with hc | hc | hc
  · rcases front_chars h c hc with hdigit | ⟨rfl, -⟩
    · exact Or.inl hdigit
    · exact Or.inr (by decide)
  · rcases suffix_chars h c hc with hdigit | rfl | rfl | rfl
    · exact Or.inl hdigit
    · exact Or.inr (by decide)
    · exact Or.inr (by decide)
    · exact Or.inr (by decide)
  · rw [List.eq_of_mem_replicate hc]
    exact Or.inr (by decide)

/-- A sideband without a slash follows a channel without a band. -/
theorem no_band_of_sideband (h : w.Documented) (hl : chL ∈ w.text) (hslash : chSlash ∉ w.text) :
    chG ∉ w.text := by
  have hsuffix : chL ∈ w.suffix.text := by
    rcases mem_text.mp hl with hc | hc | hc
    · rcases front_chars h _ hc with hdigit | ⟨hg, -⟩
      · exact absurd hdigit (by decide)
      · exact absurd hg (by decide)
    · exact hc
    · exact absurd (List.eq_of_mem_replicate hc) (by decide)
  have hband : w.band = none := by
    obtain ⟨-, -, hform⟩ := h
    cases hs : w.suffix with
    | none =>
      rw [hs] at hsuffix
      cases hsuffix
    | sideband ul =>
      rw [hs] at hform
      exact hform.1
    | bandwidth n ul =>
      refine absurd (mem_text.mpr (Or.inr (Or.inl ?_))) hslash
      rw [hs]
      exact List.mem_cons_self
  intro hg
  rcases mem_text.mp hg with hc | hc | hc
  · rcases front_chars h _ hc with hdigit | ⟨-, hsome⟩
    · exact absurd hdigit (by decide)
    · exact hsome hband
  · rcases suffix_chars h _ hc with hdigit | heq | heq | heq
    · exact absurd hdigit (by decide)
    · exact absurd heq (by decide)
    · exact absurd heq (by decide)
    · exact absurd heq (by decide)
  · exact absurd (List.eq_of_mem_replicate hc) (by decide)

/-- Digits alone are the channel. -/
theorem value_of_digits (h : w.Documented) (hall : ∀ c ∈ w.text, digit c < 10) :
    w.channel.value = numeral 10 w.text := by
  have hband : Written.bandText w.band = [] := by
    cases hb : w.band with
    | none => rfl
    | some b =>
      have hg : chG ∈ w.text := by
        rw [mem_text, hb]
        refine Or.inl (List.mem_append_left _ (List.mem_append_right _ ?_))
        rw [(h.1 b hb).2]
        exact List.mem_singleton_self _
      exact absurd (hall _ hg) (by decide)
  have hsuffix : w.suffix.text = [] := by
    have hmem : ∀ c ∈ w.suffix.text, digit c < 10 :=
      fun c hc => hall c (mem_text.mpr (Or.inr (Or.inl hc)))
    obtain ⟨-, -, hform⟩ := h
    cases hs : w.suffix with
    | none => rfl
    | sideband ul =>
      rw [hs] at hmem hform
      have hul := hmem ul (List.mem_singleton_self _)
      rcases hform.2 with rfl | rfl
      · exact absurd hul (by decide)
      · exact absurd hul (by decide)
    | bandwidth n ul =>
      rw [hs] at hmem
      exact absurd (hmem chSlash List.mem_cons_self) (by decide)
  have hblanks : List.replicate w.blanks chBlank = [] := by
    cases hb : w.blanks with
    | zero => rfl
    | succ k =>
      have hmem : chBlank ∈ w.text := by
        rw [mem_text, hb]
        exact Or.inr (Or.inr List.mem_cons_self)
      exact absurd (hall _ hmem) (by decide)
  unfold Numeral.value Written.text
  rw [hband, hsuffix, hblanks, List.append_nil, List.append_nil, List.nil_append,
    Numeral.text_of_bare h.2.1]

end

/-- `5g36l`, `6G37`, `+36` and `4294967332`. -/
def bandAndSideband : CString := ⟨[0x35, 0x67, 0x33, 0x36, 0x6c], by simp⟩
def capitalBand : CString := ⟨[0x36, 0x47, 0x33, 0x37], by simp⟩
def signedChannel : CString := ⟨[0x2b, 0x33, 0x36], by simp⟩
def cutChannel : CString :=
  ⟨[0x34, 0x32, 0x39, 0x34, 0x39, 0x36, 0x37, 0x33, 0x33, 0x32], by simp⟩

/-- They are accepted; three are not of the documented form, and the last one is no channel. -/
theorem chspec_text_not_exact :
    ¬ AtonExact bandAndSideband ∧ ¬ AtonExact capitalBand ∧ ¬ AtonExact signedChannel ∧
      ¬ AtonExact cutChannel := by
  refine ⟨?_, ?_, ?_, ?_⟩
  · intro h
    obtain ⟨w, htext, hform, -⟩ := h (by decide +kernel)
    refine no_band_of_sideband hform ?_ ?_ ?_
    · rw [← htext]
      decide
    · rw [← htext]
      decide
    · rw [← htext]
      decide
  · intro h
    obtain ⟨w, htext, hform, -⟩ := h (by decide +kernel)
    have hc := documented_chars hform 0x47 (by rw [← htext]; decide)
    exact absurd hc (by decide)
  · intro h
    obtain ⟨w, htext, hform, -⟩ := h (by decide +kernel)
    have hc := documented_chars hform 0x2b (by rw [← htext]; decide)
    exact absurd hc (by decide)
  · intro h
    obtain ⟨w, htext, hform, -, -, -, -, hpri⟩ := h (by decide +kernel)
    have hdigits : cutChannel.chars.all (fun c => decide (digit c < 10)) = true := by decide +kernel
    have hvalue := value_of_digits hform fun c hc =>
      of_decide_eq_true (List.all_eq_true.mp hdigits c (by rwa [htext]))
    rw [← htext] at hvalue
    have hlt := primary20_lt (wfChspecAton cutChannel.chars)
    have hbig : numeral 10 cutChannel.chars = 4294967332 := by decide +kernel
    omega

end Bcmdhd.Channels
