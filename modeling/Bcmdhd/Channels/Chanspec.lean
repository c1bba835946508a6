import Mathlib.Data.List.Basic

/-!
# Chanspecs (`bcmwifi_channels.c`)

A chanspec is 16 bits: a channel, a sideband, a bandwidth and a band.  The channel is the centre of
the bandwidth, and the sideband says which of its 20 MHz channels is the primary one.  The build is
one without WL11BE and WFC_NON_CONT_CHAN: 20, 40, 80 and 160 MHz.

Fields are given without their shift; `word` puts them together.

    c < 256 → the fields of  word c sb bw band  are c, sb, bw, band            (fields_word)
    wfChspecValid  ↔  bandwidth, sideband and centre fit one another           (valid_word_iff)
-/

namespace Bcmdhd.Channels

/-! ## Fields -/

inductive Band
  | b2G | b6G | b4G | b5G
  deriving DecidableEq, Repr

/-- The enabled bandwidths. -/
inductive Bw
  | bw20 | bw40 | bw80 | bw160
  deriving DecidableEq, Repr

/-- `WL_CHANSPEC_BAND_2G` and so on, `>> WL_CHANSPEC_BAND_SHIFT` -/
def Band.code : Band → Nat
  | .b2G => 0
  | .b6G => 1
  | .b4G => 2
  | .b5G => 3

/-- `WL_CHANSPEC_BW_20` and so on, `>> WL_CHANSPEC_BW_SHIFT` -/
def Bw.code : Bw → Nat
  | .bw20 => 2
  | .bw40 => 3
  | .bw80 => 4
  | .bw160 => 5

def INVCHANNEL : Nat := 255
def INVCHANSPEC : Nat := 255

def CHSPEC_CHANNEL (chspec : Nat) : Nat := chspec % 0x100
def CHSPEC_CTL_SB (chspec : Nat) : Nat := chspec / 0x100 % 8
def CHSPEC_BW (chspec : Nat) : Nat := chspec / 0x800 % 8
def CHSPEC_BAND (chspec : Nat) : Nat := chspec / 0x4000 % 4

/-- `(chanspec_t)(channel | band | bw | (sb << WL_CHANSPEC_CTL_SB_SHIFT))`; the channel has 32
bits. -/
def word (channel sb : Nat) (bw : Bw) (band : Band) : Nat :=
  (0x100 * (0x40 * band.code + 8 * bw.code + sb) ||| channel) % 0x10000

/-! ## Channels of a band -/

def CH_MIN_2G_CHANNEL : Nat := 1
def CH_MAX_2G_CHANNEL : Nat := 14
def CH_MIN_2G_40M_CHANNEL : Nat := 3
def CH_MAX_2G_40M_CHANNEL : Nat := 11
def CH_MIN_6G_CHANNEL : Nat := 1
def CH_MIN_6G_40M_CHANNEL : Nat := 3
def CH_MAX_6G_40M_CHANNEL : Nat := 227
def CH_MIN_6G_80M_CHANNEL : Nat := 7
def CH_MAX_6G_80M_CHANNEL : Nat := 215
def CH_MIN_6G_160M_CHANNEL : Nat := 15
def CH_MAX_6G_160M_CHANNEL : Nat := 207
def MAXCHANNEL : Nat := 254
def CH_10MHZ_APART : Nat := 2

def wf_2g_40m_chans : List Nat := [3, 4, 5, 6, 7, 8, 9, 10, 11]
def wf_5g_40m_chans : List Nat :=
  [38, 46, 54, 62, 102, 110, 118, 126, 134, 142, 151, 159, 167, 175]
def wf_5g_80m_chans : List Nat := [42, 58, 106, 122, 138, 155, 171]
def wf_5g_160m_chans : List Nat := [50, 114, 163]

def LOWER_20_SB (channel : Nat) : Nat :=
  if CH_10MHZ_APART < channel then channel - CH_10MHZ_APART else 0

def UPPER_20_SB (channel : Nat) : Nat :=
  if channel < MAXCHANNEL - CH_10MHZ_APART then channel + CH_10MHZ_APART else 0

/-- From `lo` to `hi`, each `step` channels. -/
def inSteps (lo hi step ch : Nat) : Bool := lo ≤ ch ∧ ch ≤ hi ∧ (ch - lo) % step = 0

def wfValid20MHzChan (channel : Nat) : Band → Bool
  | .b2G => CH_MIN_2G_CHANNEL ≤ channel ∧ channel ≤ CH_MAX_2G_CHANNEL
  | .b5G =>
    wf_5g_40m_chans.any (fun c => channel = LOWER_20_SB c ∨ channel = UPPER_20_SB c) ∨
      -- channel 165, and legacy JP channels
      channel ∈ [165, 34, 38, 42, 46]
  | .b6G => inSteps CH_MIN_6G_CHANNEL 253 4 channel ∨ channel = 2
  | .b4G => false

def wfValid40MHzCenterChan (centerChannel : Nat) : Band → Bool
  | .b2G => CH_MIN_2G_40M_CHANNEL ≤ centerChannel ∧ centerChannel ≤ CH_MAX_2G_40M_CHANNEL
  | .b5G => centerChannel ∈ wf_5g_40m_chans
  | .b6G => inSteps CH_MIN_6G_40M_CHANNEL CH_MAX_6G_40M_CHANNEL 8 centerChannel
  | .b4G => false

def wfValid80MHzCenterChan (centerChannel : Nat) : Band → Bool
  | .b5G => centerChannel ∈ wf_5g_80m_chans
  | .b6G => inSteps CH_MIN_6G_80M_CHANNEL CH_MAX_6G_80M_CHANNEL 16 centerChannel
  | .b2G | .b4G => false

def wfValid160MHzCenterChan (centerChannel : Nat) : Band → Bool
  | .b5G => centerChannel ∈ wf_5g_160m_chans
  | .b6G => inSteps CH_MIN_6G_160M_CHANNEL CH_MAX_6G_160M_CHANNEL 32 centerChannel
  | .b2G | .b4G => false

def wfValidChan (channel : Nat) (band : Band) : Bw → Bool
  | .bw20 => wfValid20MHzChan channel band
  | .bw40 => wfValid40MHzCenterChan channel band
  | .bw80 => wfValid80MHzCenterChan channel band
  | .bw160 => wfValid160MHzCenterChan channel band

/-! ## Validity -/

def bandOf (chspec : Nat) : Band :=
  match CHSPEC_BAND chspec with
  | 0 => .b2G
  | 1 => .b6G
  | 2 => .b4G
  | _ => .b5G

/-- The bandwidth, if it is enabled. -/
def bwOf (chspec : Nat) : Option Bw :=
  match CHSPEC_BW chspec with
  | 2 => some .bw20
  | 3 => some .bw40
  | 4 => some .bw80
  | 5 => some .bw160
  | _ => none

/-- The bandwidth and the channel number in their band. -/
def bandMalformed (chspec : Nat) : Bool :=
  match bandOf chspec with
  | .b2G =>
    -- must be valid bandwidth for 2G
    !(bwOf chspec = some .bw20 ∨ bwOf chspec = some .bw40) ∨ CHSPEC_CHANNEL chspec = INVCHANNEL
  | .b5G | .b6G => bwOf chspec = none ∨ CHSPEC_CHANNEL chspec = INVCHANNEL
  | .b4G => true

/-- side band needs to be consistent with bandwidth -/
def sbMalformed (chspec : Nat) : Bool :=
  match bwOf chspec with
  | some .bw20 => CHSPEC_CTL_SB chspec ≠ 0
  | some .bw40 => 1 < CHSPEC_CTL_SB chspec
  | some .bw80 => 3 < CHSPEC_CTL_SB chspec
  | some .bw160 | none => false

def wfChspecMalformed (chspec : Nat) : Bool := bandMalformed chspec || sbMalformed chspec

def wfChspecValid (chspec : Nat) : Bool :=
  !wfChspecMalformed chspec &&
    match bwOf chspec with
    | some bw => wfValidChan (CHSPEC_CHANNEL chspec) (bandOf chspec) bw
    | none => false

/-! ## Sidebands -/

/-- `uint` -/
def uint (n : Nat) : Nat := n % 0x100000000

def centerChanToEdge : Bw → Nat
  | .bw20 => 0
  | .bw40 => 2
  | .bw80 => 6
  | .bw160 => 14

def channelLowEdge (centerCh : Nat) (bw : Bw) : Nat :=
  uint (0x100000000 + centerCh - centerChanToEdge bw)

/-- How many 20 MHz channels there are. -/
def sidebands : Bw → Nat
  | .bw20 => 1
  | .bw40 => 2
  | .bw80 => 4
  | .bw160 => 8

/-- `none` is -1. -/
def channelToSb (centerCh primaryCh : Nat) (bw : Bw) : Option Nat :=
  let lowest := channelLowEdge centerCh bw
  if primaryCh < lowest ∨ (primaryCh - lowest) % 4 ≠ 0 then none
  else if sidebands bw ≤ (primaryCh - lowest) / 4 then none
  else some ((primaryCh - lowest) / 4)

/-- `wf_chspec_primary20_chan`, a `uint8` -/
def wfChspecPrimary20Chan (chspec : Nat) : Nat :=
  match bwOf chspec with
  | some .bw20 => CHSPEC_CHANNEL chspec
  | some bw =>
    uint (channelLowEdge (CHSPEC_CHANNEL chspec) bw + CHSPEC_CTL_SB chspec * 4) % 0x100
  -- other bandwidths are at no distance from their edge
  | none => (CHSPEC_CHANNEL chspec + CHSPEC_CTL_SB chspec * 4) % 0x100

/-! ## The fields of a word -/

section
variable {c sb : Nat} {bw : Bw} {band : Band}

theorem word_eq (hc : c < 0x100) (hsb : sb < 8) :
    word c sb bw band = 0x4000 * band.code + 0x800 * bw.code + 0x100 * sb + c := by
  have hband : band.code < 4 := by cases band <;> decide
  have hbw : bw.code < 8 := by cases bw <;> decide
  unfold word
  rw [← Nat.two_pow_add_eq_or_of_lt (i := 8) hc]
  omega

theorem bandOf_code {n : Nat} (h : CHSPEC_BAND n = band.code) : bandOf n = band := by
  unfold bandOf
  rw [h]
  cases band <;> rfl

theorem bwOf_code {n : Nat} (h : CHSPEC_BW n = bw.code) : bwOf n = some bw := by
  unfold bwOf
  rw [h]
  cases bw <;> rfl

theorem fields_word (bw : Bw) (band : Band) (hc : c < 0x100) (hsb : sb < 8) :
    CHSPEC_CHANNEL (word c sb bw band) = c ∧ CHSPEC_CTL_SB (word c sb bw band) = sb ∧
      bwOf (word c sb bw band) = some bw ∧ bandOf (word c sb bw band) = band := by
  have hband : band.code < 4 := by cases band <;> decide
  have hbw : bw.code < 8 := by cases bw <;> decide
  have heq : word c sb bw band = _ := word_eq hc hsb
  refine ⟨?_, ?_, bwOf_code ?_, bandOf_code ?_⟩
  · unfold CHSPEC_CHANNEL
    omega
  · unfold CHSPEC_CTL_SB
    omega
  · unfold CHSPEC_BW
    omega
  · unfold CHSPEC_BAND
    omega

theorem inSteps_iff {lo hi step ch : Nat} :
    inSteps lo hi step ch = true ↔ lo ≤ ch ∧ ch ≤ hi ∧ (ch - lo) % step = 0 := by
  unfold inSteps
  rw [decide_eq_true_iff]

/-- No channel number of a band is the invalid one, and its edges are channels. -/
theorem valid_lt (h : wfValidChan c band bw = true) :
    c < INVCHANNEL ∧ centerChanToEdge bw < c ∧ c + centerChanToEdge bw < 0x100 := by
  unfold INVCHANNEL
  cases bw with
  | bw20 =>
    show c < 255 ∧ 0 < c ∧ c + 0 < 0x100
    cases band with
    | b2G =>
      have hrange : 1 ≤ c ∧ c ≤ 14 := of_decide_eq_true h
      omega
    | b6G =>
      simp [wfValidChan, wfValid20MHzChan, inSteps_iff, CH_MIN_6G_CHANNEL] at h
      omega
    | b4G => cases h
    | b5G =>
      simp [wfValidChan, wfValid20MHzChan, wf_5g_40m_chans, LOWER_20_SB, UPPER_20_SB,
        CH_10MHZ_APART, MAXCHANNEL] at h
      omega
  | bw40 =>
    show c < 255 ∧ 2 < c ∧ c + 2 < 0x100
    cases band with
    | b2G =>
      have hrange : 3 ≤ c ∧ c ≤ 11 := of_decide_eq_true h
      omega
    | b6G =>
      simp only [wfValidChan, wfValid40MHzCenterChan, inSteps_iff, CH_MIN_6G_40M_CHANNEL,
        CH_MAX_6G_40M_CHANNEL] at h
      omega
    | b4G => cases h
    | b5G =>
      simp [wfValidChan, wfValid40MHzCenterChan, wf_5g_40m_chans] at h
      omega
  | bw80 =>
    show c < 255 ∧ 6 < c ∧ c + 6 < 0x100
    cases band with
    | b2G => cases h
    | b6G =>
      simp only [wfValidChan, wfValid80MHzCenterChan, inSteps_iff, CH_MIN_6G_80M_CHANNEL,
        CH_MAX_6G_80M_CHANNEL] at h
      omega
    | b4G => cases h
    | b5G =>
      simp [wfValidChan, wfValid80MHzCenterChan, wf_5g_80m_chans] at h
      omega
  | bw160 =>
    show c < 255 ∧ 14 < c ∧ c + 14 < 0x100
    cases band with
    | b2G => cases h
    | b6G =>
      simp only [wfValidChan, wfValid160MHzCenterChan, inSteps_iff, CH_MIN_6G_160M_CHANNEL,
        CH_MAX_6G_160M_CHANNEL] at h
      omega
    | b4G => cases h
    | b5G =>
      simp [wfValidChan, wfValid160MHzCenterChan, wf_5g_160m_chans] at h
      omega

/-- A word is valid if its channel is one of its band, and its sideband one of its bandwidth. -/
theorem valid_word_iff (hc : c < 0x100) (hsb : sb < sidebands bw) :
    wfChspecValid (word c sb bw band) = true ↔ wfValidChan c band bw = true := by
  have hsb8 : sb < 8 := Nat.lt_of_lt_of_le hsb (by cases bw <;> decide)
  obtain ⟨hch, hctl, hbw, hband⟩ := fields_word bw band hc hsb8
  unfold wfChspecValid
  rw [hbw, hch, hband]
  show (!wfChspecMalformed (word c sb bw band) && wfValidChan c band bw) = true ↔ _
  rw [Bool.and_eq_true, and_iff_right_iff_imp]
  intro hvalid
  obtain ⟨hinv, -⟩ := valid_lt hvalid
  have hne : c ≠ INVCHANNEL := Nat.ne_of_lt hinv
  have hmal : wfChspecMalformed (word c sb bw band) = false := by
    unfold wfChspecMalformed
    rw [Bool.or_eq_false_iff]
    constructor
    · unfold bandMalformed
      rw [hband, hbw, hch]
      cases band with
      | b2G =>
        cases bw with
        | bw20 => simp [hne]
        | bw40 => simp [hne]
        | bw80 => cases hvalid
        | bw160 => cases hvalid
      | b6G => simp [hne]
      | b4G => cases bw <;> cases hvalid
      | b5G => simp [hne]
    · unfold sbMalformed
      rw [hbw, hctl]
      cases bw with
      | bw20 => simpa [sidebands] using hsb
      | bw40 => simpa [sidebands, Nat.lt_succ_iff] using hsb
      | bw80 => simpa [sidebands, Nat.lt_succ_iff] using hsb
      | bw160 => rfl
  rw [hmal]
  rfl

theorem valid_fields {n : Nat} (h : wfChspecValid n = true) :
    ∃ bw, bwOf n = some bw ∧ wfValidChan (CHSPEC_CHANNEL n) (bandOf n) bw = true := by
  unfold wfChspecValid at h
  rw [Bool.and_eq_true] at h
  cases hbw : bwOf n with
  | none =>
    rw [hbw] at h
    cases h.2
  | some bw =>
    rw [hbw] at h
    exact ⟨bw, rfl, h.2⟩

end

/-! ## The primary channel -/

section
variable {c primary sb : Nat} {bw : Bw} {band : Band}

theorem channelLowEdge_eq (hc : c < 0x100) (h : centerChanToEdge bw ≤ c) :
    channelLowEdge c bw = c - centerChanToEdge bw := by
  unfold channelLowEdge uint
  omega

theorem channelToSb_lt (h : channelToSb c primary bw = some sb) : sb < sidebands bw := by
  unfold channelToSb at h
  dsimp only at h
  split at h
  · cases h
  · split at h
    · cases h
    · cases h
      omega

theorem channelToSb_ge (h : channelToSb c primary bw = some sb) : channelLowEdge c bw ≤ primary := by
  unfold channelToSb at h
  dsimp only at h
  split at h
  · cases h
  · omega

/-- The sideband of a channel that does not reach below zero. -/
theorem channelToSb_eq_some (hc : c < 0x100) (hedge : centerChanToEdge bw ≤ c) :
    channelToSb c primary bw = some sb ↔
      primary = c - centerChanToEdge bw + 4 * sb ∧ sb < sidebands bw := by
  unfold channelToSb
  rw [channelLowEdge_eq hc hedge]
  dsimp only
  split
  · next h =>
    refine ⟨nofun, ?_⟩
    omega
  · next h =>
    split
    · next hbig =>
      refine ⟨nofun, ?_⟩
      omega
    · next hsmall =>
      rw [Option.some.injEq]
      omega

end

end Bcmdhd.Channels
