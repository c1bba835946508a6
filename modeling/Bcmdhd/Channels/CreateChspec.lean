import Bcmdhd.Channels.Chanspec

/-!
# Making a chanspec (`wf_create_chspec` and its siblings)

`wfCreateChspec` puts its 32-bit arguments together first and checks the 16-bit result.  The
constructors for one bandwidth check the centre first.  `wfCreateChspecFromPrimary` finds the centre
itself: in a table at 5 GHz, with a mask at 6 GHz.

So a centre above 255 can spill into the other fields, and the result is still valid: the primary
and centre 65572 make channel 36.

    Sound ∧ Agrees ∧ FindsCenter  ↔  no number above 255 is assembled     (createChspec_sound_iff)
-/

namespace Bcmdhd.Channels

/-! ## Algorithm -/

/-- The sideband of the primary channel, if the bandwidth has one there. -/
def subBand (primaryChannel centerChannel : Nat) (bw : Bw) : Option Nat :=
  match bw with
  -- 20MHz channels have matching center and primary channels
  | .bw20 => if primaryChannel = centerChannel then some 0 else none
  | .bw40 | .bw80 | .bw160 => channelToSb centerChannel primaryChannel bw

def wfCreateChspec (primaryChannel centerChannel : Nat) (bw : Bw) (band : Band) : Nat :=
  match subBand primaryChannel centerChannel bw with
  | some sb =>
    if wfChspecValid (word centerChannel sb bw band) then word centerChannel sb bw band
    else INVCHANSPEC
  | none => INVCHANSPEC

def wfCreate20MHzChspec (channel : Nat) (band : Band) : Nat :=
  if channel ≤ 0xFF ∧ (band = .b2G ∨ band = .b5G ∨ band = .b6G) then
    if wfChspecValid (word channel 0 .bw20 band) then word channel 0 .bw20 band else INVCHANSPEC
  else INVCHANSPEC

/-- A constructor that checks the centre before it puts the word together. -/
def createCentered (bw : Bw) (validCenter : Nat → Band → Bool) (primaryChannel centerChannel : Nat)
    (band : Band) : Nat :=
  match channelToSb centerChannel primaryChannel bw with
  | some sb => if validCenter centerChannel band then word centerChannel sb bw band else INVCHANSPEC
  | none => INVCHANSPEC

def wfCreate40MHzChspec : Nat → Nat → Band → Nat := createCentered .bw40 wfValid40MHzCenterChan

def wfCreate80MHzChspec : Nat → Nat → Band → Nat := createCentered .bw80 wfValid80MHzCenterChan

def wfCreate160MHzChspec : Nat → Nat → Band → Nat := createCentered .bw160 wfValid160MHzCenterChan

/-- The first centre of the table that makes a chanspec. -/
def searchCenters (primaryChannel : Nat) (bw : Bw) (band : Band) : List Nat → Nat
  | [] => INVCHANSPEC
  | c :: cs =>
    if wfCreateChspec primaryChannel c bw band ≠ INVCHANSPEC then
      wfCreateChspec primaryChannel c bw band
    else searchCenters primaryChannel bw band cs

/-- The table that is searched at 2.4 and 5 GHz. -/
def centerTable : Bw → Band → List Nat
  | .bw40, .b2G => wf_2g_40m_chans
  | .bw40, _ => wf_5g_40m_chans
  | .bw80, _ => wf_5g_80m_chans
  | .bw160, _ => wf_5g_160m_chans
  | .bw20, _ => []

def chPerBlock : Bw → Nat
  | .bw40 => 8
  | .bw80 => 16
  | .bw160 => 32
  | .bw20 => 0

/-- The base of the block that covers the primary channel; `q - q % n` is `q & ~(n - 1)`. -/
def blockBase (primaryChannel n : Nat) : Nat :=
  let q := uint (0x100000000 + primaryChannel - 1)
  uint (1 + (q - q % n))

def wfCreateChspecFromPrimary (primaryChannel : Nat) (bw : Bw) (band : Band) : Nat :=
  if bw = .bw20 then wfCreate20MHzChspec primaryChannel band
  else
    match band with
    | .b2G | .b5G => searchCenters primaryChannel bw band (centerTable bw band)
    | .b6G =>
      wfCreateChspec primaryChannel
        (uint (blockBase primaryChannel (chPerBlock bw) + centerChanToEdge bw)) bw band
    | .b4G => INVCHANSPEC

/-! ## What they promise -/

/-- The chanspec that is made has the channels, the bandwidth and the band asked for. -/
def Sound (primary center : Nat) (bw : Bw) (band : Band) : Prop :=
  wfCreateChspec primary center bw band ≠ INVCHANSPEC →
    wfChspecValid (wfCreateChspec primary center bw band) = true ∧
    bandOf (wfCreateChspec primary center bw band) = band ∧
    bwOf (wfCreateChspec primary center bw band) = some bw ∧
    wfChspecPrimary20Chan (wfCreateChspec primary center bw band) = primary ∧
    CHSPEC_CHANNEL (wfCreateChspec primary center bw band) = center

/-- The constructor for one bandwidth does the same. -/
def Agrees (primary center : Nat) (bw : Bw) (band : Band) : Prop :=
  match bw with
  | .bw20 => wfCreate20MHzChspec primary band = wfCreateChspec primary primary .bw20 band
  | .bw40 => wfCreate40MHzChspec primary center band = wfCreateChspec primary center .bw40 band
  | .bw80 => wfCreate80MHzChspec primary center band = wfCreateChspec primary center .bw80 band
  | .bw160 => wfCreate160MHzChspec primary center band = wfCreateChspec primary center .bw160 band

/-- A chanspec that contains the primary channel is found iff there is one. -/
def FindsCenter (primary : Nat) (bw : Bw) (band : Band) : Prop :=
  (wfCreateChspecFromPrimary primary bw band ≠ INVCHANSPEC ∧
      wfChspecPrimary20Chan (wfCreateChspecFromPrimary primary bw band) = primary) ↔
    ∃ center : BitVec 32, wfCreateChspec primary center.toNat bw band ≠ INVCHANSPEC

/-- 40 MHz channels overlap at 2.4 GHz. -/
def Overlaps (bw : Bw) (band : Band) : Prop := bw = .bw40 ∧ band = .b2G

/-- The channels are one bandwidth's, and what they are put together to passes the check. -/
def Assembles (primary center : Nat) (bw : Bw) (band : Band) : Prop :=
  ∃ sb, subBand primary center bw = some sb ∧ wfChspecValid (word center sb bw band) = true

/-! ## Lemmas -/

section
variable {primary center : Nat} {bw : Bw} {band : Band}

theorem subBand_20 : subBand primary center .bw20 = if primary = center then some 0 else none := by
  simp only [subBand]

theorem subBand_wide (h : bw ≠ .bw20) : subBand primary center bw = channelToSb center primary bw := by
  cases bw <;> simp only [subBand, ne_eq, not_true_eq_false] at h ⊢

theorem subBand_lt {sb : Nat} (h : subBand primary center bw = some sb) : sb < sidebands bw := by
  by_cases hbw : bw = .bw20
  · subst hbw
    rw [subBand_20] at h
    split at h
    · cases h
      exact Nat.one_pos
    · cases h
  · rw [subBand_wide hbw] at h
    exact channelToSb_lt h

theorem create_of_some {sb : Nat} (hsb : subBand primary center bw = some sb) :
    wfCreateChspec primary center bw band =
      if wfChspecValid (word center sb bw band) then word center sb bw band else INVCHANSPEC := by
  unfold wfCreateChspec
  rw [hsb]

theorem create_of_none (hsb : subBand primary center bw = none) :
    wfCreateChspec primary center bw band = INVCHANSPEC := by
  unfold wfCreateChspec
  rw [hsb]

theorem invChspec_not_valid : wfChspecValid INVCHANSPEC = false := by decide

/-- A chanspec is made where the word passes the check. -/
theorem create_ne_inv_iff :
    wfCreateChspec primary center bw band ≠ INVCHANSPEC ↔ Assembles primary center bw band := by
  unfold Assembles
  cases hsb : subBand primary center bw with
  | none => simp [create_of_none hsb]
  | some sb =>
    simp only [create_of_some hsb, Option.some.injEq, exists_eq_left']
    split
    · next hvalid =>
      refine iff_of_true ?_ hvalid
      intro heq
      rw [heq, invChspec_not_valid] at hvalid
      cases hvalid
    · next hvalid => exact iff_of_false (fun hne => hne rfl) hvalid

theorem create_eq_word {sb : Nat} (hsb : subBand primary center bw = some sb)
    (hvalid : wfChspecValid (word center sb bw band) = true) :
    wfCreateChspec primary center bw band = word center sb bw band := by
  rw [create_of_some hsb]
  exact if_pos hvalid

/-- The sideband of a channel of the band, at 20 MHz too. -/
theorem subBand_eq_some {sb : Nat} (hc : center < 0x100) (hedge : centerChanToEdge bw ≤ center) :
    subBand primary center bw = some sb ↔
      primary = center - centerChanToEdge bw + 4 * sb ∧ sb < sidebands bw := by
  by_cases hbw : bw = .bw20
  · subst hbw
    rw [subBand_20]
    simp only [centerChanToEdge, sidebands]
    split
    · rw [Option.some.injEq]
      omega
    · constructor
      · intro h
        cases h
      · omega
  · rw [subBand_wide hbw]
    exact channelToSb_eq_some hc hedge

theorem assembles_iff (hc : center < 0x100) :
    Assembles primary center bw band ↔ wfValidChan center band bw = true ∧
      ∃ sb < sidebands bw, primary = center - centerChanToEdge bw + 4 * sb := by
  unfold Assembles
  constructor
  · rintro ⟨sb, hsb, hvalid⟩
    have hlt := subBand_lt hsb
    rw [valid_word_iff hc hlt] at hvalid
    obtain ⟨-, hedge, -⟩ := valid_lt hvalid
    rw [subBand_eq_some hc (Nat.le_of_lt hedge)] at hsb
    exact ⟨hvalid, sb, hlt, hsb.1⟩
  · rintro ⟨hvalid, sb, hlt, hprimary⟩
    obtain ⟨-, hedge, -⟩ := valid_lt hvalid
    exact ⟨sb, (subBand_eq_some hc (Nat.le_of_lt hedge)).2 ⟨hprimary, hlt⟩,
      (valid_word_iff hc hlt).2 hvalid⟩

/-- The last sideband ends at the upper edge. -/
theorem sideband_le {sb : Nat} (h : sb < sidebands bw) : 4 * sb ≤ 2 * centerChanToEdge bw := by
  cases bw <;> simp only [sidebands, centerChanToEdge] at h ⊢ <;> omega

theorem primary_lt (hc : center < 0x100) (h : Assembles primary center bw band) :
    primary < 0x100 := by
  rw [assembles_iff hc] at h
  obtain ⟨hvalid, sb, hlt, hprimary⟩ := h
  have hrange := valid_lt hvalid
  have hle := sideband_le hlt
  omega

theorem primary20_word {sb : Nat} (hc : center < 0x100) (hlt : sb < sidebands bw)
    (hvalid : wfValidChan center band bw = true) :
    wfChspecPrimary20Chan (word center sb bw band) = center - centerChanToEdge bw + 4 * sb := by
  have hsb8 : sb < 8 := Nat.lt_of_lt_of_le hlt (by cases bw <;> decide)
  obtain ⟨hch, hctl, hbw, -⟩ := fields_word bw band hc hsb8
  obtain ⟨-, hedge, htop⟩ := valid_lt hvalid
  have hle := sideband_le hlt
  have hlow := channelLowEdge_eq hc (Nat.le_of_lt hedge)
  unfold wfChspecPrimary20Chan
  rw [hbw, hch, hctl]
  cases bw with
  | bw20 =>
    simp only [centerChanToEdge, sidebands] at hlt ⊢
    omega
  | bw40 | bw80 | bw160 =>
    simp only [hlow]
    unfold uint
    omega

/-- With a centre of eight bits, the word holds what was asked for. -/
theorem sound_of_lt (hc : center < 0x100) : Sound primary center bw band := by
  unfold Sound
  intro hne
  obtain ⟨sb, hsb, hvalid⟩ := create_ne_inv_iff.1 hne
  have hlt := subBand_lt hsb
  have hsb8 : sb < 8 := Nat.lt_of_lt_of_le hlt (by cases bw <;> decide)
  obtain ⟨hch, -, hbw, hband⟩ := fields_word bw band hc hsb8
  have hcenter := (valid_word_iff hc hlt).1 hvalid
  obtain ⟨-, hedge, -⟩ := valid_lt hcenter
  have hprimary := ((subBand_eq_some hc (Nat.le_of_lt hedge)).1 hsb).1
  rw [create_eq_word hsb hvalid]
  exact ⟨hvalid, hband, hbw, by rw [primary20_word hc hlt hcenter, ← hprimary], hch⟩

/-- A centre of more than eight bits is never the centre of what is made. -/
theorem sound_iff :
    Sound primary center bw band ↔ center ≤ 0xFF ∨ ¬Assembles primary center bw band := by
  constructor
  · intro h
    by_cases hasm : Assembles primary center bw band
    · obtain ⟨-, -, -, -, hcenter⟩ := h (create_ne_inv_iff.2 hasm)
      unfold CHSPEC_CHANNEL at hcenter
      left
      omega
    · exact .inr hasm
  · rintro (hle | hno)
    · exact sound_of_lt (Nat.lt_succ_of_le hle)
    · intro hne
      exact absurd (create_ne_inv_iff.1 hne) hno

theorem createCentered_of_some {v : Nat → Band → Bool} {sb : Nat}
    (hsb : channelToSb center primary bw = some sb) :
    createCentered bw v primary center band =
      if v center band then word center sb bw band else INVCHANSPEC := by
  unfold createCentered
  rw [hsb]

theorem createCentered_of_none {v : Nat → Band → Bool}
    (hsb : channelToSb center primary bw = none) :
    createCentered bw v primary center band = INVCHANSPEC := by
  unfold createCentered
  rw [hsb]

/-- Checking the centre first is the same for a centre of eight bits. -/
theorem createCentered_eq (hbw : bw ≠ .bw20) (hc : center < 0x100) :
    createCentered bw (fun c b => wfValidChan c b bw) primary center band =
      wfCreateChspec primary center bw band := by
  cases hsb : channelToSb center primary bw with
  | none => rw [createCentered_of_none hsb, create_of_none (by rw [subBand_wide hbw, hsb])]
  | some sb =>
    rw [createCentered_of_some hsb, create_of_some (by rw [subBand_wide hbw, hsb])]
    simp only [valid_word_iff hc (channelToSb_lt hsb)]

theorem createCentered_of_big (hc : ¬center < 0x100) :
    createCentered bw (fun c b => wfValidChan c b bw) primary center band = INVCHANSPEC := by
  have hno : ¬wfValidChan center band bw = true := by
    intro hvalid
    obtain ⟨hlt, -⟩ := valid_lt hvalid
    unfold INVCHANNEL at hlt
    omega
  cases hsb : channelToSb center primary bw with
  | none => exact createCentered_of_none hsb
  | some sb => rw [createCentered_of_some hsb, if_neg hno]

theorem centered_iff (hbw : bw ≠ .bw20) :
    createCentered bw (fun c b => wfValidChan c b bw) primary center band =
        wfCreateChspec primary center bw band ↔
      center ≤ 0xFF ∨ ¬Assembles primary center bw band := by
  by_cases hc : center < 0x100
  · exact iff_of_true (createCentered_eq hbw hc) (.inl (Nat.le_of_lt_succ hc))
  · rw [createCentered_of_big hc, ← create_ne_inv_iff]
    constructor
    · intro heq
      exact .inr fun hne => hne heq.symm
    · rintro (hle | hno)
      · omega
      · exact (not_not.1 hno).symm

theorem create20_eq (hp : primary < 0x100) :
    wfCreate20MHzChspec primary band = wfCreateChspec primary primary .bw20 band := by
  have hsb : subBand primary primary .bw20 = some 0 := by rw [subBand_20, if_pos rfl]
  rw [create_of_some hsb]
  unfold wfCreate20MHzChspec
  split
  · rfl
  · next hno =>
    have hband : band = .b4G := by
      cases band with
      | b4G => rfl
      | b2G | b5G | b6G =>
        refine absurd ⟨Nat.le_of_lt_succ hp, ?_⟩ hno
        simp
    subst hband
    rw [if_neg]
    rw [valid_word_iff hp Nat.one_pos]
    nofun

theorem create20_of_big (hp : ¬primary < 0x100) : wfCreate20MHzChspec primary band = INVCHANSPEC := by
  unfold wfCreate20MHzChspec
  rw [if_neg]
  omega

theorem create20_iff :
    wfCreate20MHzChspec primary band = wfCreateChspec primary primary .bw20 band ↔
      primary ≤ 0xFF ∨ ¬Assembles primary primary .bw20 band := by
  by_cases hp : primary < 0x100
  · exact iff_of_true (create20_eq hp) (.inl (Nat.le_of_lt_succ hp))
  · rw [create20_of_big hp, ← create_ne_inv_iff]
    constructor
    · intro heq
      exact .inr fun hne => hne heq.symm
    · rintro (hle | hno)
      · omega
      · exact (not_not.1 hno).symm

/-! ## The centre of a primary channel -/

/-- A centre that reaches over 255 spills into the sideband only, and its low bits are below the
edge. -/
theorem spill_not_valid : ∀ k < centerChanToEdge bw, ∀ sb < 8,
    wfChspecValid (word (256 + k) sb bw band) = false := by
  cases bw <;> cases band <;> decide

/-- Around a primary channel of eight bits, only such a centre assembles. -/
theorem center_lt (hp : primary < 0x100) (hc : center < 0x100000000)
    (h : Assembles primary center bw band) : center < 0x100 := by
  obtain ⟨sb, hsb, hvalid⟩ := h
  have hsb8 : sb < 8 := Nat.lt_of_lt_of_le (subBand_lt hsb) (by cases bw <;> decide)
  by_contra hbig
  by_cases hbw : bw = .bw20
  · subst hbw
    rw [subBand_20] at hsb
    split at hsb
    · omega
    · cases hsb
  · rw [subBand_wide hbw] at hsb
    have hle := channelToSb_ge hsb
    have hedge : centerChanToEdge bw ≤ 14 := by cases bw <;> decide
    unfold channelLowEdge uint at hle
    obtain ⟨k, rfl⟩ := Nat.exists_eq_add_of_le (Nat.not_lt.1 hbig)
    have hk : k < centerChanToEdge bw := by omega
    rw [spill_not_valid k hk sb hsb8] at hvalid
    cases hvalid

theorem search_spec (cs : List Nat) : searchCenters primary bw band cs ≠ INVCHANSPEC →
    ∃ c ∈ cs, searchCenters primary bw band cs = wfCreateChspec primary c bw band := by
  induction cs with
  | nil => exact fun hne => absurd rfl hne
  | cons c cs ih =>
    unfold searchCenters
    split
    · exact fun _ => ⟨c, List.mem_cons_self, rfl⟩
    · intro hne
      obtain ⟨d, hd, heq⟩ := ih hne
      exact ⟨d, List.mem_cons_of_mem c hd, heq⟩

theorem search_ne_inv {cs : List Nat} (hmem : center ∈ cs)
    (hne : wfCreateChspec primary center bw band ≠ INVCHANSPEC) :
    searchCenters primary bw band cs ≠ INVCHANSPEC := by
  induction cs with
  | nil => cases hmem
  | cons c cs ih =>
    unfold searchCenters
    split
    · next hc => exact hc
    · next hc =>
      rcases List.mem_cons.1 hmem with rfl | hmem
      · exact absurd hne hc
      · exact ih hmem

theorem centerTable_lt : ∀ c ∈ centerTable bw band, c < 0x100000000 := by
  have h : ∀ c ∈ centerTable bw band, c < 0x100 := by
    cases bw <;> cases band <;> decide
  intro c hc
  exact Nat.lt_trans (h c hc) (by decide)

/-- What is found is made around some centre. -/
theorem fromPrimary_spec (hp : primary < 0x100000000)
    (hne : wfCreateChspecFromPrimary primary bw band ≠ INVCHANSPEC) :
    ∃ center < 0x100000000,
      wfCreateChspecFromPrimary primary bw band = wfCreateChspec primary center bw band := by
  unfold wfCreateChspecFromPrimary at hne ⊢
  by_cases hbw : bw = .bw20
  · subst hbw
    rw [if_pos rfl] at hne ⊢
    by_cases hlt : primary < 0x100
    · exact ⟨primary, hp, create20_eq hlt⟩
    · exact absurd (create20_of_big hlt) hne
  · rw [if_neg hbw] at hne ⊢
    cases band with
    | b2G | b5G =>
      obtain ⟨c, hc, heq⟩ := search_spec _ hne
      exact ⟨c, centerTable_lt c hc, heq⟩
    | b6G => exact ⟨_, Nat.mod_lt _ (by decide), rfl⟩
    | b4G => exact absurd rfl hne

/-- The mask finds the centre of the block. -/
theorem blockBase_center (hbw : bw ≠ .bw20) (hvalid : wfValidChan center .b6G bw = true) {sb : Nat}
    (hsb : sb < sidebands bw) :
    uint (blockBase (center - centerChanToEdge bw + 4 * sb) (chPerBlock bw) +
      centerChanToEdge bw) = center := by
  unfold blockBase uint
  cases bw with
  | bw20 => exact absurd rfl hbw
  | bw40 =>
    simp only [wfValidChan, wfValid40MHzCenterChan, inSteps_iff, CH_MIN_6G_40M_CHANNEL,
      CH_MAX_6G_40M_CHANNEL] at hvalid
    simp only [sidebands, chPerBlock, centerChanToEdge] at hsb ⊢
    omega
  | bw80 =>
    simp only [wfValidChan, wfValid80MHzCenterChan, inSteps_iff, CH_MIN_6G_80M_CHANNEL,
      CH_MAX_6G_80M_CHANNEL] at hvalid
    simp only [sidebands, chPerBlock, centerChanToEdge] at hsb ⊢
    omega
  | bw160 =>
    simp only [wfValidChan, wfValid160MHzCenterChan, inSteps_iff, CH_MIN_6G_160M_CHANNEL,
      CH_MAX_6G_160M_CHANNEL] at hvalid
    simp only [sidebands, chPerBlock, centerChanToEdge] at hsb ⊢
    omega

/-- Where there is a centre, it is found. -/
theorem fromPrimary_ne_inv (hno : ¬Overlaps bw band) (hc : center < 0x100)
    (h : Assembles primary center bw band) :
    wfCreateChspecFromPrimary primary bw band ≠ INVCHANSPEC := by
  have hne := create_ne_inv_iff.2 h
  have hp := primary_lt hc h
  unfold wfCreateChspecFromPrimary
  by_cases hbw : bw = .bw20
  · subst hbw
    rw [if_pos rfl, create20_eq hp]
    obtain ⟨sb, hsb, -⟩ := h
    rw [subBand_20] at hsb
    split at hsb
    · next heq =>
      subst heq
      exact hne
    · cases hsb
  · rw [if_neg hbw]
    rw [assembles_iff hc] at h
    obtain ⟨hvalid, sb, hsb, rfl⟩ := h
    cases band with
    | b2G =>
      cases bw with
      | bw20 => exact absurd rfl hbw
      | bw40 => exact absurd ⟨rfl, rfl⟩ hno
      | bw80 | bw160 => cases hvalid
    | b5G =>
      refine search_ne_inv ?_ hne
      cases bw with
      | bw20 => exact absurd rfl hbw
      | bw40 | bw80 | bw160 => exact of_decide_eq_true hvalid
    | b6G =>
      show wfCreateChspec _ (uint _) _ _ ≠ _
      rwa [blockBase_center hbw hvalid hsb]
    | b4G => cases bw <;> cases hvalid

theorem primary20_lt (chspec : Nat) : wfChspecPrimary20Chan chspec < 0x100 := by
  unfold wfChspecPrimary20Chan
  split
  · exact Nat.mod_lt _ (by decide)
  · exact Nat.mod_lt _ (by decide)
  · exact Nat.mod_lt _ (by decide)

theorem findsCenter_of_lt (hno : ¬Overlaps bw band) (hp : primary < 0x100) :
    FindsCenter primary bw band := by
  constructor
  · rintro ⟨hne, -⟩
    obtain ⟨c, hc, heq⟩ := fromPrimary_spec (Nat.lt_trans hp (by decide)) hne
    rw [heq] at hne
    refine ⟨BitVec.ofNat 32 c, ?_⟩
    rwa [BitVec.toNat_ofNat, Nat.mod_eq_of_lt hc]
  · rintro ⟨c, hne⟩
    have hasm := create_ne_inv_iff.1 hne
    have hfound := fromPrimary_ne_inv hno (center_lt hp c.isLt hasm) hasm
    obtain ⟨d, hd, heq⟩ := fromPrimary_spec (Nat.lt_trans hp (by decide)) hfound
    rw [heq] at hfound ⊢
    have hd8 := center_lt hp hd (create_ne_inv_iff.1 hfound)
    obtain ⟨-, -, -, hprimary, -⟩ := sound_of_lt hd8 hfound
    exact ⟨hfound, hprimary⟩

/-- A primary channel of more than eight bits is in no chanspec. -/
theorem findsCenter_iff (hno : ¬Overlaps bw band) (hp32 : primary < 0x100000000) :
    FindsCenter primary bw band ↔
      primary ≤ 0xFF ∨ ∀ c : BitVec 32, ¬Assembles primary c.toNat bw band := by
  by_cases hp : primary < 0x100
  · exact iff_of_true (findsCenter_of_lt hno hp) (.inl (Nat.le_of_lt_succ hp))
  · rw [or_iff_right (by omega), ← not_exists]
    constructor
    · rintro hfinds ⟨c, hasm⟩
      obtain ⟨-, hprimary⟩ := hfinds.2 ⟨c, create_ne_inv_iff.2 hasm⟩
      have hlt := primary20_lt (wfCreateChspecFromPrimary primary bw band)
      omega
    · intro hnone
      constructor
      · rintro ⟨hne, -⟩
        obtain ⟨c, hc, heq⟩ := fromPrimary_spec hp32 hne
        rw [heq, create_ne_inv_iff] at hne
        refine absurd ⟨BitVec.ofNat 32 c, ?_⟩ hnone
        rwa [BitVec.toNat_ofNat, Nat.mod_eq_of_lt hc]
      · rintro ⟨c, hne⟩
        exact absurd ⟨c, create_ne_inv_iff.1 hne⟩ hnone

end

theorem agrees_20_iff {primary center : Nat} {band : Band} :
    Agrees primary center .bw20 band ↔
      primary ≤ 0xFF ∨ ¬Assembles primary primary .bw20 band := create20_iff

theorem agrees_wide_iff {primary center : Nat} {bw : Bw} {band : Band} (hbw : bw ≠ .bw20) :
    Agrees primary center bw band ↔ center ≤ 0xFF ∨ ¬Assembles primary center bw band := by
  rw [← centered_iff hbw]
  cases bw with
  | bw20 => exact absurd rfl hbw
  | bw40 | bw80 | bw160 => exact Iff.rfl

/-- **The constructors are sound and agree, unless a number above 255 is assembled.** -/
theorem createChspec_sound_iff (primary center : BitVec 32) (bw : Bw) (band : Band) :
    (Sound primary.toNat center.toNat bw band ∧ Agrees primary.toNat center.toNat bw band ∧
        (¬Overlaps bw band → FindsCenter primary.toNat bw band)) ↔
      (center.toNat ≤ 0xFF ∨ ¬Assembles primary.toNat center.toNat bw band) ∧
        (Overlaps bw band ∨ primary.toNat ≤ 0xFF ∨
          ∀ c : BitVec 32, ¬Assembles primary.toNat c.toNat bw band) := by
  rw [sound_iff]
  have hfinds : (¬Overlaps bw band → FindsCenter primary.toNat bw band) ↔
      (Overlaps bw band ∨ primary.toNat ≤ 0xFF ∨
        ∀ c : BitVec 32, ¬Assembles primary.toNat c.toNat bw band) := by
    by_cases hov : Overlaps bw band
    · exact iff_of_true (fun hno => absurd hov hno) (.inl hov)
    · rw [findsCenter_iff hov primary.isLt]
      simp [hov]
  rw [hfinds]
  refine and_congr_right fun hcenter => and_iff_right_of_imp fun hprimary => ?_
  by_cases hbw : bw = .bw20
  · subst hbw
    rw [agrees_20_iff]
    rcases hprimary with ⟨hov, -⟩ | hle | hnone
    · cases hov
    · exact .inl hle
    · exact .inr (hnone primary)
  · rwa [agrees_wide_iff hbw]

/-- Primary and centre 65572 make channel 36 at 5 GHz, and the 20 MHz constructor makes nothing. -/
theorem createChspec_not_sound :
    wfCreateChspec 65572 65572 .bw20 .b5G = 0xD024 ∧
      ¬(∀ (primary center : BitVec 32) (bw : Bw) (band : Band),
        Sound primary.toNat center.toNat bw band ∧ Agrees primary.toNat center.toNat bw band ∧
          (¬Overlaps bw band → FindsCenter primary.toNat bw band)) := by
  have hmade : wfCreateChspec 65572 65572 .bw20 .b5G = 0xD024 := by rfl
  refine ⟨hmade, fun hall => ?_⟩
  obtain ⟨hsound, -, -⟩ := hall 65572 65572 .bw20 .b5G
  have hsound : Sound 65572 65572 .bw20 .b5G := hsound
  unfold Sound at hsound
  rw [hmade] at hsound
  obtain ⟨-, -, -, -, hcenter⟩ := hsound (by decide)
  exact absurd hcenter (by decide)

end Bcmdhd.Channels
