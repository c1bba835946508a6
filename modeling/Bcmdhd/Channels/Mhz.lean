import Mathlib.Data.Nat.Basic

/-!
# Channels and frequencies (`wf_mhz2channel`, `wf_channel2mhz` in `bcmwifi_channels.c`)

A channel is a multiple of 5 MHz from a base, which `start_factor` gives in units of 500 kHz; zero
stands for the base of the band that the frequency is in.  Channel 14 of 2.4 GHz and channel 2 of
6 GHz are off that grid.

    the conversions are inverse to one another  ↔  offsetOk     (channel_mhz_iff)

A frequency at the base gives channel 0, one that is 2^31 MHz or more above it a negative number,
and without a base a frequency up to 1000 MHz counts as a channel of base 0.
-/

namespace Bcmdhd.Channels

/-! ## Algorithm -/

def WF_CHAN_FACTOR_2_4_G : BitVec 32 := 4814
def WF_CHAN_FACTOR_5_G : BitVec 32 := 10000
def WF_CHAN_FACTOR_6_G : BitVec 32 := 11900
def CH_MAX_6G_CHANNEL : Nat := 253

/-- The base frequency that is assumed. -/
def usedFactor (freq startFactor : BitVec 32) : BitVec 32 :=
  if startFactor = 0 then
    if 2400 ≤ freq.toNat ∧ freq.toNat ≤ 2500 then WF_CHAN_FACTOR_2_4_G
    else if 5000 ≤ freq.toNat ∧ freq.toNat < 5935 then WF_CHAN_FACTOR_5_G
    else if 5935 ≤ freq.toNat ∧ freq.toNat ≤ 7205 then WF_CHAN_FACTOR_6_G
    else 0
  else startFactor

/-- The range checks of `wf_mhz2channel`. -/
def inRange (startFactor : BitVec 32) (ch : Int) : Int :=
  if startFactor = WF_CHAN_FACTOR_2_4_G then if ch > 13 then -1 else ch
  else if startFactor = WF_CHAN_FACTOR_6_G then
    if (BitVec.ofInt 32 ch).toNat > CH_MAX_6G_CHANNEL then -1 else ch
  else if ch > 200 then -1
  else ch

/-- `freq - base`, an `int` -/
def offsetOf (freq startFactor : BitVec 32) : Int :=
  (BitVec.ofNat 32 (freq.toNat - startFactor.toNat / 2)).toInt

def wfMhz2channel (freq startFactor : BitVec 32) : Int :=
  let startFactor := usedFactor freq startFactor
  if freq.toNat = 2484 ∧ startFactor = WF_CHAN_FACTOR_2_4_G then 14
  else if freq.toNat = 5935 ∧ startFactor = WF_CHAN_FACTOR_6_G then 2
  else if freq.toNat = 5960 ∧ startFactor = WF_CHAN_FACTOR_6_G then -1
  else if freq.toNat < startFactor.toNat / 2 then -1
  else
    let offset := offsetOf freq startFactor
    let ch := offset.tdiv 5
    if offset ≠ ch * 5 then -1 else inRange startFactor ch

def wfChannel2mhz (ch startFactor : BitVec 32) : Int :=
  if startFactor = WF_CHAN_FACTOR_2_4_G ∧ (ch.toNat < 1 ∨ ch.toNat > 14) ∨
      startFactor = WF_CHAN_FACTOR_6_G ∧ (ch.toNat < 1 ∨ ch.toNat > 253) ∨
      startFactor ≠ WF_CHAN_FACTOR_6_G ∧ (ch.toNat < 1 ∨ ch.toNat > 200) then -1
  else if startFactor = WF_CHAN_FACTOR_2_4_G ∧ ch.toNat = 14 then 2484
  else if startFactor = WF_CHAN_FACTOR_6_G ∧ ch.toNat = 2 then 5935
  else (BitVec.ofNat 32 (ch.toNat * 5 + startFactor.toNat / 2)).toInt

/-! ## What the comments say -/

/-- A channel that has a frequency is the channel of that frequency. -/
def ChannelBack (ch startFactor : BitVec 32) : Prop :=
  startFactor ≠ 0 → wfChannel2mhz ch startFactor ≠ -1 →
    wfMhz2channel (BitVec.ofInt 32 (wfChannel2mhz ch startFactor)) startFactor = ch.toNat

/-- The bands of a frequency without a base. -/
def inBands (freq : BitVec 32) : Bool :=
  (2400 ≤ freq.toNat ∧ freq.toNat ≤ 2500) ∨ (5000 ≤ freq.toNat ∧ freq.toNat ≤ 7205)

/-- What is returned is -1 or a channel with that frequency, and -1 where there is no base. -/
structure FreqBack (freq startFactor : BitVec 32) : Prop where
  channel : wfMhz2channel freq startFactor = -1 ∨
    0 < wfMhz2channel freq startFactor ∧
      wfChannel2mhz (BitVec.ofInt 32 (wfMhz2channel freq startFactor))
        (usedFactor freq startFactor) = freq.toInt
  noBase : startFactor = 0 → inBands freq = false → wfMhz2channel freq startFactor = -1

/-- Nothing is returned for channel 0, for a negative channel, or for a frequency without base. -/
def offsetOk (freq startFactor : BitVec 32) : Bool :=
  let startFactor := usedFactor freq startFactor
  let offset := offsetOf freq startFactor
  freq.toNat < startFactor.toNat / 2 || decide (offset % 5 ≠ 0) || decide (offset = -5) ||
    if startFactor = WF_CHAN_FACTOR_6_G then decide (offset ≠ 0)
    else if startFactor = 0 then decide (1000 < offset)
    else decide (0 < offset)

/-! ## 32-bit numbers -/

theorem toInt_ofNat_cases {n : Nat} (h : n < 0x100000000) :
    n < 0x80000000 ∧ (BitVec.ofNat 32 n).toInt = n ∨
      0x80000000 ≤ n ∧ (BitVec.ofNat 32 n).toInt = n - 0x100000000 := by
  rw [BitVec.toInt_eq_toNat_cond, BitVec.toNat_ofNat]
  split
  · omega
  · omega

theorem toNat_ofInt_ofNat {n : Nat} (h : n < 0x100000000) :
    (BitVec.ofInt 32 (BitVec.ofNat 32 n).toInt).toNat = n := by
  rw [BitVec.ofInt_toInt, BitVec.toNat_ofNat]
  omega

theorem toNat_ofInt_small {i : Int} (h0 : 0 ≤ i) (h : i < 0x100000000) :
    (BitVec.ofInt 32 i).toNat = i.toNat := by
  rw [BitVec.toNat_ofInt]
  omega

theorem eq_factor_iff {x : BitVec 32} {n : Nat} (h : n < 0x100000000) :
    x = BitVec.ofNat 32 n ↔ x.toNat = n := by
  rw [← BitVec.toNat_inj, BitVec.toNat_ofNat, Nat.mod_eq_of_lt h]

/-- The division is exact for the multiples of 5. -/
theorem tdiv_five (x : Int) : x = x.tdiv 5 * 5 ∧ x % 5 = 0 ∧ x.tdiv 5 = x / 5 ∨
    x ≠ x.tdiv 5 * 5 ∧ x % 5 ≠ 0 := by
  by_cases h : x % 5 = 0
  · have hq : x.tdiv 5 = x / 5 := Int.tdiv_eq_ediv_of_dvd (Int.dvd_of_emod_eq_zero h)
    left
    rw [hq]
    omega
  · right
    omega

section
variable {f : BitVec 32}

theorem is24_iff : f = WF_CHAN_FACTOR_2_4_G ↔ f.toNat = 4814 := eq_factor_iff (by decide)

theorem is6_iff : f = WF_CHAN_FACTOR_6_G ↔ f.toNat = 11900 := eq_factor_iff (by decide)

theorem isZero_iff : f = 0 ↔ f.toNat = 0 := eq_factor_iff (by decide)

end

/-! ## From a channel -/

/-- A channel inside its range, and the frequency that is returned. -/
inductive HasFreq (ch startFactor : BitVec 32) : Int → Prop
  | ch14 (hf : startFactor.toNat = 4814) (hch : ch.toNat = 14) : HasFreq ch startFactor 2484
  | ch2 (hf : startFactor.toNat = 11900) (hch : ch.toNat = 2) : HasFreq ch startFactor 5935
  | onGrid (h1 : 1 ≤ ch.toNat) (h24 : startFactor.toNat = 4814 → ch.toNat ≤ 13)
      (h6 : startFactor.toNat = 11900 → ch.toNat ≤ 253 ∧ ch.toNat ≠ 2)
      (hother : startFactor.toNat ≠ 11900 → ch.toNat ≤ 200) :
      HasFreq ch startFactor
        (BitVec.ofNat 32 (ch.toNat * 5 + startFactor.toNat / 2)).toInt

theorem wfChannel2mhz_cases (ch startFactor : BitVec 32) :
    wfChannel2mhz ch startFactor = -1 ∨
      HasFreq ch startFactor (wfChannel2mhz ch startFactor) := by
  unfold wfChannel2mhz
  simp only [is24_iff, is6_iff, ne_eq]
  split
  · exact .inl rfl
  · right
    split
    · next h => exact .ch14 h.1 h.2
    · split
      · next h => exact .ch2 h.1 h.2
      · exact .onGrid (by omega) (by omega) (by omega) (by omega)

theorem wfChannel2mhz_onGrid {ch startFactor : BitVec 32} (h1 : 1 ≤ ch.toNat)
    (h24 : startFactor.toNat = 4814 → ch.toNat ≤ 13)
    (h6 : startFactor.toNat = 11900 → ch.toNat ≤ 253 ∧ ch.toNat ≠ 2)
    (hother : startFactor.toNat ≠ 11900 → ch.toNat ≤ 200) :
    wfChannel2mhz ch startFactor =
      (BitVec.ofNat 32 (ch.toNat * 5 + startFactor.toNat / 2)).toInt := by
  unfold wfChannel2mhz
  simp only [is24_iff, is6_iff, ne_eq]
  rw [if_neg (by omega), if_neg (by omega), if_neg (by omega)]

/-! ## From a frequency -/

theorem offsetOf_cases (freq f : BitVec 32) (hle : f.toNat / 2 ≤ freq.toNat) :
    freq.toNat - f.toNat / 2 < 0x80000000 ∧ offsetOf freq f = freq.toNat - f.toNat / 2 ∨
      0x80000000 ≤ freq.toNat - f.toNat / 2 ∧
        offsetOf freq f = freq.toNat - f.toNat / 2 - 0x100000000 := by
  have hlt := freq.isLt
  unfold offsetOf
  rcases toInt_ofNat_cases (show freq.toNat - f.toNat / 2 < 0x100000000 by omega) with h | h
  · omega
  · omega

/-- The channel that goes through the range checks, or -1. -/
theorem inRange_cases (f : BitVec 32) (ch : Int) (hlo : -0x80000000 ≤ ch) (hhi : ch < 0x80000000) :
    inRange f ch = ch ∧ (f.toNat = 4814 → ch ≤ 13) ∧ (f.toNat = 11900 → 0 ≤ ch ∧ ch ≤ 253) ∧
        (f.toNat ≠ 11900 → ch ≤ 200) ∨
      inRange f ch = -1 ∧ (f.toNat = 4814 → 13 < ch) ∧ (f.toNat = 11900 → ch < 0 ∨ 253 < ch) ∧
        (f.toNat ≠ 4814 → f.toNat ≠ 11900 → 200 < ch) := by
  have hnat : (BitVec.ofInt 32 ch).toNat = (ch % 0x100000000).toNat := BitVec.toNat_ofInt ch
  unfold inRange CH_MAX_6G_CHANNEL
  simp only [is24_iff, is6_iff, hnat]
  split
  · split
    · exact .inr ⟨rfl, by omega, by omega, by omega⟩
    · exact .inl ⟨rfl, by omega, by omega, by omega⟩
  · split
    · split
      · exact .inr ⟨rfl, by omega, by omega, by omega⟩
      · exact .inl ⟨rfl, by omega, by omega, by omega⟩
    · split
      · exact .inr ⟨rfl, by omega, by omega, by omega⟩
      · exact .inl ⟨rfl, by omega, by omega, by omega⟩

/-- Where the frequency is on the grid, and no special channel. -/
theorem wfMhz2channel_onGrid {freq startFactor f : BitVec 32} (hf : usedFactor freq startFactor = f)
    (hle : f.toNat / 2 ≤ freq.toNat) (hmod : offsetOf freq f % 5 = 0)
    (h2 : ¬(freq.toNat = 5960 ∧ f.toNat = 11900)) :
    wfMhz2channel freq startFactor = inRange f (offsetOf freq f / 5) := by
  have hoff := offsetOf_cases freq f hle
  obtain ⟨heq, -, hdiv⟩ | ⟨-, hne⟩ := tdiv_five (offsetOf freq f)
  · unfold wfMhz2channel
    rw [hf]
    simp only [is24_iff, is6_iff, ne_eq]
    rw [if_neg (by omega), if_neg (by omega), if_neg h2, if_neg (by omega),
      if_neg (not_not.mpr heq), hdiv]
  · exact absurd hmod hne

/-- Where it is not. -/
theorem wfMhz2channel_offGrid {freq startFactor f : BitVec 32}
    (hf : usedFactor freq startFactor = f)
    (hoff : freq.toNat < f.toNat / 2 ∨ offsetOf freq f % 5 ≠ 0) :
    wfMhz2channel freq startFactor = -1 ∨
      freq.toNat = 2484 ∧ f.toNat = 4814 ∧ wfMhz2channel freq startFactor = 14 ∨
      freq.toNat = 5935 ∧ f.toNat = 11900 ∧ wfMhz2channel freq startFactor = 2 := by
  unfold wfMhz2channel
  rw [hf]
  simp only [is24_iff, is6_iff]
  split
  · next h => exact .inr (.inl ⟨h.1, h.2, rfl⟩)
  · split
    · next h => exact .inr (.inr ⟨h.1, h.2, rfl⟩)
    · split
      · exact .inl rfl
      · split
        · exact .inl rfl
        · next hlt =>
          obtain ⟨-, hmod, -⟩ | ⟨hne, -⟩ := tdiv_five (offsetOf freq f)
          · exact absurd hmod (hoff.resolve_left hlt)
          · rw [if_pos hne]
            exact .inl rfl

theorem usedFactor_ne_zero (freq : BitVec 32) {startFactor : BitVec 32} (h : startFactor ≠ 0) :
    usedFactor freq startFactor = startFactor := if_neg h

theorem usedFactor_eq_zero_iff (freq startFactor : BitVec 32) :
    (usedFactor freq startFactor).toNat = 0 ↔ startFactor = 0 ∧ inBands freq = false := by
  unfold usedFactor inBands
  rw [decide_eq_false_iff_not]
  split
  · next h =>
    split
    · exact iff_of_false (by decide) (by omega)
    · split
      · exact iff_of_false (by decide) (by omega)
      · split
        · exact iff_of_false (by decide) (by omega)
        · exact iff_of_true rfl ⟨h, by omega⟩
  · next h => exact iff_of_false (fun hz => h (isZero_iff.mpr hz)) fun hz => h hz.1

/-! ## Both ways -/

theorem channel_back (ch startFactor : BitVec 32) : ChannelBack ch startFactor := by
  intro hnz hne
  have hf := usedFactor_ne_zero (BitVec.ofInt 32 (wfChannel2mhz ch startFactor)) hnz
  have hlt := startFactor.isLt
  obtain h | h := wfChannel2mhz_cases ch startFactor
  · exact absurd h hne
  · generalize wfChannel2mhz ch startFactor = v at h hf
    cases h with
    | ch14 h24 hch =>
      unfold wfMhz2channel
      rw [hf, hch]
      simp only [is24_iff]
      exact if_pos ⟨rfl, h24⟩
    | ch2 h6 hch =>
      unfold wfMhz2channel
      rw [hf, hch]
      simp only [is24_iff, is6_iff]
      rw [if_neg (by omega)]
      exact if_pos ⟨rfl, h6⟩
    | onGrid h1 h24 h6 hother =>
      have hnat := toNat_ofInt_ofNat (n := ch.toNat * 5 + startFactor.toNat / 2) (by omega)
      have hoff := offsetOf_cases _ startFactor (by rw [hnat]; exact Nat.le_add_left _ _)
      rw [hnat] at hoff
      have heq : offsetOf (BitVec.ofInt 32 (BitVec.ofNat 32
          (ch.toNat * 5 + startFactor.toNat / 2)).toInt) startFactor = ch.toNat * 5 := by
        omega
      rw [wfMhz2channel_onGrid hf (by omega) (by omega) (by omega), heq,
        Int.mul_ediv_cancel _ (by decide)]
      obtain ⟨h, -⟩ | ⟨-, h⟩ := inRange_cases startFactor ch.toNat (by omega) (by omega)
      · exact h
      · omega

/-- A positive channel on the grid has its frequency. -/
theorem channel_onGrid {freq f : BitVec 32} {ch : Nat} (h1 : 1 ≤ ch)
    (hfreq : freq.toNat = ch * 5 + f.toNat / 2) (h24 : f.toNat = 4814 → ch ≤ 13)
    (h6 : f.toNat = 11900 → ch ≤ 253 ∧ ch ≠ 2) (hother : f.toNat ≠ 11900 → ch ≤ 200) :
    wfChannel2mhz (BitVec.ofInt 32 ch) f = freq.toInt := by
  have hch : (BitVec.ofInt 32 ch).toNat = ch := by
    rw [toNat_ofInt_small (by omega) (by omega)]
    exact Int.toNat_natCast ch
  rw [← hch] at h1 h24 h6 hother hfreq
  rw [wfChannel2mhz_onGrid h1 h24 h6 hother, ← hfreq, BitVec.ofNat_toNat, BitVec.setWidth_eq]

/-- Where the frequency is on the grid of its base. -/
theorem freqBack_onGrid {freq startFactor f : BitVec 32} (hf : usedFactor freq startFactor = f)
    (hle : f.toNat / 2 ≤ freq.toNat) (hmod : offsetOf freq f % 5 = 0)
    (h2 : ¬(freq.toNat = 5960 ∧ f.toNat = 11900)) :
    FreqBack freq startFactor ↔ offsetOf freq f = -5 ∨
      (if f.toNat = 11900 then offsetOf freq f ≠ 0
        else if f.toNat = 0 then 1000 < offsetOf freq f else 0 < offsetOf freq f) := by
  have hzero := usedFactor_eq_zero_iff freq startFactor
  rw [hf] at hzero
  have hlt := freq.isLt
  have hoff := offsetOf_cases freq f hle
  have hr := wfMhz2channel_onGrid hf hle hmod h2
  obtain ⟨heq, h24, h6, hother⟩ | ⟨heq, h24, h6, hother⟩ :=
    inRange_cases f (offsetOf freq f / 5) (by omega) (by omega)
  · rw [heq] at hr
    constructor
    · rintro ⟨hch | ⟨hpos, -⟩, hnb⟩
      · left
        omega
      · right
        split
        · omega
        · split
          · next h0 =>
            obtain ⟨hs, hb⟩ := hzero.mp h0
            have := hnb hs hb
            omega
          · omega
    · intro h
      rcases Int.lt_trichotomy (offsetOf freq f) 0 with hneg | h0 | hpos
      · have h5 : offsetOf freq f = -5 := by
          rcases h with h | h
          · exact h
          · split at h
            · omega
            · split at h
              · omega
              · omega
        have h1 : wfMhz2channel freq startFactor = -1 := by omega
        exact ⟨.inl h1, fun _ _ => h1⟩
      · exfalso
        rw [h0] at h
        rcases h with h | h
        · omega
        · split at h
          · exact h rfl
          · split at h
            · omega
            · omega
      · have hnz : f.toNat ≠ 0 := by
          intro hz
          rw [if_neg (by omega), if_pos hz] at h
          have := hother (by omega)
          omega
        refine ⟨.inr ⟨by omega, ?_⟩, fun hs hb => absurd (hzero.mpr ⟨hs, hb⟩) hnz⟩
        obtain ⟨n, hn⟩ := Int.eq_ofNat_of_zero_le (show 0 ≤ offsetOf freq f / 5 by omega)
        rw [hr, hf, hn]
        exact channel_onGrid (by omega) (by omega) (by omega) (by omega) (by omega)
  · rw [heq] at hr
    refine iff_of_true ⟨.inl hr, fun _ _ => hr⟩ (.inr ?_)
    split
    · omega
    · split
      · omega
      · omega

theorem freqBack_iff (freq startFactor : BitVec 32) :
    FreqBack freq startFactor ↔ offsetOk freq startFactor = true := by
  obtain ⟨f, hf⟩ : ∃ f, usedFactor freq startFactor = f := ⟨_, rfl⟩
  have hzero := usedFactor_eq_zero_iff freq startFactor
  rw [hf] at hzero
  have hok : offsetOk freq startFactor = true ↔
      ((freq.toNat < f.toNat / 2 ∨ offsetOf freq f % 5 ≠ 0) ∨ offsetOf freq f = -5) ∨
        (if f.toNat = 11900 then offsetOf freq f ≠ 0
          else if f.toNat = 0 then 1000 < offsetOf freq f else 0 < offsetOf freq f) := by
    unfold offsetOk
    simp only [hf, is6_iff, isZero_iff, Bool.or_eq_true, decide_eq_true_iff]
    refine or_congr_right ?_
    split
    · exact decide_eq_true_iff
    · split
      · exact decide_eq_true_iff
      · exact decide_eq_true_iff
  rw [hok]
  by_cases hgrid : f.toNat / 2 ≤ freq.toNat ∧ offsetOf freq f % 5 = 0
  · obtain ⟨hle, hmod⟩ := hgrid
    by_cases h2 : freq.toNat = 5960 ∧ f.toNat = 11900
    · have hr : wfMhz2channel freq startFactor = -1 := by
        unfold wfMhz2channel
        rw [hf]
        simp only [is24_iff, is6_iff]
        rw [if_neg (by omega), if_neg (by omega), if_pos h2]
      have hoff := offsetOf_cases freq f hle
      refine iff_of_true ⟨.inl hr, fun _ _ => hr⟩ (.inr ?_)
      rw [if_pos h2.2]
      omega
    · rw [freqBack_onGrid hf hle hmod h2]
      refine or_congr_left ?_
      omega
  · have hoff : freq.toNat < f.toNat / 2 ∨ offsetOf freq f % 5 ≠ 0 := by omega
    refine iff_of_true ?_ (.inl (.inl hoff))
    obtain h | ⟨hfr, h24, h⟩ | ⟨hfr, h6, h⟩ := wfMhz2channel_offGrid hf hoff
    · exact ⟨.inl h, fun _ _ => h⟩
    · have hback : freq = BitVec.ofNat 32 2484 := (eq_factor_iff (by decide)).mpr hfr
      refine ⟨.inr ⟨by omega, ?_⟩, fun hs hb => ?_⟩
      · rw [hf, h, is24_iff.mpr h24, hback]
        decide
      · have := hzero.mpr ⟨hs, hb⟩
        omega
    · have hback : freq = BitVec.ofNat 32 5935 := (eq_factor_iff (by decide)).mpr hfr
      refine ⟨.inr ⟨by omega, ?_⟩, fun hs hb => ?_⟩
      · rw [hf, h, is6_iff.mpr h6, hback]
        decide
      · have := hzero.mpr ⟨hs, hb⟩
        omega

/-- **When the conversions are inverse to one another.** -/
theorem channel_mhz_iff (ch freq startFactor : BitVec 32) :
    ChannelBack ch startFactor ∧ FreqBack freq startFactor ↔ offsetOk freq startFactor = true :=
  (and_iff_right (channel_back ch startFactor)).trans (freqBack_iff freq startFactor)

/-- 5000 MHz is the base of its band. -/
theorem channel_mhz_not_inverse :
    ¬ ∀ ch freq startFactor, ChannelBack ch startFactor ∧ FreqBack freq startFactor := by
  intro h
  have hr : wfMhz2channel 5000 0 = 0 := by decide
  obtain hc | ⟨hpos, -⟩ := (h 1 5000 0).2.channel
  · rw [hr] at hc
    cases hc
  · rw [hr] at hpos
    exact absurd hpos (by decide)

end Bcmdhd.Channels
