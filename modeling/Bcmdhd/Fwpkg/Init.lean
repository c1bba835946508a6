import Bcmdhd.Fwpkg.Parse

/-!
# Calls of `fwpkg_init` (`fwpkg_utils.c`)

One `fwpkg_info_t`, zeroed at first, is initialised before every use of the firmware and of its
signature.  The status is set before the units are walked over, and a set status ends later calls.

    the walk over a package does not fail, and later calls are about the file that was parsed  →
      BCME_OK only after a parse of that file that succeeded, and nothing of a parse that failed
                                                                                  (fwpkg_init_used)

Any result of a parse but `BCME_ERROR` is a success: a single image is `BCME_UNSUPPORTED`.
-/

namespace Bcmdhd.Fwpkg

/-- A call: the name, and what the file contains at that time. -/
structure InitCall where
  fname : String
  file : Option File
  deriving DecidableEq

/-- The information, and the last call that parsed with its result. -/
structure Used where
  fwpkg : FwpkgInfo
  lastParse : Option (InitCall × Int)

def unused : Used := ⟨zeroed, none⟩

/-- `fwpkg_init` returns `ret`. -/
def Returns (short : ShortRead) (s : Used) (c : InitCall) (ret : Int) (s' : Used) : Prop :=
  (∃ fuel, fwpkgInit short fuel s.fwpkg c.file = some (s'.fwpkg, ret)) ∧
    s'.lastParse = if s.fwpkg.status = .none then some (c, ret) else s.lastParse

/-- The calls of a run, each of which is `ok`. -/
inductive Called (short : ShortRead) (ok : Used → InitCall → Prop) : Used → Prop
  | start : Called short ok unused
  | init {s s' : Used} {c : InitCall} {ret : Int} (h : Called short ok s) (hok : ok s c)
      (hret : Returns short s c ret s') : Called short ok s'

/-- The unit that is opened, and whose size is given. -/
def selected (fwpkg : FwpkgInfo) (tag : Tag) : Option FwpkgUnit :=
  if fwpkg.status = .single then none else some (fwpkg.units tag)

/-- A unit that is recorded when the file is parsed. -/
def RecordedBy (short : ShortRead) (file : Option File) (u : FwpkgUnit) : Prop :=
  ∃ f fileSize w tag, file = some f ∧ Headed f fileSize ∧
    Reach short f (startWalk zeroed.units fileSize) w ∧ w.units tag = u ∧ u.type ≠ 0

/-- `BCME_OK` is about the file whose parse succeeded. -/
def OkParsed (c : InitCall) (ret : Int) (s' : Used) : Prop :=
  ret = BCME_OK → ∃ r, s'.lastParse = some (c, r) ∧ r ≠ BCME_ERROR

/-- After a parse that failed the next call parses, and no unit of the parse is selected. -/
def Forgotten (short : ShortRead) (s : Used) : Prop :=
  ∀ c, s.lastParse = some (c, BCME_ERROR) →
    (∀ fuel file, fwpkgInit short fuel s.fwpkg file = fwpkgParse short fuel zeroed file) ∧
    ∀ u, RecordedBy short c.file u → ∀ tag, selected s.fwpkg tag ≠ some u

/-- Where the status is not set, no unit of a package is of an unknown type or cannot be read; where
it is set, the file is the one that was parsed. -/
def Usable (short : ShortRead) (s : Used) (c : InitCall) : Prop :=
  (s.fwpkg.status = .none → ∀ f fileSize, c.file = some f → Headed f fileSize →
    ∀ w, Reach short f (startWalk zeroed.units fileSize) w → w.leftSize ≠ 0 →
      rtlv short f w ≠ none) ∧
  (s.fwpkg.status ≠ .none → ∃ r, s.lastParse = some (c, r))

section
variable {short : ShortRead} {file : File} {fileSize : Nat} {w : Walk}

theorem Reach.trans {w₀ w₁ : Walk} (h : Reach short file w₀ w₁) (h' : Reach short file w₁ w) :
    Reach short file w₀ w := by
  induction h' with
  | start => exact h
  | turn _ hleft hturn ih => exact ih.turn hleft hturn

/-- A loop that fails comes to a turn that fails. -/
theorem failed_turn {fuel : Nat} {units : Tag → FwpkgUnit}
    (h : fwpkgParseRtlvs short file fuel w = some (false, units)) :
    ∃ w', Reach short file w w' ∧ w'.leftSize ≠ 0 ∧ rtlv short file w' = none := by
  induction fuel generalizing w with
  | zero => cases h
  | succ fuel ih =>
    unfold fwpkgParseRtlvs at h
    by_cases hleft : w.leftSize = 0
    · rw [if_pos hleft] at h
      cases h
    · rw [if_neg hleft] at h
      cases hturn : rtlv short file w with
      | none => exact ⟨w, .start, hleft, hturn⟩
      | some w₁ =>
        rw [hturn] at h
        obtain ⟨w', hreach, hw'⟩ := ih h
        exact ⟨w', (Reach.turn .start hleft hturn).trans hreach, hw'⟩

/-- Units that fill the file are walked over. -/
theorem Tiled.turns {us : List FwpkgUnit} (hhead : Headed file fileSize)
    (h : Tiled file (bodySize fileSize) us 0)
    (hreach : Reach short file (startWalk zeroed.units fileSize) w) (hleft : w.leftSize ≠ 0) :
    rtlv short file w ≠ none := by
  intro hturn
  obtain ⟨hfile, hlt⟩ := hhead.bounds
  obtain ⟨fuel, hloop⟩ := fwpkgParseRtlvs_of_reach hreach (fwpkgParseRtlvs_none hleft hturn)
  cases (h.parsed hfile hlt hloop).1

end

/-! ## Runs -/

/-- A status is set after a parse that succeeded, and without one nothing is recorded. -/
def Kept (s : Used) : Prop :=
  (s.fwpkg.status = .none ∧ s.fwpkg.units = zeroed.units) ∨
    (s.fwpkg.status ≠ .none ∧ ∃ c r, s.lastParse = some (c, r) ∧ r ≠ BCME_ERROR)

section
variable {short : ShortRead} {s s' : Used} {c : InitCall} {ret : Int}

theorem Kept.forgotten (h : Kept s) : Forgotten short s := by
  intro c hlast
  rcases h with ⟨hstatus, hunits⟩ | ⟨-, c', r, hlast', hr⟩
  · refine ⟨fun fuel file => ?_, fun u hu tag hsel => ?_⟩
    · unfold fwpkgInit
      rw [if_neg fun h => h hstatus]
    · obtain ⟨f, fileSize, w, tag', -, -, -, -, htype⟩ := hu
      unfold selected at hsel
      rw [hstatus, if_neg (by decide), hunits] at hsel
      obtain rfl := Option.some_inj.mp hsel
      exact htype rfl
  · rw [hlast] at hlast'
    obtain ⟨-, rfl⟩ := Prod.mk.inj (Option.some_inj.mp hlast')
    exact absurd rfl hr

/-- A parse that does not come to a unit it cannot take leaves nothing behind when it fails. -/
theorem fwpkgParse_leaves {fuel : Nat} {file : Option File} {fwpkg : FwpkgInfo}
    (hturns : ∀ f fileSize, file = some f → Headed f fileSize →
      ∀ w, Reach short f (startWalk zeroed.units fileSize) w → w.leftSize ≠ 0 →
        rtlv short f w ≠ none)
    (h : fwpkgParse short fuel zeroed file = some (fwpkg, ret)) :
    (ret = BCME_ERROR → fwpkg = zeroed) ∧ (ret ≠ BCME_ERROR → fwpkg.status ≠ .none) := by
  cases file with
  | none =>
    obtain ⟨rfl, rfl⟩ := Prod.mk.inj (Option.some_inj.mp h)
    exact ⟨fun _ => rfl, fun hne => absurd rfl hne⟩
  | some f =>
    by_cases hhead : ∃ fileSize, Headed f fileSize
    · obtain ⟨fileSize, hhead⟩ := hhead
      rw [hhead.fwpkgParse] at h
      obtain ⟨⟨ok, units⟩, hr, heq⟩ := Option.map_eq_some_iff.mp h
      cases ok with
      | false =>
        obtain ⟨w, hreach, hleft, hturn⟩ := failed_turn hr
        exact absurd hturn (hturns f fileSize rfl hhead w hreach hleft)
      | true =>
        obtain ⟨rfl, rfl⟩ := Prod.mk.inj heq
        exact ⟨fun heq => absurd heq (by decide), fun _ heq => by cases heq⟩
    · obtain ⟨fwpkg', ret', hparse, -, -, herror, hsingle⟩ := @fwpkgParse_headless short f
        (fun f' fileSize hf h => hhead ⟨fileSize, hf ▸ h⟩) fuel
      obtain ⟨rfl, rfl⟩ := Prod.mk.inj (Option.some_inj.mp (h.symm.trans hparse))
      refine ⟨herror, fun hne => ?_⟩
      rw [hsingle hne]
      decide

theorem Kept.returns (h : Kept s) (hok : Usable short s c) (hret : Returns short s c ret s') :
    Kept s' ∧ OkParsed c ret s' := by
  obtain ⟨⟨fuel, hinit⟩, hlast⟩ := hret
  unfold fwpkgInit at hinit
  by_cases hstatus : s.fwpkg.status = .none
  · rw [if_neg fun h => h hstatus] at hinit
    rw [if_pos hstatus] at hlast
    obtain ⟨hfailed, hset⟩ := fwpkgParse_leaves (hok.1 hstatus) hinit
    by_cases herror : ret = BCME_ERROR
    · rw [Kept, hfailed herror]
      refine ⟨Or.inl ⟨rfl, rfl⟩, fun hok => ?_⟩
      rw [herror] at hok
      exact absurd hok (by decide)
    · exact ⟨Or.inr ⟨hset herror, c, ret, hlast, herror⟩, fun _ => ⟨ret, hlast, herror⟩⟩
  · rw [if_pos hstatus] at hinit
    rw [if_neg hstatus] at hlast
    obtain ⟨hsame, rfl⟩ := Prod.mk.inj (Option.some_inj.mp hinit)
    rcases h with ⟨hnone, -⟩ | ⟨-, c', r, hlast', hr⟩
    · exact absurd hnone hstatus
    · obtain ⟨r', hc⟩ := hok.2 hstatus
      obtain ⟨rfl, rfl⟩ := Prod.mk.inj (Option.some_inj.mp (hlast'.symm.trans hc))
      rw [Kept, ← hsame, hlast, hlast']
      exact ⟨Or.inr ⟨hstatus, _, _, rfl, hr⟩, fun _ => ⟨_, hlast.trans hlast', hr⟩⟩

/-- A package that is filled by units is used, where nothing has been recorded yet. -/
theorem Tiled.used {file : File} {fileSize : Nat} {us : List FwpkgUnit} (fname : String)
    (hhead : Headed file fileSize) (h : Tiled file (bodySize fileSize) us 0)
    (hcalled : Called short (Usable short) s) (hzero : s.fwpkg = zeroed) :
    ∃ s', Called short (Usable short) s' ∧ s'.lastParse = some (⟨fname, some file⟩, BCME_OK) := by
  obtain ⟨hfile, hlt⟩ := hhead.bounds
  obtain ⟨w, hreach, hbefore⟩ := @Tiled.reach short file 0 us fileSize hfile hlt h
  obtain ⟨fuel, hloop⟩ := fwpkgParseRtlvs_of_reach hreach (fwpkgParseRtlvs_zero hbefore.left)
  have hstatus : s.fwpkg.status = .none := by rw [hzero]; rfl
  have hturns : Usable short s ⟨fname, some file⟩ := by
    refine ⟨fun _ f m hf hhead' w' hreach' hleft => ?_, fun hset => absurd hstatus hset⟩
    obtain rfl := Option.some_inj.mp hf
    obtain rfl := Option.some_inj.mp (hhead.size.symm.trans hhead'.size)
    exact h.turns hhead hreach' hleft
  refine ⟨⟨⟨w.units, fileSize, .combined⟩, some (⟨fname, some file⟩, BCME_OK)⟩,
    hcalled.init hturns ⟨⟨fuel, ?_⟩, (if_pos hstatus).symm⟩, rfl⟩
  rw [hzero]
  refine (fwpkgInit_zeroed short fuel (some file)).trans ?_
  rw [hhead.fwpkgParse, hloop]
  rfl

theorem Called.kept (h : Called short (Usable short) s) : Kept s := by
  induction h with
  | start => exact Or.inl ⟨rfl, rfl⟩
  | init _ hok hret ih => exact (ih.returns hok hret).1

end

/-- **Calls.**  What failed is not used, where no walk fails and later calls are about the file that
was parsed. -/
theorem fwpkg_init_used (short : ShortRead) {s : Used} (h : Called short (Usable short) s) :
    Forgotten short s ∧ ∀ c ret s', Usable short s c → Returns short s c ret s' →
      OkParsed c ret s' ∧ Forgotten short s' := by
  refine ⟨h.kept.forgotten, fun c ret s' hok hret => ?_⟩
  obtain ⟨hkept, hparsed⟩ := h.kept.returns hok hret
  exact ⟨hparsed, hkept.forgotten⟩

/-- Firmware and signature without data. -/
def aPackage : File :=
  [0, 0, 0, 0, 1, 0, 0, 0, 0, 0, 0, 0, 2, 0, 0, 0, 0, 0, 0, 0, 1, 0, 0, 0, 24, 0, 0, 0,
    0xad, 0x2b, 0xad, 0xde, 0xad, 0xde, 0xe1, 0xfe]

/-- The first unit is cut off. -/
def cutPackage : File := aPackage.drop 8

/-- A parse of the cut file fails, and the package that is then written is parsed. -/
theorem fwpkg_init_used_aPackage : ∃ s₀ s, Called .fails (Usable .fails) s₀ ∧
    s₀.lastParse = some (⟨"fw.bin", some cutPackage⟩, BCME_ERROR) ∧ Forgotten .fails s₀ ∧
    Called .fails (Usable .fails) s ∧ s.lastParse = some (⟨"fw.bin", some aPackage⟩, BCME_OK) ∧
    ∀ c ret s', Usable .fails s c → Returns .fails s c ret s' →
      OkParsed c ret s' ∧ Forgotten .fails s' := by
  have hhead : Headed aPackage 36 := ⟨by decide, by decide, by rfl⟩
  have hsig : word aPackage 8 = 0 ∧ word aPackage 12 = 2 := by decide +kernel
  have hfw : word aPackage 0 = 0 ∧ word aPackage 4 = 1 := by decide
  have hone := @Tiled.unit aPackage 16 [] 16 .sig .nil (by decide) (by rw [hsig.2]; rfl)
    (by rw [hsig.1]; decide)
  rw [hsig.1] at hone
  have htwo := @Tiled.unit aPackage 16 _ 8 .fw hone (by decide) (by rw [hfw.2]; rfl)
    (by rw [hfw.1])
  rw [hfw.1] at htwo
  let c : InitCall := ⟨"fw.bin", some cutPackage⟩
  have hlen : fwpkgHdrValidation cutPackage 28 = BCME_ERROR := by rfl
  have husable : Usable .fails unused c := by
    refine ⟨fun _ f fileSize hf hcut => ?_, fun hset => absurd rfl hset⟩
    obtain rfl := Option.some_inj.mp hf
    obtain rfl : fileSize = 28 := Option.some_inj.mp (hcut.size.symm.trans (by decide))
    exact absurd (hlen.symm.trans hcut.valid) (by decide)
  have hfailed : Called .fails (Usable .fails) ⟨zeroed, some (c, BCME_ERROR)⟩ :=
    Called.start.init husable ⟨⟨0, rfl⟩, rfl⟩
  obtain ⟨s, hcalled, hlast⟩ := htwo.used "fw.bin" hhead hfailed rfl
  exact ⟨_, s, hfailed, rfl, (fwpkg_init_used .fails hfailed).1, hcalled, hlast,
    (fwpkg_init_used .fails hcalled).2⟩

/-- A unit of type 4. -/
def unknownUnit : File :=
  [0, 0, 0, 0, 4, 0, 0, 0, 0, 0, 0, 0, 1, 0, 0, 0, 16, 0, 0, 0,
    0xad, 0x2b, 0xad, 0xde, 0xad, 0xde, 0xe1, 0xfe]

/-- The parse fails, and the next call returns `BCME_OK`. -/
theorem fwpkg_init_stale : ¬ ∃ short, ∀ s, Called short (fun _ _ => True) s →
    Forgotten short s ∧ ∀ c ret s', Returns short s c ret s' →
      OkParsed c ret s' ∧ Forgotten short s' := by
  rintro ⟨short, h⟩
  have hhead : Headed unknownUnit 28 := ⟨by decide, by decide, by rfl⟩
  have hturn : rtlv short unknownUnit (startWalk zeroed.units 28) = none := by
    have hword : word unknownUnit 4 = 4 := by decide +kernel
    have hread : readUnit short unknownUnit ((0x100000000 + 8 - 8) % 0x100000000) 0 0 =
        some (word unknownUnit 0, word unknownUnit 4) := readUnit_eq (by decide) 0 0
    unfold rtlv
    dsimp only [startWalk, SIZEOF_FWPKG_HDR]
    rw [hread, hword]
    rfl
  let c : InitCall := ⟨"fw.bin", some unknownUnit⟩
  let s : Used := ⟨⟨zeroed.units, 0, .combined⟩, some (c, BCME_ERROR)⟩
  have hfirst : Returns short unused c BCME_ERROR s := by
    refine ⟨⟨1, (fwpkgInit_zeroed short 1 _).trans ?_⟩, rfl⟩
    rw [hhead.fwpkgParse, fwpkgParseRtlvs_none (by decide) hturn]
    rfl
  have hsecond : Returns short s c BCME_OK s := ⟨⟨0, rfl⟩, rfl⟩
  obtain ⟨r, hr, hne⟩ := ((h s (Called.start.init trivial hfirst)).2 c _ s hsecond).1 rfl
  obtain ⟨-, rfl⟩ := Prod.mk.inj (Option.some_inj.mp hr)
  exact hne rfl

end Bcmdhd.Fwpkg
