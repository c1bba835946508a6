import Bcmdhd.Lib.LittleEndian
import Mathlib.Logic.Function.Basic

/-!
# Firmware packages (`fwpkg_utils.c`)

A combined package is units, one behind the other, and a header.  A unit is its data, a length and a
type, and the units are walked from the header backwards.

    the package is parsed soundly, with every recorded unit inside the file  ↔
      where units of known types have been read, no unit is longer than what is left,
      no 1 to 7 bytes are left, and units that fill the file include both kinds   (fwpkg_sound_iff)

What is left is a `uint32`.  At the end of the file the driver's read gives fewer bytes, and the
length and the type of the unit before stay; the tools' read fails.
-/

namespace Bcmdhd.Fwpkg

open Records

/-! ## Files -/

abbrev File := List UInt8

/-- What a read does that cannot give all bytes. -/
inductive ShortRead
  | fails | givesFewer
  deriving DecidableEq

/-- The size as an `int`, where it is positive. -/
def imageSize (file : File) : Option Nat :=
  let size := file.length % 0x100000000
  if 0 < size ∧ size < 0x80000000 then some size else none

/-- A `uint32` of the file. -/
def word (file : File) (pos : Nat) : Nat := load (fun i => file.getD i 0) pos 4

/-- A `uint32` that is read over its old value; behind the end the old bytes stay. -/
def wordOver (file : File) (pos old : Nat) : Nat :=
  leValue ((List.range 4).map fun i => file.getD (pos + i) ((leBytes 4 old).getD i 0))

/-! ## Algorithm -/

def BCME_OK : Int := 0
def BCME_ERROR : Int := -1
def BCME_UNSUPPORTED : Int := -23

def FWPKG_HDR_MGCW0 : Nat := 0xDEAD2BAD
def FWPKG_HDR_MGCW1 : Nat := 0xFEE1DEAD
def FWPKG_MAX_SUPPORTED_VER : Nat := 1
def SIZEOF_FWPKG_HDR : Nat := 20

inductive Tag
  | fw | sig | info
  deriving DecidableEq

def Tag.code : Tag → Nat
  | .fw => 1
  | .sig => 2
  | .info => 3

/-- The known types. -/
def tagOf : Nat → Option Tag
  | 1 => some .fw
  | 2 => some .sig
  | 3 => some .info
  | _ => none

/-- `fwpkg_unit_t`.  A type of 0 is that of no unit. -/
structure FwpkgUnit where
  offset : Nat
  size : Nat
  type : Nat
  deriving DecidableEq

inductive Status
  | none | single | combined
  deriving DecidableEq

/-- `fwpkg_info_t` -/
structure FwpkgInfo where
  units : Tag → FwpkgUnit
  fileSize : Nat
  status : Status

def zeroed : FwpkgInfo := ⟨fun _ => ⟨0, 0, 0⟩, 0, .none⟩

/-- The header of a package of `pkgLen` bytes, in the order of `fwpkg_hdr_t`. -/
def fwpkgHdrValidation (file : File) (pkgLen : Nat) : Int :=
  let hdr := pkgLen - SIZEOF_FWPKG_HDR
  if word file (hdr + 12) ≠ FWPKG_HDR_MGCW0 then BCME_UNSUPPORTED
  else if word file (hdr + 16) ≠ FWPKG_HDR_MGCW1 then BCME_ERROR
  else if word file (hdr + 8) ≠ pkgLen - 12 then BCME_ERROR
  else if FWPKG_MAX_SUPPORTED_VER < word file (hdr + 4) then BCME_ERROR
  else BCME_OK

/-- The walk over the units; `unitSize` and `unitType` are kept from the unit before. -/
structure Walk where
  leftSize : Nat
  unitSize : Nat
  unitType : Nat
  units : Tag → FwpkgUnit

def startWalk (units : Tag → FwpkgUnit) (fileSize : Nat) : Walk :=
  ⟨fileSize - SIZEOF_FWPKG_HDR, 0, 0, units⟩

/-- The length and the type at `pos`, `none` if a read fails. -/
def readUnit (short : ShortRead) (file : File) (pos unitSize unitType : Nat) : Option (Nat × Nat) :=
  if short = .fails ∧ file.length < pos + 8 then none
  else some (wordOver file pos unitSize, wordOver file (pos + 4) unitType)

/-- One turn, `none` if it fails. -/
def rtlv (short : ShortRead) (file : File) (w : Walk) : Option Walk := do
  let pos := (0x100000000 + w.leftSize - 8) % 0x100000000
  let (unitSize, unitType) ← readUnit short file pos w.unitSize w.unitType
  let tag ← tagOf unitType
  let leftSize := (0x100000000 + pos - unitSize) % 0x100000000
  pure ⟨leftSize, unitSize, unitType, Function.update w.units tag ⟨leftSize, unitSize, unitType⟩⟩

/-- The result, and the units that are recorded.  `none` is out of fuel. -/
def fwpkgParseRtlvs (short : ShortRead) (file : File) :
    Nat → Walk → Option (Bool × (Tag → FwpkgUnit))
  | 0, _ => none
  | fuel + 1, w =>
    if w.leftSize = 0 then some (true, w.units)
    else
      match rtlv short file w with
      | none => some (false, w.units)
      | some w' => fwpkgParseRtlvs short file fuel w'

/-- A file that cannot be opened is `none`. -/
def fwpkgParse (short : ShortRead) (fuel : Nat) (fwpkg : FwpkgInfo) (file : Option File) :
    Option (FwpkgInfo × Int) :=
  match file with
  | none => some (fwpkg, BCME_ERROR)
  | some file =>
    match imageSize file with
    | none => some (fwpkg, BCME_ERROR)
    | some fileSize =>
      -- the header cannot be read
      if fileSize < SIZEOF_FWPKG_HDR then some (fwpkg, BCME_ERROR)
      else
        let ret := fwpkgHdrValidation file fileSize
        if ret = BCME_ERROR then some (fwpkg, ret)
        else if ret = BCME_OK then
          match fwpkgParseRtlvs short file fuel (startWalk fwpkg.units fileSize) with
          | none => none
          | some (true, units) => some (⟨units, fileSize, .combined⟩, ret)
          | some (false, units) => some ({ fwpkg with units, status := .combined }, BCME_ERROR)
        else some ({ fwpkg with fileSize, status := .single }, ret)

/-- The information afterwards, and the result. -/
def fwpkgInit (short : ShortRead) (fuel : Nat) (fwpkg : FwpkgInfo) (file : Option File) :
    Option (FwpkgInfo × Int) :=
  if fwpkg.status ≠ .none then some (fwpkg, BCME_OK) else fwpkgParse short fuel zeroed file

/-- The result, and the position in the file that was opened. -/
def fwpkgOpenUnit (fwpkg : FwpkgInfo) (file : Option File) (tag : Tag) :
    FwpkgInfo × Int × Option Nat :=
  match file.bind imageSize with
  | none => (fwpkg, BCME_ERROR, none)
  | some size =>
    if fwpkg.status = .single then ({ fwpkg with fileSize := size }, BCME_UNSUPPORTED, some 0)
    else (fwpkg, BCME_OK, some (fwpkg.units tag).offset)

def fwpkgGetUnitSize (fwpkg : FwpkgInfo) (tag : Tag) : Nat :=
  if fwpkg.status = .single then fwpkg.fileSize else (fwpkg.units tag).size

/-! ## Packages -/

/-- The units that fill a file from `hi` down to `lo`, the last one in the file first. -/
inductive Tiled (file : File) (hi : Nat) : List FwpkgUnit → Nat → Prop
  | nil : Tiled file hi [] hi
  | unit {us : List FwpkgUnit} {lo : Nat} {tag : Tag} (h : Tiled file hi us lo) (hlo : 8 ≤ lo)
      (htag : tagOf (word file (lo - 4)) = some tag) (hsize : word file (lo - 8) ≤ lo - 8) :
      Tiled file hi (us ++ [⟨lo - 8 - word file (lo - 8), word file (lo - 8), word file (lo - 4)⟩])
        (lo - 8 - word file (lo - 8))

/-- A combined package of `fileSize` bytes, as far as its header goes. -/
structure Headed (file : File) (fileSize : Nat) : Prop where
  size : imageSize file = some fileSize
  room : SIZEOF_FWPKG_HDR ≤ fileSize
  valid : fwpkgHdrValidation file fileSize = BCME_OK

def bodySize (fileSize : Nat) : Nat := fileSize - SIZEOF_FWPKG_HDR

def Inside (fileSize : Nat) (u : FwpkgUnit) : Prop :=
  u.type = 0 ∨ u.offset + 8 + u.size ≤ bodySize fileSize

/-- The data of a unit of the file is selected. -/
def Selects (fwpkg : FwpkgInfo) (file : File) (us : List FwpkgUnit) (tag : Tag) : Prop :=
  ∃ u ∈ us, tagOf u.type = some tag ∧
    fwpkgOpenUnit fwpkg (some file) tag = (fwpkg, BCME_OK, some u.offset) ∧
    fwpkgGetUnitSize fwpkg tag = u.size

/-- The package that the information is about. -/
def Parsed (fwpkg : FwpkgInfo) (file : File) : Prop :=
  imageSize file = some fwpkg.fileSize ∧ ∃ us, Tiled file (bodySize fwpkg.fileSize) us 0 ∧
    (∀ tag, Inside fwpkg.fileSize (fwpkg.units tag)) ∧ Selects fwpkg file us .fw ∧
    Selects fwpkg file us .sig

/-- The file is parsed to an end, and what is taken as a package is one. -/
def Sound (short : ShortRead) (file : Option File) : Prop :=
  ∃ fuel fwpkg ret, fwpkgInit short fuel zeroed file = some (fwpkg, ret) ∧
    (ret = BCME_OK → ∃ f, file = some f ∧ Parsed fwpkg f)

/-- What the walk comes to. -/
inductive Reach (short : ShortRead) (file : File) (w₀ : Walk) : Walk → Prop
  | start : Reach short file w₀ w₀
  | turn {w w' : Walk} (h : Reach short file w₀ w) (hleft : w.leftSize ≠ 0)
      (hturn : rtlv short file w = some w') : Reach short file w₀ w'

/-- No unit is recorded that is outside, also by a walk that fails. -/
def RecordedInside (short : ShortRead) (file : Option File) : Prop :=
  ∀ f fileSize, file = some f → Headed f fileSize →
    ∀ w, Reach short f (startWalk zeroed.units fileSize) w → ∀ tag, Inside fileSize (w.units tag)

/-- The length and the type that are kept behind some units. -/
def kept (us : List FwpkgUnit) : Nat × Nat := (us.getLast?.map fun u => (u.size, u.type)).getD (0, 0)

/-- What stands in front of the units: a unit that fits, or none of a known type. -/
def Fits (short : ShortRead) (file : Option File) : Prop :=
  ∀ f fileSize, file = some f → Headed f fileSize →
    (∀ us lo, Tiled f (bodySize fileSize) us lo → lo ≠ 0 → ∀ unitSize unitType,
      readUnit short f ((0x100000000 + lo - 8) % 0x100000000) (kept us).1 (kept us).2 =
        some (unitSize, unitType) →
      tagOf unitType ≠ none → 8 ≤ lo ∧ unitSize ≤ lo - 8) ∧
    ∀ us, Tiled f (bodySize fileSize) us 0 →
      (∃ u ∈ us, tagOf u.type = some .fw) ∧ ∃ u ∈ us, tagOf u.type = some .sig

/-! ## The walk -/

section
variable {short : ShortRead} {file : File} {hi lo : Nat} {us : List FwpkgUnit} {w w' w₀ : Walk}

theorem wordOver_lt (file : File) (pos old : Nat) : wordOver file pos old < 0x100000000 := by
  have hlt := leValue_lt ((List.range 4).map fun i => file.getD (pos + i) ((leBytes 4 old).getD i 0))
  rwa [List.length_map, List.length_range] at hlt

/-- A number that is in the file is read. -/
theorem wordOver_eq {pos : Nat} (h : pos + 4 ≤ file.length) (old : Nat) :
    wordOver file pos old = word file pos := by
  unfold wordOver word load readAt
  congr 1
  apply List.map_congr_left
  intro i hi
  rw [List.mem_range] at hi
  have hlt : pos + i < file.length := by omega
  simp only [List.getD_eq_getElem?_getD, List.getElem?_eq_getElem hlt, Option.getD_some]

theorem readUnit_eq {pos : Nat} (h : pos + 8 ≤ file.length) (unitSize unitType : Nat) :
    readUnit short file pos unitSize unitType = some (word file pos, word file (pos + 4)) := by
  unfold readUnit
  rw [if_neg (by omega), wordOver_eq (by omega), wordOver_eq (by omega)]

theorem readUnit_lt {pos a b unitSize unitType : Nat}
    (h : readUnit short file pos a b = some (unitSize, unitType)) : unitSize < 0x100000000 := by
  unfold readUnit at h
  split at h
  · cases h
  · obtain ⟨rfl, -⟩ := Prod.mk.inj (Option.some_inj.mp h)
    exact wordOver_lt _ _ _

theorem rtlv_eq_some : rtlv short file w = some w' ↔ ∃ unitSize unitType tag,
    readUnit short file ((0x100000000 + w.leftSize - 8) % 0x100000000) w.unitSize w.unitType =
      some (unitSize, unitType) ∧ tagOf unitType = some tag ∧
    w' = ⟨(0x100000000 + (0x100000000 + w.leftSize - 8) % 0x100000000 - unitSize) % 0x100000000,
      unitSize, unitType, Function.update w.units tag
        ⟨(0x100000000 + (0x100000000 + w.leftSize - 8) % 0x100000000 - unitSize) % 0x100000000,
          unitSize, unitType⟩⟩ := by
  unfold rtlv
  constructor
  · intro h
    obtain ⟨⟨unitSize, unitType⟩, hread, h⟩ := Option.bind_eq_some_iff.mp h
    obtain ⟨tag, htag, h⟩ := Option.bind_eq_some_iff.mp h
    exact ⟨unitSize, unitType, tag, hread, htag, (Option.some_inj.mp h).symm⟩
  · rintro ⟨unitSize, unitType, tag, hread, htag, rfl⟩
    simp only [hread, htag, Option.bind_eq_bind, Option.bind_some]
    rfl

theorem Tiled.le (h : Tiled file hi us lo) : lo ≤ hi := by
  induction h with
  | nil => exact Nat.le_refl _
  | unit h hlo htag hsize ih => omega

/-- Every unit is inside, with its length and type. -/
theorem Tiled.inside (h : Tiled file hi us lo) : ∀ u ∈ us, u.offset + 8 + u.size ≤ hi := by
  induction h with
  | nil => exact fun u hu => absurd hu List.not_mem_nil
  | unit h hlo htag hsize ih =>
    intro u hu
    rcases List.mem_append.mp hu with hu | hu
    · exact ih u hu
    · obtain rfl := List.mem_singleton.mp hu
      have hle := h.le
      dsimp only
      omega

/-- The units that are recorded are the ones that were read last. -/
def Recorded (units : Tag → FwpkgUnit) (us : List FwpkgUnit) : Prop :=
  ∀ tag, (units tag = ⟨0, 0, 0⟩ ∧ ∀ u ∈ us, tagOf u.type ≠ some tag) ∨
    (units tag ∈ us ∧ tagOf (units tag).type = some tag)

/-- The walk is in front of the units. -/
structure Before (us : List FwpkgUnit) (lo : Nat) (w : Walk) : Prop where
  left : w.leftSize = lo
  kept : w.unitSize = (kept us).1 ∧ w.unitType = (kept us).2
  recorded : Recorded w.units us

theorem Recorded.inside {units : Tag → FwpkgUnit} {fileSize : Nat} (h : Recorded units us)
    (ht : Tiled file (bodySize fileSize) us lo) (tag : Tag) : Inside fileSize (units tag) := by
  rcases h tag with ⟨hzero, -⟩ | ⟨hmem, -⟩
  · rw [hzero]
    exact Or.inl rfl
  · exact Or.inr (ht.inside _ hmem)

theorem Recorded.update {units : Tag → FwpkgUnit} (h : Recorded units us) {tag : Tag}
    {u : FwpkgUnit} (hu : tagOf u.type = some tag) :
    Recorded (Function.update units tag u) (us ++ [u]) := by
  intro tag'
  by_cases htag : tag' = tag
  · obtain rfl := htag
    rw [Function.update_self]
    exact Or.inr ⟨List.mem_append_right _ (List.mem_singleton_self u), hu⟩
  · rw [Function.update_of_ne htag]
    rcases h tag' with ⟨hzero, hnone⟩ | ⟨hmem, hsome⟩
    · refine Or.inl ⟨hzero, fun v hv => ?_⟩
      rcases List.mem_append.mp hv with hv | hv
      · exact hnone v hv
      · obtain rfl := List.mem_singleton.mp hv
        rw [hu]
        exact fun heq => htag (Option.some_inj.mp heq).symm
    · exact Or.inr ⟨List.mem_append_left _ hmem, hsome⟩

theorem Before.start (fileSize : Nat) :
    Before [] (bodySize fileSize) (startWalk zeroed.units fileSize) :=
  ⟨rfl, ⟨rfl, rfl⟩, fun _ => Or.inl ⟨rfl, fun _ hu => absurd hu List.not_mem_nil⟩⟩

/-- The turn that reads a unit that fits. -/
theorem Before.turn (h : Before us lo w) {unitSize unitType : Nat} {tag : Tag}
    (hread : readUnit short file ((0x100000000 + lo - 8) % 0x100000000) w.unitSize w.unitType =
      some (unitSize, unitType)) (htag : tagOf unitType = some tag) (hlo : 8 ≤ lo)
    (hlt : lo < 0x100000000) (hsize : unitSize ≤ lo - 8) :
    ∃ w', rtlv short file w = some w' ∧
      Before (us ++ [⟨lo - 8 - unitSize, unitSize, unitType⟩]) (lo - 8 - unitSize) w' := by
  have hpos : (0x100000000 + lo - 8) % 0x100000000 = lo - 8 := by omega
  have hleft : (0x100000000 + (lo - 8) - unitSize) % 0x100000000 = lo - 8 - unitSize := by omega
  refine ⟨_, rtlv_eq_some.mpr ⟨unitSize, unitType, tag, by rw [h.left]; exact hread, htag, rfl⟩, ?_⟩
  rw [h.left, hpos, hleft]
  refine ⟨rfl, ?_, h.recorded.update htag⟩
  unfold Fwpkg.kept
  rw [List.getLast?_concat]
  exact ⟨rfl, rfl⟩

/-- Units that fill the file are walked over. -/
theorem Tiled.reach {fileSize : Nat} (hfile : bodySize fileSize ≤ file.length)
    (hlt : bodySize fileSize < 0x100000000) (h : Tiled file (bodySize fileSize) us lo) :
    ∃ w, Reach short file (startWalk zeroed.units fileSize) w ∧ Before us lo w := by
  induction h with
  | nil => exact ⟨_, .start, .start fileSize⟩
  | @unit us lo tag h hlo htag hsize ih =>
    obtain ⟨w, hreach, hbefore⟩ := ih
    have hle := h.le
    have hpos : (0x100000000 + lo - 8) % 0x100000000 = lo - 8 := by omega
    have hread : readUnit short file ((0x100000000 + lo - 8) % 0x100000000) w.unitSize w.unitType =
        some (word file (lo - 8), word file (lo - 4)) := by
      rw [hpos, readUnit_eq (by omega), show lo - 8 + 4 = lo - 4 by omega]
    obtain ⟨w', hturn, hbefore'⟩ := hbefore.turn hread htag hlo (by omega) hsize
    refine ⟨w', .turn hreach ?_ hturn, hbefore'⟩
    rw [hbefore.left]
    omega

theorem fwpkgParseRtlvs_of_reach (h : Reach short file w₀ w) {fuel : Nat}
    {r : Bool × (Tag → FwpkgUnit)} (hr : fwpkgParseRtlvs short file fuel w = some r) :
    ∃ fuel, fwpkgParseRtlvs short file fuel w₀ = some r := by
  induction h generalizing fuel with
  | start => exact ⟨fuel, hr⟩
  | @turn w w' h hleft hturn ih =>
    refine @ih (fuel + 1) ?_
    unfold fwpkgParseRtlvs
    rw [if_neg hleft, hturn]
    exact hr

theorem fwpkgParseRtlvs_zero (h : w.leftSize = 0) :
    fwpkgParseRtlvs short file 1 w = some (true, w.units) := if_pos h

theorem fwpkgParseRtlvs_none (h : w.leftSize ≠ 0) (hturn : rtlv short file w = none) :
    fwpkgParseRtlvs short file 1 w = some (false, w.units) := by
  unfold fwpkgParseRtlvs
  rw [if_neg h, hturn]

/-- More fuel does not change the result. -/
theorem fwpkgParseRtlvs_mono {fuel : Nat} {r : Bool × (Tag → FwpkgUnit)}
    (h : fwpkgParseRtlvs short file fuel w = some r) (k : Nat) :
    fwpkgParseRtlvs short file (fuel + k) w = some r := by
  induction fuel generalizing w with
  | zero => cases h
  | succ fuel ih =>
    rw [Nat.add_right_comm]
    unfold fwpkgParseRtlvs at h ⊢
    by_cases hleft : w.leftSize = 0
    · rw [if_pos hleft] at h ⊢
      exact h
    · rw [if_neg hleft] at h ⊢
      cases hturn : rtlv short file w with
      | none =>
        rw [hturn] at h
        exact h
      | some w' =>
        rw [hturn] at h
        exact ih h

theorem fwpkgParseRtlvs_unique {m n : Nat} {r r' : Bool × (Tag → FwpkgUnit)}
    (h : fwpkgParseRtlvs short file m w = some r) (h' : fwpkgParseRtlvs short file n w = some r') :
    r = r' := by
  have hm := fwpkgParseRtlvs_mono h n
  have hn := fwpkgParseRtlvs_mono h' m
  rw [Nat.add_comm] at hn
  exact Option.some_inj.mp (hm.symm.trans hn)

/-- The loop ends with the units of every way to fill the file. -/
theorem Tiled.parsed {fileSize fuel : Nat} (hfile : bodySize fileSize ≤ file.length)
    (hlt : bodySize fileSize < 0x100000000) (h : Tiled file (bodySize fileSize) us 0)
    {r : Bool × (Tag → FwpkgUnit)}
    (hr : fwpkgParseRtlvs short file fuel (startWalk zeroed.units fileSize) = some r) :
    r.1 = true ∧ Recorded r.2 us := by
  obtain ⟨w, hreach, hbefore⟩ := @Tiled.reach short file 0 us fileSize hfile hlt h
  obtain ⟨fuel', hloop⟩ := fwpkgParseRtlvs_of_reach hreach (fwpkgParseRtlvs_zero hbefore.left)
  obtain rfl := fwpkgParseRtlvs_unique hr hloop
  exact ⟨rfl, hbefore.recorded⟩

end

/-! ## Packages are parsed -/

section
variable {short : ShortRead} {file : File} {fileSize : Nat}

theorem imageSize_bounds (h : imageSize file = some fileSize) :
    fileSize ≤ file.length ∧ fileSize < 0x80000000 := by
  unfold imageSize at h
  dsimp only at h
  split at h
  · next hpos =>
    obtain rfl := Option.some_inj.mp h
    exact ⟨Nat.mod_le _ _, hpos.2⟩
  · cases h

theorem Headed.bounds (h : Headed file fileSize) :
    bodySize fileSize ≤ file.length ∧ bodySize fileSize < 0x100000000 := by
  obtain ⟨hle, hlt⟩ := imageSize_bounds h.size
  unfold bodySize
  omega

theorem fwpkgInit_zeroed (short : ShortRead) (fuel : Nat) (file : Option File) :
    fwpkgInit short fuel zeroed file = fwpkgParse short fuel zeroed file := if_neg fun h => h rfl

/-- The parse of a file with the header of a package. -/
theorem Headed.fwpkgParse (h : Headed file fileSize) (fuel : Nat) :
    fwpkgParse short fuel zeroed (some file) =
      (fwpkgParseRtlvs short file fuel (startWalk zeroed.units fileSize)).map fun r =>
        if r.1 then (⟨r.2, fileSize, .combined⟩, BCME_OK)
        else (⟨r.2, 0, .combined⟩, BCME_ERROR) := by
  unfold Fwpkg.fwpkgParse
  dsimp only
  rw [h.size]
  dsimp only
  rw [if_neg (Nat.not_lt_of_le h.room), h.valid, if_neg (by decide), if_pos rfl]
  cases fwpkgParseRtlvs short file fuel (startWalk zeroed.units fileSize) with
  | none => rfl
  | some r =>
    obtain ⟨ok, units⟩ := r
    cases ok
    · rfl
    · rfl

/-- A file without such a header is not taken as a package. -/
theorem fwpkgParse_headless (h : ∀ f fileSize, file = f → ¬ Headed f fileSize) (fuel : Nat) :
    ∃ fwpkg ret, fwpkgParse short fuel zeroed (some file) = some (fwpkg, ret) ∧ ret ≠ BCME_OK ∧
      fwpkg.units = zeroed.units ∧
      (ret = BCME_ERROR → fwpkg = zeroed) ∧ (ret ≠ BCME_ERROR → fwpkg.status = .single) := by
  unfold fwpkgParse
  dsimp only
  cases hsize : imageSize file with
  | none => exact ⟨_, _, rfl, by decide, rfl, fun _ => rfl, fun hne => absurd rfl hne⟩
  | some fileSize =>
    dsimp only
    by_cases hroom : fileSize < SIZEOF_FWPKG_HDR
    · rw [if_pos hroom]
      exact ⟨_, _, rfl, by decide, rfl, fun _ => rfl, fun hne => absurd rfl hne⟩
    · rw [if_neg hroom]
      by_cases herror : fwpkgHdrValidation file fileSize = BCME_ERROR
      · rw [if_pos herror]
        refine ⟨_, _, rfl, ?_, rfl, fun _ => rfl, fun hne => absurd herror hne⟩
        rw [herror]
        decide
      · have hok : fwpkgHdrValidation file fileSize ≠ BCME_OK := fun hok =>
          h file fileSize rfl ⟨hsize, Nat.le_of_not_lt hroom, hok⟩
        rw [if_neg herror, if_neg hok]
        exact ⟨_, _, rfl, hok, rfl, fun heq => absurd heq herror, fun _ => rfl⟩

/-- What is recorded is selected. -/
theorem selects_of_recorded {units : Tag → FwpkgUnit} {us : List FwpkgUnit} {tag : Tag}
    (hsize : imageSize file = some fileSize) (h : Recorded units us)
    (hmem : ∃ u ∈ us, tagOf u.type = some tag) :
    Selects ⟨units, fileSize, .combined⟩ file us tag := by
  rcases h tag with ⟨-, hnone⟩ | ⟨hin, htag⟩
  · obtain ⟨u, hu, htag⟩ := hmem
    exact absurd htag (hnone u hu)
  · refine ⟨units tag, hin, htag, ?_, rfl⟩
    unfold fwpkgOpenUnit
    rw [Option.bind_some, hsize]
    rfl

/-- Where the units fit, the walk is always in front of units. -/
theorem before_of_fits (hhead : Headed file fileSize) (hfits : Fits short (some file)) {w w₀ : Walk}
    (hstart : w₀ = startWalk zeroed.units fileSize) (h : Reach short file w₀ w) :
    ∃ us lo, Tiled file (bodySize fileSize) us lo ∧ Before us lo w := by
  obtain rfl := hstart
  induction h with
  | start => exact ⟨[], _, .nil, .start fileSize⟩
  | @turn w w' h hleft hturn ih =>
    obtain ⟨us, lo, htiled, hbefore⟩ := ih
    obtain ⟨unitSize, unitType, tag, hread, htag, -⟩ := rtlv_eq_some.mp hturn
    obtain ⟨hfile, hlt⟩ := hhead.bounds
    have hle := htiled.le
    have hkept := hbefore.kept
    rw [hbefore.left] at hread hleft
    have hread' := hread
    rw [hkept.1, hkept.2] at hread'
    have hfit := (hfits file fileSize rfl hhead).1 us lo htiled hleft unitSize unitType hread'
      (by rw [htag]; exact Option.some_ne_none tag)
    -- the unit is the one of the file
    have hpos : (0x100000000 + lo - 8) % 0x100000000 = lo - 8 := by omega
    obtain ⟨rfl, rfl⟩ : word file (lo - 8) = unitSize ∧ word file (lo - 4) = unitType := by
      rw [hpos, readUnit_eq (by omega), show lo - 8 + 4 = lo - 4 by omega] at hread
      exact Prod.mk.inj (Option.some_inj.mp hread)
    obtain ⟨w'', hturn', hbefore'⟩ := hbefore.turn hread htag hfit.1 (by omega) hfit.2
    obtain rfl := Option.some_inj.mp (hturn.symm.trans hturn')
    exact ⟨_, _, .unit htiled hfit.1 htag hfit.2, hbefore'⟩

/-- Where the units fit, the walk ends. -/
theorem ends_of_fits (hhead : Headed file fileSize) (hfits : Fits short (some file)) :
    ∃ fuel r, fwpkgParseRtlvs short file fuel (startWalk zeroed.units fileSize) = some r ∧
      (r.1 = true → ∃ us, Tiled file (bodySize fileSize) us 0) := by
  -- what is left decreases, from every state that is reached
  have hend : ∀ n, ∀ w, Reach short file (startWalk zeroed.units fileSize) w → w.leftSize < n →
      ∃ fuel r, fwpkgParseRtlvs short file fuel w = some r ∧
        (r.1 = true → ∃ us, Tiled file (bodySize fileSize) us 0) := by
    intro n
    induction n with
    | zero => exact fun w _ hlt => absurd hlt (Nat.not_lt_zero _)
    | succ n ih =>
      intro w hreach hn
      obtain ⟨us, lo, htiled, hbefore⟩ := before_of_fits hhead hfits rfl hreach
      by_cases hleft : w.leftSize = 0
      · refine ⟨1, _, fwpkgParseRtlvs_zero hleft, fun _ => ⟨us, ?_⟩⟩
        rw [hbefore.left] at hleft
        rwa [hleft] at htiled
      · cases hturn : rtlv short file w with
        | none => exact ⟨1, _, fwpkgParseRtlvs_none hleft hturn, fun h => by cases h⟩
        | some w' =>
          have hreach' := hreach.turn hleft hturn
          have hdecr : w'.leftSize < w.leftSize := by
            obtain ⟨unitSize, unitType, tag, hread, htag, rfl⟩ := rtlv_eq_some.mp hturn
            have hle := htiled.le
            have hbounds := hhead.bounds
            have hkept := hbefore.kept
            rw [hbefore.left] at hread hleft ⊢
            rw [hkept.1, hkept.2] at hread
            have hfit := (hfits file fileSize rfl hhead).1 us lo htiled hleft unitSize unitType hread
              (by rw [htag]; exact Option.some_ne_none tag)
            dsimp only
            omega
          obtain ⟨fuel, r, hr, htrue⟩ := ih w' hreach' (by omega)
          refine ⟨fuel + 1, r, ?_, htrue⟩
          unfold fwpkgParseRtlvs
          rw [if_neg hleft, hturn]
          exact hr
  exact hend _ _ .start (Nat.lt_succ_self _)

/-- A unit of a known type that does not fit is recorded outside the file. -/
theorem outside_of_misfit (hhead : Headed file fileSize) {us : List FwpkgUnit} {lo : Nat}
    (htiled : Tiled file (bodySize fileSize) us lo) (hlo : lo ≠ 0) {unitSize unitType : Nat}
    {tag : Tag} (hread : readUnit short file ((0x100000000 + lo - 8) % 0x100000000) (kept us).1
      (kept us).2 = some (unitSize, unitType)) (htag : tagOf unitType = some tag)
    (hmisfit : ¬ (8 ≤ lo ∧ unitSize ≤ lo - 8)) :
    ∃ w, Reach short file (startWalk zeroed.units fileSize) w ∧
      ¬ Inside fileSize (w.units tag) := by
  obtain ⟨hfile, hlt⟩ := hhead.bounds
  obtain ⟨w, hreach, hbefore⟩ := @Tiled.reach short file lo us fileSize hfile hlt htiled
  have hle := htiled.le
  have hunit := readUnit_lt hread
  have hsmall := (imageSize_bounds hhead.size).2
  have hkept := hbefore.kept
  rw [← hkept.1, ← hkept.2, ← hbefore.left] at hread
  have hleft : w.leftSize ≠ 0 := by rwa [hbefore.left]
  refine ⟨_, hreach.turn hleft (rtlv_eq_some.mpr ⟨_, _, tag, hread, htag, rfl⟩), ?_⟩
  dsimp only
  rw [Function.update_self]
  rintro (hzero | hinside)
  · dsimp only at hzero
    rw [hzero] at htag
    cases htag
  · rw [hbefore.left] at hinside
    unfold bodySize at hinside hle hlt
    dsimp only at hinside
    omega

end

/-- **Packages.**  The parse is sound, and records nothing outside the file, exactly where the units
fit and both kinds are there. -/
theorem fwpkg_sound_iff (short : ShortRead) (file : Option File) :
    Sound short file ∧ RecordedInside short file ↔ Fits short file := by
  constructor
  · rintro ⟨⟨fuel, fwpkg, ret, hinit, hparsed⟩, hinside⟩ f fileSize rfl hhead
    refine ⟨fun us lo htiled hlo unitSize unitType hread htag => ?_, fun us htiled => ?_⟩
    · by_contra hmisfit
      obtain ⟨tag, htag⟩ := Option.ne_none_iff_exists'.mp htag
      obtain ⟨w, hreach, hout⟩ := outside_of_misfit hhead htiled hlo hread htag hmisfit
      exact hout (hinside f fileSize rfl hhead w hreach tag)
    · rw [fwpkgInit_zeroed, hhead.fwpkgParse] at hinit
      obtain ⟨r, hr, heq⟩ := Option.map_eq_some_iff.mp hinit
      obtain ⟨hfile, hlt⟩ := hhead.bounds
      obtain ⟨hok, hrecorded⟩ := htiled.parsed hfile hlt hr
      rw [if_pos hok] at heq
      obtain ⟨rfl, rfl⟩ := Prod.mk.inj heq
      obtain ⟨f', hf', -, us', htiled', -, hfw, hsig⟩ := hparsed rfl
      obtain rfl := Option.some_inj.mp hf'
      -- the units that are selected are recorded
      have hmem : ∀ tag, Selects ⟨r.2, fileSize, .combined⟩ f us' tag →
          ∃ u ∈ us, tagOf u.type = some tag := by
        rintro tag ⟨u, hu, htag, -⟩
        rcases hrecorded tag with ⟨hzero, -⟩ | ⟨hin, htag'⟩
        · rcases (htiled'.parsed hfile hlt hr).2 tag with ⟨-, hnone⟩ | ⟨-, htag'⟩
          · exact absurd htag (hnone u hu)
          · rw [hzero] at htag'
            cases htag'
        · exact ⟨_, hin, htag'⟩
      exact ⟨hmem .fw hfw, hmem .sig hsig⟩
  · intro hfits
    refine ⟨?_, ?_⟩
    · cases file with
      | none =>
        exact ⟨0, zeroed, BCME_ERROR, rfl, fun h => absurd h (by decide)⟩
      | some f =>
        by_cases hhead : ∃ fileSize, Headed f fileSize
        · obtain ⟨fileSize, hhead⟩ := hhead
          obtain ⟨fuel, r, hr, htrue⟩ := ends_of_fits hhead hfits
          have hinit : fwpkgInit short fuel zeroed (some f) = _ :=
            (fwpkgInit_zeroed short fuel (some f)).trans (hhead.fwpkgParse fuel)
          rw [hr, Option.map_some] at hinit
          by_cases hok : r.1 = true
          · rw [if_pos hok] at hinit
            refine ⟨fuel, _, _, hinit, fun _ => ⟨f, rfl, ?_⟩⟩
            obtain ⟨us, htiled⟩ := htrue hok
            obtain ⟨hfile, hlt⟩ := hhead.bounds
            obtain ⟨hfw, hsig⟩ := (hfits f fileSize rfl hhead).2 us htiled
            have hrecorded := (htiled.parsed hfile hlt hr).2
            exact ⟨hhead.size, us, htiled, hrecorded.inside htiled,
              selects_of_recorded hhead.size hrecorded hfw,
              selects_of_recorded hhead.size hrecorded hsig⟩
          · rw [if_neg hok] at hinit
            exact ⟨fuel, _, _, hinit, fun hret => absurd hret (by decide)⟩
        · obtain ⟨fwpkg, ret, hparse, hret, -⟩ := @fwpkgParse_headless short f
            (fun f' fileSize hf h => hhead ⟨fileSize, hf ▸ h⟩) 0
          exact ⟨0, fwpkg, ret, (fwpkgInit_zeroed short 0 (some f)).trans hparse,
            fun h => absurd h hret⟩
    · rintro f fileSize rfl hhead w hreach tag
      obtain ⟨us, lo, htiled, hbefore⟩ := before_of_fits hhead hfits rfl hreach
      exact hbefore.recorded.inside htiled tag

/-- One unit, whose length and its own 8 bytes make `2^32`. -/
def endless : File :=
  [0xf8, 0xff, 0xff, 0xff, 1, 0, 0, 0, 0, 0, 0, 0, 1, 0, 0, 0, 16, 0, 0, 0,
    0xad, 0x2b, 0xad, 0xde, 0xad, 0xde, 0xe1, 0xfe]

theorem endless_turn (short : ShortRead) {w : Walk} (h : w.leftSize = 8) :
    ∃ w', rtlv short endless w = some w' ∧ w'.leftSize = 8 := by
  have hread : readUnit short endless ((0x100000000 + w.leftSize - 8) % 0x100000000) w.unitSize
      w.unitType = some (0xfffffff8, 1) := by
    rw [h, readUnit_eq (by decide)]
    rfl
  refine ⟨_, rtlv_eq_some.mpr ⟨_, _, .fw, hread, rfl, rfl⟩, ?_⟩
  dsimp only
  rw [h]

/-- The walk stays where it is. -/
theorem fwpkg_endless : ¬ Sound .fails (some endless) ∧ ¬ Sound .givesFewer (some endless) := by
  have hloop : ∀ short fuel w, w.leftSize = 8 → fwpkgParseRtlvs short endless fuel w = none := by
    intro short fuel
    induction fuel with
    | zero => exact fun w _ => rfl
    | succ fuel ih =>
      intro w hw
      obtain ⟨w', hturn, hw'⟩ := endless_turn short hw
      unfold fwpkgParseRtlvs
      rw [if_neg (by omega), hturn]
      exact ih w' hw'
  have hhead : Headed endless 28 := ⟨by decide, by decide, by rfl⟩
  have hnever : ∀ short, ¬ Sound short (some endless) := by
    rintro short ⟨fuel, fwpkg, ret, hinit, -⟩
    rw [fwpkgInit_zeroed, hhead.fwpkgParse, hloop short fuel _ rfl] at hinit
    cases hinit
  exact ⟨hnever .fails, hnever .givesFewer⟩

end Bcmdhd.Fwpkg
