import Bcmdhd.Lib.LittleEndian
import Bcmdhd.Lib.Logged
import Bcmdhd.Lib.Packed
import Mathlib.Data.Nat.Find

/-!
# Radiotap headers (`wl_rtapParseInit`, `wl_rtapParseFindField`)

A header starts with presence words, of which each says whether another one follows.  Its fields
come behind them, at their natural alignment counted from the start of the header.  A parse keeps
the index and the offset that the last search has come to.

    all searches, in any order, find the fields where the layout has them  ↔
      the fixed part fits, and an odd number of chained words is not in front of a TSFT that fits,
      or the chain is cut and its first field does not fit behind the words    (rtap_parse_iff)

The parser aligns from the first field on, which is the same only where the fields start at a
multiple of 8.
-/

namespace Bcmdhd.Radiotap

open Records Packed

/-! ## Algorithm -/

abbrev Mem := Nat → UInt8

def SIZEOF_RADIOTAP_HEADER : Nat := 8
def IEEE80211_RADIOTAP_EXT : Nat := 31

def rtapParseInfo : List Field :=
  [⟨8, 8⟩, ⟨1, 1⟩, ⟨1, 1⟩, ⟨4, 2⟩, ⟨2, 2⟩, ⟨1, 1⟩, ⟨1, 1⟩, ⟨2, 2⟩, ⟨2, 2⟩, ⟨2, 2⟩, ⟨1, 1⟩, ⟨1, 1⟩,
    ⟨1, 1⟩, ⟨1, 1⟩, ⟨0, 0⟩, ⟨2, 2⟩, ⟨0, 0⟩, ⟨1, 1⟩, ⟨8, 4⟩, ⟨3, 1⟩, ⟨8, 4⟩, ⟨12, 2⟩, ⟨0, 0⟩, ⟨0, 0⟩,
    ⟨0, 0⟩, ⟨0, 0⟩, ⟨0, 0⟩, ⟨0, 0⟩, ⟨0, 0⟩, ⟨0, 0⟩, ⟨6, 2⟩, ⟨0, 0⟩]

def parseInfo (idx : Nat) : Field := rtapParseInfo.getD idx ⟨0, 0⟩

/-- A number of the header; the log has the bytes that are read. -/
def readLe (mem : Mem) (pos w : Nat) : Logged Nat Nat :=
  ⟨load mem pos w, (List.range w).map (pos + ·)⟩

/-- `radiotap_parse_t`.  `fields` is an offset in the header. -/
structure RadiotapParse where
  fields : Nat
  fieldsLen : Nat
  idx : Nat
  offset : Nat

def wlRtapParseReset (rtap : RadiotapParse) : RadiotapParse := { rtap with idx := 0, offset := 0 }

/-- Step over the presence words until we find the end of the list. -/
def skipPresence (mem : Mem) : Nat → Nat → Logged Nat (Nat × Nat)
  | rlen + 4, presentWord => do
    let word ← readLe mem presentWord 4
    if word.testBit IEEE80211_RADIOTAP_EXT then skipPresence mem rlen (presentWord + 4)
    else pure (presentWord, rlen + 4)
  | rlen, presentWord => do
    let _ ← readLe mem presentWord 4
    pure (presentWord, rlen)

/-- The lengths are `uint`s. -/
def wlRtapParseInit (mem : Mem) : Logged Nat RadiotapParse := do
  let itLen ← readLe mem 2 2
  let (presentWord, rlen) ←
    skipPresence mem ((0x100000000 + itLen - SIZEOF_RADIOTAP_HEADER) % 0x100000000) 4
  pure (wlRtapParseReset ⟨presentWord + 4, rlen, 0, 0⟩)

/-- The loop over the `n` indexes from `idx` to `searchIdx`: the index, the offset and the field it
ends with. -/
def findLoop (btmap fieldsLen searchIdx : Nat) :
    Nat → Nat → Nat → Option Nat → Nat × Nat × Option Nat
  | 0, idx, offset, ptr => (idx, offset, ptr)
  | n + 1, idx, offset, ptr =>
    if btmap.testBit idx then
      if (parseInfo idx).align = 0 then (idx, offset, ptr)
      else
        let fieldOffset := up offset (parseInfo idx).align
        if fieldsLen < fieldOffset + (parseInfo idx).len then (idx, offset, ptr)
        else
          findLoop btmap fieldsLen searchIdx n (idx + 1) (fieldOffset + (parseInfo idx).len)
            (if idx = searchIdx then some fieldOffset else ptr)
    else findLoop btmap fieldsLen searchIdx n (idx + 1) offset ptr

/-- The pointer is an offset in the header. -/
def wlRtapParseFindField (mem : Mem) (rtap : RadiotapParse) (searchIdx : Nat) :
    Logged Nat (RadiotapParse × Option Nat) :=
  if IEEE80211_RADIOTAP_EXT < searchIdx then pure (rtap, none)
  else do
    let rtap := if searchIdx < rtap.idx then wlRtapParseReset rtap else rtap
    let btmap ← readLe mem 4 4
    let (idx, offset, ptr) :=
      findLoop btmap rtap.fieldsLen searchIdx (searchIdx + 1 - rtap.idx) rtap.idx rtap.offset none
    pure ({ rtap with idx, offset }, ptr.map (rtap.fields + ·))

/-- One search after another. -/
def findFields (mem : Mem) : RadiotapParse → List Nat → Logged Nat (List (Option Nat))
  | _, [] => pure []
  | rtap, i :: is => do
    let (rtap, ptr) ← wlRtapParseFindField mem rtap i
    let ptrs ← findFields mem rtap is
    pure (ptr :: ptrs)

def parse (mem : Mem) (is : List Nat) : Logged Nat (List (Option Nat)) := do
  let rtap ← wlRtapParseInit mem
  findFields mem rtap is

/-! ## Layout -/

def itLen (mem : Mem) : Nat := load mem 2 2

/-- There is another presence word behind word `k`. -/
def Extended (mem : Mem) (k : Nat) : Prop := (load mem (4 + 4 * k) 4).testBit IEEE80211_RADIOTAP_EXT

/-- The presence words are those up to `k`. -/
def LastWord (mem : Mem) (k : Nat) : Prop := ¬ Extended mem k ∧ ∀ j < k, Extended mem j

/-- Where the fields start. -/
def fieldsStart (k : Nat) : Nat := SIZEOF_RADIOTAP_HEADER + 4 * k

/-- Field `j`, if it is present. -/
def field (mem : Mem) (j : Nat) : Option Field :=
  if (load mem 4 4).testBit j then some (parseInfo j) else none

/-- From `start` on, field `i` is at `p`: all present fields up to it have an entry and end at
`stop` at the latest. -/
def FieldAt (mem : Mem) (start stop i p : Nat) : Prop :=
  (load mem 4 4).testBit i ∧
    (∀ j ≤ i, (load mem 4 4).testBit j →
      (parseInfo j).align ≠ 0 ∧ endAt (field mem) start (j + 1) ≤ stop) ∧
    p = up (endAt (field mem) start i) (parseInfo i).align

/-- Field `i` of the header is at `p`. -/
def LaidAt (mem : Mem) (i p : Nat) : Prop :=
  ∃ k, LastWord mem k ∧ FieldAt mem (fieldsStart k) (itLen mem) i p

/-- A search for `i` gives the field, inside the header. -/
def Finds (mem : Mem) (i : Nat) (ptr : Option Nat) : Prop :=
  ∀ p, (ptr = some p ↔ LaidAt mem i p) ∧ (ptr = some p → p + (parseInfo i).len ≤ itLen mem)

/-- Whatever is searched for, in whatever order. -/
def ParsesRight (mem : Mem) : Prop :=
  ∀ is, (parse mem is).All (· < itLen mem) ∧ List.Forall₂ (Finds mem) is (parse mem is).val

/-! ## Search -/

section
variable {mem : Mem} {start stop : Nat}

/-- What a search keeps: the fields below `idx` fit, and end at `offset`. -/
def Walked (mem : Mem) (stop idx offset : Nat) : Prop :=
  offset = endAt (field mem) 0 idx ∧
    ∀ j < idx, (load mem 4 4).testBit j →
      (parseInfo j).align ≠ 0 ∧ endAt (field mem) 0 (j + 1) ≤ stop

theorem Walked.zero : Walked mem stop 0 0 := ⟨rfl, fun j hj => absurd hj (Nat.not_lt_zero j)⟩

theorem field_present {j : Nat} (h : (load mem 4 4).testBit j = true) :
    field mem j = some (parseInfo j) := if_pos h

theorem field_absent {j : Nat} (h : ¬ (load mem 4 4).testBit j = true) : field mem j = none := if_neg h

theorem Walked.absent {idx offset : Nat} (h : Walked mem stop idx offset)
    (hbit : ¬ (load mem 4 4).testBit idx = true) : Walked mem stop (idx + 1) offset := by
  refine ⟨?_, fun j hj hpresent => ?_⟩
  · rw [endAt_succ_none (field_absent hbit)]
    exact h.1
  · have hne : j ≠ idx := by
      rintro rfl
      exact hbit hpresent
    exact h.2 j (by omega) hpresent

theorem Walked.present {idx offset : Nat} (h : Walked mem stop idx offset)
    (hbit : (load mem 4 4).testBit idx = true) (halign : (parseInfo idx).align ≠ 0)
    (hfit : up offset (parseInfo idx).align + (parseInfo idx).len ≤ stop) :
    Walked mem stop (idx + 1) (up offset (parseInfo idx).align + (parseInfo idx).len) := by
  have hend : endAt (field mem) 0 (idx + 1) =
      up offset (parseInfo idx).align + (parseInfo idx).len := by
    rw [endAt_succ_some (field_present hbit), h.1]
  refine ⟨hend.symm, fun j hj hpresent => ?_⟩
  rcases Nat.lt_succ_iff_lt_or_eq.mp hj with hlt | rfl
  · exact h.2 j hlt hpresent
  · exact ⟨halign, by rw [hend]; exact hfit⟩

/-- One search, from what the last one has kept. -/
theorem findLoop_spec {searchIdx : Nat} (n : Nat) {idx offset : Nat} {ptr : Option Nat}
    (hn : idx + n = searchIdx + 1) (h : Walked mem stop idx offset)
    (hptr : ∀ p, ptr = some p ↔ n = 0 ∧ FieldAt mem 0 stop searchIdx p) :
    ∀ idx' offset' ptr', findLoop (load mem 4 4) stop searchIdx n idx offset ptr =
        (idx', offset', ptr') →
      Walked mem stop idx' offset' ∧ ∀ p, ptr' = some p ↔ FieldAt mem 0 stop searchIdx p := by
  induction n generalizing idx offset ptr with
  | zero =>
    intro idx' offset' ptr' hloop
    obtain ⟨rfl, rfl, rfl⟩ : idx = idx' ∧ offset = offset' ∧ ptr = ptr' := by
      simpa [findLoop] using hloop
    exact ⟨h, fun p => (hptr p).trans (and_iff_right rfl)⟩
  | succ n ih =>
    intro idx' offset' ptr' hloop
    -- the search ends here: the field is not to be found
    have hstop : (findLoop (load mem 4 4) stop searchIdx (n + 1) idx offset ptr =
          (idx, offset, ptr)) → (¬ ∃ p, FieldAt mem 0 stop searchIdx p) →
        Walked mem stop idx' offset' ∧ ∀ p, ptr' = some p ↔ FieldAt mem 0 stop searchIdx p := by
      intro heq hnone
      obtain ⟨rfl, rfl, rfl⟩ : idx = idx' ∧ offset = offset' ∧ ptr = ptr' := by
        simpa using heq.symm.trans hloop
      refine ⟨h, fun p => (hptr p).trans ⟨fun hp => absurd hp.1 (Nat.succ_ne_zero n), fun hp => ?_⟩⟩
      exact absurd ⟨p, hp⟩ hnone
    by_cases hbit : (load mem 4 4).testBit idx = true
    · by_cases halign : (parseInfo idx).align = 0
      · refine hstop ?_ ?_
        · unfold findLoop
          rw [if_pos hbit, if_pos halign]
        · rintro ⟨p, -, hall, -⟩
          exact (hall idx (by omega) hbit).1 halign
      · by_cases hfit : stop < up offset (parseInfo idx).align + (parseInfo idx).len
        · refine hstop ?_ ?_
          · unfold findLoop
            rw [if_pos hbit, if_neg halign]
            exact if_pos hfit
          · rintro ⟨p, -, hall, -⟩
            have hle := (hall idx (by omega) hbit).2
            rw [endAt_succ_some (field_present hbit), ← h.1] at hle
            omega
        · have hwalked := h.present hbit halign (Nat.le_of_not_lt hfit)
          unfold findLoop at hloop
          rw [if_pos hbit, if_neg halign] at hloop
          dsimp only at hloop
          rw [if_neg hfit] at hloop
          refine ih (by omega) hwalked (fun p => ?_) idx' offset' ptr' hloop
          by_cases hidx : idx = searchIdx
          · obtain rfl := hidx
            rw [if_pos rfl]
            constructor
            · intro hp
              obtain rfl := Option.some_inj.mp hp
              refine ⟨by omega, hbit, fun j hj => hwalked.2 j (Nat.lt_succ_of_le hj), ?_⟩
              rw [h.1]
            · rintro ⟨-, -, -, rfl⟩
              rw [h.1]
          · rw [if_neg hidx]
            refine (hptr p).trans ⟨fun hp => absurd hp.1 (Nat.succ_ne_zero n), fun hp => ?_⟩
            omega
    · unfold findLoop at hloop
      rw [if_neg hbit] at hloop
      refine ih (by omega) (h.absent hbit) (fun p => ?_) idx' offset' ptr' hloop
      refine (hptr p).trans ⟨fun hp => absurd hp.1 (Nat.succ_ne_zero n), fun hp => ?_⟩
      obtain ⟨hzero, hfield, -⟩ := hp
      obtain rfl : idx = searchIdx := by omega
      exact absurd hfield hbit

end

section
variable {mem : Mem} {is : List Nat} {k i p : Nat}

@[simp] theorem readLe_val (mem : Mem) (pos w : Nat) : (readLe mem pos w).val = load mem pos w := rfl

theorem readLe_all {n : Nat} (mem : Mem) (pos w : Nat) :
    (readLe mem pos w).All (· < n) ↔ w = 0 ∨ pos + w ≤ n := by
  unfold Logged.All readLe
  constructor
  · intro h
    rcases Nat.eq_zero_or_pos w with hw | hw
    · exact Or.inl hw
    · have hlast := h (pos + (w - 1))
        (List.mem_map_of_mem (List.mem_range.mpr (Nat.sub_lt hw Nat.one_pos)))
      dsimp only at hlast
      omega
  · rintro h e he
    obtain ⟨j, hj, rfl⟩ := List.mem_map.mp he
    rw [List.mem_range] at hj
    omega

/-- The present bits are those of a 32-bit word. -/
theorem FieldAt.le_ext {start stop : Nat} (h : FieldAt mem start stop i p) :
    i ≤ IEEE80211_RADIOTAP_EXT := by
  by_contra hi
  have hlt : load mem 4 4 < 2 ^ i := by
    unfold IEEE80211_RADIOTAP_EXT at hi
    have hpow : 2 ^ 32 ≤ 2 ^ i := Nat.pow_le_pow_right (by omega) (by omega)
    have hword := load_lt mem 4 4
    omega
  have hbit := h.1
  rw [Nat.testBit_lt_two_pow hlt] at hbit
  cases hbit

/-- One search keeps the state, and finds the field behind `fields`. -/
theorem find_spec {rtap : RadiotapParse} (h : Walked mem rtap.fieldsLen rtap.idx rtap.offset)
    (i : Nat) : ∃ rtap' ptr, (wlRtapParseFindField mem rtap i).val = (rtap', ptr) ∧
      Walked mem rtap'.fieldsLen rtap'.idx rtap'.offset ∧ rtap'.fields = rtap.fields ∧
      rtap'.fieldsLen = rtap.fieldsLen ∧
      ∀ p, ptr = some p ↔ ∃ q, FieldAt mem 0 rtap.fieldsLen i q ∧ p = rtap.fields + q := by
  unfold wlRtapParseFindField
  by_cases hext : IEEE80211_RADIOTAP_EXT < i
  · rw [if_pos hext]
    refine ⟨rtap, none, rfl, h, rfl, rfl, fun p => ⟨fun hp => (by cases hp), ?_⟩⟩
    rintro ⟨q, hfield, -⟩
    exact absurd hfield.le_ext (Nat.not_le_of_lt hext)
  · rw [if_neg hext]
    -- the state that the search goes on from
    obtain ⟨start, hstart, hwalked, hidx, hfields, hlen⟩ : ∃ start,
        (if i < rtap.idx then wlRtapParseReset rtap else rtap) = start ∧
          Walked mem rtap.fieldsLen start.idx start.offset ∧ start.idx ≤ i ∧
          start.fields = rtap.fields ∧ start.fieldsLen = rtap.fieldsLen := by
      by_cases hback : i < rtap.idx
      · exact ⟨wlRtapParseReset rtap, if_pos hback, Walked.zero, Nat.zero_le i, rfl, rfl⟩
      · exact ⟨rtap, if_neg hback, h, Nat.le_of_not_lt hback, rfl, rfl⟩
    rw [hstart]
    obtain ⟨idx', offset', ptr', hloop⟩ : ∃ idx' offset' ptr',
        findLoop (load mem 4 4) start.fieldsLen i (i + 1 - start.idx) start.idx start.offset none =
          (idx', offset', ptr') := ⟨_, _, _, rfl⟩
    have hspec := findLoop_spec (i + 1 - start.idx) (by omega) (hlen ▸ hwalked)
      (fun p => ⟨fun hp => (by cases hp), fun hp => by omega⟩) idx' offset' ptr' hloop
    refine ⟨{ start with idx := idx', offset := offset' }, ptr'.map (start.fields + ·), ?_,
      hspec.1, hfields, hlen, fun p => ?_⟩
    · simp only [Logged.val_bind, readLe_val, hloop, Logged.val_pure]
    · rw [Option.map_eq_some_iff, ← hlen, ← hfields]
      constructor
      · rintro ⟨q, hq, rfl⟩
        exact ⟨q, (hspec.2 q).mp hq, rfl⟩
      · rintro ⟨q, hq, rfl⟩
        exact ⟨q, (hspec.2 q).mpr hq, rfl⟩

theorem find_all {n : Nat} (rtap : RadiotapParse) (h : 8 ≤ n) :
    (wlRtapParseFindField mem rtap i).All (· < n) := by
  unfold wlRtapParseFindField
  rw [Logged.all_ite]
  refine ⟨fun _ => Logged.all_pure _, fun _ => ?_⟩
  rw [Logged.all_bind]
  exact ⟨(readLe_all mem 4 4).mpr (Or.inr h), Logged.all_pure _⟩

/-- The answers do not depend on the searches before. -/
theorem findFields_spec {rtap : RadiotapParse} (h : Walked mem rtap.fieldsLen rtap.idx rtap.offset) :
    List.Forall₂ (fun i ptr => ∀ p, ptr = some p ↔
      ∃ q, FieldAt mem 0 rtap.fieldsLen i q ∧ p = rtap.fields + q) is (findFields mem rtap is).val := by
  induction is generalizing rtap with
  | nil => exact List.Forall₂.nil
  | cons i is ih =>
    obtain ⟨rtap', ptr, hfind, hwalked, hfields, hlen, hptr⟩ := find_spec h i
    have hrest := ih hwalked
    rw [hfields, hlen] at hrest
    unfold findFields
    simp only [Logged.val_bind, hfind, Logged.val_pure]
    exact List.Forall₂.cons hptr hrest

theorem findFields_all {n : Nat} (rtap : RadiotapParse) (h : 8 ≤ n) :
    (findFields mem rtap is).All (· < n) := by
  induction is generalizing rtap with
  | nil => exact Logged.all_pure _
  | cons i is ih =>
    unfold findFields
    rw [Logged.all_bind]
    refine ⟨find_all rtap h, ?_⟩
    dsimp only
    rw [Logged.all_bind]
    exact ⟨ih _, Logged.all_pure _⟩

end

/-! ## Start of the fields -/

section
variable {mem : Mem} {k : Nat}

theorem skipPresence_of_more {rlen pos : Nat} (hlen : 4 ≤ rlen)
    (hext : (load mem pos 4).testBit IEEE80211_RADIOTAP_EXT = true) :
    (skipPresence mem rlen pos).val = (skipPresence mem (rlen - 4) (pos + 4)).val ∧
      ∀ n, (skipPresence mem rlen pos).All (· < n) ↔
        pos + 4 ≤ n ∧ (skipPresence mem (rlen - 4) (pos + 4)).All (· < n) := by
  obtain ⟨r, rfl⟩ := Nat.exists_eq_add_of_le' hlen
  rw [Nat.add_sub_cancel]
  constructor
  · show (if _ then _ else _ : Logged Nat (Nat × Nat)).val = _
    rw [readLe_val, if_pos hext]
  · intro n
    show (readLe mem pos 4 >>= _).All _ ↔ _
    rw [Logged.all_bind, readLe_all, readLe_val, if_pos hext]
    simp

theorem skipPresence_of_last {rlen pos : Nat}
    (h : (load mem pos 4).testBit IEEE80211_RADIOTAP_EXT = true → rlen < 4) :
    (skipPresence mem rlen pos).val = (pos, rlen) ∧
      ∀ n, (skipPresence mem rlen pos).All (· < n) ↔ pos + 4 ≤ n := by
  match rlen, h with
  | 0, _ | 1, _ | 2, _ | 3, _ =>
    refine ⟨rfl, fun n => ?_⟩
    show (readLe mem pos 4 >>= _).All _ ↔ _
    rw [Logged.all_bind, readLe_all]
    simp
  | r + 4, h =>
    have hext : ¬ (load mem pos 4).testBit IEEE80211_RADIOTAP_EXT = true := fun hext => by
      have hlt := h hext
      omega
    constructor
    · show (if _ then _ else _ : Logged Nat (Nat × Nat)).val = _
      rw [readLe_val, if_neg hext]
      rfl
    · intro n
      show (readLe mem pos 4 >>= _).All _ ↔ _
      rw [Logged.all_bind, readLe_all, readLe_val, if_neg hext]
      simp

/-- The words that are stepped over: from word `k₀` on, all but the last one are extended, and the
last one is not, or no other one fits. -/
theorem skipPresence_spec (rlen k₀ : Nat) : ∃ k,
    (skipPresence mem rlen (4 + 4 * k₀)).val = (4 + 4 * (k₀ + k), rlen - 4 * k) ∧ 4 * k ≤ rlen ∧
      (∀ j < k, Extended mem (k₀ + j)) ∧ (Extended mem (k₀ + k) → rlen - 4 * k < 4) ∧
      ∀ n, fieldsStart (k₀ + k) ≤ n → (skipPresence mem rlen (4 + 4 * k₀)).All (· < n) := by
  induction rlen using Nat.strongRecOn generalizing k₀ with
  | ind rlen ih =>
    by_cases hmore : Extended mem k₀ ∧ 4 ≤ rlen
    · obtain ⟨hval, hall⟩ := skipPresence_of_more hmore.2 hmore.1
      obtain ⟨k, hk, hle, hext, hlast, hreads⟩ := ih (rlen - 4) (by omega) (k₀ + 1)
      rw [show 4 + 4 * (k₀ + 1) = 4 + 4 * k₀ + 4 by omega] at hk hreads
      refine ⟨k + 1, ?_, by omega, fun j hj => ?_, fun h => ?_, fun n hn => ?_⟩
      · rw [hval, hk, show k₀ + 1 + k = k₀ + (k + 1) by omega,
          show rlen - 4 - 4 * k = rlen - 4 * (k + 1) by omega]
      · cases j with
        | zero => exact hmore.1
        | succ j =>
          rw [show k₀ + (j + 1) = k₀ + 1 + j by omega]
          exact hext j (by omega)
      · rw [show k₀ + (k + 1) = k₀ + 1 + k by omega] at h
        have hlt := hlast h
        omega
      · unfold fieldsStart SIZEOF_RADIOTAP_HEADER at hn hreads
        exact (hall n).mpr ⟨by omega, hreads n (by omega)⟩
    · have hlast : Extended mem k₀ → rlen < 4 := fun h => by
        by_contra hge
        exact hmore ⟨h, by omega⟩
      obtain ⟨hval, hall⟩ := skipPresence_of_last hlast
      refine ⟨0, hval, Nat.zero_le _, fun j hj => absurd hj (Nat.not_lt_zero j), hlast,
        fun n hn => (hall n).mpr ?_⟩
      unfold fieldsStart SIZEOF_RADIOTAP_HEADER at hn
      omega

/-- Where the fields start, in a header that has its fixed part. -/
theorem init_spec (h : 8 ≤ itLen mem) : ∃ k,
    (wlRtapParseInit mem).val = ⟨fieldsStart k, itLen mem - fieldsStart k, 0, 0⟩ ∧
      fieldsStart k ≤ itLen mem ∧ (∀ j < k, Extended mem j) ∧
      (Extended mem k → itLen mem - fieldsStart k < 4) ∧
      (wlRtapParseInit mem).All (· < itLen mem) := by
  have hlt : itLen mem < 0x10000 := load_lt mem 2 2
  have hrlen : (0x100000000 + load mem 2 2 - SIZEOF_RADIOTAP_HEADER) % 0x100000000 =
      itLen mem - 8 := by
    unfold itLen SIZEOF_RADIOTAP_HEADER at *
    omega
  obtain ⟨k, hval, hle, hext, hlast, hreads⟩ := @skipPresence_spec mem (itLen mem - 8) 0
  rw [Nat.zero_add] at hval hlast hreads
  have hfields : fieldsStart k ≤ itLen mem := by
    unfold fieldsStart SIZEOF_RADIOTAP_HEADER
    omega
  refine ⟨k, ?_, hfields, fun j hj => ?_, fun h => ?_, ?_⟩
  · unfold wlRtapParseInit
    simp only [Logged.val_bind, readLe_val, hrlen]
    rw [hval]
    unfold fieldsStart SIZEOF_RADIOTAP_HEADER
    show (⟨4 + 4 * k + 4, itLen mem - 8 - 4 * k, 0, 0⟩ : RadiotapParse) = _
    rw [show 4 + 4 * k + 4 = 8 + 4 * k by omega, Nat.sub_sub]
  · have hj := hext j hj
    rwa [Nat.zero_add] at hj
  · have hlt := hlast h
    unfold fieldsStart SIZEOF_RADIOTAP_HEADER
    omega
  · unfold wlRtapParseInit
    rw [Logged.all_bind, readLe_all, readLe_val, hrlen, Logged.all_bind]
    exact ⟨Or.inr (by omega), hreads (itLen mem) hfields, Logged.all_pure _⟩

/-- The fixed part is read without a look at the length. -/
theorem header_of_init (h : (wlRtapParseInit mem).All (· < itLen mem)) : 8 ≤ itLen mem := by
  unfold wlRtapParseInit at h
  rw [Logged.all_bind, Logged.all_bind] at h
  obtain ⟨-, hskip, -⟩ := h
  generalize (0x100000000 + _ - SIZEOF_RADIOTAP_HEADER) % 0x100000000 = rlen at hskip
  by_cases hmore : (load mem 4 4).testBit IEEE80211_RADIOTAP_EXT = true ∧ 4 ≤ rlen
  · exact (((skipPresence_of_more hmore.2 hmore.1).2 _).mp hskip).1
  · refine ((skipPresence_of_last fun hext => ?_).2 _).mp hskip
    by_contra hge
    exact hmore ⟨hext, by omega⟩

end

/-! ## Searches and layout -/

section
variable {mem : Mem} {k i p : Nat}

theorem LastWord.unique {k' : Nat} (h : LastWord mem k) (h' : LastWord mem k') : k = k' := by
  rcases Nat.lt_trichotomy k k' with hlt | heq | hlt
  · exact absurd (h'.2 k hlt) h.1
  · exact heq
  · exact absurd (h.2 k' hlt) h'.1

/-- No field is aligned to more than 4, but TSFT. -/
theorem parseInfo_align {j : Nat} (h : (parseInfo j).align ≠ 0) (hj : j ≠ 0) :
    (parseInfo j).align ∣ 4 := by
  by_cases hlt : j < 32
  · have hall : ∀ j < 32, (parseInfo j).align ≠ 0 → j ≠ 0 → 4 % (parseInfo j).align = 0 := by decide
    exact Nat.dvd_of_mod_eq_zero (hall j hlt h hj)
  · have hnone : parseInfo j = ⟨0, 0⟩ := by
      unfold parseInfo
      rw [List.getD_eq_getElem?_getD, List.getElem?_eq_none (show 32 ≤ j by omega)]
      rfl
    rw [hnone] at h
    exact absurd rfl h

/-- The fields end behind their start. -/
theorem FieldAt.end_le {start stop : Nat} (h : FieldAt mem start stop i p) :
    p + (parseInfo i).len ≤ stop := by
  have hend := (h.2.1 i (Nat.le_refl i) h.1).2
  rwa [endAt_succ_some (field_present h.1), ← h.2.2] at hend

theorem FieldAt.pos_align {start stop : Nat} (h : FieldAt mem start stop i p) :
    ∀ j < i + 1, ∀ f, field mem j = some f → 0 < f.align := by
  intro j hj f hf
  by_cases hbit : (load mem 4 4).testBit j = true
  · rw [field_present hbit] at hf
    obtain rfl := Option.some_inj.mp hf
    exact Nat.pos_of_ne_zero (h.2.1 j (Nat.le_of_lt_succ hj) hbit).1
  · rw [field_absent hbit] at hf
    cases hf

theorem FieldAt.start_le {start stop : Nat} (h : FieldAt mem start stop i p) : start ≤ stop := by
  have hle := @le_endAt (field mem) start (i + 1) h.pos_align
  have hend := (h.2.1 i (Nat.le_refl i) h.1).2
  omega

/-- Fields that start at a multiple of every alignment are where they would be from 0 on. -/
theorem fieldAt_shift {base stop : Nat} (hle : base ≤ stop)
    (h : ∀ j, (load mem 4 4).testBit j → (parseInfo j).align ≠ 0 → (parseInfo j).align ∣ base) :
    FieldAt mem base stop i p ↔ ∃ q, FieldAt mem 0 (stop - base) i q ∧ p = base + q := by
  -- both ways, the present fields up to `i` have an entry
  have hshift : (∀ j ≤ i, (load mem 4 4).testBit j → (parseInfo j).align ≠ 0) →
      ∀ n ≤ i + 1, endAt (field mem) base n = base + endAt (field mem) 0 n := by
    intro hentry n hn
    show endAt (field mem) (base + 0) n = _
    refine endAt_shift fun j hj f hf => ?_
    by_cases hbit : (load mem 4 4).testBit j = true
    · rw [field_present hbit] at hf
      obtain rfl := Option.some_inj.mp hf
      have halign := hentry j (by omega) hbit
      exact ⟨Nat.pos_of_ne_zero halign, h j hbit halign⟩
    · rw [field_absent hbit] at hf
      cases hf
  have hup : ∀ pos, (load mem 4 4).testBit i → (parseInfo i).align ≠ 0 →
      up (base + pos) (parseInfo i).align = base + up pos (parseInfo i).align :=
    fun pos hbit halign => up_shift pos (Nat.pos_of_ne_zero halign) (h i hbit halign)
  constructor
  · rintro ⟨hbit, hall, rfl⟩
    have hends := hshift fun j hj hj' => (hall j hj hj').1
    refine ⟨_, ⟨hbit, fun j hj hj' => ?_, rfl⟩, ?_⟩
    · obtain ⟨halign, hend⟩ := hall j hj hj'
      rw [hends (j + 1) (by omega)] at hend
      exact ⟨halign, by omega⟩
    · rw [hends i (by omega)]
      exact hup _ hbit (hall i (Nat.le_refl i) hbit).1
  · rintro ⟨q, ⟨hbit, hall, rfl⟩, rfl⟩
    have hends := hshift fun j hj hj' => (hall j hj hj').1
    refine ⟨hbit, fun j hj hj' => ?_, ?_⟩
    · obtain ⟨halign, hend⟩ := hall j hj hj'
      rw [hends (j + 1) (by omega)]
      exact ⟨halign, by omega⟩
    · rw [hends i (by omega)]
      exact (hup _ hbit (hall i (Nat.le_refl i) hbit).1).symm

/-- What the searches of a header with its fixed part give. -/
theorem parse_spec (h : 8 ≤ itLen mem) : ∃ k, fieldsStart k ≤ itLen mem ∧
    (∀ j < k, Extended mem j) ∧ (Extended mem k → itLen mem - fieldsStart k < 4) ∧
    ∀ is, (parse mem is).All (· < itLen mem) ∧
      List.Forall₂ (fun i ptr => ∀ p, ptr = some p ↔
        ∃ q, FieldAt mem 0 (itLen mem - fieldsStart k) i q ∧ p = fieldsStart k + q)
        is (parse mem is).val := by
  obtain ⟨k, hval, hle, hext, hlast, hreads⟩ := init_spec h
  refine ⟨k, hle, hext, hlast, fun is => ⟨?_, ?_⟩⟩
  · unfold parse
    rw [Logged.all_bind]
    exact ⟨hreads, findFields_all _ h⟩
  · have hfind := @findFields_spec mem is
      ⟨fieldsStart k, itLen mem - fieldsStart k, 0, 0⟩ Walked.zero
    unfold parse
    rw [Logged.val_bind, hval]
    exact hfind

/-- The field that the presence word starts with. -/
def Lowest (mem : Mem) (j : Nat) : Prop :=
  (load mem 4 4).testBit j ∧ ∀ j' < j, ¬ (load mem 4 4).testBit j'

/-- The chain of presence words is cut by the end of the header. -/
def Cut (mem : Mem) : Prop := ∀ k, LastWord mem k → itLen mem < fieldsStart k

/-- The fields start at a multiple of 8, or no field wants that, or TSFT does not fit. -/
def Aligned (mem : Mem) (k : Nat) : Prop :=
  k % 2 = 1 → (load mem 4 4).testBit 0 → itLen mem < fieldsStart k + 8

theorem Lowest.endAt {start j : Nat} (h : Lowest mem j) : endAt (field mem) start j = start := by
  have hall : ∀ n ≤ j, Packed.endAt (field mem) start n = start := by
    intro n hn
    induction n with
    | zero => rfl
    | succ n ih =>
      rw [endAt_succ_none (field_absent (h.2 n (by omega)))]
      exact ih (by omega)
  exact hall j (Nat.le_refl j)

/-- The first field fits behind the words. -/
theorem Lowest.fieldAt {stop j : Nat} (h : Lowest mem j) (halign : (parseInfo j).align ≠ 0)
    (hfit : (parseInfo j).len ≤ stop) : FieldAt mem 0 stop j 0 := by
  have hup : up 0 (parseInfo j).align = 0 :=
    up_of_dvd (Nat.pos_of_ne_zero halign) (Nat.dvd_zero _)
  refine ⟨h.1, fun j' hj' hbit => ?_, ?_⟩
  · have heq : j' = j := by
      rcases Nat.lt_or_eq_of_le hj' with hlt | heq
      · exact absurd hbit (h.2 j' hlt)
      · exact heq
    obtain rfl := heq
    rw [endAt_succ_some (field_present h.1), h.endAt, hup]
    exact ⟨halign, by omega⟩
  · rw [h.endAt, hup]

/-- A field behind the first one does not fit where the first one does not. -/
theorem FieldAt.lowest {stop : Nat} (h : FieldAt mem 0 stop i p) :
    ∃ j, Lowest mem j ∧ (parseInfo j).align ≠ 0 ∧ (parseInfo j).len ≤ stop := by
  have hex : ∃ j, (load mem 4 4).testBit j = true := ⟨i, h.1⟩
  obtain ⟨j, hj, hmin⟩ : ∃ j, (load mem 4 4).testBit j = true ∧
      ∀ j' < j, ¬ (load mem 4 4).testBit j' = true :=
    ⟨Nat.find hex, Nat.find_spec hex, fun j' hj' => Nat.find_min hex hj'⟩
  have hle : j ≤ i := by
    by_contra hlt
    exact hmin i (by omega) h.1
  have hlow : Lowest mem j := ⟨hj, hmin⟩
  obtain ⟨halign, hend⟩ := h.2.1 j hle hj
  rw [endAt_succ_some (field_present hj), hlow.endAt] at hend
  exact ⟨j, hlow, halign, by omega⟩

/-- The searches that see the right layout. -/
theorem finds_of_aligned (hlast : LastWord mem k) (hle : fieldsStart k ≤ itLen mem)
    (halign : Aligned mem k) {ptr : Option Nat}
    (h : ∀ p, ptr = some p ↔
      ∃ q, FieldAt mem 0 (itLen mem - fieldsStart k) i q ∧ p = fieldsStart k + q) :
    Finds mem i ptr := by
  have hfound : ∀ p, ptr = some p ↔ FieldAt mem (fieldsStart k) (itLen mem) i p := by
    intro p
    by_cases htsft : k % 2 = 1 ∧ (load mem 4 4).testBit 0 = true
    · -- TSFT does not fit, and then no field does
      have hshort := halign htsft.1 htsft.2
      refine (h p).trans ⟨?_, fun hfield => ?_⟩
      · rintro ⟨q, hfield, -⟩
        have hend := (hfield.2.1 0 (Nat.zero_le i) htsft.2).2
        rw [endAt_succ_some (field_present htsft.2)] at hend
        have hlen : (parseInfo 0).len = 8 := rfl
        omega
      · have hend := (hfield.2.1 0 (Nat.zero_le i) htsft.2).2
        rw [endAt_succ_some (field_present htsft.2)] at hend
        have hlen : (parseInfo 0).len = 8 := rfl
        have hup : fieldsStart k ≤ up (endAt (field mem) (fieldsStart k) 0) (parseInfo 0).align :=
          le_up (by decide)
        omega
    · refine (h p).trans (fieldAt_shift hle fun j hbit hentry => ?_).symm
      by_cases hj : j = 0
      · obtain rfl := hj
        have heven : k % 2 = 0 := by
          by_contra hodd
          exact htsft ⟨by omega, hbit⟩
        show 8 ∣ 8 + 4 * k
        omega
      · refine Nat.dvd_trans (parseInfo_align hentry hj) ?_
        unfold fieldsStart SIZEOF_RADIOTAP_HEADER
        omega
  refine fun p => ⟨(hfound p).trans ⟨fun hfield => ⟨k, hlast, hfield⟩, ?_⟩, fun hp => ?_⟩
  · rintro ⟨k', hlast', hfield⟩
    obtain rfl := hlast.unique hlast'
    exact hfield
  · exact ((hfound p).mp hp).end_le

theorem Cut.not_laidAt (h : Cut mem) : ¬ LaidAt mem i p := by
  rintro ⟨k, hlast, hfield⟩
  have hlt := h k hlast
  have hle := hfield.start_le
  omega

/-- Where the chain is cut, three bytes at most are left. -/
theorem cut_iff (hle : fieldsStart k ≤ itLen mem) (hext : ∀ j < k, Extended mem j)
    (hlast : Extended mem k → itLen mem - fieldsStart k < 4) : Cut mem ↔ Extended mem k := by
  constructor
  · intro h
    by_contra hnot
    have hlt := h k ⟨hnot, hext⟩
    omega
  · intro h k' hk'
    have hlt : k < k' := by
      rcases Nat.lt_trichotomy k k' with hlt | rfl | hlt
      · exact hlt
      · exact absurd h hk'.1
      · exact absurd (hext k' hlt) hk'.1
    have hshort := hlast h
    unfold fieldsStart SIZEOF_RADIOTAP_HEADER at *
    omega

end

/-- **Radiotap.**  The searches are right exactly where the parser's alignment is the header's, and
where a chain that is cut leaves no room for a field. -/
theorem rtap_parse_iff (mem : Mem) : ParsesRight mem ↔ 8 ≤ itLen mem ∧
    ((∃ k, LastWord mem k ∧ fieldsStart k ≤ itLen mem ∧ Aligned mem k) ∨
      (Cut mem ∧ ∀ j, Lowest mem j → (parseInfo j).align ≠ 0 →
        (itLen mem - SIZEOF_RADIOTAP_HEADER) % 4 < (parseInfo j).len)) := by
  constructor
  · intro hright
    have hheader : 8 ≤ itLen mem := by
      have hall := (hright []).1
      unfold parse at hall
      rw [Logged.all_bind] at hall
      exact header_of_init hall.1
    obtain ⟨k, hle, hext, hlast, hparse⟩ := parse_spec hheader
    -- the answer to a single search
    have hone : ∀ i, ∃ ptr, Finds mem i ptr ∧ ∀ p, ptr = some p ↔
        ∃ q, FieldAt mem 0 (itLen mem - fieldsStart k) i q ∧ p = fieldsStart k + q := by
      intro i
      obtain ⟨ptr, rest, hfinds, -, heq⟩ := List.forall₂_cons_left_iff.mp (hright [i]).2
      have hval := (hparse [i]).2
      rw [heq] at hval
      exact ⟨ptr, hfinds, (List.forall₂_cons.mp hval).1⟩
    refine ⟨hheader, ?_⟩
    by_cases hcut : Extended mem k
    · refine Or.inr ⟨(cut_iff hle hext hlast).mpr hcut, fun j hlow halign => ?_⟩
      by_contra hfit
      obtain ⟨ptr, hfinds, hval⟩ := hone j
      have hshort := hlast hcut
      have hroom : (itLen mem - SIZEOF_RADIOTAP_HEADER) % 4 = itLen mem - fieldsStart k := by
        unfold fieldsStart SIZEOF_RADIOTAP_HEADER at *
        omega
      have hfield := hlow.fieldAt halign (Nat.le_of_not_lt (hroom ▸ hfit))
      exact ((cut_iff hle hext hlast).mpr hcut).not_laidAt
        ((hfinds _).1.mp ((hval _).mpr ⟨0, hfield, rfl⟩))
    · refine Or.inl ⟨k, ⟨hcut, hext⟩, hle, fun hodd hbit => ?_⟩
      by_contra hfit
      obtain ⟨ptr, hfinds, hval⟩ := hone 0
      have hlow : Lowest mem 0 := ⟨hbit, fun j hj => absurd hj (Nat.not_lt_zero j)⟩
      have hlen : (parseInfo 0).len = 8 := rfl
      have hroom : (parseInfo 0).len ≤ itLen mem - fieldsStart k := by omega
      have hfield := hlow.fieldAt (by decide) hroom
      obtain ⟨k', hlast', hlaid⟩ := (hfinds _).1.mp ((hval _).mpr ⟨0, hfield, rfl⟩)
      obtain rfl := hlast'.unique ⟨hcut, hext⟩
      -- the layout has TSFT at a multiple of 8
      have hmul : fieldsStart k' + 0 = (fieldsStart k' + 7) / 8 * 8 := hlaid.2.2
      unfold fieldsStart SIZEOF_RADIOTAP_HEADER at hmul
      omega
  · rintro ⟨hheader, hcases⟩ is
    obtain ⟨k, hle, hext, hlast, hparse⟩ := parse_spec hheader
    refine ⟨(hparse is).1, (hparse is).2.imp fun i ptr hptr => ?_⟩
    rcases hcases with ⟨k', hlast', hle', halign⟩ | ⟨hcut, hnofit⟩
    · have hnot : ¬ Extended mem k := by
        intro h
        have hlt := (cut_iff hle hext hlast).mpr h k' hlast'
        omega
      obtain rfl := hlast'.unique ⟨hnot, hext⟩
      exact finds_of_aligned hlast' hle' halign hptr
    · have hshort := hlast ((cut_iff hle hext hlast).mp hcut)
      have hroom : (itLen mem - SIZEOF_RADIOTAP_HEADER) % 4 = itLen mem - fieldsStart k := by
        unfold fieldsStart SIZEOF_RADIOTAP_HEADER at *
        omega
      have hnone : ∀ p, ¬ ptr = some p := by
        intro p hp
        obtain ⟨q, hfield, -⟩ := (hptr p).mp hp
        obtain ⟨j, hlow, halign, hlen⟩ := hfield.lowest
        have hlt := hnofit j hlow halign
        omega
      exact fun p => ⟨⟨fun hp => absurd hp (hnone p), fun h => absurd h hcut.not_laidAt⟩,
        fun hp => absurd hp (hnone p)⟩

/-- 24 bytes: one chained presence word, and TSFT at 16. -/
def chained : Mem := fun i => [0, 0, 24, 0, 0x01, 0, 0, 0x80].getD i 0

/-- TSFT is looked for at 12. -/
theorem rtap_parse_misaligned : ¬ ParsesRight chained := by
  intro hright
  have hval : (parse chained [0]).val = [some 12] := by rfl
  have hfinds := (hright [0]).2
  rw [hval] at hfinds
  obtain ⟨k, hlast, -, -, hp⟩ := ((List.forall₂_cons.mp hfinds).1 12).1.mp rfl
  have hone : LastWord chained 1 := by
    refine ⟨by unfold Extended; decide +kernel, fun j hj => ?_⟩
    obtain rfl : j = 0 := by omega
    unfold Extended
    decide +kernel
  obtain rfl := hlast.unique hone
  exact absurd hp (by decide)

end Bcmdhd.Radiotap
