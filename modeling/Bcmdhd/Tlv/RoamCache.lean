import Bcmdhd.Tlv.Xtlv

/-!
# The roam cache event (`wl_show_roam_cache_update_event`)

The data of the event is a header, one XTLV, and in it the XTLVs that are shown.  What is left of
the outer one is counted with 16 bits.  The outer length is taken from the data, not from `datalen`,
and no inner length is checked.  The printed texts are left out: here it matters what is read for
them, and what the counter is at the start of a turn.

    nothing outside is read, the walk ends, and the counter does not wrap  ↔
      the data is too short to be looked at, or another XTLV, or its elements fit
                                                              (roam_cache_bounded_iff)
-/

namespace Bcmdhd.RoamCache

open Chain Xtlv

/-! ## Algorithm -/

def RPT_CMD_DATA : Nat := 1

def XTLV_BSS_INFO : Nat := 1
def XTLV_CANDIDATE_INFO : Nat := 2
def XTLV_USER_CACHE_INFO : Nat := 3

def EVENT_HDR_SIZE : Nat := 4
def XTLV_HDR_SIZE : Nat := 4

/-- A field of `n` bytes is read. -/
def readField (mem : List UInt8) (p n : Nat) : Except Fault Unit := do
  let _ ← rdN mem p n
  return ()

/-- `DHD_EVENT`; its arguments are evaluated if events are shown. -/
def dhdEvent (eventOn : Bool) (args : Except Fault Unit) : Except Fault Unit :=
  if eventOn then args else return ()

/-- `rmc_bss_info_v1_t` -/
def showBssInfo (eventOn : Bool) (mem : List UInt8) (p : Nat) : Except Fault Unit := do
  dhdEvent eventOn (readField mem p 2)
  dhdEvent eventOn (readField mem (p + 4) 4)
  -- reason_names[idx].event == bss_info->reason
  readField mem (p + 2) 1
  dhdEvent eventOn (readField mem (p + 2) 1)
  dhdEvent eventOn (readField mem (p + 8) 4)
  readField mem (p + 3) 1
  dhdEvent eventOn (readField mem (p + 3) 1)

/-- `rmc_candidate_info_v1_t` -/
def showCandidateInfo (eventOn : Bool) (mem : List UInt8) (p : Nat) : Except Fault Unit := do
  dhdEvent eventOn (readField mem (p + 10) 6)
  dhdEvent eventOn (readField mem p 2)
  dhdEvent eventOn (readField mem (p + 2) 2)
  dhdEvent eventOn (readField mem (p + 4) 4)
  dhdEvent eventOn (readField mem (p + 8) 2)

/-- The turn of the loop for one XTLV, or `none` where the function returns. -/
def showXtlv (eventOn : Bool) (mem : List UInt8) (p id : Nat) : Option (Except Fault Unit) :=
  if id = XTLV_BSS_INFO then some (showBssInfo eventOn mem (p + XTLV_HDR_SIZE))
  else if id = XTLV_CANDIDATE_INFO ∨ id = XTLV_USER_CACHE_INFO then
    some (showCandidateInfo eventOn mem (p + XTLV_HDR_SIZE))
  else none

def uint16 (n : Nat) : Nat := n % 0x10000

/-- A turn of the loop: `len_of_tlvs`, and what is subtracted from it. -/
structure Turn where
  left : Nat
  size : Nat
  deriving DecidableEq

/-- The `while` loop, with its turns. -/
def walkLoop (eventOn : Bool) (mem : List UInt8) : Nat → Nat → Nat → Except Fault (List Turn)
  | 0, _, _ => .error .fuel
  | k + 1, p, left =>
    if left ≠ 0 ∧ XTLV_HDR_SIZE < left then do
      let id ← ltoh16Ua mem p
      match showXtlv eventOn mem p id with
      | none => return []
      | some shown =>
        shown
        let size ← xtlvSize mem p 0
        let turns ← walkLoop eventOn mem k (p + size) (uint16 (left + 0x10000 - uint16 size))
        return ⟨left, uint16 size⟩ :: turns
    else return []

/-- `datalen` is the length of the list. -/
def wlShowRoamCacheUpdateEvent (eventOn : Bool) (eventData : List UInt8) :
    Except Fault (List Turn) :=
  if eventData.length < EVENT_HDR_SIZE then return []
  else do
    let id ← ltoh16Ua eventData EVENT_HDR_SIZE
    if id ≠ RPT_CMD_DATA then return []
    else do
      let len ← ltoh16Ua eventData (EVENT_HDR_SIZE + 2)
      walkLoop eventOn eventData (eventData.length + 1) (EVENT_HDR_SIZE + XTLV_HDR_SIZE) len

/-- It ends, reads the event's data only, and no turn takes more than is left. -/
def Bounded (eventOn : Bool) (eventData : List UInt8) : Prop :=
  ∃ turns, wlShowRoamCacheUpdateEvent eventOn eventData = .ok turns ∧ ∀ t ∈ turns, t.size ≤ t.left

/-! ## Elements that fit -/

def u16At (mem : List UInt8) (p : Nat) : Nat := byte mem p + 0x100 * byte mem (p + 1)

/-- How much of an XTLV's data is read, if it is one that is shown. -/
def shownBytes (eventOn : Bool) (id : Nat) : Option Nat :=
  if id = XTLV_BSS_INFO then some (if eventOn then 12 else 4)
  else if id = XTLV_CANDIDATE_INFO ∨ id = XTLV_USER_CACHE_INFO then
    some (if eventOn then 16 else 0)
  else none

def sizeAt (mem : List UInt8) (p : Nat) : Nat := u16At mem (p + 2) + XTLV_HDR_SIZE

/-- From `p` on there are elements, each of them in what is left of the outer one and with all of
its fields in the data, up to one with another id or to the end. -/
inductive Fits (eventOn : Bool) (mem : List UInt8) : Nat → Nat → Prop
  | done {p left : Nat} : left ≤ XTLV_HDR_SIZE → Fits eventOn mem p left
  | other {p left : Nat} :
      p + 2 ≤ mem.length → shownBytes eventOn (u16At mem p) = none → Fits eventOn mem p left
  | element {p left n : Nat} :
      shownBytes eventOn (u16At mem p) = some n → p + XTLV_HDR_SIZE + n ≤ mem.length →
      uint16 (sizeAt mem p) ≤ left →
      Fits eventOn mem (p + sizeAt mem p) (left - uint16 (sizeAt mem p)) → Fits eventOn mem p left

/-! ## Reads -/

section
variable {eventOn : Bool} {mem : List UInt8} {p n : Nat}

theorem rd_outside (h : mem.length ≤ p) : rd mem p = .error .outside := by
  unfold rd
  rw [List.getElem?_eq_none h]

theorem rdN_outside (hn : 0 < n) (h : mem.length < p + n) : rdN mem p n = .error .outside := by
  induction n generalizing p with
  | zero => omega
  | succ n ih =>
    unfold rdN
    by_cases hp : p < mem.length
    · rw [rd_of_lt hp, ih (by omega) (by omega)]
      rfl
    · rw [rd_outside (by omega)]
      rfl

theorem readField_eq (hn : 0 < n) :
    readField mem p n = if p + n ≤ mem.length then .ok () else .error .outside := by
  unfold readField
  split
  · next h =>
    rw [rdN_of_le h]
    rfl
  · next h =>
    rw [rdN_outside hn (by omega)]
    rfl

theorem ltoh16Ua_cases (mem : List UInt8) (p : Nat) : ltoh16Ua mem p =
    if p + 2 ≤ mem.length then .ok (u16At mem p) else .error .outside := by
  split
  · next h => exact ltoh16Ua_eq (by omega)
  · next h =>
    unfold ltoh16Ua
    by_cases hp : p < mem.length
    · rw [rd_of_lt hp, rd_outside (by omega : mem.length ≤ p + 1)]
      rfl
    · rw [rd_outside (by omega : mem.length ≤ p)]
      rfl

theorem xtlvSize_cases (mem : List UInt8) (p : Nat) : xtlvSize mem p 0 =
    if p + XTLV_HDR_SIZE ≤ mem.length then .ok (sizeAt mem p) else .error .outside := by
  have hlen : xtlvLen mem p 0 = ltoh16Ua mem (p + 2) := rfl
  unfold xtlvSize XTLV_HDR_SIZE
  rw [hlen, ltoh16Ua_cases]
  split
  · rfl
  · rfl

/-- Reads are done one after the other: all of them, or none behind the first that faults. -/
def readTo (mem : List UInt8) (e : Nat) : Except Fault Unit :=
  if e ≤ mem.length then .ok () else .error .outside

theorem readTo_bind (mem : List UInt8) (e e' : Nat) :
    (do readTo mem e; readTo mem e') = readTo mem (max e e') := by
  unfold readTo
  by_cases he : e ≤ mem.length
  · by_cases he' : e' ≤ mem.length
    · rw [if_pos he, if_pos he', if_pos (by omega)]
      rfl
    · rw [if_pos he, if_neg he', if_neg (by omega)]
      rfl
  · rw [if_neg he, if_neg (by omega : ¬max e e' ≤ mem.length)]
    rfl

theorem showBssInfo_eq (eventOn : Bool) (mem : List UInt8) (p : Nat) :
    showBssInfo eventOn mem p = readTo mem (p + if eventOn then 12 else 4) := by
  have hf : ∀ {q n}, 0 < n → readField mem q n = readTo mem (q + n) := readField_eq
  unfold showBssInfo dhdEvent
  cases eventOn with
  | true =>
    simp only [if_true]
    rw [hf (by decide), hf (by decide), hf (by decide), hf (by decide), hf (by decide)]
    simp only [readTo_bind]
    exact congrArg (readTo mem) (by omega)
  | false =>
    simp only [Bool.false_eq_true, if_false]
    rw [hf (by decide), hf (by decide)]
    simp only [pure_bind, bind_pure_unit, readTo_bind]
    exact congrArg (readTo mem) (by omega)

theorem showCandidateInfo_eq (mem : List UInt8) (p : Nat) :
    showCandidateInfo true mem p = readTo mem (p + 16) := by
  have hf : ∀ {q n}, 0 < n → readField mem q n = readTo mem (q + n) := readField_eq
  unfold showCandidateInfo dhdEvent
  simp only [if_true]
  rw [hf (by decide), hf (by decide), hf (by decide), hf (by decide), hf (by decide)]
  simp only [readTo_bind]
  exact congrArg (readTo mem) (by omega)

theorem showXtlv_eq (eventOn : Bool) (mem : List UInt8) (p id : Nat) :
    (showXtlv eventOn mem p id).map (fun shown => do shown; readTo mem (p + XTLV_HDR_SIZE)) =
      (shownBytes eventOn id).map fun n => readTo mem (p + XTLV_HDR_SIZE + n) := by
  unfold showXtlv shownBytes
  split
  · rw [Option.map_some, Option.map_some, showBssInfo_eq, readTo_bind]
    congr 2
    omega
  · split
    · rw [Option.map_some, Option.map_some]
      cases eventOn with
      | true =>
        rw [showCandidateInfo_eq, readTo_bind]
        congr 2
        simp only [if_true]
        omega
      | false => rfl
    · rfl

end

/-! ## The walk -/

section
variable {eventOn : Bool} {mem : List UInt8} {k p left : Nat}

/-- One turn of the loop. -/
theorem walkLoop_succ (eventOn : Bool) (mem : List UInt8) (k p left : Nat) :
    walkLoop eventOn mem (k + 1) p left =
      if left ≤ XTLV_HDR_SIZE then .ok []
      else if p + 2 ≤ mem.length then
        match shownBytes eventOn (u16At mem p) with
        | none => .ok []
        | some n => do
          readTo mem (p + XTLV_HDR_SIZE + n)
          let turns ← walkLoop eventOn mem k (p + sizeAt mem p)
            (uint16 (left + 0x10000 - uint16 (sizeAt mem p)))
          return ⟨left, uint16 (sizeAt mem p)⟩ :: turns
      else .error .outside := by
  rw [walkLoop]
  by_cases hl : left ≤ XTLV_HDR_SIZE
  · rw [if_pos hl, if_neg (by omega)]
    rfl
  · rw [if_neg hl, if_pos ⟨by unfold XTLV_HDR_SIZE at hl; omega, by omega⟩, ltoh16Ua_cases]
    by_cases hp : p + 2 ≤ mem.length
    · rw [if_pos hp, if_pos hp]
      have heq := showXtlv_eq eventOn mem p (u16At mem p)
      show (match showXtlv eventOn mem p (u16At mem p) with
        | none => _
        | some shown => _) = _
      cases hs : showXtlv eventOn mem p (u16At mem p) with
      | none =>
        rw [hs, Option.map_none] at heq
        rw [Option.map_eq_none_iff.1 heq.symm]
        rfl
      | some shown =>
        rw [hs, Option.map_some] at heq
        obtain ⟨n, hn, hread⟩ := Option.map_eq_some_iff.1 heq.symm
        rw [hn]
        show (do shown; let size ← xtlvSize mem p 0; _) = (do readTo mem (p + XTLV_HDR_SIZE + n); _)
        have hsize : xtlvSize mem p 0 = (do readTo mem (p + XTLV_HDR_SIZE); pure (sizeAt mem p)) := by
          rw [xtlvSize_cases]
          unfold readTo
          split
          · rfl
          · rfl
        rw [hread, hsize]
        simp only [bind_assoc, pure_bind]
    · rw [if_neg hp, if_neg hp]
      rfl

theorem fits_iff (hl : ¬left ≤ XTLV_HDR_SIZE) : Fits eventOn mem p left ↔
    p + 2 ≤ mem.length ∧ ∀ n, shownBytes eventOn (u16At mem p) = some n →
      p + XTLV_HDR_SIZE + n ≤ mem.length ∧ uint16 (sizeAt mem p) ≤ left ∧
        Fits eventOn mem (p + sizeAt mem p) (left - uint16 (sizeAt mem p)) := by
  constructor
  · intro hf
    cases hf with
    | done h => exact absurd h hl
    | other h hnone =>
      refine ⟨h, ?_⟩
      rw [hnone]
      nofun
    | element hsome hle hsize hrest =>
      refine ⟨by unfold XTLV_HDR_SIZE at hle; omega, ?_⟩
      rw [hsome]
      rintro _ ⟨⟩
      exact ⟨hle, hsize, hrest⟩
  · rintro ⟨hp, h⟩
    cases hs : shownBytes eventOn (u16At mem p) with
    | none => exact .other hp hs
    | some n =>
      obtain ⟨hle, hsize, hrest⟩ := h n hs
      exact .element hs hle hsize hrest

/-- The turns of a run are its first one and those after it. -/
theorem first_turn (t : Turn) (x : Except Fault (List Turn)) :
    (∃ turns, (do let ts ← x; return t :: ts) = .ok turns ∧ ∀ u ∈ turns, u.size ≤ u.left) ↔
      t.size ≤ t.left ∧ ∃ ts, x = .ok ts ∧ ∀ u ∈ ts, u.size ≤ u.left := by
  cases x with
  | error e =>
    constructor
    · rintro ⟨_, hbad, -⟩
      cases hbad
    · rintro ⟨-, _, hbad, -⟩
      cases hbad
  | ok ts =>
    constructor
    · rintro ⟨_, hrun, hall⟩
      cases hrun
      exact ⟨hall t List.mem_cons_self, ts, rfl, fun u hu => hall u (List.mem_cons_of_mem t hu)⟩
    · rintro ⟨ht, _, hrun, hall⟩
      cases hrun
      exact ⟨t :: ts, rfl, List.forall_mem_cons.2 ⟨ht, hall⟩⟩

/-- With enough turns the walk ends as it should if the elements fit, and only then. -/
theorem walkLoop_iff (hk : mem.length < p + k) (hpos : 0 < k) (hleft : left < 0x10000) :
    (∃ turns, walkLoop eventOn mem k p left = .ok turns ∧ ∀ t ∈ turns, t.size ≤ t.left) ↔
      Fits eventOn mem p left := by
  induction k generalizing p left with
  | zero => omega
  | succ k ih =>
    rw [walkLoop_succ]
    by_cases hl : left ≤ XTLV_HDR_SIZE
    · rw [if_pos hl]
      exact ⟨fun _ => .done hl, fun _ => ⟨[], rfl, nofun⟩⟩
    rw [if_neg hl, fits_iff hl]
    by_cases hp : p + 2 ≤ mem.length
    · rw [if_pos hp]
      cases shownBytes eventOn (u16At mem p) with
      | none => exact ⟨fun _ => ⟨hp, nofun⟩, fun _ => ⟨[], rfl, nofun⟩⟩
      | some n =>
        simp only [Option.some.injEq, forall_eq', hp, true_and]
        by_cases hn : p + XTLV_HDR_SIZE + n ≤ mem.length
        · have hread : readTo mem (p + XTLV_HDR_SIZE + n) = .ok () := if_pos hn
          rw [hread, and_iff_right hn]
          refine Iff.trans (first_turn ⟨left, uint16 (sizeAt mem p)⟩ (walkLoop eventOn mem k _ _)) ?_
          apply and_congr_right
          intro (hfit : uint16 (sizeAt mem p) ≤ left)
          have hsub : uint16 (left + 0x10000 - uint16 (sizeAt mem p)) =
              left - uint16 (sizeAt mem p) := by
            unfold uint16 at hfit ⊢
            omega
          have hsize : 4 ≤ sizeAt mem p := Nat.le_add_left _ _
          unfold XTLV_HDR_SIZE at hn
          rw [hsub]
          exact ih (by omega) (by omega) (by omega)
        · have hread : readTo mem (p + XTLV_HDR_SIZE + n) = .error .outside := if_neg hn
          rw [hread]
          refine ⟨?_, fun h => absurd h.1 hn⟩
          rintro ⟨turns, hbad, -⟩
          cases hbad
    · rw [if_neg hp]
      refine ⟨?_, fun h => absurd h.1 hp⟩
      rintro ⟨turns, hbad, -⟩
      cases hbad

theorem u16At_lt (mem : List UInt8) (p : Nat) : u16At mem p < 0x10000 := by
  have hlo := byte_lt mem p
  have hhi := byte_lt mem (p + 1)
  unfold u16At
  omega

/-- **The event is read in bounds exactly when it is looked at no further than it goes.** -/
theorem roam_cache_bounded_iff (eventOn : Bool) (eventData : List UInt8) :
    Bounded eventOn eventData ↔
      eventData.length < 4 ∨
      (6 ≤ eventData.length ∧ u16At eventData 4 ≠ RPT_CMD_DATA) ∨
      (8 ≤ eventData.length ∧ u16At eventData 4 = RPT_CMD_DATA ∧
        Fits eventOn eventData 8 (u16At eventData 6)) := by
  unfold Bounded wlShowRoamCacheUpdateEvent EVENT_HDR_SIZE XTLV_HDR_SIZE
  simp only [ltoh16Ua_cases]
  by_cases h4 : eventData.length < 4
  · rw [if_pos h4]
    exact ⟨fun _ => .inl h4, fun _ => ⟨[], rfl, nofun⟩⟩
  rw [if_neg h4]
  by_cases h6 : 6 ≤ eventData.length
  · rw [if_pos h6]
    show (∃ turns, (if u16At eventData 4 ≠ RPT_CMD_DATA then _ else _) = _ ∧ _) ↔ _
    by_cases hid : u16At eventData 4 = RPT_CMD_DATA
    · rw [if_neg (not_not_intro hid)]
      by_cases h8 : 8 ≤ eventData.length
      · rw [if_pos h8]
        show (∃ turns, walkLoop eventOn eventData _ 8 (u16At eventData 6) = _ ∧ _) ↔ _
        rw [walkLoop_iff (by omega) (by omega) (u16At_lt _ _)]
        simp [h4, h8, hid]
      · rw [if_neg h8]
        refine ⟨?_, by simp [h4, h8, hid]⟩
        rintro ⟨turns, hbad, -⟩
        cases hbad
    · rw [if_pos hid]
      exact ⟨fun _ => .inr (.inl ⟨h6, hid⟩), fun _ => ⟨[], rfl, nofun⟩⟩
  · rw [if_neg h6]
    refine ⟨?_, by omega⟩
    rintro ⟨turns, hbad, -⟩
    cases hbad

/-- An element of 16 bytes where 5 are left, and the bytes to read it. -/
def tooLong : List UInt8 :=
  [1, 0, 26, 0, 1, 0, 5, 0, 1, 0, 12, 0, 0, 0, 0, 0, 0, 0, 0, 0, 0, 0, 0, 0, 0, 0]

/-- Nothing is left behind the header of the event, and is read.  In `tooLong`, 16 bytes are
subtracted from 5. -/
theorem roam_cache_not_bounded :
    wlShowRoamCacheUpdateEvent true [1, 0, 4, 0] = .error .outside ∧ ¬Bounded true [1, 0, 4, 0] ∧
    wlShowRoamCacheUpdateEvent true tooLong = .ok [⟨5, 16⟩] ∧ ¬Bounded true tooLong := by
  have hshort : wlShowRoamCacheUpdateEvent true [1, 0, 4, 0] = .error .outside := rfl
  have hlong : wlShowRoamCacheUpdateEvent true tooLong = .ok [⟨5, 16⟩] := by decide +kernel
  refine ⟨hshort, ?_, hlong, ?_⟩
  · rintro ⟨turns, hbad, -⟩
    rw [hshort] at hbad
    cases hbad
  · rintro ⟨turns, hrun, hall⟩
    rw [hlong] at hrun
    cases hrun
    exact absurd (hall ⟨5, 16⟩ List.mem_cons_self) (by decide)

end

end Bcmdhd.RoamCache

