import Bcmdhd.Lib.Runs
import Bcmdhd.Lib.Records
import Bcmdhd.Lib.OldestFirst
import Mathlib.Data.List.Forall2

/-!
# The debug ring (`dhd_dbg_ring.c`)

Entries of different lengths in a ring of bytes.  An entry does not wrap: where the tail
is too short the writer pads it, remembers its length in `rem_len`, and goes to the start.
Where it would run into the reader it moves the reader on, over the oldest entries.

    meets step padIsCurrent (activate r) es → runs step (activate r) es = some (s, tr) →
      ∃ q taken, Holds s q ∧ DropOldest (pushed tr) taken q ∧ the bytes returned are those
        of taken ∧ a push drops only what is in its way          (push_pull_fifo)

The numbers are `uint32`.  The threshold, the names and the lock are left out, and `len`
is stored with its low byte first.
-/

namespace Bcmdhd.DbgRing

open Runs Records OldestFirst

/-! ## The ring -/

inductive RingState
  | stop
  | active
  | suspend
deriving DecidableEq, Repr

/-- `DBG_RING_ENTRY_SIZE` -/
def dbgRingEntrySize : Nat := 12

/-- `hdr->len` -/
def hdrLen (hdr : List UInt8) : Nat := (hdr.getD 0 0).toNat + 0x100 * (hdr.getD 1 0).toNat

/-- The bytes of a header and of its payload. -/
structure Entry where
  hdr : List UInt8
  data : List UInt8
  hdr_length : hdr.length = dbgRingEntrySize
  data_length : data.length = hdrLen hdr
deriving DecidableEq, Repr

structure Ring where
  ringSize : Nat
  wp : Nat
  rp : Nat
  ringBuf : Nat → UInt8
  writtenBytes : Nat
  readBytes : Nat
  writtenRecords : Nat
  state : RingState
  /-- writer does not have enough space -/
  tailPadded : Bool
  /-- number of bytes from wp_pad to end -/
  remLen : Nat
  /-- pull contents from ring even if it is inactive -/
  pullInactive : Bool

def add32 (a b : Nat) : Nat := (a + b) % 0x100000000

/-- For `uint32` numbers. -/
def sub32 (a b : Nat) : Nat := (a + 0x100000000 - b) % 0x100000000

/-- `ENTRY_LENGTH` -/
def entryLength (len : Nat) : Nat := len + dbgRingEntrySize

/-- `ENTRY_LENGTH` of the entry at `pos`. -/
def entryLengthAt (s : Ring) (pos : Nat) : Nat :=
  entryLength (hdrLen (readAt s.ringBuf pos dbgRingEntrySize))

/-- `TXACTIVESZ` -/
def txActiveSz (r w d : Nat) : Nat := if r ≤ w then sub32 w r else add32 (sub32 d r) w

/-- `DBG_RING_WRITE_SPACE_AVAIL_CONT` -/
def writeSpaceAvailCont (r w d : Nat) : Nat := if w ≥ r then sub32 d w else sub32 r w

/-- `DBG_RING_CHECK_WRITE_SPACE` -/
def checkWriteSpace (r w d : Nat) : Nat :=
  min (sub32 d (txActiveSz r w d)) (writeSpaceAvailCont r w d)

/-! ## Push -/

inductive Bcme
  | ok
  | error
  | bufTooShort
  | bufTooLong
deriving DecidableEq, Repr

/-- The space is prepared at the start: the tail is padded. -/
def padTail (s : Ring) : Ring :=
  let remLen := sub32 s.ringSize s.wp
  let s :=
    { s with
      tailPadded := true
      remLen := remLen
      ringBuf := writeAt s.ringBuf s.wp (List.replicate remLen 0) }
  -- If read pointer is still at the beginning, make some room
  let s :=
    if s.rp = 0 then
      { s with
        rp := add32 s.rp (entryLengthAt s s.rp)
        readBytes := add32 s.readBytes (entryLengthAt s s.rp) }
    else s
  { s with rp := if s.rp = s.wp then 0 else s.rp, wp := 0 }

/-- The oldest entry is freed. -/
def freeOldest (s : Ring) : Ring :=
  let rp := add32 s.rp (entryLengthAt s s.rp)
  let readBytes := add32 s.readBytes (entryLengthAt s s.rp)
  -- skip padding if there is one
  if s.tailPadded && add32 rp s.remLen == s.ringSize then
    { s with rp := 0, tailPadded := false, remLen := 0, readBytes := readBytes }
  else { s with rp := rp, readBytes := readBytes }

/-- Claim the space; `none` when the loop does not end within `fuel` rounds. -/
def claim : Nat → Ring → Nat → Option (Ring × Bcme)
  | 0, _, _ => none
  | fuel + 1, s, wLen =>
    if checkWriteSpace s.rp s.wp s.ringSize ≤ wLen then
      if s.rp ≤ s.wp then claim fuel (padTail s) wLen
      -- check bounds before incrementing read ptr
      else if s.rp + entryLengthAt s s.rp ≥ s.ringSize then some (s, .bufTooShort)
      else claim fuel (freeOldest s) wLen
    else some (s, .ok)

def writeEntry (s : Ring) (e : Entry) (wLen : Nat) : Ring :=
  { s with
    ringBuf := writeAt (writeAt s.ringBuf s.wp e.hdr) (s.wp + dbgRingEntrySize) e.data
    wp := add32 s.wp wLen
    writtenRecords := add32 s.writtenRecords 1
    writtenBytes := add32 s.writtenBytes wLen }

def push (s : Ring) (e : Entry) : Option (Ring × Bcme) :=
  let wLen := entryLength (hdrLen e.hdr)
  if s.state ≠ .active then some (s, .ok)
  else if wLen > s.ringSize then some (s, .error)
  else
    match claim (s.ringSize + 3) s wLen with
    | none => none
    | some (s, .ok) =>
      -- check before writing to the ring
      if add32 s.wp wLen ≥ s.ringSize then some (s, .bufTooLong)
      else some (writeEntry s e wLen, .ok)
    | some (s, ret) => some (s, ret)

/-! ## Pull -/

/-- What is to be copied from the entry at `rp`. -/
def pullBytes (s : Ring) (stripHeader : Bool) : List UInt8 :=
  if stripHeader then
    readAt s.ringBuf (s.rp + dbgRingEntrySize) (hdrLen (readAt s.ringBuf s.rp dbgRingEntrySize))
  else readAt s.ringBuf s.rp (entryLengthAt s s.rp)

/-- The read pointer moves past an entry. -/
def advance (s : Ring) : Ring :=
  let rp := add32 s.rp (entryLengthAt s s.rp)
  -- don't pass wp but skip padding if there is one
  if rp ≠ s.wp ∧ s.tailPadded = true ∧ add32 rp s.remLen ≥ s.ringSize then
    { s with rp := 0, tailPadded := false, remLen := 0 }
  else { s with rp := rp }

/-- `dhd_dbg_ring_pull_single`: the bytes it copies, if it gets there. -/
def pullSingle (s : Ring) (bufLen : Nat) (stripHeader : Bool) : Ring × Option (List UInt8) :=
  if bufLen = 0 then (s, none)
  else if s.pullInactive = false ∧ s.state ≠ .active then (s, none)
  else if s.rp = s.wp then (s, none)
  -- Boundary Check
  else if add32 s.rp (entryLengthAt s s.rp) > s.ringSize then (s, none)
  else if (pullBytes s stripHeader).length > bufLen then (s, none)
  else
    let next := advance s
    if next.rp ≥ next.ringSize then (next, none)
    else
      ({ next with readBytes := add32 s.readBytes (entryLengthAt s s.rp) },
        some (pullBytes s stripHeader))

/-! ## Runs -/

/-- `dhd_dbg_ring_start` -/
def start (s : Ring) : Ring :=
  { s with
    state := .suspend
    rp := 0
    wp := 0
    writtenBytes := 0
    readBytes := 0
    writtenRecords := 0
    ringBuf := writeAt s.ringBuf 0 (List.replicate s.ringSize 0) }

/-- `dhd_dbg_ring_config` -/
def config (s : Ring) (logLevel : Nat) : Ring :=
  if s.state = .stop then s
  else { s with state := if logLevel = 0 then .suspend else .active }

/-- A ring that is started, and then active. -/
def activate (s : Ring) : Ring := config (start s) 1

inductive Call
  | push (e : Entry)
  | pull (bufLen : Nat) (stripHeader : Bool)
deriving DecidableEq, Repr

inductive Result
  | pushed
  | pulled (bytes : Option (List UInt8))
deriving DecidableEq, Repr

/-- The entry is accepted, and the buffer of a pull is large enough. -/
def step (s : Ring) : Call → Option (Ring × Result)
  | .push e =>
    match push s e with
    | some (s', .ok) => some (s', .pushed)
    | _ => none
  | .pull bufLen stripHeader =>
    if 0 < bufLen ∧ (s.rp = s.wp ∨ (pullBytes s stripHeader).length ≤ bufLen) then
      some ((pullSingle s bufLen stripHeader).1, .pulled (pullSingle s bufLen stripHeader).2)
    else none

/-- A pull does not take a tail that was padded in an earlier lap for the end of this one. -/
def padIsCurrent (s : Ring) : Call → Bool
  | .push _ => true
  | .pull _ _ =>
    let rp := add32 s.rp (entryLengthAt s s.rp)
    !(decide (s.rp < s.wp) && s.tailPadded && rp != s.wp && decide (add32 rp s.remLen ≥ s.ringSize))

/-! ## Entries in the buffer -/

def bytes (e : Entry) : List UInt8 := e.hdr ++ e.data

theorem bytes_length_data (e : Entry) :
    (bytes e).length = dbgRingEntrySize + e.data.length := by
  unfold bytes
  rw [List.length_append, e.hdr_length]

theorem bytes_length (e : Entry) : (bytes e).length = entryLength (hdrLen e.hdr) := by
  rw [bytes_length_data, e.data_length]
  exact Nat.add_comm _ _

theorem bytes_pos (e : Entry) : 0 < (bytes e).length := by
  rw [bytes_length]
  exact Nat.lt_of_lt_of_le (by decide) (Nat.le_add_left dbgRingEntrySize _)

/-- The two parts of an entry that lies at `p`. -/
theorem readAt_entry {buf : Nat → UInt8} {p : Nat} {e : Entry}
    (h : readAt buf p (bytes e).length = bytes e) :
    readAt buf p dbgRingEntrySize = e.hdr ∧
      readAt buf (p + dbgRingEntrySize) (hdrLen e.hdr) = e.data := by
  have hlen : (bytes e).length = dbgRingEntrySize + hdrLen e.hdr := by
    rw [bytes_length]
    exact Nat.add_comm _ _
  rw [hlen, readAt_add] at h
  exact List.append_inj h (by rw [readAt_length, e.hdr_length])

theorem entry_unique (buf : Nat → UInt8) (p : Nat) (e e' : Entry)
    (h : readAt buf p (bytes e).length = bytes e)
    (h' : readAt buf p (bytes e').length = bytes e') : e = e' := by
  obtain ⟨hh, hd⟩ := readAt_entry h
  obtain ⟨hh', hd'⟩ := readAt_entry h'
  obtain ⟨hdr, data, hl, dl⟩ := e
  obtain ⟨hdr', data', hl', dl'⟩ := e'
  obtain rfl : hdr = hdr' := hh.symm.trans hh'
  obtain rfl : data = data' := hd.symm.trans hd'
  rfl

variable {s : Ring} {q q₁ q₂ : List (Nat × Entry)} {x : Nat × Entry} {wLen fuel bufLen : Nat}
  {stripHeader : Bool}

theorem entryLengthAt_entry {p : Nat} {e : Entry}
    (h : readAt s.ringBuf p (bytes e).length = bytes e) :
    entryLengthAt s p = (bytes e).length := by
  unfold entryLengthAt
  rw [(readAt_entry h).1, bytes_length]

/-- What a pull is to return for an entry. -/
def copied (stripHeader : Bool) (e : Entry) : List UInt8 :=
  if stripHeader then e.data else e.hdr ++ e.data

theorem pullBytes_entry {e : Entry} (stripHeader : Bool)
    (h : readAt s.ringBuf s.rp (bytes e).length = bytes e) :
    pullBytes s stripHeader = copied stripHeader e := by
  unfold pullBytes copied
  cases stripHeader with
  | false =>
    rw [if_neg Bool.false_ne_true, if_neg Bool.false_ne_true, entryLengthAt_entry h]
    exact h
  | true =>
    rw [if_pos rfl, if_pos rfl, (readAt_entry h).1]
    exact (readAt_entry h).2

/-! ## Numbers -/

theorem add32_eq {a b : Nat} (h : a + b < 0x100000000) : add32 a b = a + b := Nat.mod_eq_of_lt h

theorem sub32_eq {a b : Nat} (hb : b ≤ a) (ha : a < 0x100000000) : sub32 a b = a - b := by
  unfold sub32
  omega

theorem checkWriteSpace_flat {r w d : Nat} (hr : r ≤ w) (hw : w ≤ d) (hd : d < 0x100000000) :
    checkWriteSpace r w d = d - w := by
  unfold checkWriteSpace txActiveSz writeSpaceAvailCont
  rw [if_pos hr, if_pos hr, sub32_eq hr (by omega), sub32_eq (by omega) hd, sub32_eq hw hd]
  omega

theorem checkWriteSpace_wrapped {r w d : Nat} (hw : w < r) (hr : r ≤ d) (hd : d < 0x100000000) :
    checkWriteSpace r w d = r - w := by
  unfold checkWriteSpace txActiveSz writeSpaceAvailCont
  rw [if_neg (by omega), if_neg (by omega), sub32_eq hr hd, add32_eq (by omega),
    sub32_eq (by omega) hd, sub32_eq (by omega) (by omega)]
  omega

/-! ## The unread entries -/

/-- The unread entries `q`, each with its position, when they do not wrap. -/
structure Flat (s : Ring) (q : List (Nat × Entry)) : Prop where
  laid : Laid bytes s.ringBuf s.rp q s.wp
  wp_lt : s.wp < s.ringSize ∨ s.wp = 0

/-- Where the padding of the tail starts. -/
def padStart (s : Ring) : Nat := s.ringSize - s.remLen

/-- The unread entries `q₁` up to the padding and `q₂` from the start. -/
structure Wrapped (s : Ring) (q₁ q₂ : List (Nat × Entry)) : Prop where
  wp_lt : s.wp < s.rp
  rp_lt : s.rp < padStart s
  padded : s.tailPadded = true
  rem_pos : 0 < s.remLen
  first : Laid bytes s.ringBuf s.rp q₁ (padStart s)
  second : Laid bytes s.ringBuf 0 q₂ s.wp

/-- The unread entries of a ring, oldest first. -/
def Holds (s : Ring) (q : List (Nat × Entry)) : Prop :=
  Flat s q ∨ ∃ q₁ q₂, q = q₁ ++ q₂ ∧ Wrapped s q₁ q₂

theorem Flat.wp_le (h : Flat s q) : s.wp ≤ s.ringSize := by
  rcases h.wp_lt with h | h <;> omega

theorem Wrapped.padStart_lt (h : Wrapped s q₁ q₂) :
    padStart s < s.ringSize := by
  have hrp := h.rp_lt
  have hrem := h.rem_pos
  unfold padStart at hrp ⊢
  omega

/-- There is an entry up to the padding. -/
theorem Wrapped.not_nil (h : Wrapped s [] q₂) : False := by
  have heq : s.rp = padStart s := h.first
  have hlt := h.rp_lt
  omega

theorem Holds.readBytes (h : Holds s q) (n : Nat) :
    Holds { s with readBytes := n } q := by
  rcases h with h | ⟨q₁, q₂, hq, h⟩
  · exact .inl ⟨h.laid, h.wp_lt⟩
  · exact .inr ⟨q₁, q₂, hq, h.wp_lt, h.rp_lt, h.padded, h.rem_pos, h.first, h.second⟩

/-- There is one such list. -/
theorem holds_unique {q' : List (Nat × Entry)} (h : Holds s q) (h' : Holds s q') :
    q' = q := by
  rcases h with h | ⟨q₁, q₂, rfl, h⟩ <;> rcases h' with h' | ⟨q₁', q₂', rfl, h'⟩
  · exact h'.laid.unique h.laid bytes_pos (entry_unique s.ringBuf)
  · have hle := h.laid.le
    have hlt := h'.wp_lt
    omega
  · have hle := h'.laid.le
    have hlt := h.wp_lt
    omega
  · rw [h'.first.unique h.first bytes_pos (entry_unique s.ringBuf),
      h'.second.unique h.second bytes_pos (entry_unique s.ringBuf)]

theorem holds_length (h : Holds s q) :
    q.length ≤ s.ringSize := by
  rcases h with h | ⟨q₁, q₂, rfl, h⟩
  · have hlen := h.laid.length_le bytes_pos
    have hwp := h.wp_le
    omega
  · have h₁ := h.first.length_le bytes_pos
    have h₂ := h.second.length_le bytes_pos
    have hpad := h.padStart_lt
    have hwp := h.wp_lt
    have hrp := h.rp_lt
    rw [List.length_append]
    omega

/-- The reader moves past the first entry and, where it was the last one before the
padding, to the start. -/
theorem Wrapped.next {t : Ring} (h : Wrapped s (x :: q₁) q₂) (hbuf : t.ringBuf = s.ringBuf)
    (hwp : t.wp = s.wp) (hsize : t.ringSize = s.ringSize)
    (hlast : s.rp + (bytes x.2).length = padStart s → t.rp = 0)
    (hinner : s.rp + (bytes x.2).length < padStart s →
      t.rp = s.rp + (bytes x.2).length ∧ t.tailPadded = true ∧ t.remLen = s.remLen) :
    (q₁ = [] ∧ Flat t q₂) ∨ Wrapped t q₁ q₂ := by
  have hwlt := h.wp_lt
  have hpad := h.padStart_lt
  have hrp := h.rp_lt
  have hle := h.first.2.2.le
  by_cases heq : s.rp + (bytes x.2).length = padStart s
  · left
    have hnil : q₁.length = 0 := by
      have hlen := h.first.2.2.length_le bytes_pos
      omega
    refine ⟨List.eq_nil_of_length_eq_zero hnil, ?_, by rw [hwp, hsize]; omega⟩
    rw [hbuf, hwp, hlast heq]
    exact h.second
  · right
    obtain ⟨hrp', htp, hrem⟩ := hinner (by omega)
    have hstart : padStart t = padStart s := by
      unfold padStart
      rw [hsize, hrem]
    refine ⟨by omega, by omega, htp, by rw [hrem]; exact h.rem_pos, ?_, ?_⟩
    · rw [hbuf, hrp', hstart]
      exact h.first.2.2
    · rw [hbuf, hwp]
      exact h.second

/-- The end of the first entry, as the code computes it, and its distance to the padding. -/
theorem Wrapped.first_end (h : Wrapped s (x :: q₁) q₂) (hd : s.ringSize < 0x100000000) :
    add32 s.rp (entryLengthAt s s.rp) = s.rp + (bytes x.2).length ∧
      s.rp + (bytes x.2).length ≤ padStart s ∧ s.ringSize = padStart s + s.remLen ∧
      add32 (s.rp + (bytes x.2).length) s.remLen = s.rp + (bytes x.2).length + s.remLen := by
  have hle := h.first.2.2.le
  have hpad := h.padStart_lt
  have hrp := h.rp_lt
  have hrem : s.ringSize = padStart s + s.remLen := by
    unfold padStart at hrp ⊢
    omega
  refine ⟨?_, hle, hrem, add32_eq (by omega)⟩
  rw [entryLengthAt_entry h.first.2.1, add32_eq (by omega)]

/-! ## Claiming the space -/

@[simp] theorem freeOldest_ringBuf (s : Ring) : (freeOldest s).ringBuf = s.ringBuf := by
  unfold freeOldest
  dsimp only
  split <;> rfl

@[simp] theorem freeOldest_wp (s : Ring) : (freeOldest s).wp = s.wp := by
  unfold freeOldest
  dsimp only
  split <;> rfl

@[simp] theorem freeOldest_ringSize (s : Ring) : (freeOldest s).ringSize = s.ringSize := by
  unfold freeOldest
  dsimp only
  split <;> rfl

@[simp] theorem freeOldest_state (s : Ring) : (freeOldest s).state = s.state := by
  unfold freeOldest
  dsimp only
  split <;> rfl

/-- The writer's test for the padding is true at the last entry before it, and only there. -/
theorem freeOldest_wrapped (h : Wrapped s (x :: q₁) q₂) (hd : s.ringSize < 0x100000000) :
    s.rp + entryLengthAt s s.rp < s.ringSize ∧
      ((q₁ = [] ∧ Flat (freeOldest s) q₂) ∨ Wrapped (freeOldest s) q₁ q₂) := by
  have hlen := entryLengthAt_entry h.first.2.1
  have hpad := h.padStart_lt
  obtain ⟨hadd, hle, hrem, hsum⟩ := h.first_end hd
  refine ⟨by omega, h.next (freeOldest_ringBuf s) (freeOldest_wp s) (freeOldest_ringSize s) ?_ ?_⟩
  · intro heq
    unfold freeOldest
    dsimp only
    rw [hadd, hsum, h.padded, if_pos]
    simp only [Bool.true_and, beq_iff_eq]
    omega
  · intro hlt
    unfold freeOldest
    dsimp only
    rw [hadd, hsum, h.padded, if_neg]
    · exact ⟨rfl, rfl, rfl⟩
    · simp only [Bool.true_and, beq_iff_eq]
      omega

@[simp] theorem padTail_ringSize (s : Ring) : (padTail s).ringSize = s.ringSize := by
  unfold padTail
  dsimp only
  split <;> rfl

@[simp] theorem padTail_state (s : Ring) : (padTail s).state = s.state := by
  unfold padTail
  dsimp only
  split <;> rfl

@[simp] theorem padTail_wp (s : Ring) : (padTail s).wp = 0 := rfl

@[simp] theorem padTail_tailPadded (s : Ring) : (padTail s).tailPadded = true := by
  unfold padTail
  dsimp only
  split <;> rfl

@[simp] theorem padTail_remLen (s : Ring) : (padTail s).remLen = sub32 s.ringSize s.wp := by
  unfold padTail
  dsimp only
  split <;> rfl

@[simp] theorem padTail_ringBuf (s : Ring) : (padTail s).ringBuf =
    writeAt s.ringBuf s.wp (List.replicate (sub32 s.ringSize s.wp) 0) := by
  unfold padTail
  dsimp only
  split <;> rfl

theorem padTail_rp (s : Ring) : (padTail s).rp =
    let rp := if s.rp = 0 then add32 s.rp (entryLengthAt { s with
        ringBuf := writeAt s.ringBuf s.wp (List.replicate (sub32 s.ringSize s.wp) 0) } s.rp)
      else s.rp
    if rp = s.wp then 0 else rp := by
  unfold padTail
  dsimp only
  split <;> rfl

/-- The entries from `p` on are those before the padding. -/
theorem padTail_wrapped {p : Nat} (hl : Laid bytes s.ringBuf p q s.wp) (hpos : 0 < p)
    (hlt : p < s.wp) (hwp : s.wp < s.ringSize) (hd : s.ringSize < 0x100000000)
    (hrp : (padTail s).rp = p) :
    Wrapped (padTail s) q [] := by
  have hrem : (padTail s).remLen = s.ringSize - s.wp := by
    rw [padTail_remLen, sub32_eq (by omega) hd]
  have hstart : padStart (padTail s) = s.wp := by
    unfold padStart
    rw [hrem, padTail_ringSize]
    omega
  refine ⟨?_, ?_, padTail_tailPadded s, by omega, ?_, rfl⟩
  · rw [hrp, padTail_wp]
    exact hpos
  · rw [hrp, hstart]
    exact hlt
  · rw [hrp, hstart, padTail_ringBuf]
    exact hl.congr fun i _ hi => writeAt_of_off (.inl hi)

/-- The padding does not touch the first entry. -/
theorem Flat.entryLengthAt_padded (h : Flat s (x :: q)) :
    entryLengthAt { s with
      ringBuf := writeAt s.ringBuf s.wp (List.replicate (sub32 s.ringSize s.wp) 0) } s.rp =
      (bytes x.2).length :=
  entryLengthAt_entry (h.laid.congr fun _ _ hi => writeAt_of_off (.inl hi)).2.1

/-- Padding the tail frees at most the entry at the start. -/
theorem padTail_flat (h : Flat s q) (hpos : 0 < s.wp) (hd : s.ringSize < 0x100000000) :
    ∃ dropped kept, q = dropped ++ kept ∧ (∀ x ∈ dropped, x.1 = 0) ∧
      ((kept = [] ∧ Flat (padTail s) []) ∨ Wrapped (padTail s) kept []) := by
  have hle := h.laid.le
  have hwp : s.wp < s.ringSize := by
    rcases h.wp_lt with h | h <;> omega
  have hrp' := padTail_rp s
  dsimp only at hrp'
  by_cases hrp : s.rp = 0
  · cases q with
    | nil =>
      have heq : s.rp = s.wp := h.laid
      omega
    | cons x q =>
      have hlx := h.laid.2.2.le
      have hlen := h.entryLengthAt_padded
      rw [if_pos hrp, hlen, hrp, add32_eq (by omega), Nat.zero_add] at hrp'
      rw [hrp, Nat.zero_add] at hlx
      have hfirst := h.laid.2.2
      rw [hrp, Nat.zero_add] at hfirst
      refine ⟨[x], q, rfl, ?_, ?_⟩
      · intro y hy
        rw [List.mem_singleton.1 hy, h.laid.1, hrp]
      · by_cases hall : (bytes x.2).length = s.wp
        · left
          have hnil := hfirst.length_le bytes_pos
          rw [if_pos hall] at hrp'
          exact ⟨List.eq_nil_of_length_eq_zero (by omega), hrp', .inr rfl⟩
        · right
          rw [if_neg hall] at hrp'
          exact padTail_wrapped hfirst (bytes_pos x.2) (by omega) hwp hd hrp'
  · rw [if_neg hrp] at hrp'
    refine ⟨[], q, rfl, by simp, ?_⟩
    by_cases hempty : s.rp = s.wp
    · left
      have hnil := h.laid.length_le bytes_pos
      rw [if_pos hempty] at hrp'
      exact ⟨List.eq_nil_of_length_eq_zero (by omega), hrp', .inr rfl⟩
    · right
      rw [if_neg hempty] at hrp'
      exact padTail_wrapped h.laid (by omega) (by omega) hwp hd hrp'

/-- The entry at `p` is where an entry of `wLen` bytes goes, or at the byte after it, which
keeps the pointers apart: from the write pointer on, or from the start if the write pointer
was moved there. -/
def InTheWay (s : Ring) (wLen wp p : Nat) : Prop :=
  (s.wp ≤ p ∧ p ≤ s.wp + wLen) ∨ (wp = 0 ∧ p ≤ wLen)

/-- There is room in `s'`, which came from `s` by freeing `dropped`. -/
structure Claimed (s : Ring) (wLen : Nat) (s' : Ring) (dropped kept : List (Nat × Entry)) :
    Prop where
  holds : Holds s' kept
  room : wLen < checkWriteSpace s'.rp s'.wp s'.ringSize
  ringSize : s'.ringSize = s.ringSize
  state : s'.state = s.state
  wp : s'.wp = s.wp ∨ s'.wp = 0
  inTheWay : ∀ x ∈ dropped, InTheWay s wLen s'.wp x.1

/-- The loop ends with room for the entry, if the entry is shorter than the ring; if not it
is refused. -/
def Claims (s : Ring) (wLen : Nat) (q : List (Nat × Entry)) (res : Option (Ring × Bcme)) : Prop :=
  (wLen < s.ringSize ∧ ∃ s' dropped kept, res = some (s', .ok) ∧ q = dropped ++ kept ∧
    Claimed s wLen s' dropped kept) ∨
  (s.ringSize ≤ wLen ∧ ∀ s', res ≠ some (s', .ok))

/-- No entry is freed. -/
theorem Claims.here (h : Holds s q) (hlt : wLen < s.ringSize)
    (hroom : wLen < checkWriteSpace s.rp s.wp s.ringSize) :
    Claims s wLen q (some (s, .ok)) :=
  .inl ⟨hlt, s, [], q, rfl, rfl, h, hroom, rfl, rfl, .inl rfl, nofun⟩

/-- A round from `s` to `t` frees an entry in front of the write pointer. -/
theorem Claims.free {t : Ring} {res : Option (Ring × Bcme)} (hsize : t.ringSize = s.ringSize)
    (hstate : t.state = s.state) (hwp : t.wp = s.wp) (hx : s.wp ≤ x.1 ∧ x.1 ≤ s.wp + wLen)
    (h : Claims t wLen q res) :
    Claims s wLen (x :: q) res := by
  rcases h with ⟨hlt, s', dropped, kept, hres, hq, hc⟩ | ⟨hle, hno⟩
  · refine .inl ⟨hsize ▸ hlt, s', x :: dropped, kept, hres, by rw [hq]; rfl, hc.holds, hc.room,
      hc.ringSize.trans hsize, hc.state.trans hstate, hwp ▸ hc.wp, ?_⟩
    intro y hy
    rcases List.mem_cons.1 hy with rfl | hy
    · exact .inl hx
    · have hway := hc.inTheWay y hy
      unfold InTheWay at hway ⊢
      rw [hwp] at hway
      exact hway
  · exact .inr ⟨hsize ▸ hle, hno⟩

/-- A round from `s` to `t` moves the write pointer to the start. -/
theorem Claims.pad {t : Ring} {dropped : List (Nat × Entry)} {res : Option (Ring × Bcme)}
    (hsize : t.ringSize = s.ringSize) (hstate : t.state = s.state) (hwp : t.wp = 0)
    (hx : ∀ x ∈ dropped, x.1 = 0) (h : Claims t wLen q res) :
    Claims s wLen (dropped ++ q) res := by
  rcases h with ⟨hlt, s', dropped', kept, hres, hq, hc⟩ | ⟨hle, hno⟩
  · have hwp' : s'.wp = 0 := by
      rcases hc.wp with h | h
      · exact h.trans hwp
      · exact h
    refine .inl ⟨hsize ▸ hlt, s', dropped ++ dropped', kept, hres, by rw [hq, List.append_assoc],
      hc.holds, hc.room, hc.ringSize.trans hsize, hc.state.trans hstate, .inr hwp', ?_⟩
    intro y hy
    refine .inr ⟨hwp', ?_⟩
    rcases List.mem_append.1 hy with hy | hy
    · rw [hx y hy]
      exact Nat.zero_le _
    · have hway := hc.inTheWay y hy
      unfold InTheWay at hway
      omega
  · exact .inr ⟨hsize ▸ hle, hno⟩

/-- With the write pointer at the start there is never room for an entry as long as the ring. -/
theorem claim_too_long {s' : Ring} (hwp : s.wp = 0) (hpos : 0 < s.rp) (hle : s.rp ≤ s.ringSize)
    (hrem : s.remLen = s.ringSize) (hlong : s.ringSize ≤ wLen) (hd : s.ringSize < 0x100000000) :
    claim fuel s wLen ≠ some (s', .ok) := by
  induction fuel generalizing s with
  | zero => exact nofun
  | succ fuel ih =>
    have hroom : checkWriteSpace s.rp s.wp s.ringSize = s.rp := by
      rw [checkWriteSpace_wrapped (by omega) hle hd, hwp, Nat.sub_zero]
    unfold claim
    rw [if_pos (by omega), if_neg (by omega)]
    split
    · exact nofun
    · next hin =>
      have hadd : add32 s.rp (entryLengthAt s s.rp) = s.rp + entryLengthAt s s.rp :=
        add32_eq (by omega)
      have hne : add32 (s.rp + entryLengthAt s s.rp) s.remLen ≠ s.ringSize := by
        unfold add32
        omega
      have hfree : (freeOldest s).rp = s.rp + entryLengthAt s s.rp ∧
          (freeOldest s).remLen = s.remLen := by
        unfold freeOldest
        dsimp only
        rw [hadd, beq_false_of_ne hne, Bool.and_false, if_neg Bool.false_ne_true]
        exact ⟨rfl, rfl⟩
      apply ih
      · rw [freeOldest_wp, hwp]
      · omega
      · rw [freeOldest_ringSize]
        omega
      · rw [hfree.2, freeOldest_ringSize, hrem]
      · rw [freeOldest_ringSize]
        exact hlong
      · rw [freeOldest_ringSize]
        exact hd

/-- An empty ring with both pointers at the start. -/
theorem claim_empty (h : Flat s []) (hwp : s.wp = 0) (hd : s.ringSize < 0x100000000)
    (hmin : dbgRingEntrySize ≤ wLen) (hmax : wLen ≤ s.ringSize) :
    Claims s wLen [] (claim (fuel + 1) s wLen) := by
  have hrp : s.rp = 0 := by
    rw [← hwp]
    exact h.laid
  have hroom : checkWriteSpace s.rp s.wp s.ringSize = s.ringSize := by
    rw [checkWriteSpace_flat (by omega) (by omega) hd, hwp, Nat.sub_zero]
  unfold claim
  by_cases hlt : wLen < s.ringSize
  · rw [if_neg (by omega)]
    exact .here (.inl h) hlt (by omega)
  · rw [if_pos (by omega), if_pos (by omega)]
    refine .inr ⟨by omega, fun s' => ?_⟩
    have hrem : sub32 s.ringSize s.wp = s.ringSize := by
      rw [hwp, sub32_eq (Nat.zero_le _) hd, Nat.sub_zero]
    -- the whole ring is padding, and an entry without a payload is read there
    have hzero : readAt (writeAt s.ringBuf s.wp (List.replicate s.ringSize 0)) 0
        dbgRingEntrySize = List.replicate dbgRingEntrySize 0 := by
      have hall := readAt_writeAt s.ringBuf 0 (List.replicate s.ringSize (0 : UInt8))
      obtain ⟨k, hk⟩ := Nat.exists_eq_add_of_le (hmin.trans hmax)
      rw [List.length_replicate, hk, readAt_add, ← List.replicate_append_replicate] at hall
      rw [hwp, hk, ← List.replicate_append_replicate]
      exact (List.append_inj hall (by simp)).1
    have hrp' : (padTail s).rp = dbgRingEntrySize := by
      have hpad := padTail_rp s
      dsimp only at hpad
      rw [hpad, if_pos hrp, hrem, hrp]
      unfold entryLengthAt
      dsimp only
      rw [hzero, hwp]
      decide
    refine claim_too_long rfl ?_ ?_ ?_ ?_ ?_
    · rw [hrp']
      decide
    · rw [hrp', padTail_ringSize]
      exact hmin.trans hmax
    · rw [padTail_remLen, padTail_ringSize, hrem]
    · rw [padTail_ringSize]
      omega
    · rw [padTail_ringSize]
      exact hd

/-- The entries up to the padding are freed one by one, and then the ring is flat. -/
theorem claim_wrapped {n : Nat} (h : Wrapped s q₁ q₂) (hd : s.ringSize < 0x100000000)
    (hflat : ∀ t fuel, Flat t q₂ → t.wp = s.wp → t.ringSize = s.ringSize → n ≤ fuel →
      Claims t wLen q₂ (claim fuel t wLen)) (hfuel : q₁.length + n ≤ fuel) :
    Claims s wLen (q₁ ++ q₂) (claim fuel s wLen) := by
  induction q₁ generalizing s fuel with
  | nil => exact h.not_nil.elim
  | cons x q₁ ih =>
    have hwlt := h.wp_lt
    have hrp := h.rp_lt
    have hpad := h.padStart_lt
    have hroom := checkWriteSpace_wrapped hwlt (by omega : s.rp ≤ s.ringSize) hd
    obtain ⟨hin, hnext⟩ := freeOldest_wrapped h hd
    rw [List.length_cons] at hfuel
    cases fuel with
    | zero => omega
    | succ fuel =>
      unfold claim
      by_cases hfull : checkWriteSpace s.rp s.wp s.ringSize ≤ wLen
      · rw [if_pos hfull, if_neg (by omega), if_neg (by omega)]
        have hx : s.wp ≤ x.1 ∧ x.1 ≤ s.wp + wLen := by
          rw [h.first.1]
          omega
        refine Claims.free (freeOldest_ringSize s) (freeOldest_state s) (freeOldest_wp s) hx ?_
        rcases hnext with ⟨rfl, hf⟩ | hw
        · exact hflat (freeOldest s) fuel hf (freeOldest_wp s) (freeOldest_ringSize s) (by omega)
        · refine ih hw (by rw [freeOldest_ringSize]; exact hd) ?_ (by omega)
          intro t fuel ht hwp hsize
          rw [freeOldest_wp] at hwp
          rw [freeOldest_ringSize] at hsize
          exact hflat t fuel ht hwp hsize
      · rw [if_neg hfull]
        exact .here (.inr ⟨_, _, rfl, h⟩) (by omega) (by omega)

theorem claim_flat (h : Flat s q) (hd : s.ringSize < 0x100000000) (hmin : dbgRingEntrySize ≤ wLen)
    (hmax : wLen ≤ s.ringSize) (hfuel : q.length + 2 ≤ fuel) :
    Claims s wLen q (claim fuel s wLen) := by
  have hle := h.laid.le
  have hroom := checkWriteSpace_flat hle h.wp_le hd
  cases fuel with
  | zero => omega
  | succ fuel =>
    by_cases hpos : 0 < s.wp
    · unfold claim
      by_cases hfull : checkWriteSpace s.rp s.wp s.ringSize ≤ wLen
      · rw [if_pos hfull, if_pos hle]
        obtain ⟨dropped, kept, rfl, hzero, hnext⟩ := padTail_flat h hpos hd
        rw [List.length_append] at hfuel
        refine Claims.pad (padTail_ringSize s) (padTail_state s) rfl hzero ?_
        rw [← padTail_ringSize s] at hd hmax
        -- an empty ring whose pointers are at the start takes one more round
        have hempty : ∀ t fuel, Flat t [] → t.wp = (padTail s).wp →
            t.ringSize = (padTail s).ringSize → 1 ≤ fuel →
            Claims t wLen [] (claim fuel t wLen) := by
          intro t fuel ht hwp hsize hf
          obtain ⟨fuel, rfl⟩ := Nat.exists_eq_add_of_le' hf
          exact claim_empty ht hwp (hsize ▸ hd) hmin (hsize ▸ hmax)
        rcases hnext with ⟨rfl, hf⟩ | hw
        · exact hempty _ _ hf rfl rfl (by omega)
        · have hc : Claims (padTail s) wLen (kept ++ []) (claim fuel (padTail s) wLen) :=
            claim_wrapped hw hd hempty (by omega)
          rw [List.append_nil] at hc
          exact hc
      · rw [if_neg hfull]
        exact .here (.inl h) (by omega) (by omega)
    · have hwp : s.wp = 0 := by omega
      have hnil := h.laid.length_le bytes_pos
      obtain rfl := List.eq_nil_of_length_eq_zero (by omega : q.length = 0)
      exact claim_empty h hwp hd hmin hmax

/-- The loop, from any ring that holds the entries `q`. -/
theorem claim_holds (h : Holds s q) (hd : s.ringSize < 0x100000000) (hmin : dbgRingEntrySize ≤ wLen)
    (hmax : wLen ≤ s.ringSize) (hfuel : q.length + 2 ≤ fuel) :
    Claims s wLen q (claim fuel s wLen) := by
  rcases h with h | ⟨q₁, q₂, rfl, h⟩
  · exact claim_flat h hd hmin hmax hfuel
  · rw [List.length_append] at hfuel
    refine claim_wrapped h hd (n := q₂.length + 2) ?_ (by omega)
    intro t fuel ht _ hsize
    exact claim_flat ht (hsize ▸ hd) hmin (hsize ▸ hmax)

/-! ## Push -/

theorem writeEntry_read (s : Ring) (e : Entry) (wLen : Nat) :
    readAt (writeEntry s e wLen).ringBuf s.wp (bytes e).length = bytes e := by
  show readAt (writeAt (writeAt s.ringBuf s.wp e.hdr) (s.wp + dbgRingEntrySize) e.data) s.wp _ = _
  rw [bytes_length_data, readAt_add, readAt_writeAt, readAt_writeAt_of_off (.inl (Nat.le_refl _)),
    ← e.hdr_length, readAt_writeAt]
  rfl

theorem writeEntry_off (s : Ring) (e : Entry) (wLen : Nat) {i : Nat}
    (h : i < s.wp ∨ s.wp + (bytes e).length ≤ i) :
    (writeEntry s e wLen).ringBuf i = s.ringBuf i := by
  have hlen := bytes_length_data e
  show writeAt (writeAt s.ringBuf s.wp e.hdr) (s.wp + dbgRingEntrySize) e.data i = _
  rw [writeAt_of_off (by omega), writeAt_of_off (by rw [e.hdr_length]; omega)]

/-- Where there is room the entry becomes the newest one. -/
theorem writeEntry_holds (e : Entry) (h : Holds s q) (hd : s.ringSize < 0x100000000)
    (hroom : (bytes e).length < checkWriteSpace s.rp s.wp s.ringSize) :
    add32 s.wp (bytes e).length < s.ringSize ∧
      Holds (writeEntry s e (bytes e).length) (q ++ [(s.wp, e)]) := by
  have hread := writeEntry_read s e (bytes e).length
  rcases h with h | ⟨q₁, q₂, rfl, h⟩
  · have hle := h.laid.le
    have hwp := h.wp_le
    rw [checkWriteSpace_flat hle hwp hd] at hroom
    have hadd : add32 s.wp (bytes e).length = s.wp + (bytes e).length := add32_eq (by omega)
    refine ⟨by omega, .inl ⟨?_, .inl ?_⟩⟩
    · have hold := h.laid.congr fun i _ hi => writeEntry_off s e (bytes e).length (.inl hi)
      have hnew := hold.snoc hread
      rw [← hadd] at hnew
      exact hnew
    · show add32 s.wp (bytes e).length < s.ringSize
      omega
  · have hwlt := h.wp_lt
    have hrp := h.rp_lt
    have hpad := h.padStart_lt
    rw [checkWriteSpace_wrapped hwlt (by omega) hd] at hroom
    have hadd : add32 s.wp (bytes e).length = s.wp + (bytes e).length := add32_eq (by omega)
    refine ⟨by omega, .inr ⟨q₁, q₂ ++ [(s.wp, e)], List.append_assoc _ _ _, ?_, hrp, h.padded,
      h.rem_pos, ?_, ?_⟩⟩
    · show add32 s.wp (bytes e).length < s.rp
      omega
    · refine h.first.congr fun i hi _ => writeEntry_off s e _ (.inr ?_)
      have hi' : s.rp ≤ i := hi
      omega
    · have hold := h.second.congr fun i _ hi => writeEntry_off s e (bytes e).length (.inl hi)
      have hnew := hold.snoc hread
      rw [← hadd] at hnew
      exact hnew

/-- `e` was put at `pos`, after freeing the oldest entries that were in its way. -/
def Pushed (s : Ring) (e : Entry) (q : List (Nat × Entry)) (s' : Ring) : Prop :=
  ∃ dropped kept pos, q = dropped ++ kept ∧ Holds s' (kept ++ [(pos, e)]) ∧
    s'.ringSize = s.ringSize ∧ s'.state = s.state ∧
    ∀ x ∈ dropped, InTheWay s (entryLength (hdrLen e.hdr)) pos x.1

/-- An entry is accepted when it is shorter than the ring, and only then. -/
theorem push_cases (e : Entry) (h : Holds s q) (hact : s.state = .active)
    (hd : s.ringSize < 0x100000000) :
    (entryLength (hdrLen e.hdr) < s.ringSize ∧ ∃ s', push s e = some (s', .ok) ∧ Pushed s e q s') ∨
      (s.ringSize ≤ entryLength (hdrLen e.hdr) ∧ ∀ s', push s e ≠ some (s', .ok)) := by
  unfold push
  dsimp only
  rw [if_neg (not_not_intro hact)]
  by_cases hlong : entryLength (hdrLen e.hdr) > s.ringSize
  · rw [if_pos hlong]
    exact .inr ⟨by omega, nofun⟩
  · rw [if_neg hlong]
    have hlen := holds_length h
    have hmin : dbgRingEntrySize ≤ entryLength (hdrLen e.hdr) := Nat.le_add_left _ _
    have hclaim : Claims s (entryLength (hdrLen e.hdr)) q
        (claim (s.ringSize + 3) s (entryLength (hdrLen e.hdr))) :=
      claim_holds h hd hmin (by omega) (by omega)
    rcases hclaim with ⟨hlt, t, dropped, kept, hres, rfl, hc⟩ | ⟨hle, hno⟩
    · left
      rw [hres]
      dsimp only
      rw [← bytes_length]
      have hroom := hc.room
      rw [← bytes_length] at hroom
      obtain ⟨hin, hw⟩ := writeEntry_holds e hc.holds (hc.ringSize ▸ hd) hroom
      rw [if_neg (by omega)]
      refine ⟨by rw [bytes_length]; exact hlt, _, rfl, dropped, kept, t.wp, rfl, hw, hc.ringSize,
        hc.state, hc.inTheWay⟩
    · right
      refine ⟨hle, fun s' hs => ?_⟩
      split at hs
      · cases hs
      · next t hres => exact hno t hres
      · next t ret hne hres =>
        cases hs
        exact hne rfl

/-! ## Pull -/

theorem advance_frame (s : Ring) : (advance s).ringBuf = s.ringBuf ∧ (advance s).wp = s.wp ∧
    (advance s).ringSize = s.ringSize ∧ (advance s).state = s.state := by
  unfold advance
  dsimp only
  split <;> exact ⟨rfl, rfl, rfl, rfl⟩

/-- The reader's test for the padding, too, is true at the last entry before it only. -/
theorem advance_wrapped (h : Wrapped s (x :: q₁) q₂) (hd : s.ringSize < 0x100000000) :
    add32 s.rp (bytes x.2).length ≤ s.ringSize ∧ (advance s).rp < s.ringSize ∧
      ((q₁ = [] ∧ Flat (advance s) q₂) ∨ Wrapped (advance s) q₁ q₂) := by
  obtain ⟨hbuf, hwp, hsize, -⟩ := advance_frame s
  have hlen := entryLengthAt_entry h.first.2.1
  have hwlt := h.wp_lt
  have hpad := h.padStart_lt
  obtain ⟨hadd, hle, hrem, hsum⟩ := h.first_end hd
  have hlast : s.rp + (bytes x.2).length = padStart s → (advance s).rp = 0 := by
    intro heq
    unfold advance
    dsimp only
    rw [hadd, hsum, if_pos ⟨by omega, h.padded, by omega⟩]
  have hinner : s.rp + (bytes x.2).length < padStart s →
      (advance s).rp = s.rp + (bytes x.2).length ∧
        (advance s).tailPadded = true ∧ (advance s).remLen = s.remLen := by
    intro hlt
    unfold advance
    dsimp only
    rw [hadd, hsum, if_neg (by rintro ⟨-, -, h3⟩; omega)]
    exact ⟨rfl, h.padded, rfl⟩
  refine ⟨by rw [← hlen, hadd]; omega, ?_, h.next hbuf hwp hsize hlast hinner⟩
  by_cases heq : s.rp + (bytes x.2).length = padStart s
  · rw [hlast heq]
    omega
  · rw [(hinner (by omega)).1]
    omega

/-- The first entry and the reader, before a pull and, wherever it goes, after it. -/
theorem Holds.first (h : Holds s (x :: q)) (hd : s.ringSize < 0x100000000) :
    s.rp ≠ s.wp ∧ readAt s.ringBuf s.rp (bytes x.2).length = bytes x.2 ∧
      add32 s.rp (bytes x.2).length ≤ s.ringSize ∧ (advance s).rp < s.ringSize := by
  rcases h with h | ⟨q₁, q₂, hq, h⟩
  · have hle := h.laid.2.2.le
    have hpos := bytes_pos x.2
    have hlen := entryLengthAt_entry h.laid.2.1
    have hlt : s.wp < s.ringSize := by
      rcases h.wp_lt with h | h <;> omega
    have hadd : add32 s.rp (bytes x.2).length = s.rp + (bytes x.2).length := add32_eq (by omega)
    refine ⟨by omega, h.laid.2.1, by omega, ?_⟩
    unfold advance
    dsimp only
    rw [hlen, hadd]
    split
    · exact Nat.zero_lt_of_lt hlt
    · show s.rp + (bytes x.2).length < s.ringSize
      omega
  · have hwlt := h.wp_lt
    cases q₁ with
    | nil => exact h.not_nil.elim
    | cons y q₁ =>
      obtain ⟨rfl, rfl⟩ := List.cons.inj hq
      obtain ⟨hin, hrp, -⟩ := advance_wrapped h hd
      exact ⟨by omega, h.first.2.1, hin, hrp⟩

/-- Where the entries do not wrap, there is no padding to skip. -/
theorem advance_flat (h : Flat s (x :: q)) (hd : s.ringSize < 0x100000000)
    (hpad : padIsCurrent s (.pull bufLen stripHeader) = true) : Flat (advance s) q := by
  obtain ⟨hbuf, hwp, hsize, -⟩ := advance_frame s
  have hlen := entryLengthAt_entry h.laid.2.1
  have hle := h.laid.2.2.le
  have hpos := bytes_pos x.2
  have hwle := h.wp_le
  have hadd : add32 s.rp (entryLengthAt s s.rp) = s.rp + (bytes x.2).length := by
    rw [hlen, add32_eq (by omega)]
  have hrp : (advance s).rp = s.rp + (bytes x.2).length := by
    unfold padIsCurrent at hpad
    unfold advance
    dsimp only at hpad ⊢
    rw [hadd] at hpad ⊢
    rw [if_neg]
    rintro ⟨h1, h2, h3⟩
    rw [h2, bne_iff_ne.2 h1, decide_eq_true h3, decide_eq_true (by omega)] at hpad
    cases hpad
  refine ⟨?_, ?_⟩
  · rw [hbuf, hrp, hwp]
    exact h.laid.2.2
  · rw [hwp, hsize]
    exact h.wp_lt

/-- The reader moves past the first entry, if what it takes for padding is padding. -/
theorem advance_holds (h : Holds s (x :: q)) (hd : s.ringSize < 0x100000000)
    (hpad : padIsCurrent s (.pull bufLen stripHeader) = true) : Holds (advance s) q := by
  rcases h with h | ⟨q₁, q₂, hq, h⟩
  · exact .inl (advance_flat h hd hpad)
  · cases q₁ with
    | nil => exact h.not_nil.elim
    | cons y q₁ =>
      obtain ⟨rfl, rfl⟩ := List.cons.inj hq
      obtain ⟨-, -, hnext⟩ := advance_wrapped h hd
      rcases hnext with ⟨rfl, hf⟩ | hw
      · exact .inl hf
      · exact .inr ⟨q₁, q₂, rfl, hw⟩

theorem Holds.nil_eq (h : Holds s []) : s.rp = s.wp := by
  rcases h with h | ⟨q₁, q₂, hq, h⟩
  · exact h.laid
  · obtain ⟨rfl, rfl⟩ := List.append_eq_nil_iff.1 hq.symm
    exact h.not_nil.elim

theorem pullSingle_nil (h : Holds s []) (hrun : ¬ (s.pullInactive = false ∧ s.state ≠ .active)) :
    pullSingle s bufLen stripHeader = (s, none) := by
  have heq := h.nil_eq
  unfold pullSingle
  by_cases hz : bufLen = 0
  · rw [if_pos hz]
  · rw [if_neg hz, if_neg hrun, if_pos heq]

theorem pullSingle_takes (h : Holds s (x :: q))
    (hrun : ¬ (s.pullInactive = false ∧ s.state ≠ .active)) (hd : s.ringSize < 0x100000000)
    (hpos : 0 < bufLen) (hfits : (copied stripHeader x.2).length ≤ bufLen) :
    pullSingle s bufLen stripHeader =
      ({ advance s with readBytes := add32 s.readBytes (entryLengthAt s s.rp) },
        some (copied stripHeader x.2)) := by
  obtain ⟨hne, hread, hin, hrp⟩ := h.first hd
  obtain ⟨-, -, hsize, -⟩ := advance_frame s
  have hlen := entryLengthAt_entry hread
  have hbytes := pullBytes_entry stripHeader hread
  unfold pullSingle
  dsimp only
  rw [if_neg (by omega), if_neg hrun, if_neg hne, hlen, if_neg (by omega), hbytes,
    if_neg (by omega), if_neg (by rw [hsize]; omega)]

theorem pullSingle_tooLarge (h : Holds s (x :: q))
    (hrun : ¬ (s.pullInactive = false ∧ s.state ≠ .active)) (hd : s.ringSize < 0x100000000)
    (hpos : 0 < bufLen) (hlarge : bufLen < (copied stripHeader x.2).length) :
    pullSingle s bufLen stripHeader = (s, none) := by
  obtain ⟨hne, hread, hin, -⟩ := h.first hd
  have hlen := entryLengthAt_entry hread
  have hbytes := pullBytes_entry stripHeader hread
  unfold pullSingle
  rw [if_neg (by omega), if_neg hrun, if_neg hne, hlen, if_neg (by omega), hbytes, if_pos hlarge]

/-! ## What a run delivers -/

/-- The entries pushed, oldest first. -/
def pushed (tr : List (Call × Result)) : List Entry :=
  tr.filterMap fun
    | (.push e, _) => some e
    | _ => none

/-- The bytes returned, with the flag of each pull. -/
def returned (tr : List (Call × Result)) : List (Bool × List UInt8) :=
  tr.filterMap fun
    | (.pull _ stripHeader, .pulled (some bs)) => some (stripHeader, bs)
    | _ => none

theorem pushed_append (tr tr' : List (Call × Result)) :
    pushed (tr ++ tr') = pushed tr ++ pushed tr' := List.filterMap_append

theorem returned_append (tr tr' : List (Call × Result)) :
    returned (tr ++ tr') = returned tr ++ returned tr' := List.filterMap_append

/-- A call takes a ring that holds `q` to `s'`. -/
inductive Delivers (s : Ring) : List (Nat × Entry) → Call → Result → Ring → Prop
  | push {q : List (Nat × Entry)} {e : Entry} {s' : Ring} :
      Pushed s e q s' → Delivers s q (.push e) .pushed s'
  | pullNone {bufLen : Nat} {stripHeader : Bool} :
      Delivers s [] (.pull bufLen stripHeader) (.pulled none) s
  | pull {x : Nat × Entry} {q : List (Nat × Entry)} {bufLen : Nat} {stripHeader : Bool}
      {s' : Ring} : Holds s' q →
      Delivers s (x :: q) (.pull bufLen stripHeader) (.pulled (some (copied stripHeader x.2))) s'

theorem step_delivers {s' : Ring} {c : Call} {res : Result} (h : Holds s q)
    (hact : s.state = .active) (hd : s.ringSize < 0x100000000) (hc : padIsCurrent s c = true)
    (hs : step s c = some (s', res)) :
    Delivers s q c res s' ∧ s'.ringSize = s.ringSize ∧ s'.state = s.state := by
  cases c with
  | push e =>
    unfold step at hs
    dsimp only at hs
    rcases push_cases e h hact hd with ⟨-, t, ht, hp⟩ | ⟨-, hno⟩
    · rw [ht] at hs
      cases hs
      obtain ⟨_, _, _, -, -, hsize, hstate, -⟩ := id hp
      exact ⟨.push hp, hsize, hstate⟩
    · split at hs
      · next t ht => exact absurd ht (hno t)
      · cases hs
  | pull bufLen stripHeader =>
    unfold step at hs
    dsimp only at hs
    split at hs
    · next hbuf =>
      cases hs
      have hrun : ¬ (s.pullInactive = false ∧ s.state ≠ .active) := fun hn => hn.2 hact
      cases q with
      | nil =>
        rw [pullSingle_nil h hrun]
        exact ⟨.pullNone, rfl, rfl⟩
      | cons x q =>
        obtain ⟨hne, hread, -⟩ := h.first hd
        have hq := advance_holds h hd hc
        have hfits := Or.resolve_left hbuf.2 hne
        rw [pullBytes_entry stripHeader hread] at hfits
        obtain ⟨-, -, hsize, hstate⟩ := advance_frame s
        rw [pullSingle_takes h hrun hd hbuf.1 hfits]
        exact ⟨.pull (hq.readBytes _), hsize, hstate⟩
    · cases hs

/-- The invariant of a run: `taken` are the entries returned. -/
def Inv (d : Nat) (s : Ring) (tr : List (Call × Result)) : Prop :=
  s.ringSize = d ∧ s.state = .active ∧ ∃ q taken, Holds s q ∧
    DropOldest (pushed tr) taken (q.map Prod.snd) ∧
    List.Forall₂ (fun r e => r.2 = copied r.1 e) (returned tr) taken

theorem step_inv {d : Nat} (hd : d < 0x100000000) (s : Ring) (tr : List (Call × Result)) (c : Call)
    (s' : Ring) (res : Result) (hi : Inv d s tr) (hc : padIsCurrent s c = true)
    (hs : step s c = some (s', res)) : Inv d s' (tr ++ [(c, res)]) := by
  obtain ⟨rfl, hact, q, taken, hq, hdrop, hret⟩ := hi
  obtain ⟨hdel, hsize, hstate⟩ := step_delivers hq hact hd hc hs
  refine ⟨hsize, hstate.trans hact, ?_⟩
  cases hdel with
  | @push _ e _ hp =>
    obtain ⟨dropped, kept, pos, rfl, hq', -, -, -⟩ := hp
    rw [List.map_append] at hdrop
    refine ⟨kept ++ [(pos, e)], taken, hq', ?_, ?_⟩
    · rw [pushed_append, List.map_append]
      exact hdrop.put
    · rw [returned_append]
      exact (List.append_nil _).symm ▸ hret
  | pullNone =>
    refine ⟨[], taken, hq, ?_, ?_⟩
    · rw [pushed_append]
      exact (List.append_nil _).symm ▸ hdrop
    · rw [returned_append]
      exact (List.append_nil _).symm ▸ hret
  | @pull x q _ _ _ hq' =>
    refine ⟨q, taken ++ [x.2], hq', ?_, ?_⟩
    · rw [pushed_append]
      exact (List.append_nil _).symm ▸ hdrop.take
    · rw [returned_append]
      exact List.rel_append hret (.cons rfl .nil)

theorem activate_inv (r : Ring) : Inv r.ringSize (activate r) [] :=
  ⟨rfl, rfl, [], [], .inl ⟨rfl, .inr rfl⟩, empty, .nil⟩

/-! ## Top theorem -/

/-- **Oldest-first delivery.**  In a run where no pull takes an old padding for the end of
the entries, the entries returned are a subsequence of those pushed, with their bytes.  In
the state reached the unread entries are determined; a push is accepted when its entry is
shorter than the ring, and drops only the oldest ones that are in its way; a pull drops none. -/
theorem push_pull_fifo (r : Ring) (hd : r.ringSize < 0x100000000) (es : List Call) (s : Ring)
    (tr : List (Call × Result)) (hm : meets step padIsCurrent (activate r) es = true)
    (h : runs step (activate r) es = some (s, tr)) :
    ∃ q taken, Holds s q ∧ (∀ q', Holds s q' → q' = q) ∧
      DropOldest (pushed tr) taken (q.map Prod.snd) ∧
      (taken ++ q.map Prod.snd).Sublist (pushed tr) ∧
      List.Forall₂ (fun r e => r.2 = copied r.1 e) (returned tr) taken ∧
      (∀ e, (∃ s', step s (.push e) = some (s', .pushed)) ↔
        entryLength (hdrLen e.hdr) < r.ringSize) ∧
      ∀ c res s', padIsCurrent s c = true → step s c = some (s', res) → Delivers s q c res s' := by
  obtain ⟨hsize, hact, q, taken, hq, hdrop, hret⟩ :=
    runs_inv_of_meets step padIsCurrent (Inv r.ringSize) (step_inv hd) (activate r) s es tr
      (activate_inv r) hm h
  rw [← hsize] at hd ⊢
  refine ⟨q, taken, hq, fun q' hq' => holds_unique hq hq', hdrop, hdrop.sublist, hret, ?_, ?_⟩
  · intro e
    unfold step
    dsimp only
    rcases push_cases e hq hact hd with ⟨hlt, s', hs', -⟩ | ⟨hle, hno⟩
    · rw [hs']
      exact ⟨fun _ => hlt, fun _ => ⟨s', rfl⟩⟩
    · constructor
      · rintro ⟨s', hs'⟩
        split at hs'
        · next t ht => exact absurd ht (hno t)
        · cases hs'
      · intro hlt
        omega
  · intro c res s' hc hs
    exact (step_delivers hq hact hd hc hs).1

/-! ## A ring of 40 bytes -/

def ring40 : Ring := ⟨40, 0, 0, fun _ => 0, 0, 0, 0, .stop, false, 0, false⟩

/-- An entry of `12 + n` bytes, each payload byte being `v`. -/
def entryOf (n : Fin 20) (v : UInt8) : Entry where
  hdr := UInt8.ofNat n :: List.replicate 11 0
  data := List.replicate n v
  hdr_length := rfl
  data_length := by
    have hn : (UInt8.ofNat n).toNat = n := by
      rw [UInt8.toNat_ofNat']
      omega
    rw [List.length_replicate]
    show n = (UInt8.ofNat n).toNat + 0x100 * 0
    omega

/-- The state and the trace after `es`. -/
def run40 (es : List Call) : Ring × List (Call × Result) :=
  (runs step (activate ring40) es).getD (ring40, [])

def twoCalls : List Call :=
  [.push (entryOf 15 1), .push (entryOf 0 0), .pull 64 false, .push (entryOf 15 2), .pull 64 true]

/-- The third entry wraps, and the second one is dropped for it. -/
theorem push_pull_fifo_two :
    returned (run40 twoCalls).2 =
      [(false, copied false (entryOf 15 1)), (true, copied true (entryOf 15 2))] ∧
    ∃ q taken, Holds (run40 twoCalls).1 q ∧ (∀ q', Holds (run40 twoCalls).1 q' → q' = q) ∧
      DropOldest (pushed (run40 twoCalls).2) taken (q.map Prod.snd) ∧
      (taken ++ q.map Prod.snd).Sublist (pushed (run40 twoCalls).2) ∧
      List.Forall₂ (fun r e => r.2 = copied r.1 e) (returned (run40 twoCalls).2) taken ∧
      (∀ e, (∃ s', step (run40 twoCalls).1 (.push e) = some (s', .pushed)) ↔
        entryLength (hdrLen e.hdr) < ring40.ringSize) ∧
      ∀ c res s', padIsCurrent (run40 twoCalls).1 c = true →
        step (run40 twoCalls).1 c = some (s', res) → Delivers (run40 twoCalls).1 q c res s' :=
  ⟨by decide, push_pull_fifo ring40 (by decide) twoCalls (run40 twoCalls).1 (run40 twoCalls).2
    (by decide) (by rfl)⟩

/-- The tail is padded from 27 on while the ring is empty, and this is not forgotten. -/
def oldPadCalls : List Call :=
  [.push (entryOf 15 1), .pull 64 true, .push (entryOf 15 2), .push (entryOf 0 0),
    .pull 64 true, .pull 64 true]

/-- The second entry is returned twice, and the third one not at all. -/
theorem push_pull_fifo_fails :
    (runs step (activate ring40) oldPadCalls).isSome = true ∧
    returned (run40 oldPadCalls).2 =
      [(true, List.replicate 15 1), (true, List.replicate 15 2), (true, List.replicate 15 2)] ∧
    ∀ taken, taken.Sublist (pushed (run40 oldPadCalls).2) →
      ¬ List.Forall₂ (fun r e => r.2 = copied r.1 e) (returned (run40 oldPadCalls).2) taken := by
  refine ⟨by decide, by decide, ?_⟩
  intro taken hsub hret
  have hlen : taken.length = (pushed (run40 oldPadCalls).2).length :=
    hret.length_eq.symm.trans (by decide)
  obtain rfl := hsub.eq_of_length hlen
  have hno : ¬ List.Forall₂ (fun r e => r.2 = copied r.1 e) (returned (run40 oldPadCalls).2)
      (pushed (run40 oldPadCalls).2) := by decide
  exact hno hret

end Bcmdhd.DbgRing
