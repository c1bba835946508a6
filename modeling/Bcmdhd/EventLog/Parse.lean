import Bcmdhd.Lib.LittleEndian
import Bcmdhd.Lib.Logged

/-!
# Event logs (`dhd_dbg_msgtrace_log_parser`, `dhd_dbg_process_event_log_hdr`)

An event has a block of records.  A record is its arguments, an extended header or none, and a
header word, so a block is read from its end.

    the sequence number is new, and the payload is longer than the minimum and not too long →
      the parser ends, its handlers get the records of the block in forward order, with arguments
      that lie in the payload, and each list item is freed            (log_parser_exact)

What the records of a block are is said without a cursor (`Decodes`).  The event is at 0 of `mem`;
the log has the bytes of it that are read.
-/

namespace Bcmdhd.EventLog

open Records

/-! ## Data -/

abbrev Mem := Nat → UInt8

def MSGTRACE_HDRLEN : Nat := 16
def EVENT_LOG_BLOCK_HDRLEN : Nat := 8
def EVENT_LOG_BLOCK_LEN : Nat := 12
/-- `sizeof(event_log_hdr_t)` -/
def LOG_HDR_LEN : Nat := 4
def DATA_UNIT_FOR_LOG_CNT : Nat := 4
def SIZEOF_TRACELOG_HEADER : Nat := 12
def PAYLOAD_MAX_LEN : Nat := 65535
def MAX_NO_OF_ARG : Nat := 16

def EVENT_LOG_TAG_NULL : Nat := 0
def EVENT_LOG_TAG_TS : Nat := 1
def EVENT_LOG_TAG_PROXD_SAMPLE_COLLECT : Nat := 114
def EVENT_LOG_TAG_STATS : Nat := 153
def EVENT_LOG_TAG_ENHANCED_TS : Nat := 234
def EVENT_LOG_TAG_ROAM_ENHANCED_LOG : Nat := 339
def EVENT_LOG_TAG_BCM_TRACE : Nat := 375

/-- `prcd_event_log_hdr_t`.  `logPtr` is an offset in the event. -/
structure PrcdEventLogHdr where
  tag : Nat
  count : Nat
  fmtNumRaw : Nat
  fmtNum : Nat
  armcycle : Nat
  logPtr : Nat
  extEventLogHdr : Bool
  binaryPayload : Bool
  deriving DecidableEq

/-- `loglist_item_t` and its number. -/
abbrev Item := Nat × PrcdEventLogHdr

inductive Handler
  | printRoamEnhancedLog | verboselogHandler
  deriving DecidableEq

/-- What the parser gets from elsewhere. -/
structure Env where
  eventLogMaxSets : Nat
  eventLogMaxSetsQueried : Bool
  memdumpIsScheduled : Bool
  /-- `DHD_ERROR` prints -/
  errorLevel : Bool
  /-- there is memory for `logbuf` -/
  logbufOk : Bool
  /-- there is memory for the list item of this number -/
  itemOk : Nat → Bool

structure Outcome where
  seqnumPrev : Nat
  handled : List (Handler × PrcdEventLogHdr)
  logset : Nat
  block : Nat
  allocated : Nat
  freed : List Nat
  /-- `dhd_bus_mem_dump` is called -/
  memDump : Bool
  deriving DecidableEq

/-! ## Algorithm -/

def readLe (mem : Mem) (pos w : Nat) : Logged Nat Nat :=
  ⟨load mem pos w, (List.range w).map (pos + ·)⟩

def ntoh32At (mem : Mem) (pos : Nat) : Logged Nat Nat :=
  ⟨leValue (readAt mem pos 4).reverse, (List.range 4).map (pos + ·)⟩

/-- `n` bytes that are copied or printed. -/
def readAll (pos n : Nat) : Logged Nat Unit := ⟨(), (List.range n).map (pos + ·)⟩

/-- `dhd_dbg_msgtrace_seqchk`: the new `seqnum_prev`, if the event is not a duplicate. -/
def seqchk (prev cur : Nat) : Option Nat := if cur = prev then none else some cur

/-- The kinds of header word: whether there is an extended header, and whether the payload is
binary. -/
def headerType (type fmtNum : Nat) : Option (Bool × Bool) :=
  match type with
  | 0 => some (false, false)
  | 1 => some (true, false)
  | 3 =>
    if fmtNum = 0x3FFF then some (false, true)
    else if fmtNum = 0x3FFE then some (true, true)
    else none
  | _ => none

/-- The low bits of `extended_tag` and of `extended_fmtnum`. -/
def readExtHdr (mem : Mem) (extLogHdr : Nat) : Logged Nat (Nat × Nat) := do
  let extendedTag ← readLe mem extLogHdr 1
  let extendedFmtnum ← readLe mem (extLogHdr + 2) 1
  pure (extendedTag &&& 0xF, extendedFmtnum &&& 0xF)

/-- `logHdr` is an offset, of two words at least. -/
def processEventLogHdr (mem : Mem) (logHdr : Nat) : Logged Nat (Option PrcdEventLogHdr) := do
  let hdrFmtNum ← readLe mem (logHdr + 2) 2
  let type := hdrFmtNum &&& 0x3
  let eventLogFmtNum := (hdrFmtNum >>> 2) &&& 0x3FFF
  match headerType type eventLogFmtNum with
  | none => pure none
  | some (ext, binary) => do
    let (extendedTag, extendedFmtnum) ←
      if ext then readExtHdr mem (logHdr - LOG_HDR_LEN) else pure (0, 0)
    let hdrTag ← readLe mem logHdr 1
    let count ← readLe mem (logHdr + 1) 1
    let armcycle ← readLe mem (logHdr - LOG_HDR_LEN * (if ext then 2 else 1)) 4
    let extended := type = 1 ∧ extendedFmtnum ≠ 0
    pure (some {
      tag := if ext then (extendedTag <<< 8) ||| hdrTag else hdrTag
      count := count
      fmtNumRaw := if extended then (extendedFmtnum <<< 16) ||| hdrFmtNum else hdrFmtNum
      fmtNum := if extended then (extendedFmtnum <<< 14) ||| eventLogFmtNum else eventLogFmtNum
      armcycle := armcycle
      logPtr := logHdr - 4 * count - (if ext then 4 else 0)
      extEventLogHdr := ext
      binaryPayload := binary })

/-- Tags whose records may have more than 16 arguments. -/
def exempt (tag : Nat) : Bool :=
  tag = EVENT_LOG_TAG_STATS || tag = EVENT_LOG_TAG_PROXD_SAMPLE_COLLECT ||
    tag = EVENT_LOG_TAG_ROAM_ENHANCED_LOG || tag = EVENT_LOG_TAG_BCM_TRACE

def isTimeStamp (tag : Nat) : Bool := tag = EVENT_LOG_TAG_TS || tag = EVENT_LOG_TAG_ENHANCED_TS

def PrcdEventLogHdr.pyldLen (h : PrcdEventLogHdr) : Nat :=
  (h.count + if h.extEventLogHdr then 1 else 0) * DATA_UNIT_FOR_LOG_CNT

/-- The loop over the headers, from the last one on, with the list (its head first) and how many
items have been allocated.  `none` if there are more turns. -/
def headers (env : Env) (mem : Mem) (eventLen data : Nat) :
    Nat → Nat → List Item → Nat → Logged Nat (Option (List Item × Nat))
  | 0, _, _, _ => pure none
  | fuel + 1, datalen, list, n =>
    if LOG_HDR_LEN < datalen then do
      let logHdr := data + datalen - LOG_HDR_LEN
      let prcd ← processEventLogHdr mem logHdr
      match prcd with
      | none => do
        if env.errorLevel then readAll 0 eventLen
        pure (some (list, n))
      | some h =>
        if h.tag = EVENT_LOG_TAG_NULL then
          headers env mem eventLen data fuel (datalen - LOG_HDR_LEN) list n
        else if h.count = 0 then pure (some (list, n))
        else if !exempt h.tag ∧ MAX_NO_OF_ARG < h.count then pure (some (list, n))
        else if logHdr - data < h.pyldLen then pure (some (list, n))
        else
          let left :=
            if h.pyldLen + LOG_HDR_LEN ≤ datalen then datalen - (h.pyldLen + LOG_HDR_LEN) else 0
          if isTimeStamp h.tag then headers env mem eventLen data fuel left list n
          else if env.itemOk n then
            headers env mem eventLen data fuel left ((n, h) :: list) (n + 1)
          else pure (some (list, n))
    else pure (some (list, n))

def handlerOf (h : PrcdEventLogHdr) : Handler :=
  if h.tag = EVENT_LOG_TAG_ROAM_ENHANCED_LOG then .printRoamEnhancedLog else .verboselogHandler

/-- The loop over the list: what is handled, and the items that are freed. -/
def handleAll : List Item → List (Handler × PrcdEventLogHdr) × List Nat
  | [] => ([], [])
  | (n, h) :: list => ((handlerOf h, h) :: (handleAll list).1, n :: (handleAll list).2)

/-- From the block on, `data` and `datalen` without the message trace header. -/
def parseBlock (env : Env) (mem : Mem) (eventLen data datalen seqnumPrev fuel : Nat) :
    Logged Nat (Option Outcome) :=
  if !env.logbufOk then pure (some ⟨seqnumPrev, [], 0, 0, 0, [], false⟩)
  else if PAYLOAD_MAX_LEN < SIZEOF_TRACELOG_HEADER + datalen then
    pure (some ⟨seqnumPrev, [], 0, 0, 0, [], false⟩)
  else do
    readAll data datalen
    let logset ← readLe mem (data + 4) 4
    let _ ← readLe mem data 2
    let memDump := env.eventLogMaxSets ≤ logset ∧ env.eventLogMaxSetsQueried ∧
      !env.memdumpIsScheduled
    let block ← readLe mem (data + 2) 2
    let list ← headers env mem eventLen (data + EVENT_LOG_BLOCK_HDRLEN) fuel
      (datalen - EVENT_LOG_BLOCK_HDRLEN) [] 0
    pure (list.map fun l =>
      ⟨seqnumPrev, (handleAll l.1).1, logset, block, l.2, (handleAll l.1).2, memDump⟩)

def minExpectedLen (msgtraceHdrPresent : Bool) : Nat :=
  if msgtraceHdrPresent then MSGTRACE_HDRLEN + EVENT_LOG_BLOCK_LEN else EVENT_LOG_BLOCK_LEN

/-- Where the block is. -/
def blockStart (msgtraceHdrPresent : Bool) : Nat :=
  if msgtraceHdrPresent then MSGTRACE_HDRLEN else 0

def readSeqnum (mem : Mem) (msgtraceHdrPresent : Bool) (msgtraceSeqnum : Nat) : Logged Nat Nat :=
  if msgtraceHdrPresent then ntoh32At mem 4 else pure msgtraceSeqnum

/-- `dhd_dbg_msgtrace_log_parser` for an event that is not NULL. -/
def msgtraceLogParser (env : Env) (mem : Mem) (datalen : Nat) (msgtraceHdrPresent : Bool)
    (msgtraceSeqnum seqnumPrev fuel : Nat) : Logged Nat (Option Outcome) :=
  if datalen ≤ minExpectedLen msgtraceHdrPresent then do
    if msgtraceHdrPresent then do
      readAll 0 datalen
      if env.errorLevel then readAll MSGTRACE_HDRLEN 8
    pure (some ⟨seqnumPrev, [], 0, 0, 0, [], false⟩)
  else do
    let data := blockStart msgtraceHdrPresent
    let seqnum ← readSeqnum mem msgtraceHdrPresent msgtraceSeqnum
    match seqchk seqnumPrev seqnum with
    | none => pure (some ⟨seqnumPrev, [], 0, 0, 0, [], false⟩)
    | some prev => parseBlock env mem datalen data (datalen - data) prev fuel

/-! ## Blocks -/

/-- `event_log_hdr_t` -/
structure HdrWord where
  tag : UInt8
  count : UInt8
  fmtLo : UInt8
  fmtHi : UInt8

/-- `event_log_extended_hdr_t` -/
structure ExtWord where
  tag : UInt8
  count : UInt8
  fmtnum : UInt8
  rsvd : UInt8

/-- A header word, with the extension word before it. -/
structure Header where
  ext : Option ExtWord
  word : HdrWord

def HdrWord.bytes (w : HdrWord) : List UInt8 := [w.tag, w.count, w.fmtLo, w.fmtHi]
def HdrWord.fmt (w : HdrWord) : Nat := w.fmtLo.toNat + 256 * w.fmtHi.toNat

/-- Whether the word has an extension, and whether its payload is binary. -/
def HdrWord.kind (w : HdrWord) : Option (Bool × Bool) := headerType (w.fmt % 4) (w.fmt / 4)

namespace Header

def extBytes (h : Header) : List UInt8 :=
  h.ext.elim [] fun e => [e.tag, e.count, e.fmtnum, e.rsvd]

def tag (h : Header) : Nat :=
  h.ext.elim h.word.tag.toNat fun e => 256 * (e.tag.toNat % 16) + h.word.tag.toNat

def count (h : Header) : Nat := h.word.count.toNat

/-- The extended bits are those of a format number, not of the ones that say "binary". -/
def fmtNum (h : Header) : Nat :=
  h.ext.elim (h.word.fmt / 4) fun e =>
    if h.word.fmt % 4 = 1 then 16384 * (e.fmtnum.toNat % 16) + h.word.fmt / 4 else h.word.fmt / 4

/-- The word is a valid one, and its extension is there. -/
def Is (h : Header) (binary : Bool) : Prop := h.word.kind = some (h.ext.isSome, binary)

/-- There are arguments, and not too many of them. -/
def Counted (h : Header) : Prop := h.count ≠ 0 ∧ (exempt h.tag = true ∨ h.count ≤ MAX_NO_OF_ARG)

instance (h : Header) : Decidable h.Counted :=
  inferInstanceAs (Decidable (h.count ≠ 0 ∧ (exempt h.tag = true ∨ h.count ≤ MAX_NO_OF_ARG)))

end Header

/-- `pos` is where the arguments are in the payload. -/
structure Record where
  tag : Nat
  fmtNum : Nat
  count : Nat
  binary : Bool
  pos : Nat
  deriving DecidableEq

/-- Where decoding ends. -/
inductive Stops : List UInt8 → Prop
  | short {p : List UInt8} (h : p.length < 4) : Stops p
  | invalid {q : List UInt8} {w : HdrWord} (h : w.kind = none) : Stops (q ++ w.bytes)
  | noExt {q : List UInt8} {w : HdrWord} {binary : Bool} (h : w.kind = some (true, binary))
      (hq : q.length < 4) : Stops (q ++ w.bytes)
  | count {q : List UInt8} {h : Header} {binary : Bool} (hk : h.Is binary)
      (ht : h.tag ≠ EVENT_LOG_TAG_NULL) (hc : ¬ h.Counted) :
      Stops (q ++ h.extBytes ++ h.word.bytes)
  | args {q : List UInt8} {h : Header} {binary : Bool} (hk : h.Is binary)
      (ht : h.tag ≠ EVENT_LOG_TAG_NULL) (hq : q.length < 4 * h.count) :
      Stops (q ++ h.extBytes ++ h.word.bytes)

/-- The records of a payload, from its end on. -/
inductive Decodes : List UInt8 → List Record → Prop
  | stop {p : List UInt8} (h : Stops p) : Decodes p []
  | null {q : List UInt8} {h : Header} {binary : Bool} {rs : List Record} (hk : h.Is binary)
      (ht : h.tag = EVENT_LOG_TAG_NULL) (hq : Decodes (q ++ h.extBytes) rs) :
      Decodes (q ++ h.extBytes ++ h.word.bytes) rs
  | timeStamp {q args : List UInt8} {h : Header} {binary : Bool} {rs : List Record}
      (hk : h.Is binary) (ht : isTimeStamp h.tag = true) (hc : h.Counted)
      (ha : args.length = 4 * h.count) (hq : Decodes q rs) :
      Decodes (q ++ args ++ h.extBytes ++ h.word.bytes) rs
  | record {q args : List UInt8} {h : Header} {binary : Bool} {rs : List Record}
      (hk : h.Is binary) (hn : h.tag ≠ EVENT_LOG_TAG_NULL) (ht : isTimeStamp h.tag = false)
      (hc : h.Counted) (ha : args.length = 4 * h.count) (hq : Decodes q rs) :
      Decodes (q ++ args ++ h.extBytes ++ h.word.bytes)
        (rs ++ [⟨h.tag, h.fmtNum, h.count, binary, q.length⟩])

/-- The records that get a list item, from the last one on: there is memory for it, and for those
behind. -/
def listed (env : Env) : Nat → List Record → List Record
  | _, [] => []
  | k, r :: rs => if env.itemOk k then r :: listed env (k + 1) rs else []

/-- What a handler gets, as a record of the payload at `start`. -/
def recordOf (start : Nat) (h : PrcdEventLogHdr) : Record :=
  ⟨h.tag, h.fmtNum, h.count, h.binaryPayload, h.logPtr - start⟩

/-! ## Words -/

variable {pos : Nat} {rs : List Record}

section
variable {mem : Mem} {data n : Nat}

def wordAt (mem : Mem) (pos : Nat) : HdrWord :=
  ⟨mem pos, mem (pos + 1), mem (pos + 2), mem (pos + 3)⟩

def extAt (mem : Mem) (pos : Nat) : ExtWord :=
  ⟨mem pos, mem (pos + 1), mem (pos + 2), mem (pos + 3)⟩

/-- The header that ends at `pos + 4`. -/
def headerAt (mem : Mem) (pos : Nat) (ext : Bool) : Header :=
  ⟨if ext then some (extAt mem (pos - 4)) else none, wordAt mem pos⟩

@[simp] theorem HdrWord.length_bytes (w : HdrWord) : w.bytes.length = 4 := rfl

theorem HdrWord.fmt_lt (w : HdrWord) : w.fmt < 65536 := by
  have hlo := w.fmtLo.toNat_lt
  have hhi := w.fmtHi.toNat_lt
  unfold HdrWord.fmt
  omega

theorem readAt_word (mem : Mem) (pos : Nat) : readAt mem pos 4 = (wordAt mem pos).bytes := rfl

theorem HdrWord.eq_wordAt {w : HdrWord} (h : w.bytes = readAt mem pos 4) :
    w = wordAt mem pos := by
  obtain ⟨tag, count, lo, hi⟩ := w
  rw [readAt_word] at h
  unfold HdrWord.bytes wordAt at h
  simp only [List.cons.injEq, and_true] at h
  obtain ⟨rfl, rfl, rfl, rfl⟩ := h
  rfl

theorem ExtWord.eq_extAt {e : ExtWord} (h : [e.tag, e.count, e.fmtnum, e.rsvd] = readAt mem pos 4) :
    e = extAt mem pos := by
  obtain ⟨tag, count, fmtnum, rsvd⟩ := e
  rw [readAt_word] at h
  unfold HdrWord.bytes wordAt at h
  simp only [List.cons.injEq, and_true] at h
  obtain ⟨rfl, rfl, rfl, rfl⟩ := h
  rfl

theorem shiftLeft_or {a b i : Nat} (hb : b < 2 ^ i) : (a <<< i) ||| b = 2 ^ i * a + b := by
  rw [← Nat.shiftLeft_add_eq_or_of_lt hb, Nat.shiftLeft_eq, Nat.mul_comm]

/-- What is read of a header that ends at `pos + 4`. -/
structure Shows (mem : Mem) (pos : Nat) (ext binary : Bool) (h : PrcdEventLogHdr) : Prop where
  tag : h.tag = (headerAt mem pos ext).tag
  count : h.count = (headerAt mem pos ext).count
  fmtNum : h.fmtNum = (headerAt mem pos ext).fmtNum
  logPtr : h.logPtr = pos - 4 * h.count - if ext then 4 else 0
  extEventLogHdr : h.extEventLogHdr = ext
  binaryPayload : h.binaryPayload = binary

theorem headerType_eq (w : HdrWord) :
    headerType (w.fmt &&& 0x3) ((w.fmt >>> 2) &&& 0x3FFF) = w.kind := by
  have hlt := w.fmt_lt
  have htype : w.fmt &&& 0x3 = w.fmt % 4 := Nat.and_two_pow_sub_one_eq_mod _ 2
  have hnum : (w.fmt >>> 2) &&& 0x3FFF = w.fmt / 4 := by
    rw [Nat.shiftRight_eq_div_pow]
    exact (Nat.and_two_pow_sub_one_eq_mod _ 14).trans (Nat.mod_eq_of_lt (by omega))
  rw [htype, hnum]
  rfl

theorem processEventLogHdr_none (h : (wordAt mem pos).kind = none) :
    (processEventLogHdr mem pos).val = none := by
  rw [← headerType_eq] at h
  unfold processEventLogHdr
  dsimp only [Logged.val_bind, readLe]
  rw [show load mem (pos + 2) 2 = (wordAt mem pos).fmt from rfl, h]
  rfl

theorem processEventLogHdr_some {ext binary : Bool}
    (h : (wordAt mem pos).kind = some (ext, binary)) :
    ∃ hdr, (processEventLogHdr mem pos).val = some hdr ∧ Shows mem pos ext binary hdr := by
  have hlt := (wordAt mem pos).fmt_lt
  have hkind := h
  rw [← headerType_eq] at h
  unfold processEventLogHdr
  dsimp only [Logged.val_bind, readLe]
  rw [show load mem (pos + 2) 2 = (wordAt mem pos).fmt from rfl, h]
  dsimp only [Logged.val_bind, Logged.val_pure]
  have htype : (wordAt mem pos).fmt &&& 0x3 = (wordAt mem pos).fmt % 4 :=
    Nat.and_two_pow_sub_one_eq_mod _ 2
  have hnum : ((wordAt mem pos).fmt >>> 2) &&& 0x3FFF = (wordAt mem pos).fmt / 4 := by
    rw [Nat.shiftRight_eq_div_pow]
    exact (Nat.and_two_pow_sub_one_eq_mod _ 14).trans (Nat.mod_eq_of_lt (by omega))
  have htag : ∀ a, (a <<< 8) ||| load mem pos 1 = 256 * a + (mem pos).toNat := by
    intro a
    rw [load_one]
    exact shiftLeft_or (mem pos).toNat_lt
  have hlow : ∀ i, load mem i 1 &&& 0xF = (mem i).toNat % 16 := by
    intro i
    rw [load_one]
    exact Nat.and_two_pow_sub_one_eq_mod _ 4
  cases ext with
  | false =>
    refine ⟨_, rfl, load_one mem pos, load_one mem (pos + 1), ?_, rfl, rfl, rfl⟩
    dsimp only [Logged.val_pure]
    rw [if_neg fun hand => hand.2 rfl, hnum]
    rfl
  | true =>
    refine ⟨_, rfl, ?_, load_one mem (pos + 1), ?_, rfl, rfl, rfl⟩
    · unfold readExtHdr
      dsimp only [Logged.val_bind, Logged.val_pure, readLe]
      rw [hlow]
      exact htag _
    · show (if (wordAt mem pos).fmt &&& 0x3 = 1 ∧ load mem (pos - 4 + 2) 1 &&& 0xF ≠ 0 then
          ((load mem (pos - 4 + 2) 1 &&& 0xF) <<< 14) ||| (((wordAt mem pos).fmt >>> 2) &&& 0x3FFF)
          else ((wordAt mem pos).fmt >>> 2) &&& 0x3FFF) =
        if (wordAt mem pos).fmt % 4 = 1 then
          16384 * ((mem (pos - 4 + 2)).toNat % 16) + (wordAt mem pos).fmt / 4
        else (wordAt mem pos).fmt / 4
      rw [hlow, htype, hnum, shiftLeft_or (by omega)]
      by_cases hone : (wordAt mem pos).fmt % 4 = 1
      · rw [if_pos hone]
        by_cases hzero : (mem (pos - 4 + 2)).toNat % 16 = 0
        · rw [if_neg fun hand => hand.2 hzero, hzero]
          omega
        · rw [if_pos ⟨hone, hzero⟩]
          rfl
      · rw [if_neg fun hand => hone hand.1, if_neg hone]

/-- The time is the last argument. -/
theorem processEventLogHdr_armcycle {h : PrcdEventLogHdr}
    (hval : (processEventLogHdr mem pos).val = some h) :
    h.armcycle = load mem (pos - LOG_HDR_LEN * if h.extEventLogHdr then 2 else 1) 4 := by
  unfold processEventLogHdr at hval
  dsimp only [Logged.val_bind] at hval
  split at hval
  · cases hval
  · next ext binary hkind =>
    cases ext with
    | false =>
      obtain rfl := Option.some_inj.mp hval
      rfl
    | true =>
      obtain rfl := Option.some_inj.mp hval
      rfl

end

/-! ## The walk -/

section
variable {env : Env} {mem : Mem} {eventLen data fuel n k : Nat} {list : List Item}

theorem headers_short (h : n ≤ 4) :
    (headers env mem eventLen data (fuel + 1) n list k).val = some (list, k) := by
  unfold headers LOG_HDR_LEN
  rw [if_neg (Nat.not_lt_of_le h)]
  rfl

theorem headers_invalid (h : (wordAt mem (data + n - 4)).kind = none) :
    (headers env mem eventLen data (fuel + 1) n list k).val = some (list, k) := by
  by_cases hn : 4 < n
  · unfold headers LOG_HDR_LEN
    rw [if_pos hn]
    dsimp only [Logged.val_bind]
    rw [processEventLogHdr_none h]
    dsimp only
    split <;> rfl
  · exact headers_short (Nat.le_of_not_lt hn)

/-- A turn with a valid header word. -/
theorem headers_turn (eventLen fuel : Nat) (list : List Item) (hn : 4 < n) {ext binary : Bool}
    (hkind : (wordAt mem (data + n - 4)).kind = some (ext, binary)) :
    ∃ h, Shows mem (data + n - 4) ext binary h ∧
      h.armcycle = load mem (data + n - 4 - LOG_HDR_LEN * if ext then 2 else 1) 4 ∧
      (headers env mem eventLen data (fuel + 1) n list k).val =
        if (headerAt mem (data + n - 4) ext).tag = EVENT_LOG_TAG_NULL then
          (headers env mem eventLen data fuel (n - 4) list k).val
        else if ¬ (headerAt mem (data + n - 4) ext).Counted ∨ n - 4 < h.pyldLen then some (list, k)
        else if isTimeStamp (headerAt mem (data + n - 4) ext).tag then
          (headers env mem eventLen data fuel (n - 4 - h.pyldLen) list k).val
        else if env.itemOk k then
          (headers env mem eventLen data fuel (n - 4 - h.pyldLen) ((k, h) :: list) (k + 1)).val
        else some (list, k) := by
  obtain ⟨h, hval, hs⟩ := processEventLogHdr_some hkind
  refine ⟨h, hs, hs.extEventLogHdr ▸ processEventLogHdr_armcycle hval, ?_⟩
  rw [headers]
  unfold LOG_HDR_LEN
  rw [if_pos hn]
  dsimp only [Logged.val_bind]
  rw [hval]
  dsimp only
  rw [← hs.tag]
  by_cases hnull : h.tag = EVENT_LOG_TAG_NULL
  · rw [if_pos hnull, if_pos hnull]
  rw [if_neg hnull, if_neg hnull]
  have hpos : data + n - 4 - data = n - 4 := by omega
  rw [hpos]
  by_cases hzero : h.count = 0
  · rw [if_pos hzero, if_pos (Or.inl fun hc => hc.1 (hs.count ▸ hzero))]
    rfl
  rw [if_neg hzero]
  by_cases hmany : (!exempt h.tag) = true ∧ MAX_NO_OF_ARG < h.count
  · rw [if_pos hmany, if_pos]
    · rfl
    · refine Or.inl fun hc => ?_
      rcases hc.2 with hex | hle
      · rw [← hs.tag] at hex
        rw [hex] at hmany
        cases hmany.1
      · rw [← hs.count] at hle
        exact absurd hmany.2 (Nat.not_lt_of_le hle)
  rw [if_neg hmany]
  have hcounted : (headerAt mem (data + n - 4) ext).Counted := by
    refine ⟨hs.count ▸ hzero, ?_⟩
    rw [← hs.count, ← hs.tag]
    by_contra hno
    rw [not_or, Bool.not_eq_true, Nat.not_le] at hno
    exact hmany ⟨by rw [hno.1]; rfl, hno.2⟩
  by_cases hfit : n - 4 < h.pyldLen
  · rw [if_pos hfit, if_pos (Or.inr hfit)]
    rfl
  have hleft : (if h.pyldLen + 4 ≤ n then n - (h.pyldLen + 4) else 0) = n - 4 - h.pyldLen := by
    rw [if_pos (by omega)]
    omega
  rw [if_neg hfit, if_neg (not_or.mpr ⟨not_not.mpr hcounted, hfit⟩), hleft]
  by_cases hts : isTimeStamp h.tag = true
  · rw [if_pos hts, if_pos hts]
  · rw [if_neg hts, if_neg hts]
    split <;> rfl

theorem append_eq_readAt {q r : List UInt8} (h : q ++ r = readAt mem data n) :
    q.length + r.length = n ∧ q = readAt mem data q.length ∧
      r = readAt mem (data + q.length) r.length := by
  have hlen := congrArg List.length h
  rw [List.length_append, readAt_length] at hlen
  rw [← hlen, readAt_add] at h
  have hboth := List.append_inj h (readAt_length mem data q.length).symm
  exact ⟨hlen, hboth.1, hboth.2⟩

def Header.extLen (h : Header) : Nat := if h.ext.isSome then 4 else 0

theorem Header.length_extBytes (h : Header) : h.extBytes.length = h.extLen := by
  unfold Header.extBytes Header.extLen
  cases h.ext <;> rfl

/-- The header at the end of a payload is the one that is read there. -/
theorem header_eq {q : List UInt8} {h : Header}
    (hp : q ++ h.extBytes ++ h.word.bytes = readAt mem data n) :
    q.length + h.extLen + 4 = n ∧ q ++ h.extBytes = readAt mem data (n - 4) ∧
      q = readAt mem data q.length ∧ headerAt mem (data + n - 4) h.ext.isSome = h := by
  obtain ⟨hlen, hfront, hword⟩ := append_eq_readAt hp
  rw [List.length_append, h.length_extBytes, HdrWord.length_bytes] at hlen
  have hn : (q ++ h.extBytes).length = n - 4 := by
    rw [List.length_append, h.length_extBytes]
    omega
  rw [hn] at hfront hword
  rw [show data + (n - 4) = data + n - 4 by omega] at hword
  obtain ⟨-, hq, hext⟩ := append_eq_readAt hfront
  refine ⟨hlen, hfront, hq, ?_⟩
  have hw := HdrWord.eq_wordAt hword
  obtain ⟨ext, word⟩ := h
  unfold headerAt
  cases ext with
  | none => exact congrArg (Header.mk none) hw.symm
  | some e =>
    have he : e = extAt mem (data + q.length) := ExtWord.eq_extAt hext
    have hpos : data + n - 4 - 4 = data + q.length := by
      unfold Header.extLen at hlen
      dsimp only [Option.isSome] at hlen
      rw [if_pos rfl] at hlen
      omega
    rw [hpos, ← he]
    exact congrArg (Header.mk (some e)) hw.symm

theorem Header.Is.kind_eq {h : Header} {binary : Bool} (hk : h.Is binary)
    (heq : headerAt mem (data + n - 4) h.ext.isSome = h) :
    (wordAt mem (data + n - 4)).kind = some (h.ext.isSome, binary) := by
  have hw : wordAt mem (data + n - 4) = h.word := congrArg Header.word heq
  rw [hw]
  exact hk

/-- The arguments and the extended header, in bytes. -/
theorem Shows.pyldLen {h : Header} {binary : Bool} {hdr : PrcdEventLogHdr}
    (hs : Shows mem pos h.ext.isSome binary hdr) (heq : headerAt mem pos h.ext.isSome = h) :
    hdr.pyldLen = 4 * h.count + h.extLen := by
  unfold PrcdEventLogHdr.pyldLen DATA_UNIT_FOR_LOG_CNT Header.extLen
  rw [hs.count, hs.extEventLogHdr, heq]
  split <;> omega

theorem headers_stops {p : List UInt8} (h : Stops p) (hp : p = readAt mem data n)
    (hfuel : n < fuel) :
    (headers env mem eventLen data fuel n list k).val = some (list, k) := by
  obtain ⟨fuel, rfl⟩ : ∃ f, fuel = f + 1 := ⟨fuel - 1, by omega⟩
  by_cases hn : n ≤ 4
  · exact headers_short hn
  have hn := Nat.lt_of_not_le hn
  cases h with
  | short h =>
    rw [hp, readAt_length] at h
    omega
  | invalid h =>
    obtain ⟨hlen, -, hword⟩ := append_eq_readAt hp
    rw [HdrWord.length_bytes] at hlen hword
    have hw := HdrWord.eq_wordAt hword
    rw [show data + _ = data + n - 4 by omega] at hw
    exact headers_invalid (hw ▸ h)
  | noExt h hq =>
    obtain ⟨hlen, -, hword⟩ := append_eq_readAt hp
    rw [HdrWord.length_bytes] at hlen hword
    have hw := HdrWord.eq_wordAt hword
    rw [show data + _ = data + n - 4 by omega] at hw
    obtain ⟨hdr, hs, -, hval⟩ := headers_turn eventLen fuel list hn (hw ▸ h)
    rw [hval]
    by_cases hnull : (headerAt mem (data + n - 4) true).tag = EVENT_LOG_TAG_NULL
    · obtain ⟨f, rfl⟩ : ∃ f, fuel = f + 1 := ⟨fuel - 1, by omega⟩
      rw [if_pos hnull]
      exact headers_short (by omega)
    · rw [if_neg hnull, if_pos]
      by_cases hc : (headerAt mem (data + n - 4) true).Counted
      · refine Or.inr ?_
        have hpos := hc.1
        rw [← hs.count] at hpos
        unfold PrcdEventLogHdr.pyldLen DATA_UNIT_FOR_LOG_CNT
        rw [hs.extEventLogHdr, if_pos rfl]
        omega
      · exact Or.inl hc
  | count hk ht hc =>
    obtain ⟨-, -, -, heq⟩ := header_eq hp
    obtain ⟨hdr, hs, -, hval⟩ := headers_turn eventLen fuel list hn (hk.kind_eq heq)
    rw [hval, heq, if_neg ht, if_pos (Or.inl hc)]
  | args hk ht hq =>
    obtain ⟨hlen, -, -, heq⟩ := header_eq hp
    obtain ⟨hdr, hs, -, hval⟩ := headers_turn eventLen fuel list hn (hk.kind_eq heq)
    rw [hval, hs.pyldLen heq, heq, if_neg ht, if_pos (Or.inr (by omega))]

theorem ne_null_of_isTimeStamp {tag : Nat} (h : isTimeStamp tag = true) :
    tag ≠ EVENT_LOG_TAG_NULL := by
  rintro rfl
  cases h

/-- There is memory for everything. -/
def roomyEnv : Env := ⟨1, true, false, false, true, fun _ => true⟩

theorem mem_of_listed {r : Record} {k : Nat} (h : r ∈ listed env k rs) :
    r ∈ rs := by
  induction rs generalizing k with
  | nil => cases h
  | cons r' rs ih =>
    unfold listed at h
    split at h
    · rcases List.mem_cons.mp h with rfl | h
      · exact List.mem_cons_self
      · exact List.mem_cons_of_mem r' (ih h)
    · cases h

theorem listed_all (hitem : ∀ i, env.itemOk i = true) (k : Nat) (rs : List Record) :
    listed env k rs = rs := by
  induction rs generalizing k with
  | nil => rfl
  | cons r rs ih => exact (if_pos (hitem k)).trans (congrArg (r :: ·) (ih (k + 1)))

/-- What a record that is listed has, with its payload at `data`. -/
structure Listed (mem : Mem) (data : Nat) (h : PrcdEventLogHdr) : Prop where
  behind : data ≤ h.logPtr
  counted : 0 < h.count
  armcycle : h.armcycle = load mem (h.logPtr + 4 * h.count - 4) 4

/-- The walk collects the records of a payload. -/
theorem headers_of_decodes {p : List UInt8} (h : Decodes p rs) (eventLen : Nat)
    (hp : p = readAt mem data n) (hfuel : n < fuel) (list : List Item) (k : Nat) :
    ∃ items, (headers env mem eventLen data fuel n list k).val =
        some (items ++ list, k + items.length) ∧
      items.map (fun i => recordOf data i.2) = (listed env k rs.reverse).reverse ∧
      items.map Prod.fst = (List.range' k items.length).reverse ∧
      ∀ i ∈ items, Listed mem data i.2 := by
  induction h generalizing n fuel list k with
  | stop h =>
    exact ⟨[], headers_stops h hp hfuel, rfl, rfl, fun i hi => absurd hi List.not_mem_nil⟩
  | null hk ht hq ih =>
    obtain ⟨hlen, hfront, -, heq⟩ := header_eq hp
    obtain ⟨fuel, rfl⟩ : ∃ f, fuel = f + 1 := ⟨fuel - 1, by omega⟩
    by_cases hn : n ≤ 4
    · have hfuel' : n - 4 < fuel + 1 := by omega
      obtain ⟨items, hval, hrest⟩ := ih hfront hfuel' list k
      rw [headers_short (by omega)] at hval
      exact ⟨items, (headers_short hn).trans hval, hrest⟩
    · obtain ⟨hdr, hs, -, hval⟩ :=
        headers_turn eventLen fuel list (Nat.lt_of_not_le hn) (hk.kind_eq heq)
      rw [hval, heq, if_pos ht]
      exact ih hfront (by omega) list k
  | timeStamp hk ht hc ha hq ih =>
    obtain ⟨hlen, -, hfront, heq⟩ := header_eq hp
    obtain ⟨-, hrest, -⟩ := append_eq_readAt hfront
    rw [List.length_append, ha] at hlen
    have hcount := hc.1
    obtain ⟨fuel, rfl⟩ : ∃ f, fuel = f + 1 := ⟨fuel - 1, by omega⟩
    obtain ⟨hdr, hs, -, hval⟩ := headers_turn eventLen fuel list (by omega) (hk.kind_eq heq)
    rw [hval, hs.pyldLen heq, heq, if_neg (ne_null_of_isTimeStamp ht),
      if_neg (not_or.mpr ⟨not_not.mpr hc, by omega⟩), if_pos ht]
    refine ih ?_ (by omega) list k
    rw [hrest]
    congr 1
    omega
  | @record q args h binary rs hk hn ht hc ha hq ih =>
    obtain ⟨hlen, -, hfront, heq⟩ := header_eq hp
    obtain ⟨-, hrest, -⟩ := append_eq_readAt hfront
    rw [List.length_append, ha] at hlen
    have hcount := hc.1
    obtain ⟨fuel, rfl⟩ : ∃ f, fuel = f + 1 := ⟨fuel - 1, by omega⟩
    obtain ⟨hdr, hs, htime, hval⟩ := headers_turn eventLen fuel list (by omega) (hk.kind_eq heq)
    have hleft : n - 4 - (4 * h.count + h.extLen) = q.length := by omega
    have hfits : ¬ n - 4 < 4 * h.count + h.extLen := by omega
    have hptr : hdr.logPtr = data + q.length := by
      rw [hs.logPtr, hs.count, heq]
      unfold Header.extLen at hlen
      omega
    have hnum : hdr.count = h.count := by rw [hs.count, heq]
    have hlisted : Listed mem data hdr := by
      refine ⟨hptr ▸ Nat.le_add_right data q.length, by omega, ?_⟩
      rw [htime, hptr, hnum]
      congr 1
      unfold Header.extLen at hlen
      unfold LOG_HDR_LEN
      split at hlen
      · next hext =>
        rw [if_pos hext]
        omega
      · next hext =>
        rw [if_neg hext]
        omega
    have hrecord : recordOf data hdr = ⟨h.tag, h.fmtNum, h.count, binary, q.length⟩ := by
      unfold recordOf
      rw [hs.tag, hs.fmtNum, hptr, hs.count, hs.binaryPayload, heq, Nat.add_sub_cancel_left]
    rw [hval, hs.pyldLen heq, heq, if_neg hn, if_neg (not_or.mpr ⟨not_not.mpr hc, hfits⟩),
      if_neg (by rw [ht]; exact Bool.false_ne_true), hleft, List.reverse_concat, listed]
    by_cases hitem : env.itemOk k = true
    · have hfuel' : q.length < fuel := by omega
      obtain ⟨items, hrun, hrecords, hids, hin⟩ := ih hrest hfuel' ((k, hdr) :: list) (k + 1)
      rw [if_pos hitem, if_pos hitem]
      refine ⟨items ++ [(k, hdr)], ?_, ?_, ?_, fun i hi => ?_⟩
      · rw [hrun, List.append_assoc, List.length_append, List.length_singleton, Nat.add_assoc,
          Nat.add_comm 1]
        rfl
      · rw [List.map_append, hrecords, List.map_singleton, hrecord, List.reverse_cons]
      · rw [List.map_append, hids, List.length_append, List.length_singleton, List.range'_succ,
          List.reverse_cons]
        rfl
      · rcases List.mem_append.mp hi with hi | hi
        · exact hin i hi
        · rw [List.mem_singleton.mp hi]
          exact hlisted
    · rw [if_neg hitem, if_neg hitem]
      exact ⟨[], rfl, rfl, rfl, fun i hi => absurd hi List.not_mem_nil⟩

theorem decodes_unique {rs' : List Record} (h : Decodes (readAt mem data n) rs)
    (h' : Decodes (readAt mem data n) rs') : rs = rs' := by
  have hrun : ∀ rs, Decodes (readAt mem data n) rs → ∃ items,
      (headers roomyEnv mem 0 data (n + 1) n [] 0).val = some (items ++ [], 0 + items.length) ∧
      items.map (fun i => recordOf data i.2) = rs := by
    intro rs h
    obtain ⟨items, hval, hrecords, -⟩ :=
      @headers_of_decodes rs roomyEnv mem data (n + 1) n _ h 0 rfl (Nat.lt_succ_self n) [] 0
    rw [listed_all (fun _ => rfl), List.reverse_reverse] at hrecords
    exact ⟨items, hval, hrecords⟩
  obtain ⟨items, hval, rfl⟩ := hrun rs h
  obtain ⟨items', hval', rfl⟩ := hrun rs' h'
  rw [hval, Option.some_inj, Prod.mk.injEq, List.append_cancel_right_eq] at hval'
  rw [hval'.1]

end

/-! ## Every payload has records -/

theorem exists_bytes {l : List UInt8} (h : l.length = 4) : ∃ a b c d, l = [a, b, c, d] := by
  rcases l with _ | ⟨a, _ | ⟨b, _ | ⟨c, _ | ⟨d, _ | ⟨e, l⟩⟩⟩⟩⟩
  · cases h
  · cases h
  · cases h
  · cases h
  · exact ⟨a, b, c, d, rfl⟩
  · rw [List.length_cons, List.length_cons, List.length_cons, List.length_cons,
      List.length_cons] at h
    omega

theorem exists_last {p : List UInt8} (h : 4 ≤ p.length) :
    ∃ q a b c d, p = q ++ [a, b, c, d] ∧ q.length = p.length - 4 := by
  obtain ⟨a, b, c, d, hdrop⟩ := exists_bytes (l := p.drop (p.length - 4))
    (by rw [List.length_drop]; omega)
  refine ⟨p.take (p.length - 4), a, b, c, d, ?_, ?_⟩
  · rw [← hdrop, List.take_append_drop]
  · rw [List.length_take]
    omega

/-- A payload that ends with a valid header. -/
theorem decodes_header {q : List UInt8} {h : Header} {binary : Bool} (hk : h.Is binary)
    (ih : ∀ p : List UInt8, p.length < (q ++ h.extBytes ++ h.word.bytes).length →
      ∃ rs, Decodes p rs) : ∃ rs, Decodes (q ++ h.extBytes ++ h.word.bytes) rs := by
  by_cases hnull : h.tag = EVENT_LOG_TAG_NULL
  · obtain ⟨rs, hrs⟩ := ih (q ++ h.extBytes) (by simp)
    exact ⟨rs, .null hk hnull hrs⟩
  by_cases hc : h.Counted
  · by_cases hq : q.length < 4 * h.count
    · exact ⟨[], .stop (.args hk hnull hq)⟩
    · have hsplit := List.take_append_drop (q.length - 4 * h.count) q
      have hargs : (q.drop (q.length - 4 * h.count)).length = 4 * h.count := by
        rw [List.length_drop]
        omega
      obtain ⟨rs, hrs⟩ := ih (q.take (q.length - 4 * h.count)) (by simp; omega)
      rw [← hsplit]
      cases hts : isTimeStamp h.tag with
      | true => exact ⟨rs, .timeStamp hk hts hc hargs hrs⟩
      | false => exact ⟨_, .record hk hnull hts hc hargs hrs⟩
  · exact ⟨[], .stop (.count hk hnull hc)⟩

theorem decodes_total (n : Nat) : ∀ p : List UInt8, p.length = n → ∃ rs, Decodes p rs := by
  induction n using Nat.strong_induction_on with
  | _ n ih =>
    intro p hn
    by_cases hshort : p.length < 4
    · exact ⟨[], .stop (.short hshort)⟩
    obtain ⟨q, t, c, lo, hi, rfl, hq⟩ := exists_last (Nat.le_of_not_lt hshort)
    let w : HdrWord := ⟨t, c, lo, hi⟩
    cases hkind : w.kind with
    | none => exact ⟨[], .stop (.invalid (w := w) hkind)⟩
    | some k =>
      obtain ⟨ext, binary⟩ := k
      cases ext with
      | false =>
        have hd : ∃ rs, Decodes (q ++ [] ++ w.bytes) rs :=
          @decodes_header q ⟨none, w⟩ binary hkind fun p hp =>
            ih p.length (by rw [← hn]; simpa [Header.extBytes] using hp) p rfl
        rw [List.append_nil] at hd
        exact hd
      | true =>
        by_cases hqs : q.length < 4
        · exact ⟨[], .stop (.noExt (w := w) hkind hqs)⟩
        · obtain ⟨q', et, ec, ef, er, rfl, -⟩ := exists_last (Nat.le_of_not_lt hqs)
          exact @decodes_header q' ⟨some ⟨et, ec, ef, er⟩, w⟩ binary hkind fun p hp =>
            ih p.length (by rw [← hn]; exact hp) p rfl

/-- The arguments lie in the payload. -/
theorem Decodes.inside {p : List UInt8} (h : Decodes p rs) :
    ∀ r ∈ rs, r.pos + 4 * r.count ≤ p.length := by
  induction h with
  | stop h =>
    intro r hr
    cases hr
  | null hk ht hq ih =>
    intro r hr
    have hle := ih r hr
    rw [List.length_append]
    omega
  | timeStamp hk ht hc ha hq ih =>
    intro r hr
    have hle := ih r hr
    rw [List.length_append, List.length_append, List.length_append]
    omega
  | record hk hn ht hc ha hq ih =>
    intro r hr
    rw [List.length_append, List.length_append, List.length_append]
    rcases List.mem_append.mp hr with hr | hr
    · have hle := ih r hr
      omega
    · rw [List.mem_singleton.mp hr]
      dsimp only
      omega

/-! ## Top theorem -/

/-- Where the payload of the block is. -/
def payloadStart (msgtraceHdrPresent : Bool) : Nat :=
  blockStart msgtraceHdrPresent + EVENT_LOG_BLOCK_HDRLEN

def payload (mem : Mem) (datalen : Nat) (msgtraceHdrPresent : Bool) : List UInt8 :=
  readAt mem (payloadStart msgtraceHdrPresent) (datalen - payloadStart msgtraceHdrPresent)

def eventSeqnum (mem : Mem) (msgtraceHdrPresent : Bool) (msgtraceSeqnum : Nat) : Nat :=
  if msgtraceHdrPresent then leValue (readAt mem 4 4).reverse else msgtraceSeqnum

theorem handleAll_eq (list : List Item) :
    handleAll list = (list.map fun i => (handlerOf i.2, i.2), list.map Prod.fst) := by
  induction list with
  | nil => rfl
  | cons i list ih =>
    unfold handleAll
    rw [ih]
    rfl

section
variable {env : Env} {mem : Mem} {datalen msgtraceSeqnum seqnumPrev : Nat}
  {msgtraceHdrPresent : Bool}

theorem payloadStart_lt (hmin : minExpectedLen msgtraceHdrPresent < datalen) :
    payloadStart msgtraceHdrPresent < datalen := by
  refine Nat.lt_of_le_of_lt ?_ hmin
  cases msgtraceHdrPresent <;> decide

theorem msgtraceLogParser_val (hmin : minExpectedLen msgtraceHdrPresent < datalen)
    (hseq : eventSeqnum mem msgtraceHdrPresent msgtraceSeqnum ≠ seqnumPrev) (fuel : Nat) :
    (msgtraceLogParser env mem datalen msgtraceHdrPresent msgtraceSeqnum seqnumPrev fuel).val =
      (parseBlock env mem datalen (blockStart msgtraceHdrPresent)
        (datalen - blockStart msgtraceHdrPresent)
        (eventSeqnum mem msgtraceHdrPresent msgtraceSeqnum) fuel).val := by
  have hread : (readSeqnum mem msgtraceHdrPresent msgtraceSeqnum).val =
      eventSeqnum mem msgtraceHdrPresent msgtraceSeqnum := by
    cases msgtraceHdrPresent <;> rfl
  have hnew : seqchk seqnumPrev (eventSeqnum mem msgtraceHdrPresent msgtraceSeqnum) =
      some (eventSeqnum mem msgtraceHdrPresent msgtraceSeqnum) := if_neg hseq
  unfold msgtraceLogParser
  rw [if_neg (Nat.not_le_of_lt hmin)]
  dsimp only [Logged.val_bind]
  rw [hread, hnew]

theorem parseBlock_val {data fuel : Nat} (prev : Nat) (hlog : env.logbufOk = true)
    (hmax : SIZEOF_TRACELOG_HEADER + (datalen - data) ≤ PAYLOAD_MAX_LEN)
    {list : List Item} {n : Nat}
    (hrun : (headers env mem datalen (data + EVENT_LOG_BLOCK_HDRLEN) fuel
      (datalen - data - EVENT_LOG_BLOCK_HDRLEN) [] 0).val = some (list, n)) :
    ∃ out, (parseBlock env mem datalen data (datalen - data) prev fuel).val = some out ∧
      out.handled = list.map (fun i => (handlerOf i.2, i.2)) ∧ out.allocated = n ∧
      out.freed = list.map Prod.fst ∧ out.logset = load mem (data + 4) 4 ∧
      out.block = load mem (data + 2) 2 := by
  unfold parseBlock
  rw [hlog, if_neg (by decide), if_neg (Nat.not_lt_of_le hmax)]
  dsimp only [Logged.val_bind]
  rw [hrun]
  refine ⟨_, rfl, ?_, rfl, ?_, rfl, rfl⟩
  · dsimp only
    rw [handleAll_eq]
  · dsimp only
    rw [handleAll_eq]

end

/-- **Event logs.**  The parser ends; its handlers get the records of the payload, in forward order,
and each list item that has been allocated is freed once. -/
theorem log_parser_exact (env : Env) (mem : Mem) (datalen : Nat) (msgtraceHdrPresent : Bool)
    (msgtraceSeqnum seqnumPrev : Nat) (hmin : minExpectedLen msgtraceHdrPresent < datalen)
    (hmax : SIZEOF_TRACELOG_HEADER + (datalen - blockStart msgtraceHdrPresent) ≤ PAYLOAD_MAX_LEN)
    (hseq : eventSeqnum mem msgtraceHdrPresent msgtraceSeqnum ≠ seqnumPrev)
    (hlog : env.logbufOk = true) (hitem : ∀ i, env.itemOk i = true) :
    ∃ fuel out rs,
      (msgtraceLogParser env mem datalen msgtraceHdrPresent msgtraceSeqnum seqnumPrev fuel).val =
        some out ∧
      (∀ rs', Decodes (payload mem datalen msgtraceHdrPresent) rs' ↔ rs' = rs) ∧
      out.handled.map (fun c => recordOf (payloadStart msgtraceHdrPresent) c.2) = rs ∧
      (∀ c ∈ out.handled, c.1 = handlerOf c.2 ∧
        payloadStart msgtraceHdrPresent ≤ c.2.logPtr ∧ c.2.logPtr + 4 * c.2.count ≤ datalen) ∧
      out.freed.Perm (List.range out.allocated) := by
  obtain ⟨rs, hrs⟩ := decodes_total _ (payload mem datalen msgtraceHdrPresent) rfl
  obtain ⟨items, hval, hrecords, hids, hlisted⟩ :=
    headers_of_decodes hrs datalen rfl (Nat.lt_succ_self _) [] 0
  rw [listed_all hitem, List.reverse_reverse] at hrecords
  have hsub : datalen - blockStart msgtraceHdrPresent - EVENT_LOG_BLOCK_HDRLEN =
      datalen - payloadStart msgtraceHdrPresent := Nat.sub_sub _ _ _
  obtain ⟨out, hout, hhandled, hallocated, hfreed, -⟩ := parseBlock_val
    (eventSeqnum mem msgtraceHdrPresent msgtraceSeqnum) hlog hmax (hsub ▸ hval)
  refine ⟨_, out, rs, (msgtraceLogParser_val hmin hseq _).trans hout,
    fun rs' => ⟨fun h' => decodes_unique h' hrs, ?_⟩, ?_, fun c hc => ?_, ?_⟩
  · rintro rfl
    exact hrs
  · rw [hhandled, List.map_map, List.append_nil]
    exact hrecords
  · rw [hhandled, List.append_nil] at hc
    obtain ⟨i, hi, rfl⟩ := List.mem_map.mp hc
    have hge := (hlisted i hi).behind
    refine ⟨rfl, hge, ?_⟩
    have hin := hrs.inside (recordOf (payloadStart msgtraceHdrPresent) i.2)
      (hrecords ▸ List.mem_map_of_mem hi)
    unfold payload at hin
    rw [readAt_length] at hin
    unfold recordOf at hin
    dsimp only at hin ⊢
    have hstart := payloadStart_lt hmin
    omega
  · rw [hfreed, hallocated, List.append_nil, hids, Nat.zero_add, List.range_eq_range']
    exact List.reverse_perm _

/-- A block of two records with a time stamp between them: tag 5 and format 7 with one argument, and,
with an extended header, tag 518 and format 16393 with two. -/
def aBlock : List UInt8 :=
  [0x78, 0x56, 0x34, 0x12] ++ HdrWord.bytes ⟨5, 1, 28, 0⟩ ++
    [0, 0, 1, 0, 7, 0, 0, 0] ++ HdrWord.bytes ⟨1, 2, 0, 0⟩ ++
    [0xbc, 0x9a, 0, 0, 3, 0, 0, 0] ++ Header.extBytes ⟨some ⟨2, 0, 1, 0⟩, ⟨6, 2, 37, 0⟩⟩ ++
    HdrWord.bytes ⟨6, 2, 37, 0⟩

/-- The message trace header, the header of the block, and the block. -/
def twoRecords : List UInt8 :=
  [1, 1, 0, 44, 0, 0, 0, 1, 0, 0, 0, 0, 0, 0, 0, 0, 40, 0, 0, 0, 0, 0, 0, 0] ++ aBlock

theorem aBlock_decodes : Decodes aBlock [⟨5, 7, 1, false, 0⟩, ⟨518, 16393, 2, false, 20⟩] := by
  have hnone : Decodes [] [] := .stop (.short (by decide))
  have hfirst : Decodes ([] ++ [0x78, 0x56, 0x34, 0x12] ++ Header.extBytes ⟨none, ⟨5, 1, 28, 0⟩⟩ ++
      HdrWord.bytes ⟨5, 1, 28, 0⟩) ([] ++ [⟨5, 7, 1, false, 0⟩]) :=
    .record rfl (by decide) rfl (by decide) rfl hnone
  have hkind : Header.Is ⟨none, ⟨1, 2, 0, 0⟩⟩ false := rfl
  have hargs : ([0, 0, 1, 0, 7, 0, 0, 0] : List UInt8).length =
      4 * Header.count ⟨none, ⟨1, 2, 0, 0⟩⟩ := rfl
  have hstamp := Decodes.timeStamp hkind rfl (by decide) hargs hfirst
  exact .record (h := ⟨some ⟨2, 0, 1, 0⟩, ⟨6, 2, 37, 0⟩⟩) rfl (by decide) rfl (by decide) rfl hstamp

theorem log_parser_twoRecords : ∃ fuel out,
    (msgtraceLogParser roomyEnv (fun i => twoRecords.getD i 0) 60 true 0 0 fuel).val = some out ∧
      out.handled.map (fun c => recordOf 24 c.2) =
        [⟨5, 7, 1, false, 0⟩, ⟨518, 16393, 2, false, 20⟩] ∧
      out.freed.Perm (List.range out.allocated) := by
  obtain ⟨fuel, out, rs, hrun, hrs, hhandled, -, hfreed⟩ :=
    log_parser_exact roomyEnv (fun i => twoRecords.getD i 0) 60 true 0 0 (by decide) (by decide)
      (by decide) rfl (fun _ => rfl)
  have hpayload : payload (fun i => twoRecords.getD i 0) 60 true = aBlock := by decide
  exact ⟨fuel, out, hrun, hhandled.trans ((hrs _).mp (hpayload ▸ aBlock_decodes)).symm, hfreed⟩

end Bcmdhd.EventLog
