import Bcmdhd.EventLog.RoamLog
import Bcmdhd.EventLog.StaticStrings

/-!
# Trace events (`dhd_dbg_trace_evnt_handler`)

A trace event is a message, which is printed line by line, or an event log, whose records go to the
printers.  The event is at 0 of `mem`; what is touched is logged.

    every touch is inside  ↔  Fits x mem datalen s                       (trace_event_inside_iff)

A touch is inside if it is in the event (for a message, there are two bytes more), in the words of a
roam record, or in the table of a static string.
-/

namespace Bcmdhd.EventLog.TraceEvent

open Records VerboseLog RoamLog

/-! ## Algorithm -/

def MSGTRACE_VERSION : Nat := 1
def MSGTRACE_HDR_TYPE_MSG : Nat := 0
def MSGTRACE_HDR_TYPE_LOG : Nat := 1
def EVENT_LOG_TAG_ROM_PRINTF : Nat := 66
def EVENT_LOG_TAG_MSCHPROFILE_TLV : Nat := 144
def WL_MSCH_PROFILER_EVENT_LOG : Nat := 10
def DHD_OW_BI_RAW_EVENT_LOG_FMT : Nat := 0xFFFF

/-- A byte of the event, of a message, or of a record that is printed; or a copy of a static
string. -/
inductive Touch
  | event (a : Nat)
  | message (a : Nat)
  | roam (h : PrcdEventLogHdr) (a : Nat)
  | copy (c : Copy)

/-- What the handler meets. -/
structure Ctx where
  env : Env
  /-- `DHD_ERROR_ROAM` prints -/
  roamOn : Bool
  dhd : Dhd
  /-- `raw_event_ptr` -/
  rawEvent : Option LogEvent

/-- The `seqnum_prev` of the two parsers. -/
structure Seqnums where
  msg : Nat
  log : Nat

def ntoh16At (mem : Mem) (pos : Nat) : Logged Nat Nat :=
  ⟨leValue (readAt mem pos 2).reverse, (List.range 2).map (pos + ·)⟩

/-- A byte is read or written. -/
def touch (pos : Nat) : Logged Nat Unit := ⟨(), [pos]⟩

/-- Display the trace buffer.  Advance from \n to \n: each byte is read, up to the end, and each \n
is overwritten. -/
def showLines : Nat → List UInt8 → Logged Nat (List (List UInt8))
  | pos, [] => do
    touch pos
    pure [[]]
  | pos, c :: s => do
    touch pos
    let lines ← showLines (pos + 1) s
    pure (if c = 10 then [] :: lines else (c :: lines.headD []) :: lines.tail)

/-- `discarded_bytes`, and `discarded_printf` -/
def readDiscarded (mem : Mem) : Logged Nat (Nat × Nat) := do
  let bytes ← ntoh32At mem 8
  if bytes ≠ 0 then pure (bytes, 0)
  else do
    let printf ← ntoh32At mem 12
    pure (0, printf)

/-- `dhd_dbg_msgtrace_msg_parser`: the new `seqnum_prev`, and the lines. -/
def msgtraceMsgParser (mem : Mem) (seqnumPrev : Nat) : Logged Nat (Nat × List (List UInt8)) := do
  let len ← ntoh16At mem 2
  -- There are 2 bytes available at the end of data
  touch (MSGTRACE_HDRLEN + len)
  let _ ← readDiscarded mem
  let seqnum ← ntoh32At mem 4
  match seqchk seqnumPrev seqnum with
  | none => pure (seqnumPrev, [])
  | some prev => do
    let lines ← showLines MSGTRACE_HDRLEN ((readAt mem MSGTRACE_HDRLEN len).takeWhile (· ≠ 0))
    pure (prev, lines)

/-- The call for the record of an `msch_event_log_profiler_event_data_t`. -/
def mschCall (mem : Mem) (p : Nat) : Call :=
  let fmtNumRaw := leValue (readAt mem (p + 10) 2).reverse
  { h := {
      tag := EVENT_LOG_TAG_MSCHPROFILE
      count := load mem (p + 9) 1 + 1
      fmtNumRaw := fmtNumRaw
      fmtNum := fmtNumRaw >>> 2
      armcycle := 0
      logPtr := p + 12
      extEventLogHdr := false
      binaryPayload := fmtNumRaw = DHD_OW_BI_RAW_EVENT_LOG_FMT }
    logPtr := fun i => load mem (p + 12 + 4 * i) 4
    logset := 0
    block := 0 }

/-- `WL_MSCH_PROFILER_EVENT_LOG` of `dhd_mschdbg_dump_data` -/
def mschEventLogs (mem : Mem) : Nat → Nat → Nat → List Call
  | 0, _, _ => []
  | fuel + 1, data, len =>
    let size := 12 + 4 * load mem (data + 9) 1
    if len < 12 ∨ len < size ∨ 48 < size then []
    else mschCall mem data :: mschEventLogs mem fuel (data + size) (len - size)

def dhdMschdbgDumpData (mem : Mem) (type data len : Nat) : List Call :=
  if 4 ≤ (type &&& 0x0F00) >>> 8 then []
  else if type &&& 0x00FF = WL_MSCH_PROFILER_EVENT_LOG then mschEventLogs mem len data len
  else []

/-- Which calls of `dhd_dbg_verboselog_printf` there are. -/
def wlMschdbgVerboselogHandler (mem : Mem) (h : PrcdEventLogHdr) : List Call :=
  if h.count = 0 then []
  else
    let logPyldLen := (h.count - 1) * DATA_UNIT_FOR_LOG_CNT
    if h.tag = EVENT_LOG_TAG_MSCHPROFILE then
      if logPyldLen < 12 ∨ 48 < logPyldLen then [] else [mschCall mem h.logPtr]
    else
      let len := leValue (readAt mem (h.logPtr + 2) 2).reverse
      if logPyldLen < 4 + len then []
      else dhdMschdbgDumpData mem (leValue (readAt mem h.logPtr 2).reverse) (h.logPtr + 4) len

/-- Which calls of `dhd_dbg_verboselog_printf` there are for a record of the payload at `data`. -/
def dhdDbgVerboselogHandler (mem : Mem) (data : Nat) (h : PrcdEventLogHdr) (logset block : Nat) :
    List Call :=
  if h.logPtr < data then []
  else if h.tag = EVENT_LOG_TAG_ROM_PRINTF then []
  else if h.tag = EVENT_LOG_TAG_MSCHPROFILE ∨ h.tag = EVENT_LOG_TAG_MSCHPROFILE_TLV then
    wlMschdbgVerboselogHandler mem h
  else [⟨h, fun i => load mem (h.logPtr + 4 * i) 4, logset, block⟩]

/-- The copies for a record. -/
def verboselogCopies (x : Ctx) (mem : Mem) (data : Nat) (h : PrcdEventLogHdr)
    (logset block : Nat) : List Copy :=
  match x.rawEvent with
  | none => []
  | some ev =>
    (dhdDbgVerboselogHandler mem data h logset block).flatMap (printfCopies x.dhd ev)

def handleRecord (x : Ctx) (mem : Mem) (data logset block : Nat) :
    Handler × PrcdEventLogHdr → Logged Touch Unit
  | (.printRoamEnhancedLog, h) =>
    (printRoamEnhancedLog x.roamOn mem h.logPtr h.armcycle).relabel (.roam h)
  | (.verboselogHandler, h) => ⟨(), (verboselogCopies x mem data h logset block).map .copy⟩

def handleRecords (x : Ctx) (mem : Mem) (data logset block : Nat) :
    List (Handler × PrcdEventLogHdr) → Logged Touch Unit
  | [] => pure ()
  | c :: cs => do
    handleRecord x mem data logset block c
    handleRecords x mem data logset block cs

/-- An event log: the parser, which has a turn for each byte at most, and what its handlers do. -/
def traceLog (x : Ctx) (mem : Mem) (datalen seqnumPrev : Nat) : Logged Touch Nat := do
  let out ← (msgtraceLogParser x.env mem datalen true 0 seqnumPrev (datalen + 1)).relabel .event
  match out with
  | none => pure seqnumPrev
  | some out => do
    handleRecords x mem (payloadStart true) out.logset out.block out.handled
    pure out.seqnumPrev

def traceEvntHandler (x : Ctx) (mem : Mem) (datalen : Nat) (s : Seqnums) :
    Logged Touch Seqnums := do
  let version ← (readLe mem 0 1).relabel .event
  if version ≠ MSGTRACE_VERSION then pure s
  else do
    let type ← (readLe mem 1 1).relabel .event
    if type = MSGTRACE_HDR_TYPE_MSG then do
      let r ← (msgtraceMsgParser mem s.msg).relabel .message
      pure { s with msg := r.1 }
    else if type = MSGTRACE_HDR_TYPE_LOG then do
      let log ← traceLog x mem datalen s.log
      pure { s with log := log }
    else pure s

/-! ## Specification -/

def Touch.Inside (datalen : Nat) : Touch → Prop
  | .event a => a < datalen
  | .message a => a < datalen + 2
  | .roam h a => h.logPtr ≤ a ∧ a < h.logPtr + 4 * h.count ∧ a < datalen
  | .copy c => c.Inside

/-- No static string of the record is near the end of its table. -/
def VerboseFits (x : Ctx) (mem : Mem) (data : Nat) (h : PrcdEventLogHdr) (logset block : Nat) :
    Prop :=
  ∀ ev, x.rawEvent = some ev → ¬ h.logPtr < data → h.tag ≠ EVENT_LOG_TAG_ROM_PRINTF →
    if h.tag = EVENT_LOG_TAG_MSCHPROFILE ∨ h.tag = EVENT_LOG_TAG_MSCHPROFILE_TLV then
      ∀ c ∈ wlMschdbgVerboselogHandler mem h, StringsFit x.dhd ev c
    else StringsFit x.dhd ev ⟨h, fun i => load mem (h.logPtr + 4 * i) 4, logset, block⟩

/-- A record, as the handlers see it. -/
def hdrOf (start : Nat) (r : Record) : PrcdEventLogHdr where
  tag := r.tag
  count := r.count
  fmtNumRaw := 0
  fmtNum := r.fmtNum
  armcycle := 0
  logPtr := start + r.pos
  extEventLogHdr := false
  binaryPayload := r.binary

/-- The structure of a roam record is inside its words, and the static strings of any other one in
their tables. -/
def RecordFits (x : Ctx) (mem : Mem) (r : Record) : Prop :=
  if r.tag = EVENT_LOG_TAG_ROAM_ENHANCED_LOG then
    RoamFits x.roamOn mem (payloadStart true + r.pos) r.count
  else
    VerboseFits x mem (payloadStart true) (hdrOf (payloadStart true) r) (load mem 20 4)
      (load mem 18 2)

/-- The records of the event are handled: it is new, it is not too long, and there is memory. -/
structure Handled (x : Ctx) (mem : Mem) (datalen seqnumPrev : Nat) : Prop where
  new : eventSeqnum mem true 0 ≠ seqnumPrev
  logbuf : x.env.logbufOk = true
  short : SIZEOF_TRACELOG_HEADER + (datalen - MSGTRACE_HDRLEN) ≤ PAYLOAD_MAX_LEN

/-- The version is the one that the handler knows. -/
def isVersion (mem : Mem) : Prop := (mem 0).toNat = MSGTRACE_VERSION

structure Fits (x : Ctx) (mem : Mem) (datalen : Nat) (s : Seqnums) : Prop where
  version : 1 ≤ datalen
  type : isVersion mem → 2 ≤ datalen
  /-- the length of a message is not more than what is there -/
  message : isVersion mem → (mem 1).toNat = MSGTRACE_HDR_TYPE_MSG →
    MSGTRACE_HDRLEN + leValue (readAt mem 2 2).reverse < datalen + 2
  /-- the error for a log that is too short prints the block header -/
  short : isVersion mem → (mem 1).toNat = MSGTRACE_HDR_TYPE_LOG → datalen ≤ minExpectedLen true →
    x.env.errorLevel = true → 24 ≤ datalen
  records : isVersion mem → (mem 1).toNat = MSGTRACE_HDR_TYPE_LOG →
    minExpectedLen true < datalen → Handled x mem datalen s.log →
    ∀ rs, Decodes (payload mem datalen true) rs → ∀ r ∈ listed x.env 0 rs.reverse,
      RecordFits x mem r

/-! ## The parser -/

section
variable {env : Env} {mem : Mem} {eventLen data n pos w l : Nat}

theorem all_span (h : pos + w ≤ l) : ∀ a ∈ (List.range w).map (pos + ·), a < l := by
  intro a ha
  obtain ⟨i, hi, rfl⟩ := List.mem_map.mp ha
  have hlt := List.mem_range.mp hi
  omega

theorem all_readLe (h : pos + w ≤ l) : (readLe mem pos w).All (· < l) := all_span h

theorem all_ntoh32At (h : pos + 4 ≤ l) : (ntoh32At mem pos).All (· < l) := all_span h

theorem all_ntoh16At (h : pos + 2 ≤ l) : (ntoh16At mem pos).All (· < l) := all_span h

theorem all_readAll (h : pos + w ≤ l) : (readAll pos w).All (· < l) := all_span h

theorem all_processEventLogHdr (h : pos + 4 ≤ l) :
    (processEventLogHdr mem pos).All (· < l) := by
  have hsub : pos - LOG_HDR_LEN ≤ pos := Nat.sub_le _ _
  have hext : (readExtHdr mem (pos - LOG_HDR_LEN)).All (· < l) := by
    unfold readExtHdr
    simp only [Logged.all_bind, Logged.all_pure, and_true]
    exact ⟨all_readLe (by omega), all_readLe (by omega)⟩
  have hrest : ∀ n, (readLe mem (pos - n) 4).All (· < l) := fun n => all_readLe (by omega)
  unfold processEventLogHdr
  rw [Logged.all_bind]
  refine ⟨all_readLe (by omega), ?_⟩
  dsimp only
  split
  · exact Logged.all_pure _
  · simp only [Logged.all_ite, Logged.all_bind, Logged.all_pure, and_true]
    exact ⟨fun _ => ⟨hext, all_readLe (by omega), all_readLe (by omega), hrest _⟩,
      fun _ => ⟨trivial, all_readLe (by omega), all_readLe (by omega), hrest _⟩⟩

theorem all_headers (hn : data + n ≤ l) (hev : eventLen ≤ l) (fuel : Nat) (list : List Item)
    (k : Nat) : (headers env mem eventLen data fuel n list k).All (· < l) := by
  induction fuel generalizing n list k with
  | zero => exact Logged.all_pure _
  | succ fuel ih =>
    unfold headers LOG_HDR_LEN
    split
    · next hlt =>
      rw [Logged.all_bind]
      refine ⟨all_processEventLogHdr (by omega), ?_⟩
      split
      · simp only [Logged.all_ite, Logged.all_bind, Logged.all_pure, and_true, implies_true]
        exact fun _ => all_readAll (by omega)
      · next h =>
        simp only [Logged.all_ite, Logged.all_pure, implies_true, true_and, and_true]
        refine ⟨fun _ => ih (by omega) list k, fun _ _ _ _ => ⟨fun _ => ih ?_ _ _,
          fun _ _ => ih ?_ _ _⟩⟩
        · split <;> omega
        · split <;> omega
    · exact Logged.all_pure _

/-- Past the length check, the parser reads the event only. -/
theorem all_msgtraceLogParser {datalen : Nat} (hmin : minExpectedLen true < datalen)
    (msgtraceSeqnum seqnumPrev fuel : Nat) :
    (msgtraceLogParser env mem datalen true msgtraceSeqnum seqnumPrev fuel).All
      (· < datalen) := by
  have hlen : 28 < datalen := hmin
  unfold msgtraceLogParser
  rw [if_neg (Nat.not_le_of_lt hmin), Logged.all_bind]
  refine ⟨all_ntoh32At (by omega), ?_⟩
  split
  · exact Logged.all_pure _
  · unfold parseBlock blockStart MSGTRACE_HDRLEN EVENT_LOG_BLOCK_HDRLEN
    simp only [Logged.all_ite, Logged.all_bind, Logged.all_pure, if_true, implies_true, true_and,
      and_true]
    exact fun _ _ => ⟨all_readAll (by omega), all_readLe (by omega), all_readLe (by omega),
      all_readLe (by omega), all_headers (by omega) (Nat.le_refl _) _ _ _⟩

/-- A log that is too short is printed. -/
theorem all_msgtraceLogParser_short {datalen : Nat} (hmin : datalen ≤ minExpectedLen true)
    (msgtraceSeqnum seqnumPrev fuel : Nat) :
    (msgtraceLogParser env mem datalen true msgtraceSeqnum seqnumPrev fuel).All
      (· < datalen) ↔ (env.errorLevel = true → 24 ≤ datalen) := by
  have hhdr : (readAll MSGTRACE_HDRLEN 8).All (· < datalen) ↔ 24 ≤ datalen := by
    constructor
    · intro h
      exact h 23 (List.mem_map.mpr ⟨7, by decide, rfl⟩)
    · exact fun h => all_readAll h
  unfold msgtraceLogParser
  rw [if_pos hmin]
  simp only [Logged.all_ite, Logged.all_bind, Logged.all_pure, hhdr, implies_true, and_true,
    forall_const]
  exact and_iff_right (all_readAll (by omega))

end

/-! ## Records -/

section
variable {x : Ctx} {mem : Mem} {datalen seqnumPrev : Nat}

theorem parser_not_handled (hmin : minExpectedLen true < datalen)
    (h : ¬ Handled x mem datalen seqnumPrev) (fuel : Nat) :
    ∃ out, (msgtraceLogParser x.env mem datalen true 0 seqnumPrev fuel).val = some out ∧
      out.handled = [] := by
  by_cases hseq : eventSeqnum mem true 0 = seqnumPrev
  · have hread : seqchk seqnumPrev (readSeqnum mem true 0).val = none := if_pos hseq
    unfold msgtraceLogParser
    rw [if_neg (Nat.not_le_of_lt hmin)]
    dsimp only [Logged.val_bind]
    rw [hread]
    exact ⟨_, rfl, rfl⟩
  · rw [msgtraceLogParser_val hmin hseq]
    unfold parseBlock
    by_cases hlog : x.env.logbufOk = true
    · have hlong : PAYLOAD_MAX_LEN < SIZEOF_TRACELOG_HEADER + (datalen - blockStart true) :=
        Nat.lt_of_not_le fun hle => h ⟨hseq, hlog, hle⟩
      rw [hlog, if_neg (by decide), if_pos hlong]
      exact ⟨_, rfl, rfl⟩
    · rw [eq_false_of_ne_true hlog, if_pos (by decide)]
      exact ⟨_, rfl, rfl⟩

theorem parser_handled (hmin : minExpectedLen true < datalen)
    (h : Handled x mem datalen seqnumPrev) {rs : List Record}
    (hrs : Decodes (payload mem datalen true) rs) {fuel : Nat} (hfuel : datalen < fuel) :
    ∃ out items, (msgtraceLogParser x.env mem datalen true 0 seqnumPrev fuel).val = some out ∧
      out.handled = List.map (fun i : Item => (handlerOf i.2, i.2)) items ∧
      out.logset = load mem 20 4 ∧ out.block = load mem 18 2 ∧
      items.map (fun i => recordOf (payloadStart true) i.2) = (listed x.env 0 rs.reverse).reverse ∧
      ∀ i ∈ items, Listed mem (payloadStart true) i.2 := by
  have hfuel' : datalen - payloadStart true < fuel := by omega
  obtain ⟨items, hval, hrecords, -, hlisted⟩ :=
    headers_of_decodes hrs datalen rfl hfuel' [] 0
  rw [List.append_nil] at hval
  have hsub : datalen - blockStart true - EVENT_LOG_BLOCK_HDRLEN = datalen - payloadStart true :=
    Nat.sub_sub _ _ _
  obtain ⟨out, hout, hhandled, -, -, hlogset, hblock⟩ := parseBlock_val
    (eventSeqnum mem true 0) h.logbuf h.short (hsub ▸ hval)
  exact ⟨out, items, (msgtraceLogParser_val hmin h.new _).trans hout, hhandled, hlogset, hblock,
    hrecords, hlisted⟩

theorem verboseFits_iff (x : Ctx) (mem : Mem) (data : Nat) (h : PrcdEventLogHdr)
    (logset block : Nat) :
    (∀ c ∈ verboselogCopies x mem data h logset block, c.Inside) ↔
      VerboseFits x mem data h logset block := by
  unfold verboselogCopies VerboseFits
  cases x.rawEvent with
  | none => exact iff_of_true (fun c hc => by cases hc) (fun ev hev => by cases hev)
  | some ev =>
    have hcalls : ∀ cs : List Call, (∀ c ∈ cs.flatMap (printfCopies x.dhd ev), c.Inside) ↔
        ∀ c ∈ cs, StringsFit x.dhd ev c := by
      intro cs
      rw [List.forall_mem_flatMap]
      exact forall₂_congr fun c _ => printfCopies_inside x.dhd ev c
    dsimp only
    rw [hcalls]
    unfold dhdDbgVerboselogHandler
    split
    · next hlt => exact iff_of_true (fun c hc => by cases hc) (fun _ _ hge => absurd hlt hge)
    · next hge =>
      split
      · next hrom =>
        exact iff_of_true (fun c hc => by cases hc) (fun _ _ _ hne => absurd hrom hne)
      · next hrom =>
        split
        · next hmsch =>
          exact ⟨fun h _ hev _ _ => Option.some_inj.mp hev ▸ h, fun h => h ev rfl hge hrom⟩
        · next hmsch =>
          rw [List.forall_mem_singleton]
          exact ⟨fun h _ hev _ _ => Option.some_inj.mp hev ▸ h, fun h => h ev rfl hge hrom⟩

/-- What is seen of a record is what the record says. -/
theorem verboseFits_record {data : Nat} {h : PrcdEventLogHdr} (hl : Listed mem data h)
    (logset block : Nat) :
    VerboseFits x mem data h logset block ↔
      VerboseFits x mem data (hdrOf data (recordOf data h)) logset block := by
  obtain ⟨tag, count, fmtNumRaw, fmtNum, armcycle, logPtr, ext, binary⟩ := h
  have hptr : data + (logPtr - data) = logPtr := Nat.add_sub_of_le hl.behind
  unfold hdrOf recordOf VerboseFits
  dsimp only
  rw [hptr]
  refine forall_congr' fun ev => forall_congr' fun _ => imp_congr Iff.rfl (imp_congr Iff.rfl ?_)
  by_cases hmsch : tag = EVENT_LOG_TAG_MSCHPROFILE ∨ tag = EVENT_LOG_TAG_MSCHPROFILE_TLV
  · rw [if_pos hmsch, if_pos hmsch]
    exact Iff.rfl
  · rw [if_neg hmsch, if_neg hmsch]
    constructor
    · exact fun hs raw hf => hs raw ⟨hf.format, hf.traced, hf.buf, hf.text, hf.few⟩
    · exact fun hs raw hf => hs raw ⟨hf.format, hf.traced, hf.buf, hf.text, hf.few⟩

theorem handleRecord_inside {h : PrcdEventLogHdr} (hl : Listed mem (payloadStart true) h)
    (hend : h.logPtr + 4 * h.count ≤ datalen) :
    (handleRecord x mem (payloadStart true) (load mem 20 4) (load mem 18 2)
      (handlerOf h, h)).All (Touch.Inside datalen) ↔
      RecordFits x mem (recordOf (payloadStart true) h) := by
  have htag : (recordOf (payloadStart true) h).tag = h.tag := rfl
  have hcount : (recordOf (payloadStart true) h).count = h.count := rfl
  have hptr : payloadStart true + (recordOf (payloadStart true) h).pos = h.logPtr :=
    Nat.add_sub_of_le hl.behind
  unfold RecordFits handlerOf
  rw [htag]
  split
  · unfold handleRecord
    rw [Logged.all_relabel, hptr, hcount, hl.armcycle, ← print_roam_within _ _ _ _ hl.counted]
    constructor
    · exact fun hin a ha => ⟨(hin a ha).1, (hin a ha).2.1⟩
    · intro hin a ha
      have hof := hin a ha
      exact ⟨hof.1, hof.2, Nat.lt_of_lt_of_le hof.2 hend⟩
  · rw [← verboseFits_record hl, ← verboseFits_iff]
    exact List.forall_mem_map

theorem all_handleRecords {data logset block : Nat} {P : Touch → Prop}
    {cs : List (Handler × PrcdEventLogHdr)} :
    (handleRecords x mem data logset block cs).All P ↔
      ∀ c ∈ cs, (handleRecord x mem data logset block c).All P := by
  induction cs with
  | nil => exact iff_of_true (Logged.all_pure _) (fun c hc => by cases hc)
  | cons c cs ih =>
    unfold handleRecords
    rw [Logged.all_bind, ih, List.forall_mem_cons]

theorem traceLog_inside_iff (x : Ctx) (mem : Mem) (datalen seqnumPrev : Nat) :
    (traceLog x mem datalen seqnumPrev).All (Touch.Inside datalen) ↔
      (datalen ≤ minExpectedLen true → x.env.errorLevel = true → 24 ≤ datalen) ∧
      (minExpectedLen true < datalen → Handled x mem datalen seqnumPrev →
        ∀ rs, Decodes (payload mem datalen true) rs → ∀ r ∈ listed x.env 0 rs.reverse,
          RecordFits x mem r) := by
  unfold traceLog
  rw [Logged.all_bind, Logged.all_relabel, Logged.val_relabel]
  change (msgtraceLogParser x.env mem datalen true 0 seqnumPrev (datalen + 1)).All (· < datalen) ∧
    _ ↔ _
  by_cases hmin : minExpectedLen true < datalen
  · rw [and_iff_right (all_msgtraceLogParser hmin 0 seqnumPrev (datalen + 1)),
      and_iff_right fun hle => absurd hmin (Nat.not_lt_of_le hle), forall_prop_of_true hmin]
    by_cases hh : Handled x mem datalen seqnumPrev
    · obtain ⟨rs, hrs⟩ := decodes_total _ (payload mem datalen true) rfl
      obtain ⟨out, items, hval, hhandled, hlogset, hblock, hrecords, hlisted⟩ :=
        parser_handled hmin hh hrs (Nat.lt_succ_self datalen)
      rw [hval, forall_prop_of_true hh]
      dsimp only
      rw [Logged.all_bind, all_handleRecords, hhandled, hlogset, hblock, List.forall_mem_map]
      refine (and_iff_left (Logged.all_pure _)).trans ?_
      have hin : ∀ i ∈ items, i.2.logPtr + 4 * i.2.count ≤ datalen := by
        intro i hi
        have hmem : recordOf (payloadStart true) i.2 ∈ (listed x.env 0 rs.reverse).reverse :=
          hrecords ▸ List.mem_map_of_mem hi
        have hle := hrs.inside _ (List.mem_reverse.mp (mem_of_listed (List.mem_reverse.mp hmem)))
        have hge := (hlisted i hi).behind
        have hstart := payloadStart_lt hmin
        unfold payload at hle
        rw [readAt_length] at hle
        unfold recordOf at hle
        dsimp only at hle
        omega
      have hrecord : (∀ i ∈ items, (handleRecord x mem (payloadStart true) (load mem 20 4)
          (load mem 18 2) (handlerOf i.2, i.2)).All (Touch.Inside datalen)) ↔
          ∀ r ∈ listed x.env 0 rs.reverse, RecordFits x mem r := by
        rw [forall₂_congr fun i hi => handleRecord_inside (hlisted i hi) (hin i hi)]
        have hmap : (∀ r ∈ items.map (fun i => recordOf (payloadStart true) i.2),
            RecordFits x mem r) ↔
            ∀ i ∈ items, RecordFits x mem (recordOf (payloadStart true) i.2) := List.forall_mem_map
        rw [← hmap, hrecords]
        exact forall_congr' fun r => imp_congr List.mem_reverse Iff.rfl
      rw [hrecord]
      exact ⟨fun h rs' hrs' => decodes_unique hrs hrs' ▸ h, fun h => h rs hrs⟩
    · obtain ⟨out, hval, hnil⟩ := parser_not_handled hmin hh (datalen + 1)
      rw [hval]
      dsimp only
      rw [hnil]
      exact iff_of_true (fun e he => by cases he) (fun h => absurd h hh)
  · have hle := Nat.le_of_not_lt hmin
    obtain ⟨out, hval, hnil⟩ : ∃ out, (msgtraceLogParser x.env mem datalen true 0 seqnumPrev
        (datalen + 1)).val = some out ∧ out.handled = [] := by
      unfold msgtraceLogParser
      rw [if_pos hle]
      cases x.env.errorLevel <;> exact ⟨_, rfl, rfl⟩
    rw [all_msgtraceLogParser_short hle, forall_prop_of_true hle, hval]
    dsimp only
    rw [hnil]
    refine and_congr_right fun _ => ?_
    exact iff_of_true (fun e he => by cases he) (fun h => absurd h hmin)

/-! ## Messages -/

theorem all_showLines {l : Nat} (pos : Nat) (s : List UInt8) (h : pos + s.length < l) :
    (showLines pos s).All (· < l) := by
  induction s generalizing pos with
  | nil =>
    unfold showLines
    rw [Logged.all_bind]
    exact ⟨fun a ha => List.mem_singleton.mp ha ▸ h, Logged.all_pure _⟩
  | cons c s ih =>
    rw [List.length_cons] at h
    unfold showLines
    rw [Logged.all_bind, Logged.all_bind]
    refine ⟨fun a ha => ?_, ih (pos + 1) (by omega), Logged.all_pure _⟩
    rw [List.mem_singleton.mp ha]
    omega

/-- The end of the message is written. -/
theorem msgParser_inside_iff (mem : Mem) (seqnumPrev l : Nat) :
    (msgtraceMsgParser mem seqnumPrev).All (· < l) ↔
      MSGTRACE_HDRLEN + leValue (readAt mem 2 2).reverse < l := by
  unfold msgtraceMsgParser
  rw [Logged.all_bind, Logged.all_bind]
  constructor
  · exact fun h => h.2.1 _ (List.mem_singleton.mpr rfl)
  · intro h
    have hlt : 16 + leValue (readAt mem 2 2).reverse < l := h
    refine ⟨all_ntoh16At (by omega), fun a ha => List.mem_singleton.mp ha ▸ h, ?_⟩
    rw [Logged.all_bind, Logged.all_bind]
    refine ⟨?_, all_ntoh32At (by omega), ?_⟩
    · unfold readDiscarded
      simp only [Logged.all_bind, Logged.all_ite, Logged.all_pure, implies_true, true_and, and_true]
      exact ⟨all_ntoh32At (by omega), fun _ => all_ntoh32At (by omega)⟩
    · split
      · exact Logged.all_pure _
      · rw [Logged.all_bind]
        refine ⟨all_showLines _ _ ?_, Logged.all_pure _⟩
        have hle := (List.takeWhile_sublist (fun c : UInt8 => decide (c ≠ 0))
          (l := readAt mem MSGTRACE_HDRLEN (leValue (readAt mem 2 2).reverse))).length_le
        rw [readAt_length] at hle
        exact Nat.lt_of_le_of_lt (Nat.add_le_add_left hle _) h

end

/-! ## Top theorem -/

/-- **Trace events.**  Nothing outside of the event, of the words of a roam record and of the string
tables is touched, just if the lengths and the strings fit. -/
theorem trace_event_inside_iff (x : Ctx) (mem : Mem) (datalen : Nat) (s : Seqnums) :
    (traceEvntHandler x mem datalen s).All (Touch.Inside datalen) ↔ Fits x mem datalen s := by
  have hbyte : ∀ i n, (readLe mem i 1).val = n ↔ (mem i).toNat = n := by
    intro i n
    exact iff_of_eq (congrArg (· = n) (load_one mem i))
  have hread : ∀ i, (readLe mem i 1).All (fun a => (Touch.event a).Inside datalen) ↔
      i + 1 ≤ datalen := fun i => ⟨fun h => h i (List.mem_singleton.mpr rfl), all_readLe⟩
  have hmessage :
      (msgtraceMsgParser mem s.msg).All (fun a => (Touch.message a).Inside datalen) ↔ _ :=
    msgParser_inside_iff mem s.msg (datalen + 2)
  unfold traceEvntHandler
  simp only [Logged.all_bind, Logged.all_ite, Logged.all_relabel, Logged.all_pure,
    Logged.val_relabel, implies_true, true_and, and_true, traceLog_inside_iff, ne_eq, not_not,
    hbyte, hread, hmessage]
  constructor
  · rintro ⟨hzero, hrest⟩
    exact ⟨hzero, fun hv => (hrest hv).1, fun hv => (hrest hv).2.1,
      fun hv ht => ((hrest hv).2.2 (by rw [ht]; decide) ht).1,
      fun hv ht => ((hrest hv).2.2 (by rw [ht]; decide) ht).2⟩
  · exact fun h => ⟨h.version, fun hv => ⟨h.type hv, h.message hv,
      fun _ ht => ⟨h.short hv ht, h.records hv ht⟩⟩⟩

/-- With memory, and a console without a table of formats. -/
def roomyCtx : Ctx := ⟨roomyEnv, true, console0, none⟩

def memOf (bytes : List UInt8) : Mem := fun i => bytes.getD i 0

def shortMessage : List UInt8 :=
  [1, 0, 0, 4, 0, 0, 0, 1, 0, 0, 0, 0, 0, 0, 0, 0, 72, 105, 33, 10]

theorem trace_event_message :
    (traceEvntHandler roomyCtx (memOf shortMessage) 20 ⟨0, 0⟩).All (Touch.Inside 20) :=
  (trace_event_inside_iff roomyCtx (memOf shortMessage) 20 ⟨0, 0⟩).mpr
    ⟨by decide, fun _ => by decide, fun _ _ => by decide, fun _ h => absurd h (by decide),
      fun _ h => absurd h (by decide)⟩

/-- A message of 4 bytes, whose length says 65535. -/
def longMessage : List UInt8 :=
  [1, 0, 0xFF, 0xFF, 0, 0, 0, 1, 0, 0, 0, 0, 0, 0, 0, 0, 72, 105, 33, 10]

/-- A roam record of three words: the structure of a scan with 200 access points. -/
def longScanList : List UInt8 :=
  [1, 1, 0, 28, 0, 0, 0, 1, 0, 0, 0, 0, 0, 0, 0, 0, 20, 0, 0, 0, 0, 0, 0, 0,
    1, 2, 4, 0, 0, 0, 200, 0, 7, 0, 0, 0, 1, 0, 0, 0, 0x53, 3, 0x1D, 0]

/-- The record, as it is printed. -/
def roamHdr : PrcdEventLogHdr := ⟨339, 3, 29, 7, 7, 24, true, false⟩

/-- A table of static strings that has 16 bytes. -/
def shortTable : LogEvent :=
  ⟨some [['%', 's']], ⟨some fun _ => 'a', 0x1000, 0x1010⟩, ⟨none, 0, 0⟩⟩

/-- The end of a long message is written behind the event, the access points of a long list are
read behind the record, and a static string is copied from behind its table. -/
theorem trace_event_fails :
    ¬ (traceEvntHandler roomyCtx (memOf longMessage) 20 ⟨0, 0⟩).All (Touch.Inside 20) ∧
    ¬ (traceEvntHandler roomyCtx (memOf longScanList) 44 ⟨0, 0⟩).All (Touch.Inside 44) ∧
    ¬ ∀ c ∈ printfCopies console0 shortTable ⟨oneArg, fun _ => 0x1008, 0, 0⟩, c.Inside := by
  refine ⟨fun h => ?_, fun h => ?_, fun h => ?_⟩
  · have hwrite : 65551 < 22 := h (.message 65551) (List.mem_cons_of_mem _ (List.mem_cons_of_mem _
      (List.mem_cons_of_mem _ (List.mem_cons_of_mem _ List.mem_cons_self))))
    omega
  · have hlog : (traceLog roomyCtx (memOf longScanList) 44 0).All (Touch.Inside 44) :=
      ((Logged.all_bind _ _).mp ((Logged.all_bind _ _).mp ((Logged.all_bind _ _).mp h).2).2).1
    have hrecords : (handleRecords roomyCtx (memOf longScanList) 24 0 0
        [(.printRoamEnhancedLog, roamHdr)]).All (Touch.Inside 44) :=
      ((Logged.all_bind _ _).mp ((Logged.all_bind _ _).mp hlog).2).1
    have hroam := (Logged.all_relabel _ _).mp ((Logged.all_bind _ _).mp hrecords).1
    have hfits : RoamFits true (memOf longScanList) 24 3 :=
      (print_roam_within true (memOf longScanList) 24 3 (by decide)).mp fun a ha =>
        ⟨(hroam a ha).1, (hroam a ha).2.1⟩
    have hsize : 4032 ≤ 12 := hfits
    omega
  · have hcopy : 0x1008 + 50 ≤ 0x1010 := (h ⟨shortTable.ram, 0x1008⟩ List.mem_cons_self).2
    omega

end Bcmdhd.EventLog.TraceEvent
