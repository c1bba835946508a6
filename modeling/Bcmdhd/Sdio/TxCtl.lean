import Bcmdhd.Lib.Runs
import Bcmdhd.Lib.SeqWindow
import Bcmdhd.Sdio.TxFrame

/-!
# Control frames of the SDIO bus (`dhd_bus_txctl`, `dhdsdio_sendpendctl`)

`dhd_bus_txctl` builds a frame around a message and sends it if the dongle offers a credit.  If not,
it leaves the frame in `ctrl_frame_buf`, gives the bus lock up and waits: the DPC or the receive
loop then sends the frame with `dhdsdio_sendpendctl`.  All that it hears of that is
`ctrl_frame_stat`, which is `FALSE` again when the send has failed too.

    runs (step conf) init acts = some (t, tr), and no call is in progress in t →
      (Honest conf t  ↔  all steps are sound)                              (txctl_honest_iff)

`Honest`: 0 is returned just for a frame that the bus took, once.  `sound`: a send for a call that
waits succeeds, and none does while a memory dump is taken.
-/

namespace Bcmdhd.Sdio.TxCtl

open Records Runs SeqWindow TxFrame

/-! ## Algorithm -/

def EIO : Int := 5
def ETIMEDOUT : Int := 110
def BCME_NODEVICE : Int := -40
def SDPCM_CONTROL_CHANNEL : Nat := 0
def ALIGNMENT : Nat := 4
def TXRETRIES : Nat := 2
def MAX_CNTL_TX_TIMEOUT : Nat := 2
def ERROR_BCME_NODEVICE_MAX : Nat := 1

/-- Settings that do not change while the bus is up.  The build has `DHD_FW_COREDUMP`. -/
structure Conf extends TxFrame.Bus where
  alignctl : Bool
  roundup : Nat
  forcealign : Bool
  txctlTmoFix : Nat
  retrydata : Bool
  memdumpEnabled : Bool

/-- The arguments of `dhd_bus_txctl`, and the memory that they point into. -/
structure Call where
  msg : Nat
  msglen : Nat
  mem : Nat → UInt8

/-- The frame around a message: `msglen` with the header, `len` as it is sent, and the offset of the
message. -/
structure Frame where
  addr : Nat
  msglen : Nat
  len : Nat
  doff : Nat

/-- Back the pointer to make a room for bus header, and for the alignment padding. -/
def alignFrame (conf : Conf) (c : Call) : Frame :=
  let addr := c.msg - conf.sdpcmHdrlen
  let doff := if conf.alignctl then addr % DHD_SDALIGN else 0
  let msglen := (c.msglen + conf.sdpcmHdrlen + doff) % 0x100000000
  ⟨addr - doff, msglen, msglen % 0x10000, doff + conf.sdpcmHdrlen⟩

/-- Round send length to next SDIO block -/
def roundLen (conf : Conf) (len : Nat) : Nat :=
  if conf.roundup ≠ 0 ∧ conf.blocksize ≠ 0 ∧ conf.blocksize < len then
    let pad := (conf.blocksize - len % conf.blocksize) % 0x10000
    if pad ≤ conf.roundup ∧ pad < conf.blocksize then (len + pad) % 0x10000 else len
  else if len % DHD_SDALIGN ≠ 0 then (len + (DHD_SDALIGN - len % DHD_SDALIGN)) % 0x10000
  else len

/-- Satisfy length-alignment requirements -/
def forceLen (conf : Conf) (len : Nat) : Nat :=
  if conf.forcealign ∧ len % ALIGNMENT ≠ 0 then
    (len + ALIGNMENT - 1) / ALIGNMENT * ALIGNMENT % 0x10000
  else len

def frameOf (conf : Conf) (c : Call) : Frame :=
  let f := alignFrame conf c
  { f with len := forceLen conf (roundLen conf f.len) }

/-- The padding in front is cleared, and the room of the header behind it. -/
def clearPad (conf : Conf) (c : Call) : Nat → UInt8 :=
  let f := frameOf conf c
  if conf.sdpcmHdrlen < f.doff then writeAt c.mem f.addr (List.replicate f.doff 0) else c.mem

/-- Hardware tag: 2 byte len followed by 2 byte ~len check (all LE) -/
def putTag (mem : Nat → UInt8) (addr n : Nat) : Nat → UInt8 :=
  store (store mem addr 2 n) (addr + 2) 2 (0xFFFF - n % 0x10000)

/-- Software tag: channel, sequence number, data offset -/
def putSwheader (conf : Conf) (f : Frame) (txSeq : BitVec 8) (mem : Nat → UInt8) : Nat → UInt8 :=
  store
    (store mem (f.addr + conf.swhdrOffset) 4 (swheader SDPCM_CONTROL_CHANNEL txSeq.toNat f.doff))
    (f.addr + conf.swhdrOffset + 4) 4 0

def putHeader (conf : Conf) (f : Frame) (txSeq : BitVec 8) (mem : Nat → UInt8) : Nat → UInt8 :=
  let mem := putSwheader conf f txSeq (putTag mem f.addr f.msglen)
  if conf.txglomEnable then
    let mem := store mem (f.addr + SDPCM_FRAMETAG_LEN) 4 (hwheader1 f.msglen true)
    let mem := store mem (f.addr + SDPCM_FRAMETAG_LEN + 4) 4
      (0x10000 * (0x100000000 + f.len - f.msglen))
    putTag mem f.addr f.len
  else mem

/-- The frame of a call, with the number `txSeq`. -/
def Call.bytes (conf : Conf) (c : Call) (txSeq : BitVec 8) : List UInt8 :=
  let f := frameOf conf c
  readAt (putHeader conf f txSeq (clearPad conf c)) f.addr f.len

/-- A call of `bcmsdh_send_buf`: the call of `dhd_bus_txctl` it is for, what is sent, `tx_seq`, and
what it returns. -/
structure Write where
  call : Nat
  bytes : List UInt8
  txSeq : BitVec 8
  ret : Int

/-- A call of `dhd_bus_txctl` that has returned, and what the bus had taken of it. -/
structure Return where
  num : Nat
  call : Call
  ret : Int
  accepted : List Write

/-- Where a call is; the lock is not with it.  It waits for a credit (`ctrl_tx_wait`) or for
`ctrl_frame_stat`, or takes a memory dump; `out` is behind its last section. -/
inductive Phase
  | idle
  | entry (c : Call)
  | credit (c : Call)
  | sent (c : Call)
  | dump (c : Call)
  | out (c : Call) (ret : Int)

/-- The bus, and its users: a call of `dhd_bus_txctl`, and one other that has the lock.  Calls are
numbered, and `ctrl_frame_buf` is remembered with its call. -/
structure State where
  dongleReset : Bool
  txSeq : BitVec 8
  txMax : BitVec 8
  clkAvail : Bool
  ctrlFrameCall : Nat
  ctrlFrameBuf : Nat
  ctrlFrameLen : Nat
  ctrlFrameStat : Bool
  txcntTimeout : Nat
  errNodevice : Nat
  mem : Nat → UInt8
  locked : Bool
  phase : Phase
  calls : Nat
  /-- oldest first -/
  writes : List Write
  returned : List Return

/-- What a section meets: whether the device is awake (`kso`), the clock after it was asked for, and
the results of its sends. -/
structure Io where
  kso : Bool
  clk : Bool
  ret : Nat → Int

def txctlok (s : State) : Bool :=
  offered s.txSeq s.txMax ≠ 0 ∧ (s.txMax - s.txSeq) &&& 0x80#8 = 0#8

/-- The loop of `dhd_bcmsdh_send_buf` from its send `i`, with `more` behind it: what was sent, and
the last result -/
def sendLoop (retrydata : Bool) (ret : Nat → Int) (write : Int → Write) :
    Nat → Nat → List Write × Int
  | 0, i => ([write (ret i)], ret i)
  | more + 1, i =>
    if ret i < 0 ∧ retrydata then
      let r := sendLoop retrydata ret write more (i + 1)
      (write (ret i) :: r.1, r.2)
    else ([write (ret i)], ret i)

def dhdBcmsdhSendBuf (conf : Conf) (s : State) (call addr len : Nat) (io : Io) (maxRetry : Nat) :
    State × Int :=
  if io.kso then
    let r := sendLoop conf.retrydata io.ret (fun ret => ⟨call, readAt s.mem addr len, s.txSeq, ret⟩)
      (maxRetry - 1) 0
    ({ s with writes := s.writes ++ r.1 }, r.2)
  else (s, BCME_NODEVICE)

/-- `tx_seq` goes on when the send has succeeded. -/
def sendCounted (conf : Conf) (s : State) (call addr len : Nat) (io : Io) (maxRetry : Nat) :
    State × Int :=
  let r := dhdBcmsdhSendBuf conf s call addr len io maxRetry
  ({ r.1 with txSeq := if r.2 = 0 then r.1.txSeq + 1 else r.1.txSeq }, r.2)

/-- The number in the frame is corrected. -/
def correctSeq (conf : Conf) (addr : Nat) (txSeq : BitVec 8) (mem : Nat → UInt8) : Nat → UInt8 :=
  if load mem (addr + conf.swhdrOffset) 1 ≠ txSeq.toNat then
    store mem (addr + conf.swhdrOffset) 1 txSeq.toNat
  else mem

def dhdsdioSendpendctl (conf : Conf) (s : State) (io : Io) : State :=
  let s := { s with mem := correctSeq conf s.ctrlFrameBuf s.txSeq s.mem }
  let r := sendCounted conf s s.ctrlFrameCall s.ctrlFrameBuf s.ctrlFrameLen io 1
  { r.1 with ctrlFrameStat := false }

/-! `dhd_bus_txctl`, from one release of the bus lock to the next -/

def txctlBegin (conf : Conf) (s : State) (c : Call) : State :=
  let s := { s with calls := s.calls + 1, mem := c.mem }
  if s.dongleReset then { s with returned := s.returned ++ [⟨s.calls, c, - EIO, []⟩] }
  else { s with mem := clearPad conf c, phase := .entry c }

/-- The header, from `BUS_WAKE` on -/
def txctlBuild (conf : Conf) (s : State) (c : Call) (io : Io) : State :=
  { s with clkAvail := io.clk, mem := putHeader conf (frameOf conf c) s.txSeq s.mem }

/-- Send from dpc -/
def txctlDefer (conf : Conf) (s : State) (c : Call) : State :=
  { s with
    ctrlFrameStat := true
    ctrlFrameCall := s.calls
    ctrlFrameBuf := (frameOf conf c).addr
    ctrlFrameLen := (frameOf conf c).len
    phase := .sent c }

def txctlNow (conf : Conf) (s : State) (c : Call) (io : Io) : State :=
  let r := sendCounted conf s s.calls (frameOf conf c).addr (frameOf conf c).len io TXRETRIES
  { r.1 with txcntTimeout := 0, ctrlFrameStat := false, phase := .out c r.2 }

def txctlSend (conf : Conf) (s : State) (c : Call) (io : Io) : State :=
  let s := txctlBuild conf s c io
  if txctlok s then txctlNow conf s c io else txctlDefer conf s c

def txctlEnter (conf : Conf) (s : State) (c : Call) (io : Io) : State :=
  if 0 < conf.txctlTmoFix ∧ ¬ txctlok s then { s with phase := .credit c }
  else txctlSend conf s c io

/-- Behind `dhd_wait_for_event` -/
def txctlWaited (conf : Conf) (s : State) (c : Call) : State :=
  if s.ctrlFrameStat then
    let s := { s with txcntTimeout := s.txcntTimeout + 1 }
    if conf.memdumpEnabled ∧ MAX_CNTL_TX_TIMEOUT ≤ s.txcntTimeout then { s with phase := .dump c }
    else { s with ctrlFrameStat := false, phase := .out c (-1) }
  else { s with txcntTimeout := 0, ctrlFrameStat := false, phase := .out c 0 }

/-- Behind `dhd_bus_mem_dump` -/
def txctlDumped (s : State) (c : Call) : State :=
  { s with ctrlFrameStat := false, phase := .out c (-1) }

/-- `err_nodevice`, and what is returned -/
def returnCode (s : State) (ret : Int) : Nat × Int :=
  if MAX_CNTL_TX_TIMEOUT ≤ s.txcntTimeout then (s.errNodevice, -ETIMEDOUT)
  else
    let errNodevice := if ret = BCME_NODEVICE then s.errNodevice + 1 else 0
    (errNodevice,
      if ret = 0 then 0 else if ERROR_BCME_NODEVICE_MAX ≤ errNodevice then -ETIMEDOUT else - EIO)

/-- What the bus took of a call. -/
def State.accepted (s : State) (num : Nat) : List Write :=
  s.writes.filter fun w => w.call = num ∧ w.ret = 0

def txctlReturn (s : State) (c : Call) (ret : Int) : State :=
  let r := returnCode s ret
  { s with
    errNodevice := r.1
    phase := .idle
    returned := s.returned ++ [⟨s.calls, c, r.2, s.accepted s.calls⟩] }

/-! ## Contexts -/

inductive Act
  | call (c : Call)
  | enter (io : Io)
  /-- woken, or timed out, without a credit before -/
  | resume (io : Io)
  /-- woken, or timed out, with the frame in `ctrl_frame_buf` -/
  | waited
  | dumped
  | leave
  /-- the DPC, the receive loop in it, or another user of the bus -/
  | lock
  | rx (txMax : BitVec 8)
  | clock (avail : Bool)
  | txData (frames : Nat)
  | pendctl (io : Io)
  | unlock
  | reset (dongleReset : Bool)

/-- The test in front of `dhdsdio_sendpendctl` -/
def pends (s : State) : Bool := txctlok s ∧ s.ctrlFrameStat ∧ s.clkAvail

/-- A section of the call: nobody else has the lock. -/
def unlocked (s t : State) : Option (State × Unit) := if s.locked then none else some (t, ())

/-- A step of who has the lock. -/
def held (s t : State) : Option (State × Unit) := if s.locked then some (t, ()) else none

def step (conf : Conf) (s : State) : Act → Option (State × Unit)
  | .call c =>
    match s.phase with
    | .idle => some (txctlBegin conf s c, ())
    | _ => none
  | .enter io =>
    match s.phase with
    | .entry c => unlocked s (txctlEnter conf s c io)
    | _ => none
  | .resume io =>
    match s.phase with
    | .credit c => unlocked s (txctlSend conf s c io)
    | _ => none
  | .waited =>
    match s.phase with
    | .sent c => unlocked s (txctlWaited conf s c)
    | _ => none
  | .dumped =>
    match s.phase with
    | .dump c => unlocked s (txctlDumped s c)
    | _ => none
  | .leave =>
    match s.phase with
    | .out c ret => some (txctlReturn s c ret, ())
    | _ => none
  | .lock => unlocked s { s with locked := true }
  | .rx txMax => held s { s with txMax := txMax }
  | .clock avail => held s { s with clkAvail := avail }
  | .txData frames => held s { s with txSeq := s.txSeq + BitVec.ofNat 8 frames }
  | .pendctl io => held s (if pends s then dhdsdioSendpendctl conf s io else s)
  | .unlock => held s { s with locked := false }
  | .reset dongleReset => some ({ s with dongleReset := dongleReset }, ())

/-- `dhd_bus_stop` -/
def init : State where
  dongleReset := false
  txSeq := 0
  txMax := 4
  clkAvail := false
  ctrlFrameCall := 0
  ctrlFrameBuf := 0
  ctrlFrameLen := 0
  ctrlFrameStat := false
  txcntTimeout := 0
  errNodevice := 0
  mem := fun _ => 0
  locked := false
  phase := .idle
  calls := 0
  writes := []
  returned := []

/-- The one send of `dhdsdio_sendpendctl` succeeds. -/
def Io.delivers (io : Io) : Bool := io.kso ∧ io.ret 0 = 0

/-- The condition on a step. -/
def sound (s : State) : Act → Bool
  | .pendctl io =>
    match s.phase with
    | .sent _ => ¬ pends s ∨ io.delivers
    | .dump _ => ¬ pends s ∨ ¬ io.delivers
    | _ => true
  | _ => true

/-- The call `r` returned 0 just if the bus took its frame once. -/
def Answered (s : State) (r : Return) : Prop := r.ret = 0 ↔ ∃ w, s.accepted r.num = [w]

structure Honest (conf : Conf) (s : State) : Prop where
  answered : ∀ r ∈ s.returned, Answered s r
  /-- sent as built, with the number current at that moment -/
  current : ∀ r ∈ s.returned, ∀ w ∈ s.accepted r.num, w.bytes = r.call.bytes conf w.txSeq
  /-- after an error the frame is not sent -/
  silent : ∀ r ∈ s.returned, r.ret ≠ 0 → s.accepted r.num = r.accepted
  /-- no frame waits without its call -/
  cleared : s.phase = .idle → s.ctrlFrameStat = false

/-! ## The frame -/

section
variable {conf : Conf} {f : Frame} {seq seq' : BitVec 8} {mem : Nat → UInt8} {addr i : Nat}

theorem swheader_low (seq : BitVec 8) (doff : Nat) :
    UInt8.ofNat (swheader SDPCM_CONTROL_CHANNEL seq.toNat doff) = UInt8.ofNat seq.toNat := by
  apply UInt8.toNat_inj.mp
  rw [UInt8.toNat_ofNat', UInt8.toNat_ofNat']
  unfold swheader SDPCM_CONTROL_CHANNEL SDPCM_SEQUENCE_WRAP
  omega

theorem swheader_rest (seq seq' : BitVec 8) (doff : Nat) :
    swheader SDPCM_CONTROL_CHANNEL seq.toNat doff / 256 =
      swheader SDPCM_CONTROL_CHANNEL seq'.toNat doff / 256 := by
  unfold swheader SDPCM_CONTROL_CHANNEL SDPCM_SEQUENCE_WRAP
  omega

theorem putSwheader_seq : putSwheader conf f seq mem (f.addr + conf.swhdrOffset) =
    UInt8.ofNat seq.toNat := by
  unfold putSwheader
  rw [store_of_off (by omega), store_first, swheader_low]

theorem putSwheader_rest (h : i ≠ f.addr + conf.swhdrOffset) :
    putSwheader conf f seq mem i = putSwheader conf f seq' mem i :=
  store_congr (store_rest rfl h (swheader_rest seq seq' f.doff))

theorem putHeader_seq : putHeader conf f seq mem (f.addr + conf.swhdrOffset) =
    UInt8.ofNat seq.toNat := by
  unfold putHeader
  dsimp only
  split
  · next h =>
    have hoff := swhdrOffset_glom h
    unfold putTag SDPCM_FRAMETAG_LEN
    rw [store_of_off (by omega), store_of_off (by omega), store_of_off (by omega), store_of_off (by omega),
      putSwheader_seq]
  · exact putSwheader_seq

theorem putHeader_rest (h : i ≠ f.addr + conf.swhdrOffset) :
    putHeader conf f seq mem i = putHeader conf f seq' mem i := by
  unfold putHeader
  dsimp only
  split
  · exact store_congr (store_congr (store_congr (store_congr (putSwheader_rest h))))
  · exact putSwheader_rest h

theorem correctSeq_seq : correctSeq conf addr seq mem (addr + conf.swhdrOffset) =
    UInt8.ofNat seq.toNat := by
  unfold correctSeq
  split
  · exact store_first
  · next h =>
    rw [← not_not.mp h, load_one, UInt8.ofNat_toNat]

theorem correctSeq_rest (h : i ≠ addr + conf.swhdrOffset) :
    correctSeq conf addr seq mem i = mem i := by
  unfold correctSeq
  split
  · exact store_of_off (by omega)
  · rfl

/-- A frame with its number corrected is the frame built with that number. -/
theorem correctSeq_putHeader :
    correctSeq conf f.addr seq' (putHeader conf f seq mem) = putHeader conf f seq' mem := by
  funext i
  by_cases h : i = f.addr + conf.swhdrOffset
  · rw [h, correctSeq_seq, putHeader_seq]
  · rw [correctSeq_rest h, putHeader_rest h]

end

/-! ## Sends -/

section
variable {conf : Conf} {s : State} {call addr len maxRetry num : Nat} {io : Io}

/-- Of the sends of a loop only the last one can have succeeded. -/
theorem sendLoop_taken (retrydata : Bool) (ret : Nat → Int) (write : Int → Write)
    (hw : ∀ r, (write r).ret = r) (more i : Nat) :
    ((sendLoop retrydata ret write more i).1.filter fun w => w.ret = 0) =
      if (sendLoop retrydata ret write more i).2 = 0 then [write 0] else [] := by
  have one (r : Int) : ([write r].filter fun w => w.ret = 0) = if r = 0 then [write 0] else [] := by
    by_cases hr : r = 0
    · rw [if_pos hr, hr, List.filter_cons_of_pos (by simp [hw])]
      rfl
    · rw [if_neg hr, List.filter_cons_of_neg (by simpa [hw] using hr)]
      rfl
  induction more generalizing i with
  | zero => exact one _
  | succ more ih =>
    unfold sendLoop
    split
    · next hneg =>
      rw [List.filter_cons_of_neg (by rw [hw, decide_eq_true_eq]; omega)]
      exact ih (i + 1)
    · exact one _

theorem sendLoop_call {retrydata : Bool} {ret : Nat → Int} {write : Int → Write}
    (hw : ∀ r, (write r).call = call) (more i : Nat) :
    ∀ w ∈ (sendLoop retrydata ret write more i).1, w.call = call := by
  induction more generalizing i with
  | zero => exact fun w h => (List.mem_singleton.mp h) ▸ hw _
  | succ more ih =>
    unfold sendLoop
    split
    · intro w h
      rcases List.mem_cons.mp h with rfl | h
      · exact hw _
      · exact ih (i + 1) w h
    · exact fun w h => (List.mem_singleton.mp h) ▸ hw _

/-- The write that the bus took, if it took one. -/
def taken (s : State) (call addr len : Nat) (ret : Int) : List Write :=
  if ret = 0 then [⟨call, readAt s.mem addr len, s.txSeq, 0⟩] else []

/-- A send adds writes of its own call only, and one that was taken if it succeeds. -/
theorem sendCounted_accepted : (sendCounted conf s call addr len io maxRetry).1.accepted num =
    s.accepted num ++
      if num = call then taken s call addr len (sendCounted conf s call addr len io maxRetry).2
      else [] := by
  unfold sendCounted dhdBcmsdhSendBuf State.accepted
  split
  · dsimp only
    rw [List.filter_append]
    congr 1
    generalize hwr : (fun ret => (⟨call, readAt s.mem addr len, s.txSeq, ret⟩ : Write)) = write
    have hcall := @sendLoop_call call conf.retrydata io.ret write
      (by rw [← hwr]; exact fun _ => rfl) (maxRetry - 1) 0
    split
    · next h =>
      unfold taken
      have htaken := sendLoop_taken conf.retrydata io.ret write (by rw [← hwr]; exact fun _ => rfl)
        (maxRetry - 1) 0
      rw [← hwr] at htaken ⊢
      rw [← htaken]
      refine List.filter_congr fun w hm => ?_
      rw [← hwr] at hcall
      rw [hcall w hm, h]
      simp
    · next h =>
      refine List.filter_eq_nil_iff.mpr fun w hm => ?_
      rw [hcall w hm]
      simp [Ne.symm h]
  · have hret : taken s call addr len BCME_NODEVICE = [] := rfl
    rw [hret, ite_self, List.append_nil]

theorem sendCounted_same :
    (sendCounted conf s call addr len io maxRetry).1.calls = s.calls ∧
      (sendCounted conf s call addr len io maxRetry).1.returned = s.returned ∧
      (sendCounted conf s call addr len io maxRetry).1.phase = s.phase := by
  unfold sendCounted dhdBcmsdhSendBuf
  split
  · exact ⟨rfl, rfl, rfl⟩
  · exact ⟨rfl, rfl, rfl⟩

theorem sendCounted_calls {k : Nat} (hs : ∀ w ∈ s.writes, w.call ≤ k) (hc : call ≤ k) :
    ∀ w ∈ (sendCounted conf s call addr len io maxRetry).1.writes, w.call ≤ k := by
  unfold sendCounted dhdBcmsdhSendBuf
  split
  · intro w hw
    rcases List.mem_append.mp hw with hw | hw
    · exact hs w hw
    · have hcall := @sendLoop_call call _ _ _ (fun _ => rfl) _ _ w hw
      exact hcall.trans_le hc
  · exact hs

/-- One send, without a retry. -/
theorem sendCounted_once : (sendCounted conf s call addr len io 1).2 = 0 ↔ io.delivers = true := by
  unfold sendCounted dhdBcmsdhSendBuf Io.delivers
  cases io.kso with
  | true =>
    rw [decide_eq_true_eq]
    exact (and_iff_right rfl).symm
  | false =>
    rw [decide_eq_true_eq]
    have hret : BCME_NODEVICE ≠ 0 := by decide
    exact iff_of_false hret fun h => Bool.false_ne_true h.1

end

/-! ## Invariant -/

/-- The call in progress has a number of its own. -/
def Open (s : State) : Prop := ∀ r ∈ s.returned, r.num < s.calls

/-- What the bus took of the call in progress is its frame. -/
def Carries (conf : Conf) (s : State) (c : Call) : Prop :=
  ∀ w ∈ s.accepted s.calls, w.bytes = c.bytes conf w.txSeq

/-- The frame waits in `ctrl_frame_buf`. -/
structure Waits (conf : Conf) (s : State) (c : Call) : Prop where
  call : s.ctrlFrameCall = s.calls
  buf : s.ctrlFrameBuf = (frameOf conf c).addr
  len : s.ctrlFrameLen = (frameOf conf c).len
  mem : ∃ seq, s.mem = putHeader conf (frameOf conf c) seq (clearPad conf c)
  unsent : s.accepted s.calls = []

def InPhase (conf : Conf) (s : State) : Prop :=
  match s.phase with
  | .idle => s.ctrlFrameStat = false
  | .entry c | .credit c =>
    Open s ∧ s.ctrlFrameStat = false ∧ s.mem = clearPad conf c ∧ s.accepted s.calls = []
  | .sent c | .dump c => Open s ∧ Carries conf s c ∧ (s.ctrlFrameStat = true → Waits conf s c)
  | .out c ret =>
    Open s ∧ Carries conf s c ∧ s.ctrlFrameStat = false ∧ (ret = 0 → s.txcntTimeout = 0)

structure Logs (conf : Conf) (s : State) : Prop where
  numbered : ∀ w ∈ s.writes, w.call ≤ s.calls
  returned : ∀ r ∈ s.returned, r.num ≤ s.calls
  settled : ∀ r ∈ s.returned, s.accepted r.num = r.accepted
  carried : ∀ r ∈ s.returned, ∀ w ∈ r.accepted, w.bytes = r.call.bytes conf w.txSeq

structure Inv (conf : Conf) (s : State) : Prop extends Logs conf s where
  phase : InPhase conf s

/-- Whether the bus took the frame of the call in progress once. -/
def Once (s : State) : Prop := ∃ w, s.accepted s.calls = [w]

/-- The call in progress can still be answered as its frame was sent. -/
def Fair (s : State) : Prop :=
  match s.phase with
  | .sent _ => s.ctrlFrameStat = false → Once s
  | .dump _ => ¬ Once s
  | .out _ ret => ret = 0 ↔ Once s
  | _ => True

def Healthy (s : State) : Prop := Fair s ∧ ∀ r ∈ s.returned, Answered s r

/-! ## One step -/

/-- All that a step can do. -/
inductive Stepped (conf : Conf) (s : State) : Act → State → Prop
  | call (c : Call) (h : s.phase = .idle) : Stepped conf s (.call c) (txctlBegin conf s c)
  | enter (c : Call) (io : Io) (h : s.phase = .entry c) :
    Stepped conf s (.enter io) (txctlEnter conf s c io)
  | resume (c : Call) (io : Io) (h : s.phase = .credit c) :
    Stepped conf s (.resume io) (txctlSend conf s c io)
  | waited (c : Call) (h : s.phase = .sent c) : Stepped conf s .waited (txctlWaited conf s c)
  | dumped (c : Call) (h : s.phase = .dump c) : Stepped conf s .dumped (txctlDumped s c)
  | leave (c : Call) (ret : Int) (h : s.phase = .out c ret) :
    Stepped conf s .leave (txctlReturn s c ret)
  | pendctl (io : Io) (h : pends s = true) :
    Stepped conf s (.pendctl io) (dhdsdioSendpendctl conf s io)
  /-- the call, its frame and the logs stay as they are -/
  | other (a : Act) (dongleReset : Bool) (txSeq txMax : BitVec 8) (clkAvail locked : Bool)
    (h : sound s a = true) :
    Stepped conf s a { s with dongleReset, txSeq, txMax, clkAvail, locked }

section
variable {conf : Conf} {s s' t : State} {a : Act} {r : Unit}

theorem unlocked_eq_some (h : unlocked s t = some (s', r)) : s' = t := by
  unfold unlocked at h
  split at h
  · cases h
  · exact (Prod.mk.inj (Option.some_inj.mp h)).1.symm

theorem held_eq_some (h : held s t = some (s', r)) : s' = t := by
  unfold held at h
  split at h
  · exact (Prod.mk.inj (Option.some_inj.mp h)).1.symm
  · cases h

theorem sound_of_not_pends {io : Io} (h : pends s = false) : sound s (.pendctl io) = true := by
  unfold sound
  rw [h]
  dsimp only
  split <;> rfl

theorem step_stepped (h : step conf s a = some (s', r)) : Stepped conf s a s' := by
  cases a with
  | call c =>
    unfold step at h
    dsimp only at h
    split at h
    · next hp =>
      obtain ⟨rfl, -⟩ := Prod.mk.inj (Option.some_inj.mp h)
      exact .call c hp
    · cases h
  | enter io =>
    unfold step at h
    dsimp only at h
    split at h
    · next c hp => exact unlocked_eq_some h ▸ .enter c io hp
    · cases h
  | resume io =>
    unfold step at h
    dsimp only at h
    split at h
    · next c hp => exact unlocked_eq_some h ▸ .resume c io hp
    · cases h
  | waited =>
    unfold step at h
    dsimp only at h
    split at h
    · next c hp => exact unlocked_eq_some h ▸ .waited c hp
    · cases h
  | dumped =>
    unfold step at h
    dsimp only at h
    split at h
    · next c hp => exact unlocked_eq_some h ▸ .dumped c hp
    · cases h
  | leave =>
    unfold step at h
    dsimp only at h
    split at h
    · next c ret hp =>
      obtain ⟨rfl, -⟩ := Prod.mk.inj (Option.some_inj.mp h)
      exact .leave c ret hp
    · cases h
  | lock =>
    exact unlocked_eq_some h ▸ .other _ _ _ _ _ _ rfl
  | rx txMax =>
    exact held_eq_some h ▸ .other _ _ _ _ _ _ rfl
  | clock avail =>
    exact held_eq_some h ▸ .other _ _ _ _ _ _ rfl
  | txData frames =>
    exact held_eq_some h ▸ .other _ _ _ _ _ _ rfl
  | pendctl io =>
    rw [held_eq_some h]
    split
    · next hp => exact .pendctl io hp
    · next hp => exact .other _ _ _ _ _ _ (sound_of_not_pends (Bool.eq_false_of_not_eq_true hp))
  | unlock =>
    exact held_eq_some h ▸ .other _ _ _ _ _ _ rfl
  | reset dongleReset =>
    obtain ⟨rfl, -⟩ := Prod.mk.inj (Option.some_inj.mp h)
    exact .other _ _ _ _ _ _ rfl

end

section
variable {conf : Conf} {s s' : State} {c : Call} {io : Io} {b : Bool}

theorem Logs.fresh (h : Logs conf s) : s.accepted (s.calls + 1) = [] := by
  refine List.filter_eq_nil_iff.mpr fun w hw => ?_
  have hle := h.numbered w hw
  rw [decide_eq_true_eq]
  omega

/-- A section of the call in progress, or a send for it. -/
theorem Logs.move (h : Logs conf s) (ho : Open s) (hcalls : s'.calls = s.calls)
    (hret : s'.returned = s.returned) (hnum : ∀ w ∈ s'.writes, w.call ≤ s.calls)
    (hacc : ∀ n, n ≠ s.calls → s'.accepted n = s.accepted n) (hphase : InPhase conf s')
    (hfair : Fair s' ↔ Fair s ∧ b = true) :
    Inv conf s' ∧ (Healthy s' ↔ Healthy s ∧ b = true) := by
  have hkept : ∀ r ∈ s.returned, s'.accepted r.num = s.accepted r.num :=
    fun r hr => hacc r.num (Nat.ne_of_lt (ho r hr))
  constructor
  · refine ⟨⟨hcalls ▸ hnum, ?_, ?_, ?_⟩, hphase⟩
    · rw [hret, hcalls]
      exact h.returned
    · rw [hret]
      exact fun r hr => (hkept r hr).trans (h.settled r hr)
    · rw [hret]
      exact h.carried
  · have hans : (∀ r ∈ s'.returned, Answered s' r) ↔ ∀ r ∈ s.returned, Answered s r := by
      rw [hret]
      refine forall₂_congr fun r hr => ?_
      unfold Answered
      rw [hkept r hr]
    unfold Healthy
    rw [hfair, hans]
    exact and_right_comm

/-- The frame is built. -/
structure Built (conf : Conf) (s : State) (c : Call) : Prop where
  isOpen : Open s
  stat : s.ctrlFrameStat = false
  mem : s.mem = putHeader conf (frameOf conf c) s.txSeq (clearPad conf c)
  unsent : s.accepted s.calls = []
  fair : Fair s

theorem taken_cases (s : State) (call addr len : Nat) (ret : Int) :
    ret = 0 ∧ taken s call addr len ret = [⟨call, readAt s.mem addr len, s.txSeq, 0⟩] ∨
      ret ≠ 0 ∧ taken s call addr len ret = [] := by
  unfold taken
  by_cases h : ret = 0
  · exact Or.inl ⟨h, if_pos h⟩
  · exact Or.inr ⟨h, if_neg h⟩

theorem once_taken {call addr len : Nat} {ret : Int} (hc : s'.calls = s.calls)
    (h : s'.accepted s.calls = taken s call addr len ret) : Once s' ↔ ret = 0 := by
  unfold Once
  rw [hc, h]
  rcases taken_cases s call addr len ret with ⟨hret, htaken⟩ | ⟨hret, htaken⟩
  · rw [htaken]
    exact iff_of_true ⟨_, rfl⟩ hret
  · rw [htaken]
    exact iff_of_false (fun ⟨w, hw⟩ => by cases hw) hret

theorem carries_taken {call addr len : Nat} {ret : Int} (hc : s'.calls = s.calls)
    (h : s'.accepted s.calls = taken s call addr len ret)
    (hb : readAt s.mem addr len = c.bytes conf s.txSeq) : Carries conf s' c := by
  intro w hw
  rw [hc, h] at hw
  rcases taken_cases s call addr len ret with ⟨-, htaken⟩ | ⟨-, htaken⟩
  · rw [htaken] at hw
    rw [List.mem_singleton.mp hw]
    exact hb
  · rw [htaken] at hw
    cases hw

theorem Logs.txctlNow (h : Logs conf s) (hb : Built conf s c) :
    Inv conf (txctlNow conf s c io) ∧
      (Healthy (txctlNow conf s c io) ↔ Healthy s ∧ true = true) := by
  obtain ⟨hcalls, hret, -⟩ := @sendCounted_same conf s s.calls (frameOf conf c).addr
    (frameOf conf c).len TXRETRIES io
  have hacc := fun n => @sendCounted_accepted conf s s.calls (frameOf conf c).addr
    (frameOf conf c).len TXRETRIES n io
  have hown := hacc s.calls
  rw [hb.unsent, List.nil_append, if_pos rfl] at hown
  refine h.move hb.isOpen hcalls hret (sendCounted_calls h.numbered (Nat.le_refl _)) ?_ ?_ ?_
  · exact fun n hn => (hacc n).trans (by rw [if_neg hn, List.append_nil])
  · refine ⟨?_, carries_taken hcalls hown ?_, rfl, fun _ => rfl⟩
    · intro r hr
      exact (hb.isOpen r (hret ▸ hr)).trans_eq hcalls.symm
    · rw [hb.mem]
      rfl
  · exact iff_of_true (once_taken hcalls hown).symm ⟨hb.fair, rfl⟩

theorem Logs.txctlDefer (h : Logs conf s) (hb : Built conf s c) :
    Inv conf (txctlDefer conf s c) ∧ (Healthy (txctlDefer conf s c) ↔ Healthy s ∧ true = true) := by
  refine h.move hb.isOpen rfl rfl h.numbered (fun _ _ => rfl) ⟨hb.isOpen, ?_, fun _ => ?_⟩ ?_
  · intro w hw
    have hnil : (TxCtl.txctlDefer conf s c).accepted (TxCtl.txctlDefer conf s c).calls = [] :=
      hb.unsent
    rw [hnil] at hw
    cases hw
  · exact ⟨rfl, rfl, rfl, ⟨s.txSeq, hb.mem⟩, hb.unsent⟩
  · exact iff_of_true (fun hstat => by cases hstat) ⟨hb.fair, rfl⟩

theorem Inv.txctlSend (h : Inv conf s) (ho : Open s) (hstat : s.ctrlFrameStat = false)
    (hmem : s.mem = clearPad conf c) (hun : s.accepted s.calls = []) (hfair : Fair s) :
    Inv conf (txctlSend conf s c io) ∧
      (Healthy (txctlSend conf s c io) ↔ Healthy s ∧ true = true) := by
  have hlogs : Logs conf (txctlBuild conf s c io) :=
    ⟨h.numbered, h.returned, h.settled, h.carried⟩
  have hbuilt : Built conf (txctlBuild conf s c io) c :=
    ⟨ho, hstat, congrArg (putHeader conf (frameOf conf c) s.txSeq) hmem, hun, hfair⟩
  unfold TxCtl.txctlSend
  dsimp only
  split
  · exact hlogs.txctlNow hbuilt
  · exact hlogs.txctlDefer hbuilt

/-- Before the frame is built. -/
theorem Inv.before (h : Inv conf s) (hp : s.phase = .entry c ∨ s.phase = .credit c) :
    (Open s ∧ s.ctrlFrameStat = false ∧ s.mem = clearPad conf c ∧ s.accepted s.calls = []) ∧
      Fair s := by
  have hphase := h.phase
  unfold InPhase at hphase
  unfold Fair
  rcases hp with hp | hp
  · rw [hp] at hphase ⊢
    exact ⟨hphase, trivial⟩
  · rw [hp] at hphase ⊢
    exact ⟨hphase, trivial⟩

/-- The frame is in `ctrl_frame_buf`. -/
theorem Inv.behind (h : Inv conf s) (hp : s.phase = .sent c ∨ s.phase = .dump c) :
    Open s ∧ Carries conf s c ∧ (s.ctrlFrameStat = true → Waits conf s c) := by
  have hphase := h.phase
  unfold InPhase at hphase
  rcases hp with hp | hp
  · rwa [hp] at hphase
  · rwa [hp] at hphase

theorem Inv.at_out {ret : Int} (h : Inv conf s) (hp : s.phase = .out c ret) :
    Open s ∧ Carries conf s c ∧ s.ctrlFrameStat = false ∧ (ret = 0 → s.txcntTimeout = 0) := by
  have hphase := h.phase
  unfold InPhase at hphase
  rwa [hp] at hphase

theorem Inv.txctlEnter (h : Inv conf s) (hp : s.phase = .entry c) :
    Inv conf (txctlEnter conf s c io) ∧
      (Healthy (txctlEnter conf s c io) ↔ Healthy s ∧ true = true) := by
  obtain ⟨⟨ho, hstat, hmem, hun⟩, hfair⟩ := h.before (Or.inl hp)
  unfold TxCtl.txctlEnter
  split
  · exact h.move ho rfl rfl h.numbered (fun _ _ => rfl) ⟨ho, hstat, hmem, hun⟩
      (iff_of_true trivial ⟨hfair, rfl⟩)
  · exact h.txctlSend ho hstat hmem hun hfair

theorem not_once (h : s.accepted s.calls = []) : ¬ Once s := by
  rintro ⟨w, hw⟩
  rw [h] at hw
  cases hw

theorem Inv.txctlWaited (h : Inv conf s) (hp : s.phase = .sent c) :
    Inv conf (txctlWaited conf s c) ∧
      (Healthy (txctlWaited conf s c) ↔ Healthy s ∧ true = true) := by
  obtain ⟨ho, hcarries, hwaits⟩ := h.behind (Or.inl hp)
  have hfair : Fair s ↔ (s.ctrlFrameStat = false → Once s) := by
    unfold Fair
    rw [hp]
  unfold TxCtl.txctlWaited
  split
  · next hstat =>
    -- timed out
    have hun := not_once (hwaits hstat).unsent
    have htrue : Fair s ∧ true = true :=
      ⟨hfair.mpr fun hf => absurd (hf.symm.trans hstat) Bool.false_ne_true, rfl⟩
    dsimp only
    split
    · refine h.move ho rfl rfl h.numbered (fun _ _ => rfl) ⟨ho, hcarries, fun _ => ?_⟩
        (iff_of_true hun htrue)
      have hw := hwaits hstat
      exact ⟨hw.call, hw.buf, hw.len, hw.mem, hw.unsent⟩
    · refine h.move ho rfl rfl h.numbered (fun _ _ => rfl) ⟨ho, hcarries, rfl, fun hret => ?_⟩
        (iff_of_true (iff_of_false (by decide) hun) htrue)
      cases hret
  · next hstat =>
    have hstat := Bool.eq_false_of_not_eq_true hstat
    refine h.move ho rfl rfl h.numbered (fun _ _ => rfl) ⟨ho, hcarries, rfl, fun _ => rfl⟩ ?_
    rw [hfair]
    have hout :
        Fair { s with txcntTimeout := 0, ctrlFrameStat := false, phase := .out c 0 } ↔ Once s :=
      ⟨fun hf => hf.mp rfl, fun ho => iff_of_true rfl ho⟩
    exact hout.trans ⟨fun ho => ⟨fun _ => ho, rfl⟩, fun hf => hf.1 hstat⟩

theorem Inv.txctlDumped (h : Inv conf s) (hp : s.phase = .dump c) :
    Inv conf (txctlDumped s c) ∧ (Healthy (txctlDumped s c) ↔ Healthy s ∧ true = true) := by
  obtain ⟨ho, hcarries, -⟩ := h.behind (Or.inr hp)
  have hfair : Fair s ↔ ¬ Once s := by
    unfold Fair
    rw [hp]
  refine h.move ho rfl rfl h.numbered (fun _ _ => rfl) ⟨ho, hcarries, rfl, fun hret => ?_⟩ ?_
  · cases hret
  · rw [hfair]
    have hout : Fair (TxCtl.txctlDumped s c) ↔ ¬ Once s :=
      ⟨fun hf honce => absurd (hf.mpr honce) (by decide), fun hn => iff_of_false (by decide) hn⟩
    exact hout.trans (and_iff_left rfl).symm

theorem pends_stat (h : pends s = true) : s.ctrlFrameStat = true := by
  unfold pends at h
  rw [decide_eq_true_eq] at h
  exact h.2.1

/-- What `dhdsdio_sendpendctl` does for the call whose frame waits. -/
structure Sent (conf : Conf) (s s' : State) (c : Call) (io : Io) : Prop where
  calls : s'.calls = s.calls
  returned : s'.returned = s.returned
  phase : s'.phase = s.phase
  stat : s'.ctrlFrameStat = false
  numbered : ∀ w ∈ s'.writes, w.call ≤ s.calls
  others : ∀ n, n ≠ s.calls → s'.accepted n = s.accepted n
  carries : Carries conf s' c
  once : Once s' ↔ io.delivers = true

theorem Logs.sendpendctl (h : Logs conf s) (hw : Waits conf s c) :
    Sent conf s (dhdsdioSendpendctl conf s io) c io := by
  let u : State := { s with mem := correctSeq conf s.ctrlFrameBuf s.txSeq s.mem }
  have hbytes : readAt u.mem u.ctrlFrameBuf u.ctrlFrameLen = c.bytes conf u.txSeq := by
    obtain ⟨seq, hmem⟩ := hw.mem
    show readAt (correctSeq conf s.ctrlFrameBuf s.txSeq s.mem) s.ctrlFrameBuf s.ctrlFrameLen = _
    rw [hmem, hw.buf, hw.len, correctSeq_putHeader]
    rfl
  obtain ⟨hcalls, hret, hphase⟩ := @sendCounted_same conf u u.ctrlFrameCall u.ctrlFrameBuf
    u.ctrlFrameLen 1 io
  have hacc := fun n => @sendCounted_accepted conf u u.ctrlFrameCall u.ctrlFrameBuf u.ctrlFrameLen 1
    n io
  have hown := hacc s.calls
  rw [if_pos hw.call.symm, show u.accepted s.calls = [] from hw.unsent, List.nil_append] at hown
  refine ⟨hcalls, hret, hphase, rfl, sendCounted_calls h.numbered (Nat.le_of_eq hw.call), ?_, ?_,
    ?_⟩
  · intro n hn
    refine (hacc n).trans ?_
    rw [if_neg fun hc => hn (hc.trans hw.call), List.append_nil]
    rfl
  · exact carries_taken hcalls hown hbytes
  · exact (once_taken hcalls hown).trans sendCounted_once

theorem Sent.inPhase (hs : Sent conf s s' c io) (ho : Open s)
    (hp : s.phase = .sent c ∨ s.phase = .dump c) : InPhase conf s' := by
  have hopen : Open s' := fun r hr => (ho r (hs.returned ▸ hr)).trans_eq hs.calls.symm
  have hwaits : s'.ctrlFrameStat = true → Waits conf s' c :=
    fun ht => absurd (hs.stat.symm.trans ht) Bool.false_ne_true
  unfold InPhase
  rw [hs.phase]
  rcases hp with hp | hp
  · rw [hp]
    exact ⟨hopen, hs.carries, hwaits⟩
  · rw [hp]
    exact ⟨hopen, hs.carries, hwaits⟩

/-- The send of a frame that waits is fair if it succeeds; in a dump, if it does not. -/
theorem Sent.fair (hs : Sent conf s s' c io) (hpend : pends s = true) (hun : ¬ Once s)
    (hp : s.phase = .sent c ∨ s.phase = .dump c) :
    Fair s' ↔ Fair s ∧ sound s (.pendctl io) = true := by
  unfold Fair sound
  rw [hs.phase, hpend]
  rcases hp with hp | hp
  · rw [hp]
    dsimp only
    have hbefore : s.ctrlFrameStat = false → Once s :=
      fun hf => absurd (hf.symm.trans (pends_stat hpend)) Bool.false_ne_true
    rw [and_iff_right hbefore, forall_prop_of_true hs.stat, hs.once]
    simp
  · rw [hp]
    dsimp only
    rw [and_iff_right hun, hs.once]
    simp

theorem Inv.sendpendctl (h : Inv conf s) (hpend : pends s = true) :
    Inv conf (dhdsdioSendpendctl conf s io) ∧
      (Healthy (dhdsdioSendpendctl conf s io) ↔ Healthy s ∧ sound s (.pendctl io) = true) := by
  have hstat := pends_stat hpend
  obtain ⟨c, hp⟩ : ∃ c, s.phase = .sent c ∨ s.phase = .dump c := by
    have hphase := h.phase
    unfold InPhase at hphase
    split at hphase
    · exact absurd (hphase.symm.trans hstat) Bool.false_ne_true
    · exact absurd (hphase.2.1.symm.trans hstat) Bool.false_ne_true
    · exact absurd (hphase.2.1.symm.trans hstat) Bool.false_ne_true
    · next c hc => exact ⟨c, Or.inl hc⟩
    · next c hc => exact ⟨c, Or.inr hc⟩
    · exact absurd (hphase.2.2.1.symm.trans hstat) Bool.false_ne_true
  obtain ⟨ho, -, hwaits⟩ := h.behind hp
  have hw := hwaits hstat
  have hs := @Logs.sendpendctl conf s c io h.toLogs hw
  exact h.move ho hs.calls hs.returned hs.numbered hs.others (hs.inPhase ho hp)
    (hs.fair hpend (not_once hw.unsent) hp)

/-- A call returns: what the bus took of it is remembered. -/
theorem Logs.returns (h : Logs conf s) {x : Return} (hs : s'.writes = s.writes)
    (hcalls : s.calls ≤ s'.calls) (hret : s'.returned = s.returned ++ [x])
    (hphase : s'.phase = .idle) (hstat : s'.ctrlFrameStat = false) (hnum : x.num ≤ s'.calls)
    (hacc : s.accepted x.num = x.accepted)
    (hbytes : ∀ w ∈ x.accepted, w.bytes = x.call.bytes conf w.txSeq)
    (hans : Answered s x ↔ Fair s) :
    Inv conf s' ∧ (Healthy s' ↔ Healthy s ∧ true = true) := by
  have hsame : ∀ n, s'.accepted n = s.accepted n := by
    intro n
    unfold State.accepted
    rw [hs]
  have hans' : ∀ r, Answered s' r ↔ Answered s r := by
    intro r
    unfold Answered
    rw [hsame]
  constructor
  · refine ⟨⟨?_, ?_, ?_, ?_⟩, ?_⟩
    · rw [hs]
      exact fun w hw => (h.numbered w hw).trans hcalls
    · rw [hret, List.forall_mem_append, List.forall_mem_singleton]
      exact ⟨fun r hr => (h.returned r hr).trans hcalls, hnum⟩
    · rw [hret, List.forall_mem_append, List.forall_mem_singleton]
      exact ⟨fun r hr => (hsame _).trans (h.settled r hr), (hsame _).trans hacc⟩
    · rw [hret, List.forall_mem_append, List.forall_mem_singleton]
      exact ⟨h.carried, hbytes⟩
    · unfold InPhase
      rw [hphase]
      exact hstat
  · have hfair : Fair s' := by
      unfold Fair
      rw [hphase]
      trivial
    unfold Healthy
    rw [and_iff_right hfair, hret, List.forall_mem_append, List.forall_mem_singleton, hans' x, hans,
      and_iff_left rfl, and_comm]
    exact and_congr_right fun _ => forall₂_congr fun r _ => hans' r

theorem returnCode_eq_zero {ret : Int} (h : ret = 0 → s.txcntTimeout = 0) :
    (returnCode s ret).2 = 0 ↔ ret = 0 := by
  unfold returnCode
  by_cases hret : ret = 0
  · rw [h hret, if_neg (by decide)]
    dsimp only
    rw [if_pos hret]
    exact iff_of_true rfl hret
  · refine iff_of_false ?_ hret
    by_cases hmax : MAX_CNTL_TX_TIMEOUT ≤ s.txcntTimeout
    · rw [if_pos hmax]
      exact (by decide : -ETIMEDOUT ≠ 0)
    · rw [if_neg hmax]
      dsimp only
      rw [if_neg hret]
      split
      · exact (by decide : -ETIMEDOUT ≠ 0)
      · exact (by decide : - EIO ≠ 0)

theorem Inv.txctlReturn {ret : Int} (h : Inv conf s) (hp : s.phase = .out c ret) :
    Inv conf (txctlReturn s c ret) ∧ (Healthy (txctlReturn s c ret) ↔ Healthy s ∧ true = true) := by
  obtain ⟨-, hcarries, hstat, hzero⟩ := h.at_out hp
  refine h.returns (x := ⟨s.calls, c, (returnCode s ret).2, s.accepted s.calls⟩) rfl (Nat.le_refl _)
    rfl rfl hstat (Nat.le_refl _) rfl hcarries ?_
  unfold Fair
  rw [hp]
  exact iff_congr (returnCode_eq_zero hzero) Iff.rfl

theorem Inv.txctlBegin (h : Inv conf s) (hp : s.phase = .idle) :
    Inv conf (txctlBegin conf s c) ∧ (Healthy (txctlBegin conf s c) ↔ Healthy s ∧ true = true) := by
  have hstat : s.ctrlFrameStat = false := by
    have hphase := h.phase
    unfold InPhase at hphase
    rwa [hp] at hphase
  have hfair : Fair s := by
    unfold Fair
    rw [hp]
    trivial
  unfold TxCtl.txctlBegin
  dsimp only
  split
  · refine h.returns (x := ⟨s.calls + 1, c, - EIO, []⟩) rfl (Nat.le_succ _) rfl hp hstat
      (Nat.le_refl _) h.fresh (fun w hw => by cases hw) (iff_of_true (iff_of_false ?_ ?_) hfair)
    · exact (by decide : - EIO ≠ 0)
    · rintro ⟨w, hw⟩
      rw [h.fresh] at hw
      cases hw
  · refine ⟨⟨⟨?_, ?_, h.settled, h.carried⟩, ?_, hstat, rfl, h.fresh⟩, ?_⟩
    · exact fun w hw => (h.numbered w hw).trans (Nat.le_succ _)
    · exact fun r hr => (h.returned r hr).trans (Nat.le_succ _)
    · exact fun r hr => Nat.lt_succ_of_le (h.returned r hr)
    · exact (and_congr_left' (iff_of_true trivial hfair)).trans (and_iff_left rfl).symm

end

/-! ## Top theorem -/

section
variable {conf : Conf} {s s' t : State} {a : Act}

theorem Inv.other (h : Inv conf s) (dongleReset : Bool) (txSeq txMax : BitVec 8)
    (clkAvail locked : Bool) :
    Inv conf { s with dongleReset, txSeq, txMax, clkAvail, locked } := by
  refine ⟨⟨h.numbered, h.returned, h.settled, h.carried⟩, ?_⟩
  have hphase := h.phase
  unfold InPhase at hphase ⊢
  dsimp only
  split at hphase
  · exact hphase
  · exact hphase
  · exact hphase
  · obtain ⟨ho, hcarries, hwaits⟩ := hphase
    exact ⟨ho, hcarries, fun ht => ⟨(hwaits ht).call, (hwaits ht).buf, (hwaits ht).len,
      (hwaits ht).mem, (hwaits ht).unsent⟩⟩
  · obtain ⟨ho, hcarries, hwaits⟩ := hphase
    exact ⟨ho, hcarries, fun ht => ⟨(hwaits ht).call, (hwaits ht).buf, (hwaits ht).len,
      (hwaits ht).mem, (hwaits ht).unsent⟩⟩
  · exact hphase

/-- One step keeps the invariant, and a step is sound just if what was healthy stays so. -/
theorem Inv.step (h : Inv conf s) (hs : Stepped conf s a s') :
    Inv conf s' ∧ (Healthy s' ↔ Healthy s ∧ sound s a = true) := by
  cases hs with
  | call c hp => exact h.txctlBegin hp
  | enter c io hp => exact h.txctlEnter hp
  | resume c io hp =>
    obtain ⟨⟨ho, hstat, hmem, hun⟩, hfair⟩ := h.before (Or.inr hp)
    exact h.txctlSend ho hstat hmem hun hfair
  | waited c hp => exact h.txctlWaited hp
  | dumped c hp => exact h.txctlDumped hp
  | leave c ret hp => exact h.txctlReturn hp
  | pendctl io hp => exact h.sendpendctl hp
  | other _ dongleReset txSeq txMax clkAvail locked hsound =>
    exact ⟨h.other dongleReset txSeq txMax clkAvail locked, (and_iff_left hsound).symm⟩

theorem inv_init : Inv conf init :=
  ⟨⟨fun w hw => (by cases hw), fun r hr => (by cases hr), fun r hr => (by cases hr),
    fun r hr => (by cases hr)⟩, rfl⟩

theorem healthy_init : Healthy init := ⟨trivial, fun r hr => by cases hr⟩

theorem Inv.honest (h : Inv conf s) (hans : ∀ r ∈ s.returned, Answered s r) : Honest conf s where
  answered := hans
  current := fun r hr w hw => h.carried r hr w (h.settled r hr ▸ hw)
  silent := fun r hr _ => h.settled r hr
  cleared := fun hp => by
    have hphase := h.phase
    unfold InPhase at hphase
    rwa [hp] at hphase

/-- A run keeps the invariant, and is healthy to its end just if all its steps are sound. -/
theorem runs_healthy {acts : List Act} {tr : List (Act × Unit)} (h : Inv conf s)
    (hr : runs (step conf) s acts = some (t, tr)) :
    Inv conf t ∧ (Healthy t ↔ Healthy s ∧ meets (step conf) sound s acts = true) := by
  induction acts generalizing s tr with
  | nil =>
    simp only [runs_nil, Option.some.injEq, Prod.mk.injEq] at hr
    obtain ⟨rfl, -⟩ := hr
    exact ⟨h, (and_iff_left rfl).symm⟩
  | cons a acts ih =>
    obtain ⟨s', r, tr', hs, hr', rfl⟩ := (runs_cons_eq_some _ _ _ _ _ _).1 hr
    obtain ⟨hinv, hone⟩ := h.step (step_stepped hs)
    obtain ⟨hinv', hall⟩ := ih hinv hr'
    refine ⟨hinv', ?_⟩
    rw [hall, hone, meets_cons _ _ _ _ _ _ _ hs, and_assoc]

end

/-- **Control frames.**  When all steps are sound, calls are answered as their frames were sent, in
every state of a run; and when no call is in progress, only then. -/
theorem txctl_honest_iff (conf : Conf) (acts : List Act) (t : State) (tr : List (Act × Unit))
    (hr : runs (step conf) init acts = some (t, tr)) :
    (meets (step conf) sound init acts = true → Honest conf t) ∧
      (t.phase = .idle → Honest conf t → meets (step conf) sound init acts = true) := by
  obtain ⟨hinv, hiff⟩ := runs_healthy inv_init hr
  constructor
  · exact fun hm => hinv.honest (hiff.mpr ⟨healthy_init, hm⟩).2
  · intro hidle hh
    have hfair : Fair t := by
      unfold Fair
      rw [hidle]
      trivial
    exact (hiff.mp ⟨hfair, hh.answered⟩).2

def plain : Conf where
  txglomEnable := false
  blocksize := 512
  alignctl := false
  roundup := 0
  forcealign := false
  txctlTmoFix := 0
  retrydata := false
  memdumpEnabled := true

def request : Call := ⟨100, 4, fun _ => 0⟩

def taking : Io := ⟨true, true, fun _ => 0⟩
def failing : Io := ⟨true, true, fun _ => -1⟩

/-- Without a credit the frame waits for the DPC. -/
def deferred (io : Io) : List Act :=
  [.call request, .lock, .rx 0, .unlock, .enter io,
    .lock, .clock true, .rx 1, .pendctl io, .unlock, .waited, .leave]

theorem txctl_honest_sent :
    ∃ t tr, runs (step plain) init (deferred taking) = some (t, tr) ∧
      t.returned.map Return.ret = [0] ∧ Honest plain t :=
  ⟨_, _, rfl, rfl, (txctl_honest_iff plain (deferred taking) _ _ rfl).1 rfl⟩

/-- A call times out; the next one too, and its frame is sent during the dump. -/
def sentInDump : List Act :=
  [.call request, .lock, .rx 0, .unlock, .enter taking, .waited, .leave,
    .call request, .enter taking, .waited,
    .lock, .clock true, .rx 1, .pendctl taking, .unlock, .dumped, .leave]

/-- 0 is returned for a frame that was not sent, and an error for one that was. -/
theorem txctl_honest_fails :
    (∃ t tr, runs (step plain) init (deferred failing) = some (t, tr) ∧
      t.returned.map Return.ret = [0] ∧ t.accepted 1 = [] ∧ ¬ Honest plain t) ∧
    ∃ t tr, runs (step plain) init sentInDump = some (t, tr) ∧
      t.returned.map Return.ret = [- EIO, -ETIMEDOUT] ∧ (t.accepted 2).length = 1 ∧
      ¬ Honest plain t := by
  constructor
  · refine ⟨_, _, rfl, rfl, rfl, fun h => ?_⟩
    obtain ⟨w, hw⟩ := (h.answered _ (List.mem_singleton.mpr rfl)).mp rfl
    cases hw
  · refine ⟨_, _, rfl, rfl, rfl, fun h => ?_⟩
    have hret := (h.answered _ (List.mem_cons_of_mem _ (List.mem_singleton.mpr rfl))).mpr ⟨_, rfl⟩
    exact absurd hret (by decide)

end Bcmdhd.Sdio.TxCtl
