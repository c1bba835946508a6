import Bcmdhd.Lib.LittleEndian
import Bcmdhd.Lib.Overlay
import Bcmdhd.Lib.Runs

/-!
# Ioctls over the control channel (`dhd_cdc.c`)

`dhd_prot_ioctl` sends a request and takes control frames from the bus (`dhd_bus_rxctl`) until one
has the number of the request; a wait may time out.  The dongle answers when it likes, so what is
taken first may be the answer to a request given up before.  The message and all frames share
`prot->msg` and `prot->buf`.

    runs (step conf) init acts = some (t, tr) → the dongle answers requests it was sent
      → no frame is taken 65536 requests late
      → the frame that a call returns with is the answer to its own request
                                                                         (accepted_own_reply)

    runs (step conf) init acts = some (t, tr) → what a call returns is, byte by byte, the payload
      of that frame, then what longer frames before it have left, then the caller's
                                                                            (accepted_bytes)
-/

namespace Bcmdhd.Cdc

open Records Runs Overlay

/-! ## Algorithm -/

def EIO : Int := 5
def EINVAL : Int := 22
def ETIMEDOUT : Int := 110
def EREMOTEIO : Int := 121
def RETRIES : Nat := 2
def CDC_MAX_MSG_SIZE : Nat := 1518
def CDCF_IOC_ERROR : BitVec 32 := 0x01
def CDCF_IOC_SET : BitVec 32 := 0x02
def CDCF_IOC_ACTION_SHIFT : Nat := 1
def CDCF_IOC_IF_MASK : BitVec 32 := 0xF000
def CDCF_IOC_IF_SHIFT : Nat := 12
def CDCF_IOC_ID_MASK : BitVec 32 := 0xFFFF0000
def CDCF_IOC_ID_SHIFT : Nat := 16
def WL_IOCTL_ACTION_SET : BitVec 8 := 0x1
def WL_IOCTL_ACTION_MASK : BitVec 8 := 0x7e
def WLC_IOCTL_MAXLEN : Nat := 8192
def WLC_GET_VAR : Nat := 262
def WLC_SET_VAR : Nat := 263
def DHD_MAX_IFS : Nat := 16
def MAX_CNTL_RX_TIMEOUT : Nat := 1

/-- `sizeof(cdc_ioctl_t)`: `cmd`, `len`, `flags` and `status`, four bytes each -/
def cdcHdrlen : Nat := 16

def CDC_IOC_ID (flags : BitVec 32) : Nat :=
  ((flags &&& CDCF_IOC_ID_MASK) >>> CDCF_IOC_ID_SHIFT).toNat

def cdcSetIfIdx (flags : BitVec 32) (idx : Nat) : BitVec 32 :=
  flags &&& ~~~CDCF_IOC_IF_MASK ||| BitVec.ofNat 32 idx <<< CDCF_IOC_IF_SHIFT

/-- Settings. -/
structure Conf where
  ctrlResched : Nat
  rxcntTimeout : Nat
  bcmerrorstr : Int → List UInt8

/-- The arguments of `dhd_prot_ioctl`, with the `wl_ioctl_t` that it writes to.  A caller has
refused a bad interface. -/
structure Call where
  ifidx : Nat
  cmd : Nat
  set : BitVec 8
  used : Nat
  needed : Nat
  buf : Option (Nat → UInt8)
  len : Nat

/-- A message to the dongle, with the number of the request. -/
structure Msg where
  number : Nat
  bytes : List UInt8
deriving DecidableEq

/-- A call that has returned.  `call` is as it is left, `taken` are the frames it took, and
`accepted` says that it returned with the last of them. -/
structure Return where
  number : Nat
  start : Call
  call : Call
  ret : Int
  taken : List Msg
  accepted : Bool

/-- `prot->msg` is at 0 in `mem`, and `prot->buf` behind it. -/
structure Prot where
  reqid : BitVec 16
  pending : Bool
  lastcmd : Nat
  mem : Nat → UInt8

/-- A call that waits: the frames it took, `retries`, and whether `dhd_bus_rxctl` waits again. -/
structure Wait where
  taken : List Msg
  retries : Nat
  again : Bool

inductive Phase
  | idle
  /-- in `dhd_bus_txctl` -/
  | sending (c : Call)
  /-- in `dhd_bus_rxctl` -/
  | waiting (c : Call) (w : Wait)

/-- The frame in `rxctl` has `rxlen` bytes.  `cnt` is that of `dhd_bus_rxctl`, and `errorCnt` that
of `dhd_prot_ioctl`.  Requests are numbered. -/
structure State where
  prot : Prot
  down : Bool
  hangWasSent : Bool
  dongleReset : Bool
  dongleError : Int
  wmeDp : Nat
  rxctl : Msg
  rxcntTimeout : Nat
  cnt : Nat
  errorCnt : Nat
  phase : Phase
  issued : Nat
  /-- oldest first -/
  sent : List Msg
  returned : List Return

/-- What a call of `dhd_bus_rxctl` finds: whether it was woken in time, whether an interrupt is
pending, and whether the dongle has trapped. -/
structure Io where
  timeleft : Bool
  intr : Bool
  trapped : Bool

def chars (str : String) : List UInt8 := str.toList.map fun c => c.toNat.toUInt8

/-- `strcmp` -/
def isString (buf : Nat → UInt8) (str : String) : Bool :=
  readAt buf 0 (str.length + 1) = chars str ++ [0]

/-- `strscpy`, of what fits -/
def strscpy (buf : Nat → UInt8) (str : List UInt8) (len : Nat) : Nat → UInt8 :=
  if len = 0 then buf else writeAt buf 0 (str.take (len - 1) ++ [0])

def flagsOf (mem : Nat → UInt8) : BitVec 32 := BitVec.ofNat 32 (load mem 8 4)

/-- `status`, signed -/
def statusOf (mem : Nat → UInt8) : Int := (BitVec.ofNat 32 (load mem 12 4)).toInt

/-- The id in the flags of a message -/
def Msg.id (m : Msg) : Nat := CDC_IOC_ID (flagsOf fun i => m.bytes.getD i 0)

/-- What is behind the header of a message -/
def Msg.payload (m : Msg) : List UInt8 := m.bytes.drop cdcHdrlen

def requestFlags (c : Call) (reqid : BitVec 16) (set : Bool) : BitVec 32 :=
  let flags := reqid.setWidth 32 <<< CDCF_IOC_ID_SHIFT
  let flags := cdcSetIfIdx flags c.ifidx
  let flags := flags ||| (c.set &&& WL_IOCTL_ACTION_MASK).setWidth 32 <<< CDCF_IOC_ACTION_SHIFT
  if set then flags ||| CDCF_IOC_SET else flags

/-- The message is filled in, and the caller's buffer copied. -/
def requestMem (c : Call) (reqid : BitVec 16) (set : Bool) (mem : Nat → UInt8) : Nat → UInt8 :=
  let mem := writeAt mem 0 (List.replicate cdcHdrlen 0)
  let mem := store mem 0 4 c.cmd
  let mem := store mem 4 4 c.len
  let mem := store mem 8 4 (requestFlags c reqid set).toNat
  match c.buf with
  | none => mem
  | some buf => writeAt mem cdcHdrlen (readAt buf 0 c.len)

def isSet (c : Call) : Bool := c.set &&& WL_IOCTL_ACTION_SET ≠ 0

/-- The intercept of "wme_dp" -/
def wmeDpOf (c : Call) : Option Nat :=
  match c.buf with
  | none => none
  | some buf =>
    if c.cmd = WLC_SET_VAR ∧ isString buf "wme_dp" then
      some (if "wme_dp".length + 1 + 4 ≤ c.len then load buf ("wme_dp".length + 1) 4 % 0x100 else 0)
    else none

/-- `ioc->used`, of a query -/
def setUsed (c : Call) (ret : Int) : Call :=
  if ¬ isSet c ∧ 0 < ret then { c with used := ((ret - cdcHdrlen) % 0x100000000).toNat } else c

/-- `ioc->needed`, of a request that fails -/
def setNeeded (s : State) (c : Call) (ret : Int) : Call :=
  if 0 ≤ ret then c else { c with needed := load s.prot.mem 4 4 }

/-- `dhd_prot_ioctl` behind `dhdcdc_set_ioctl` or `dhdcdc_query_ioctl`, which gave `ret` for the
call `start` and left `c`. -/
def protDone (s : State) (start c : Call) (ret : Int) (taken : List Msg) (accepted : Bool) :
    State :=
  let c := setUsed c ret
  let errorCnt := if ret = - EIO then s.errorCnt + 1 else 0
  let ret := if ret = - EIO ∧ 2 < errorCnt then -ETIMEDOUT else ret
  let c := setNeeded s c ret
  let ret := if 0 ≤ ret then 0 else ret
  let wmeDp := if ret = 0 then (wmeDpOf c).getD s.wmeDp else s.wmeDp
  { s with
    prot := { s.prot with pending := false }
    errorCnt := errorCnt
    wmeDp := wmeDp
    phase := .idle
    returned := s.returned ++ [⟨s.issued, start, c, ret, taken, accepted⟩] }

/-- `dhdcdc_msg`, up to `dhd_bus_txctl` -/
def dhdcdcMsg (s : State) (c : Call) : State :=
  { s with
    sent := s.sent ++
      [⟨s.issued, readAt s.prot.mem 0 (min (load s.prot.mem 4 4 + cdcHdrlen) CDC_MAX_MSG_SIZE)⟩]
    phase := .sending c }

/-- The part that the two kinds of request share -/
def request (s : State) (c : Call) (set : Bool) : State :=
  if DHD_MAX_IFS ≤ c.ifidx then protDone s c c (- EIO) [] false
  else
    let reqid := s.prot.reqid + 1
    dhdcdcMsg { s with
      prot := { s.prot with reqid := reqid, mem := requestMem c reqid set s.prot.mem }
      issued := s.issued + 1 } c

def dhdcdcQueryIoctl (conf : Conf) (s : State) (c : Call) : State :=
  match c.buf with
  | some buf =>
    if c.cmd = WLC_GET_VAR ∧ isString buf "bcmerrorstr" then
      let buf := strscpy buf (conf.bcmerrorstr s.dongleError) c.len
      protDone s c { c with buf := some buf } 0 [] false
    else if c.cmd = WLC_GET_VAR ∧ isString buf "bcmerror" then
      let buf := store buf 0 4 (s.dongleError % 0x100000000).toNat
      protDone s c { c with buf := some buf } 0 [] false
    else request s c false
  | none => request s c false

def dhdcdcSetIoctl (s : State) (c : Call) : State :=
  if s.down then protDone s c c (- EIO) [] false
  else if s.hangWasSent then protDone s c c (- EIO) [] false
  else request s c true

/-- A call that leaves at once -/
def refuse (s : State) (c : Call) : State :=
  { s with returned := s.returned ++ [⟨s.issued, c, c, -1, [], false⟩] }

def dhdProtIoctl (conf : Conf) (s : State) (c : Call) : State :=
  if s.down ∨ s.hangWasSent then refuse s c
  else if WLC_IOCTL_MAXLEN < c.len then refuse s c
  else if s.prot.pending then refuse s c
  else
    let s := { s with prot := { s.prot with pending := true, lastcmd := c.cmd } }
    if isSet c then dhdcdcSetIoctl s c else dhdcdcQueryIoctl conf s c

/-- `dhd_bus_rxctl`, up to where it waits -/
def rxctlEnter (s : State) (c : Call) (w : Wait) : State :=
  if s.dongleReset then protDone s c c (- EIO) w.taken false
  else { s with phase := .waiting c { w with again := false } }

/-- `dhdcdc_cmplt`, up to where it waits -/
def cmpltEnter (s : State) (c : Call) (w : Wait) : State :=
  rxctlEnter { s with prot := { s.prot with mem := store s.prot.mem 8 4 0 } } c w

/-- Behind `dhd_bus_txctl` -/
def msgDone (s : State) (c : Call) (ret : Int) : State :=
  if ret < 0 then protDone s c c ret [] false else cmpltEnter s c ⟨[], 0, false⟩

/-- `prot->buf` is copied to the caller. -/
def copyBuf (mem : Nat → UInt8) (c : Call) (len : Nat) : Call :=
  match c.buf with
  | none => c
  | some buf => { c with buf := some (writeAt buf 0 (readAt mem cdcHdrlen len)) }

/-- What is left of a request when a frame with its number is there -/
def copyInfo (s : State) (c : Call) (w : Wait) (ret : Int) (len : Nat) : State :=
  let c' := copyBuf s.prot.mem c len
  if flagsOf s.prot.mem &&& CDCF_IOC_ERROR ≠ 0 then
    let ret := statusOf s.prot.mem
    protDone { s with dongleError := ret } c c' ret w.taken true
  else protDone s c c' ret w.taken true

/-- `dhdcdc_query_ioctl` behind `dhdcdc_cmplt` -/
def queryReply (s : State) (c : Call) (w : Wait) (ret : Nat) : State :=
  let id := CDC_IOC_ID (flagsOf s.prot.mem)
  if id < s.prot.reqid.toNat ∧ w.retries + 1 < RETRIES then
    cmpltEnter s c { w with retries := w.retries + 1 }
  else if id ≠ s.prot.reqid.toNat then protDone s c c (-EINVAL) w.taken false
  else copyInfo s c w ret (if ret < c.len then ret else c.len)

/-- `dhdcdc_set_ioctl` behind `dhdcdc_cmplt` -/
def setReply (s : State) (c : Call) (w : Wait) (ret : Nat) : State :=
  if CDC_IOC_ID (flagsOf s.prot.mem) ≠ s.prot.reqid.toNat then
    protDone s c c (-EINVAL) w.taken false
  else copyInfo s c w ret c.len

/-- `ret` is updated to `len` on success. -/
def retLen (c : Call) (ret : Int) : Nat := if ret = c.len + cdcHdrlen then c.len else ret.toNat

/-- The loop of `dhdcdc_cmplt`, behind `dhd_bus_rxctl` -/
def cmplt (s : State) (c : Call) (w : Wait) (ret : Int) : State :=
  if ret < 0 then protDone s c c ret w.taken false
  else if CDC_IOC_ID (flagsOf s.prot.mem) ≠ s.prot.reqid.toNat then rxctlEnter s c w
  else if isSet c then setReply s c w (retLen c ret)
  else queryReply s c w (retLen c ret)

/-- The part of `dhd_bus_rxctl` with the lock -/
def rxctlCopy (s : State) (msglen : Nat) : State :=
  { s with
    prot := { s.prot with mem := writeAt s.prot.mem 0 (s.rxctl.bytes.take msglen) }
    rxctl := { s.rxctl with bytes := [] } }

/-- The end of `dhd_bus_rxctl`: `rxcnt_timeout`, and what is returned -/
def rxctlResult (conf : Conf) (s : State) (rxlen : Nat) (io : Io) : Nat × Int :=
  let n := if io.timeleft then 0 else if rxlen = 0 then s.rxcntTimeout + 1 else s.rxcntTimeout
  let maxRxcnt := if conf.rxcntTimeout ≠ 0 then conf.rxcntTimeout else MAX_CNTL_RX_TIMEOUT
  (n, if maxRxcnt ≤ n then -ETIMEDOUT else if io.trapped then - EREMOTEIO
    else if rxlen ≠ 0 then rxlen else - EIO)

def rxctlEnd (conf : Conf) (s : State) (c : Call) (w : Wait) (rxlen : Nat) (io : Io) : State :=
  let r := rxctlResult conf s rxlen io
  cmplt { s with rxcntTimeout := r.1 } c w r.2

/-- Behind a wait of `dhd_bus_rxctl` -/
def rxctl (conf : Conf) (s : State) (c : Call) (w : Wait) (io : Io) : State :=
  let frame := s.rxctl
  let rxlen := frame.bytes.length
  let s := rxctlCopy s (c.len + cdcHdrlen)
  let w := { w with taken := if rxlen = 0 then w.taken else w.taken ++ [frame] }
  if w.again then rxctlEnd conf s c w rxlen io
  else if 0 < conf.ctrlResched ∧ rxlen = 0 ∧ ¬ io.timeleft then
    let s := { s with cnt := s.cnt + 1 }
    if s.cnt ≤ conf.ctrlResched ∧ io.intr then
      { s with phase := .waiting c { w with again := true } }
    else rxctlEnd conf s c w rxlen io
  else rxctlEnd conf { s with cnt := 0 } c w rxlen io

inductive Act
  | ioctl (c : Call)
  | txctl (ret : Int)
  | rxctl (io : Io)
  /-- `dhdsdio_read_control` -/
  | control (frame : Msg)
  /-- `dhd_bus_stop` -/
  | stop
  | bus (down hangWasSent dongleReset : Bool)

def step (conf : Conf) (s : State) : Act → Option (State × Unit)
  | .ioctl c => some (dhdProtIoctl conf s c, ())
  | .txctl ret =>
    match s.phase with
    | .sending c => some (msgDone s c ret, ())
    | _ => none
  | .rxctl io =>
    match s.phase with
    | .waiting c w => some (rxctl conf s c w io, ())
    | _ => none
  | .control frame => some ({ s with rxctl := frame }, ())
  | .stop => some ({ s with rxctl := { s.rxctl with bytes := [] } }, ())
  | .bus down hangWasSent dongleReset =>
    some ({ s with down := down, hangWasSent := hangWasSent, dongleReset := dongleReset }, ())

/-- `dhd_prot_attach` -/
def init : State where
  prot := { reqid := 0, pending := false, lastcmd := 0, mem := fun _ => 0 }
  down := false
  hangWasSent := false
  dongleReset := false
  dongleError := 0
  wmeDp := 0
  rxctl := ⟨0, []⟩
  rxcntTimeout := 0
  cnt := 0
  errorCnt := 0
  phase := .idle
  issued := 0
  sent := []
  returned := []

/-! ## What a run is asked for -/

/-- The dongle answers a request that it was sent, with the id of that request. -/
def answers (s : State) : Act → Bool
  | .control frame => cdcHdrlen ≤ frame.bytes.length ∧
      ∃ m ∈ s.sent, m.number = frame.number ∧ m.id = frame.id
  | _ => true

/-- A frame is taken before 65536 later requests were made. -/
def recent (s : State) : Act → Bool
  | .rxctl _ => s.rxctl.bytes = [] ∨ s.issued < s.rxctl.number + 0x10000
  | _ => true

/-! ## The id of a request -/

theorem getLsbD_ifidx {n j : Nat} (h : n < DHD_MAX_IFS) (hj : 4 ≤ j) :
    (BitVec.ofNat 32 n).getLsbD j = false := by
  have hn : n < 2 ^ j :=
    Nat.lt_of_lt_of_le (show n < 2 ^ 4 from h) (Nat.pow_le_pow_right (by omega) hj)
  rw [BitVec.getLsbD_ofNat, Nat.testBit_lt_two_pow hn, Bool.and_false]

variable {c : Call} {buf mem : Nat → UInt8} {f : Msg}

/-- The upper half of the flags is the number, whatever the rest. -/
theorem id_requestFlags (hif : c.ifidx < DHD_MAX_IFS) (reqid : BitVec 16) (set : Bool) :
    CDC_IOC_ID (requestFlags c reqid set) = reqid.toNat := by
  have hbits : (requestFlags c reqid set &&& CDCF_IOC_ID_MASK) >>> CDCF_IOC_ID_SHIFT =
      reqid.setWidth 32 := by
    apply BitVec.eq_of_getLsbD_eq
    intro i hi
    by_cases h16 : i < 16
    · have hid : CDCF_IOC_ID_MASK.getLsbD (16 + i) = true := by
        revert i
        decide
      have hifmask : CDCF_IOC_IF_MASK.getLsbD (16 + i) = false := by
        revert i
        decide
      have hset : CDCF_IOC_SET.getLsbD (16 + i) = false := by
        revert i
        decide
      have hifidx := getLsbD_ifidx hif (show 4 ≤ 16 + i - 12 by omega)
      have haction : c.set.getLsbD (15 + i) = false := BitVec.getLsbD_of_ge _ _ (by omega)
      have hlt : 16 + i < 32 := by omega
      unfold requestFlags cdcSetIfIdx CDCF_IOC_ID_SHIFT CDCF_IOC_IF_SHIFT CDCF_IOC_ACTION_SHIFT
      dsimp only
      split <;>
        simp only [BitVec.getLsbD_ushiftRight, BitVec.getLsbD_and, BitVec.getLsbD_or,
          BitVec.getLsbD_not, BitVec.getLsbD_shiftLeft, BitVec.getLsbD_setWidth, hid, hifmask, hset,
          hifidx, show 16 + i - 1 = 15 + i by omega, haction] <;>
        simp [hi, hlt]
    · have hreq : reqid.getLsbD i = false := BitVec.getLsbD_of_ge _ _ (by omega)
      have hover : (requestFlags c reqid set).getLsbD (16 + i) = false :=
        BitVec.getLsbD_of_ge _ _ (by omega)
      simp [CDCF_IOC_ID_SHIFT, hreq, hover]
  unfold CDC_IOC_ID
  rw [hbits, BitVec.toNat_setWidth]
  have := reqid.isLt
  omega

/-! ## The buffer that is shared -/

theorem load_congr {buf' : Nat → UInt8} {pos w : Nat}
    (h : ∀ i, pos ≤ i → i < pos + w → buf' i = buf i) : load buf' pos w = load buf pos w :=
  congrArg leValue (readAt_congr h)

theorem flagsOf_congr {mem' : Nat → UInt8} (h : ∀ i < 12, mem' i = mem i) :
    flagsOf mem' = flagsOf mem := by
  unfold flagsOf
  rw [load_congr fun i _ hi => h i (by omega)]

theorem writeAt_nil (mem : Nat → UInt8) : writeAt mem 0 [] = mem := by
  funext i
  exact writeAt_of_off (Or.inr (Nat.zero_le i))

/-- The message of a request, with the id cleared for the receive -/
def cleared (c : Call) (reqid : BitVec 16) (mem : Nat → UInt8) : Nat → UInt8 :=
  store (requestMem c reqid (isSet c) mem) 8 4 0

/-- What the frames write -/
def writes (c : Call) (taken : List Msg) : List (List UInt8) :=
  taken.map fun f => f.bytes.take (c.len + cdcHdrlen)

theorem requestMem_info (hb : c.buf = some buf) (reqid : BitVec 16) (set : Bool) (mem : Nat → UInt8)
    {i : Nat} (hi : i < c.len) :
    requestMem c reqid set mem (cdcHdrlen + i) = buf i := by
  unfold requestMem
  rw [hb]
  simp [writeAt, readAt, hi]

theorem cleared_info (hb : c.buf = some buf) (reqid : BitVec 16) (mem : Nat → UInt8) {i : Nat}
    (hi : i < c.len) :
    cleared c reqid mem (cdcHdrlen + i) = buf i := by
  unfold cleared
  rw [store_of_off (Or.inr (show 8 + 4 ≤ cdcHdrlen + i by unfold cdcHdrlen; omega)),
    requestMem_info hb reqid _ mem hi]

/-- A frame that has all of its flags brings its id. -/
theorem id_layers (hf : 12 ≤ f.bytes.length) (mem : Nat → UInt8) (taken : List Msg) :
    CDC_IOC_ID (flagsOf (layers mem (writes c (taken ++ [f])))) = f.id := by
  unfold Msg.id
  congr 1
  apply flagsOf_congr
  intro i hi
  have hlt : i < (f.bytes.take (c.len + cdcHdrlen)).length := by
    rw [List.length_take]
    unfold cdcHdrlen
    omega
  rw [layers_eq, writes, List.map_append, List.map_singleton, top_of_lt hlt]
  simp [List.getD, show i < f.bytes.length by omega]

/-- The info buffer, byte by byte -/
theorem info_layers (hb : c.buf = some buf) (reqid : BitVec 16) (mem : Nat → UInt8)
    (taken : List Msg) {i : Nat} (hi : i < c.len) :
    layers (cleared c reqid mem) (writes c taken) (cdcHdrlen + i) =
      (top (taken.map Msg.bytes) (cdcHdrlen + i)).getD (buf i) := by
  have htop : top (writes c taken) (cdcHdrlen + i) =
      top (taken.map Msg.bytes) (cdcHdrlen + i) := by
    have hlt : cdcHdrlen + i < c.len + cdcHdrlen := by omega
    rw [← @top_map_take _ (taken.map Msg.bytes) _ _ hlt, List.map_map]
    rfl
  rw [layers_eq, htop, cleared_info hb reqid mem hi]

/-! ## The invariant -/

/-- How much of the info buffer is copied when `f` is the reply -/
def copied (c : Call) (f : Msg) : Nat := if isSet c then c.len else min f.bytes.length c.len

/-- A call that returned with `f`, after it had taken `earlier`: `B` holds of all of them. -/
structure Accepted (B : Nat → Msg → Prop) (r : Return) (earlier : List Msg) (f : Msg) : Prop where
  taken : r.taken = earlier ++ [f]
  all : ∀ g ∈ r.taken, B r.number g
  missed : ∀ g ∈ earlier, 12 ≤ g.bytes.length → g.id ≠ r.number % 0x10000
  own : 12 ≤ f.bytes.length → f.id = r.number % 0x10000
  buf : ∀ buf, r.start.buf = some buf → ∃ buf', r.call.buf = some buf' ∧ ∀ i,
    buf' i = if i < copied r.start f then (top (r.taken.map Msg.bytes) (cdcHdrlen + i)).getD (buf i)
      else buf i

/-- What holds whether or not a call is in progress: `A` of a frame in `rxctl`. -/
structure Kept (A B : Nat → Msg → Prop) (s : State) : Prop where
  sent : ∀ m ∈ s.sent, m.number ≤ s.issued ∧ m.id = m.number % 0x10000
  slot : s.rxctl.bytes ≠ [] → A s.issued s.rxctl
  reqid : s.prot.reqid = BitVec.ofNat 16 s.issued
  returned : ∀ r ∈ s.returned, r.accepted = true → ∃ earlier f, Accepted B r earlier f
  order : (s.returned.filter Return.accepted).Pairwise fun r r' => r.number < r'.number
  le : ∀ r ∈ s.returned, r.accepted = true → r.number ≤ s.issued

/-- No call has returned with a reply to the last request. -/
def Open (s : State) : Prop := ∀ r ∈ s.returned, r.accepted = true → r.number < s.issued

structure Waits (B : Nat → Msg → Prop) (s : State) (c : Call) (w : Wait) : Prop where
  mem : ∃ mem, s.prot.mem = layers (cleared c s.prot.reqid mem) (writes c w.taken)
  all : ∀ g ∈ w.taken, B s.issued g
  missed : ∀ g ∈ w.taken, 12 ≤ g.bytes.length → g.id ≠ s.issued % 0x10000

def PhaseOk (B : Nat → Msg → Prop) (s : State) : Phase → Prop
  | .idle => s.prot.pending = false
  | .sending c => s.prot.pending = true ∧ Open s ∧
      ∃ mem, s.prot.mem = requestMem c s.prot.reqid (isSet c) mem
  | .waiting c w => s.prot.pending = true ∧ Open s ∧ Waits B s c w

structure Inv (A B : Nat → Msg → Prop) (s : State) : Prop where
  kept : Kept A B s
  phase : PhaseOk B s s.phase

variable {A B : Nat → Msg → Prop} {conf : Conf} {s t : State} {c : Call} {w : Wait}

theorem Kept.toNat_reqid (h : Kept A B s) : s.prot.reqid.toNat = s.issued % 0x10000 := by
  rw [h.reqid, BitVec.toNat_ofNat]

@[simp] theorem setUsed_buf (c : Call) (ret : Int) : (setUsed c ret).buf = c.buf := by
  unfold setUsed
  split <;> rfl

@[simp] theorem setNeeded_buf (s : State) (c : Call) (ret : Int) :
    (setNeeded s c ret).buf = c.buf := by
  unfold setNeeded
  split <;> rfl

theorem Kept.congr (h : Kept A B s) (hreqid : t.prot.reqid = s.prot.reqid)
    (hissued : t.issued = s.issued) (hret : t.returned = s.returned) (hsent : t.sent = s.sent)
    (hslot : t.rxctl = s.rxctl ∨ t.rxctl.bytes = []) : Kept A B t := by
  refine ⟨?_, ?_, ?_, ?_, ?_, ?_⟩
  · rw [hsent, hissued]
    exact h.sent
  · intro hne
    rcases hslot with hslot | hslot
    · rw [hslot] at hne ⊢
      rw [hissued]
      exact h.slot hne
    · exact absurd hslot hne
  · rw [hreqid, hissued]
    exact h.reqid
  · rw [hret]
    exact h.returned
  · rw [hret]
    exact h.order
  · rw [hret, hissued]
    exact h.le

/-- What a call leaves behind -/
theorem protDone_returned (s : State) (start c : Call) (ret : Int) (taken : List Msg)
    (accepted : Bool) :
    ∃ r, (protDone s start c ret taken accepted).returned = s.returned ++ [r] ∧
      r.number = s.issued ∧ r.start = start ∧ r.taken = taken ∧ r.accepted = accepted ∧
      r.call.buf = c.buf := by
  refine ⟨_, rfl, rfl, rfl, rfl, rfl, ?_⟩
  rw [setNeeded_buf, setUsed_buf]

theorem protDone_inv (h : Kept A B s) (start c : Call) (ret : Int) (taken : List Msg)
    (accepted : Bool) (hopen : accepted = true → Open s)
    (hr : ∀ r : Return, r.number = s.issued → r.start = start → r.taken = taken →
      r.call.buf = c.buf → accepted = true → ∃ earlier f, Accepted B r earlier f) :
    Inv A B (protDone s start c ret taken accepted) := by
  obtain ⟨r, hret, hnum, hstart, htaken, hacc, hbuf⟩ :=
    protDone_returned s start c ret taken accepted
  refine ⟨⟨h.sent, h.slot, h.reqid, ?_, ?_, ?_⟩, rfl⟩
  · intro q hq hqa
    rw [hret, List.mem_append, List.mem_singleton] at hq
    rcases hq with hq | rfl
    · exact h.returned q hq hqa
    · exact hr q hnum hstart htaken hbuf (hacc ▸ hqa)
  · rw [hret, List.filter_append, List.pairwise_append]
    refine ⟨h.order, List.Pairwise.sublist List.filter_sublist (List.pairwise_singleton _ _), ?_⟩
    intro q hq q' hq'
    rw [List.mem_filter] at hq hq'
    rw [List.mem_singleton] at hq'
    obtain ⟨rfl, hqa⟩ := hq'
    rw [hnum]
    exact hopen (hacc ▸ hqa) q hq.1 hq.2
  · intro q hq hqa
    rw [hret, List.mem_append, List.mem_singleton] at hq
    rcases hq with hq | rfl
    · exact h.le q hq hqa
    · exact Nat.le_of_eq hnum

/-- A call that returns without a reply -/
theorem failed_inv (h : Kept A B s) (start c : Call) (ret : Int) (taken : List Msg) :
    Inv A B (protDone s start c ret taken false) :=
  protDone_inv h start c ret taken false nofun (fun _ _ _ _ _ => nofun)

theorem retLen_copied (hs : isSet c = false) (f : Msg) :
    (if retLen c f.bytes.length < c.len then retLen c f.bytes.length else c.len) = copied c f := by
  unfold copied retLen
  rw [hs, if_neg Bool.false_ne_true]
  by_cases hfull : (f.bytes.length : Int) = c.len + cdcHdrlen
  · rw [if_pos hfull, if_neg (Nat.lt_irrefl _)]
    omega
  · rw [if_neg hfull, Int.toNat_natCast]
    split <;> omega

theorem copyBuf_buf (hb : c.buf = some buf) (mem : Nat → UInt8) (len : Nat) :
    (copyBuf mem c len).buf = some (writeAt buf 0 (readAt mem cdcHdrlen len)) := by
  unfold copyBuf
  rw [hb]

/-- The frame taken last has the number of the request. -/
theorem copyInfo_inv (h : Kept A B s) (ho : Open s) {earlier : List Msg}
    (hw : w.taken = earlier ++ [f])
    (hmem : s.prot.mem = layers (cleared c s.prot.reqid mem) (writes c w.taken))
    (hall : ∀ g ∈ w.taken, B s.issued g)
    (hmissed : ∀ g ∈ earlier, 12 ≤ g.bytes.length → g.id ≠ s.issued % 0x10000)
    (hid : CDC_IOC_ID (flagsOf s.prot.mem) = s.prot.reqid.toNat) (ret : Int) :
    Inv A B (copyInfo s c w ret (copied c f)) := by
  have hacc : ∀ r : Return, r.number = s.issued → r.start = c → r.taken = w.taken →
      r.call.buf = (copyBuf s.prot.mem c (copied c f)).buf →
      ∃ earlier f, Accepted B r earlier f := by
    rintro r hnum rfl htaken hbuf
    refine ⟨earlier, f, htaken.trans hw, ?_, ?_, ?_, ?_⟩
    · rw [htaken, hnum]
      exact hall
    · rw [hnum]
      exact hmissed
    · intro hlen
      rw [hmem, hw, id_layers hlen, h.toNat_reqid] at hid
      rw [hid, hnum]
    · intro buf hb
      refine ⟨_, hbuf.trans (copyBuf_buf hb _ _), fun i => ?_⟩
      rw [writeAt_zero, htaken]
      split
      · next hi =>
        have hlen : i < r.start.len := by
          unfold copied at hi
          split at hi <;> omega
        rw [← info_layers hb s.prot.reqid mem w.taken hlen, ← hmem]
        simp [readAt, hi]
      · next hi => simp [readAt, hi]
  unfold copyInfo
  dsimp only
  split
  · have hk : Kept A B { s with dongleError := statusOf s.prot.mem } :=
      h.congr rfl rfl rfl rfl (Or.inl rfl)
    exact protDone_inv hk _ _ _ _ _ (fun _ => ho)
      fun r hnum hstart htaken hbuf _ => hacc r hnum hstart htaken hbuf
  · exact protDone_inv h _ _ _ _ _ (fun _ => ho)
      fun r hnum hstart htaken hbuf _ => hacc r hnum hstart htaken hbuf

theorem rxctlEnter_inv (h : Kept A B s) (hp : s.prot.pending = true) (ho : Open s)
    (hw : Waits B s c w) : Inv A B (rxctlEnter s c w) := by
  unfold rxctlEnter
  split
  · exact failed_inv h _ _ _ _
  · exact ⟨h.congr rfl rfl rfl rfl (Or.inl rfl), hp, ho, hw.mem, hw.all, hw.missed⟩

/-- The loop of `dhdcdc_cmplt` takes another turn just when the frame has not the number of the
request. -/
theorem cmplt_inv (h : Kept A B s) (hp : s.prot.pending = true) (ho : Open s) {earlier : List Msg}
    (hw : w.taken = earlier ++ [f])
    (hmem : s.prot.mem = layers (cleared c s.prot.reqid mem) (writes c w.taken))
    (hall : ∀ g ∈ w.taken, B s.issued g)
    (hmissed : ∀ g ∈ earlier, 12 ≤ g.bytes.length → g.id ≠ s.issued % 0x10000) :
    Inv A B (cmplt s c w f.bytes.length) := by
  unfold cmplt
  rw [if_neg (by omega)]
  by_cases hid : CDC_IOC_ID (flagsOf s.prot.mem) = s.prot.reqid.toNat
  · rw [if_neg (not_not.mpr hid)]
    cases hs : isSet c with
    | true =>
      have hcopy := copyInfo_inv h ho hw hmem hall hmissed hid
      unfold copied at hcopy
      rw [if_pos hs] at hcopy
      unfold setReply
      rw [if_pos rfl, if_neg (not_not.mpr hid)]
      exact hcopy _
    | false =>
      unfold queryReply
      dsimp only
      rw [if_neg nofun, if_neg (by omega), if_neg (not_not.mpr hid), retLen_copied hs]
      exact copyInfo_inv h ho hw hmem hall hmissed hid _
  · rw [if_pos hid]
    refine rxctlEnter_inv h hp ho ⟨⟨mem, hmem⟩, hall, ?_⟩
    intro g hg hlen
    rw [hw, List.mem_append, List.mem_singleton] at hg
    rcases hg with hg | rfl
    · exact hmissed g hg hlen
    · rw [hmem, hw, id_layers hlen, h.toNat_reqid] at hid
      exact hid

theorem rxctlResult_nonneg {n : Nat} {io : Io} (h : ¬ (rxctlResult conf s n io).2 < 0) :
    n ≠ 0 ∧ (rxctlResult conf s n io).2 = n := by
  unfold rxctlResult EIO ETIMEDOUT EREMOTEIO at h ⊢
  dsimp only at h ⊢
  split_ifs at h ⊢ <;> omega

theorem rxctlEnd_inv (h : Kept A B s) (hp : s.prot.pending = true) (ho : Open s)
    {earlier : List Msg} (hw : w.taken = if f.bytes.length = 0 then earlier else earlier ++ [f])
    (hmem : s.prot.mem = layers (cleared c s.prot.reqid mem) (writes c w.taken))
    (hall : ∀ g ∈ w.taken, B s.issued g)
    (hmissed : ∀ g ∈ earlier, 12 ≤ g.bytes.length → g.id ≠ s.issued % 0x10000) (io : Io) :
    Inv A B (rxctlEnd conf s c w f.bytes.length io) := by
  unfold rxctlEnd
  have hk : Kept A B { s with rxcntTimeout := (rxctlResult conf s f.bytes.length io).1 } :=
    h.congr rfl rfl rfl rfl (Or.inl rfl)
  by_cases hneg : (rxctlResult conf s f.bytes.length io).2 < 0
  · dsimp only
    unfold cmplt
    rw [if_pos hneg]
    exact failed_inv hk _ _ _ _
  · obtain ⟨hlen, hres⟩ := rxctlResult_nonneg hneg
    rw [if_neg hlen] at hw
    dsimp only
    rw [hres]
    exact cmplt_inv hk hp ho hw hmem hall hmissed

/-- What a wait has taken, before it is looked at -/
theorem rxctlCopy_mem (hmem : s.prot.mem = layers (cleared c s.prot.reqid mem) (writes c w.taken)) :
    (rxctlCopy s (c.len + cdcHdrlen)).prot.mem = layers (cleared c s.prot.reqid mem)
      (writes c (if s.rxctl.bytes.length = 0 then w.taken else w.taken ++ [s.rxctl])) := by
  unfold rxctlCopy
  dsimp only
  split
  · next hnil => rw [List.length_eq_zero_iff.mp hnil, List.take_nil, writeAt_nil, hmem]
  · rw [writes, List.map_append, List.map_singleton, layers_snoc, hmem]
    rfl

theorem rxctl_inv (h : Kept A B s) (hp : s.prot.pending = true) (ho : Open s) (hw : Waits B s c w)
    (hB : s.rxctl.bytes ≠ [] → B s.issued s.rxctl) (io : Io) : Inv A B (rxctl conf s c w io) := by
  obtain ⟨mem, hmem⟩ := hw.mem
  have hcopy := rxctlCopy_mem hmem
  have hall : ∀ g ∈ (if s.rxctl.bytes.length = 0 then w.taken else w.taken ++ [s.rxctl]),
      B s.issued g := by
    intro g hg
    split at hg
    · exact hw.all g hg
    · next hlen =>
      rw [List.mem_append, List.mem_singleton] at hg
      rcases hg with hg | rfl
      · exact hw.all g hg
      · exact hB fun hnil => hlen (List.length_eq_zero_iff.mpr hnil)
  have hend : ∀ cnt, Inv A B (rxctlEnd conf { rxctlCopy s (c.len + cdcHdrlen) with cnt := cnt } c
      { w with taken := if s.rxctl.bytes.length = 0 then w.taken else w.taken ++ [s.rxctl] }
      s.rxctl.bytes.length io) := fun cnt =>
    @rxctlEnd_inv mem s.rxctl A B conf { rxctlCopy s (c.len + cdcHdrlen) with cnt := cnt } c
      { w with taken := if s.rxctl.bytes.length = 0 then w.taken else w.taken ++ [s.rxctl] }
      (h.congr rfl rfl rfl rfl (Or.inr rfl)) hp ho w.taken rfl hcopy hall hw.missed io
  unfold rxctl
  dsimp only
  split
  · exact hend s.cnt
  · split
    · next hnone =>
      split
      · rw [if_pos hnone.2.1] at hcopy ⊢
        exact ⟨h.congr rfl rfl rfl rfl (Or.inr rfl), hp, ho, ⟨mem, hcopy⟩, hw.all, hw.missed⟩
      · exact hend _
    · exact hend 0

/-! ## Requests -/

theorem flagsOf_requestMem (c : Call) (reqid : BitVec 16) (set : Bool) (mem : Nat → UInt8) :
    flagsOf (requestMem c reqid set mem) = requestFlags c reqid set := by
  have hflags : ∀ buf : Nat → UInt8,
      flagsOf (store buf 8 4 (requestFlags c reqid set).toNat) = requestFlags c reqid set := by
    intro buf
    have hlt : (requestFlags c reqid set).toNat < 256 ^ 4 := (requestFlags c reqid set).isLt
    unfold flagsOf
    rw [load_store, Nat.mod_eq_of_lt hlt, BitVec.ofNat_toNat, BitVec.setWidth_eq]
  unfold requestMem
  dsimp only
  split
  · exact hflags _
  · rw [flagsOf_congr fun i hi => writeAt_of_off (Or.inl (show i < cdcHdrlen by
      unfold cdcHdrlen; omega))]
    exact hflags _

/-- The id of a message that is sent -/
theorem id_readAt (mem : Nat → UInt8) (number : Nat) {n : Nat} (hn : 12 ≤ n) :
    Msg.id ⟨number, readAt mem 0 n⟩ = CDC_IOC_ID (flagsOf mem) := by
  unfold Msg.id
  rw [flagsOf_congr fun i hi => (getD_readAt mem (show i < n by omega) 0).trans
    (by rw [Nat.zero_add])]

theorem request_inv (hA : ∀ n f, A n f → A (n + 1) f) (h : Kept A B s)
    (hp : s.prot.pending = true) : Inv A B (request s c (isSet c)) := by
  unfold request
  split
  · exact failed_inv h _ _ _ _
  · next hif =>
    have hreqid : s.prot.reqid + 1 = BitVec.ofNat 16 (s.issued + 1) := by
      rw [h.reqid, BitVec.ofNat_add]
      rfl
    unfold dhdcdcMsg
    refine ⟨⟨?_, fun hne => hA _ _ (h.slot hne), hreqid, h.returned, h.order,
      fun r hr ha => Nat.le_succ_of_le (h.le r hr ha)⟩, hp,
      fun r hr ha => Nat.lt_succ_of_le (h.le r hr ha), _, rfl⟩
    intro m hm
    rw [List.mem_append, List.mem_singleton] at hm
    rcases hm with hm | rfl
    · exact ⟨Nat.le_succ_of_le (h.sent m hm).1, (h.sent m hm).2⟩
    · refine ⟨Nat.le_refl _, ?_⟩
      rw [id_readAt _ _ (by unfold cdcHdrlen CDC_MAX_MSG_SIZE; omega), flagsOf_requestMem,
        id_requestFlags (Nat.lt_of_not_le hif), hreqid, BitVec.toNat_ofNat]

/-- A step that is none of the call's -/
theorem Inv.other (h : Inv A B s) (hprot : t.prot = s.prot) (hissued : t.issued = s.issued)
    (hopen : Open s → Open t) (hphase : t.phase = s.phase) : PhaseOk B t t.phase := by
  have hp := h.phase
  rw [hphase]
  cases hph : s.phase with
  | idle =>
    rw [hph] at hp
    exact (congrArg Prot.pending hprot).trans hp
  | sending c =>
    rw [hph] at hp
    obtain ⟨hpend, ho, hmem⟩ := hp
    unfold PhaseOk
    rw [hprot]
    exact ⟨hpend, hopen ho, hmem⟩
  | waiting c w =>
    rw [hph] at hp
    obtain ⟨hpend, ho, hmem, hall, hmissed⟩ := hp
    refine ⟨(congrArg Prot.pending hprot).trans hpend, hopen ho, ?_, ?_, ?_⟩
    · rw [hprot]
      exact hmem
    · rw [hissued]
      exact hall
    · rw [hissued]
      exact hmissed

theorem refuse_inv (h : Inv A B s) (c : Call) : Inv A B (refuse s c) := by
  have hmem : ∀ r ∈ (refuse s c).returned, r.accepted = true → r ∈ s.returned := by
    intro r hr ha
    rcases List.mem_append.mp hr with hr | hr
    · exact hr
    · rw [List.mem_singleton.mp hr] at ha
      cases ha
  have hopen : Open s → Open (refuse s c) := fun ho r hr ha => ho r (hmem r hr ha) ha
  refine ⟨⟨h.kept.sent, h.kept.slot, h.kept.reqid,
    fun r hr ha => h.kept.returned r (hmem r hr ha) ha, ?_,
    fun r hr ha => h.kept.le r (hmem r hr ha) ha⟩, ?_⟩
  · show List.Pairwise _ ((s.returned ++ [_]).filter Return.accepted)
    rw [List.filter_append]
    simpa using h.kept.order
  · exact h.other rfl rfl hopen rfl

theorem dhdProtIoctl_inv (hA : ∀ n f, A n f → A (n + 1) f) (h : Inv A B s) (c : Call) :
    Inv A B (dhdProtIoctl conf s c) := by
  unfold dhdProtIoctl
  split
  · exact refuse_inv h c
  · split
    · exact refuse_inv h c
    · split
      · exact refuse_inv h c
      · have hk : Kept A B { s with prot := { s.prot with pending := true, lastcmd := c.cmd } } :=
          h.kept.congr rfl rfl rfl rfl (Or.inl rfl)
        have hreq := request_inv (c := c) hA hk rfl
        dsimp only
        split
        · next hs =>
          unfold dhdcdcSetIoctl
          split
          · exact failed_inv hk _ _ _ _
          · split
            · exact failed_inv hk _ _ _ _
            · rw [hs] at hreq
              exact hreq
        · next hs =>
          rw [Bool.eq_false_iff.mpr hs] at hreq
          unfold dhdcdcQueryIoctl
          split
          · dsimp only
            split
            · exact failed_inv hk _ _ _ _
            · split
              · exact failed_inv hk _ _ _ _
              · exact hreq
          · exact hreq

theorem msgDone_inv (h : Kept A B s) (hp : s.prot.pending = true) (ho : Open s)
    (hmem : ∃ mem, s.prot.mem = requestMem c s.prot.reqid (isSet c) mem) (ret : Int) :
    Inv A B (msgDone s c ret) := by
  obtain ⟨mem, hmem⟩ := hmem
  unfold msgDone
  split
  · exact failed_inv h _ _ _ _
  · unfold cmpltEnter
    refine rxctlEnter_inv (h.congr rfl rfl rfl rfl (Or.inl rfl)) hp ho ⟨⟨mem, ?_⟩, nofun, nofun⟩
    show store s.prot.mem 8 4 0 = _
    rw [hmem]
    rfl

theorem step_inv (hA : ∀ n f, A n f → A (n + 1) f) {e : Act} {u : Unit}
    (hcontrol : ∀ f, e = .control f → f.bytes ≠ [] → A s.issued f)
    (htake : ∀ io, e = .rxctl io → s.rxctl.bytes ≠ [] → A s.issued s.rxctl → B s.issued s.rxctl)
    (h : Inv A B s) (hs : step conf s e = some (t, u)) : Inv A B t := by
  have hphase := h.phase
  cases e with
  | ioctl c =>
    cases hs
    exact dhdProtIoctl_inv hA h c
  | txctl ret =>
    cases hph : s.phase with
    | idle => simp [step, hph] at hs
    | waiting c w => simp [step, hph] at hs
    | sending c =>
      simp only [step, hph, Option.some.injEq, Prod.mk.injEq] at hs
      rw [hph] at hphase
      rw [← hs.1]
      exact msgDone_inv h.kept hphase.1 hphase.2.1 hphase.2.2 ret
  | rxctl io =>
    cases hph : s.phase with
    | idle => simp [step, hph] at hs
    | sending c => simp [step, hph] at hs
    | waiting c w =>
      simp only [step, hph, Option.some.injEq, Prod.mk.injEq] at hs
      rw [hph] at hphase
      rw [← hs.1]
      exact rxctl_inv h.kept hphase.1 hphase.2.1 hphase.2.2
        (fun hne => htake io rfl hne (h.kept.slot hne)) io
  | control f =>
    cases hs
    exact ⟨⟨h.kept.sent, hcontrol f rfl, h.kept.reqid, h.kept.returned, h.kept.order, h.kept.le⟩,
      h.other rfl rfl id rfl⟩
  | stop =>
    cases hs
    exact ⟨h.kept.congr rfl rfl rfl rfl (Or.inr rfl), h.other rfl rfl id rfl⟩
  | bus down hang reset =>
    cases hs
    exact ⟨h.kept.congr rfl rfl rfl rfl (Or.inl rfl), h.other rfl rfl id rfl⟩

theorem init_inv : Inv A B init :=
  ⟨⟨nofun, fun hne => absurd rfl hne, rfl, nofun, List.Pairwise.nil, nofun⟩, rfl⟩

/-! ## Runs -/

/-- A frame that the dongle may send when `n` requests were made -/
def Reply (n : Nat) (f : Msg) : Prop :=
  12 ≤ f.bytes.length ∧ f.number ≤ n ∧ f.id = f.number % 0x10000

/-- One that is taken before 65536 later requests -/
def Timely (n : Nat) (f : Msg) : Prop := Reply n f ∧ n < f.number + 0x10000

theorem Reply.succ (n : Nat) (f : Msg) (h : Reply n f) : Reply (n + 1) f :=
  ⟨h.1, Nat.le_succ_of_le h.2.1, h.2.2⟩

/-- A timely frame has the id of request `n` just when it is the answer to it. -/
theorem Timely.id_iff {n : Nat} (h : Timely n f) :
    f.id = n % 0x10000 ↔ f.number = n := by
  obtain ⟨⟨-, hle, hid⟩, hlt⟩ := h
  rw [hid]
  constructor
  · intro heq
    omega
  · rintro rfl
    rfl

theorem step_timely {e : Act} {u : Unit} (hc : (answers s e && recent s e) = true)
    (h : Inv Reply Timely s) (hs : step conf s e = some (t, u)) : Inv Reply Timely t := by
  rw [Bool.and_eq_true] at hc
  refine step_inv Reply.succ ?_ ?_ h hs
  · rintro f rfl -
    have hans := hc.1
    unfold answers at hans
    obtain ⟨hlen, m, hm, hnum, hid⟩ := of_decide_eq_true hans
    obtain ⟨hle, hmid⟩ := h.kept.sent m hm
    rw [hnum] at hle hmid
    exact ⟨by unfold cdcHdrlen at hlen; omega, hle, hid.symm.trans hmid⟩
  · rintro io rfl hne hrep
    have hrec := hc.2
    unfold recent at hrec
    rcases of_decide_eq_true hrec with hnil | hlt
    · exact absurd hnil hne
    · exact ⟨hrep, hlt⟩

/-- **A call returns with the answer to its own request.**  What it took before are answers to
requests made before, and no two calls return with the same answer. -/
theorem accepted_own_reply (conf : Conf) (acts : List Act) (t : State) (tr : List (Act × Unit))
    (h : runs (step conf) init acts = some (t, tr))
    (ha : meets (step conf) answers init acts = true)
    (hr : meets (step conf) recent init acts = true) :
    (∀ r ∈ t.returned, r.accepted = true → ∃ earlier f, r.taken = earlier ++ [f] ∧
      f.number = r.number ∧ ∀ g ∈ earlier, g.number < r.number) ∧
    (t.returned.filter Return.accepted).Pairwise fun r r' => r.number < r'.number := by
  have hinv := runs_inv_of_meets (step conf) (fun s e => answers s e && recent s e)
    (fun s _ => Inv Reply Timely s) (fun s _ e t u hi hc hs => step_timely hc hi hs) init t acts tr
    init_inv (meets_and _ _ _ _ _ ha hr) h
  refine ⟨fun r hr hacc => ?_, hinv.kept.order⟩
  obtain ⟨earlier, f, hA⟩ := hinv.kept.returned r hr hacc
  have htimely := hA.all
  rw [hA.taken] at htimely
  refine ⟨earlier, f, hA.taken, ?_, fun g hg => ?_⟩
  · have hf := htimely f (List.mem_append_right _ (List.mem_singleton_self f))
    exact hf.id_iff.mp (hA.own hf.1.1)
  · have hg' := htimely g (List.mem_append_left _ hg)
    have hne := mt hg'.id_iff.mpr (hA.missed g hg hg'.1.1)
    have := hg'.1.2.1
    omega

/-- A query of four bytes by the first interface, whose buffer holds 7s -/
def query : Call := ⟨0, WLC_GET_VAR, 0, 0, 0, some fun _ => 7, 4⟩

def reply (number : Nat) (payload : List UInt8) : Msg :=
  ⟨number, List.replicate 10 0 ++ [number.toUInt8, 0] ++ List.replicate 4 0 ++ payload⟩

/-- A query that is given up, and another that takes the late answer first.  Its own answer is
shorter. -/
def lateReply : List Act :=
  [.ioctl query, .txctl 0, .rxctl ⟨false, false, false⟩,
    .ioctl query, .txctl 0, .control (reply 1 [1, 1, 1, 1]), .rxctl ⟨true, false, false⟩,
    .control (reply 2 [2]), .rxctl ⟨true, false, false⟩]

def defaultConf : Conf := ⟨0, 0, fun _ => []⟩

theorem lateReply_runs :
    (runs (step defaultConf) init lateReply).map (fun x => x.1.returned.map fun r =>
      (r.accepted, r.ret, r.call.buf.map fun buf => readAt buf 0 4)) =
      some [(false, -ETIMEDOUT, some [7, 7, 7, 7]), (true, 0, some [2, 1, 1, 1])] := by
  decide +kernel

theorem accepted_own_reply_late :
    ∃ t tr, runs (step defaultConf) init lateReply = some (t, tr) ∧
      (∀ r ∈ t.returned, r.accepted = true → ∃ earlier f, r.taken = earlier ++ [f] ∧
        f.number = r.number ∧ ∀ g ∈ earlier, g.number < r.number) ∧
      (t.returned.filter Return.accepted).Pairwise fun r r' => r.number < r'.number := by
  obtain ⟨⟨t, tr⟩, hrun, -⟩ := Option.map_eq_some_iff.mp lateReply_runs
  exact ⟨t, tr, hrun, accepted_own_reply defaultConf lateReply t tr hrun (by decide +kernel)
    (by decide +kernel)⟩

/-- **What the caller's buffer holds.**  The payload of the reply is in front.  Behind it, as far as
is copied, is what longer frames of the same call have left, then the caller's own bytes. -/
theorem accepted_bytes (conf : Conf) (acts : List Act) (t : State) (tr : List (Act × Unit))
    (h : runs (step conf) init acts = some (t, tr)) (r : Return) (hr : r ∈ t.returned)
    (hacc : r.accepted = true) :
    ∃ earlier f, r.taken = earlier ++ [f] ∧ ∀ buf, r.start.buf = some buf →
      ∃ buf', r.call.buf = some buf' ∧
        (∀ i < r.start.len, ∀ hi : i < f.payload.length, buf' i = f.payload[i]) ∧
        (∀ i < copied r.start f, f.payload.length ≤ i →
          buf' i = (top (earlier.map Msg.payload) i).getD (buf i)) ∧
        ∀ i, copied r.start f ≤ i → buf' i = buf i := by
  have hinv := runs_inv (step conf) (fun s _ => Inv (fun _ _ => True) (fun _ _ => True) s)
    (fun s _ e t u hi hs => step_inv (fun _ _ _ => trivial) (fun _ _ _ => trivial)
      (fun _ _ _ _ => trivial) hi hs) init t acts tr init_inv h
  obtain ⟨earlier, f, hA⟩ := hinv.kept.returned r hr hacc
  refine ⟨earlier, f, hA.taken, fun buf hb => ?_⟩
  obtain ⟨buf', hbuf', hbytes⟩ := hA.buf buf hb
  rw [hA.taken, List.map_append, List.map_singleton] at hbytes
  refine ⟨buf', hbuf', fun i hlen hi => ?_, fun i hcop hi => ?_, fun i hi => ?_⟩
  · have hf : cdcHdrlen + i < f.bytes.length := by
      unfold Msg.payload at hi
      rw [List.length_drop] at hi
      omega
    have hcop : i < copied r.start f := by
      unfold copied
      split <;> omega
    rw [hbytes, if_pos hcop, top_of_lt hf]
    exact (List.getElem_drop ..).symm
  · have hf : f.bytes.length ≤ cdcHdrlen + i := by
      unfold Msg.payload at hi
      rw [List.length_drop] at hi
      omega
    rw [hbytes, if_pos hcop, top_of_le hf, ← top_map_drop, List.map_map]
    rfl
  · rw [hbytes, if_neg (Nat.not_lt.mpr hi)]

theorem accepted_bytes_late :
    ∃ t tr r, runs (step defaultConf) init lateReply = some (t, tr) ∧ r ∈ t.returned ∧
      ∃ earlier f, r.taken = earlier ++ [f] ∧ ∀ buf, r.start.buf = some buf →
        ∃ buf', r.call.buf = some buf' ∧
          (∀ i < r.start.len, ∀ hi : i < f.payload.length, buf' i = f.payload[i]) ∧
          (∀ i < copied r.start f, f.payload.length ≤ i →
            buf' i = (top (earlier.map Msg.payload) i).getD (buf i)) ∧
          ∀ i, copied r.start f ≤ i → buf' i = buf i := by
  obtain ⟨⟨t, tr⟩, hrun, hret⟩ := Option.map_eq_some_iff.mp lateReply_runs
  have hlast : (true, (0 : Int), some [2, 1, 1, 1]) ∈ t.returned.map fun r =>
      (r.accepted, r.ret, r.call.buf.map fun buf => readAt buf 0 4) := by
    rw [hret]
    decide
  obtain ⟨r, hr, hr'⟩ := List.mem_map.mp hlast
  exact ⟨t, tr, r, hrun, hr,
    accepted_bytes defaultConf lateReply t tr hrun r hr (congrArg Prod.fst hr')⟩

end Bcmdhd.Cdc
