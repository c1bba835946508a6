import Bcmdhd.Lib.Runs

/-!
# Ioctls and their responses (`dhd_msgbuf.c`)

Callers are serialised: a request goes to the dongle, the caller waits for the response and may
time out.  The dongle acknowledges and answers every request once, in order, at any time.  The
handler of a response clears the pending bit under the general lock; what it compares and
writes after that is not locked.

    runs step init es = some (s, tr) →
      no call leaves a pending ioctl, and none is refused as busy ∧
      (meets step undivided init es → what a call returns is the response to its own request)
                                                                     (ioctl_own_response)
-/

namespace Bcmdhd.Ioctl

open Runs

/-! ## The state -/

def wlcIoctlMaxlen : Nat := 8192

def rxDmaOffset : Nat := 8

def ioctRetbufSize : Nat := rxDmaOffset + wlcIoctlMaxlen

def bufferBeforeRollover : Nat := 300

/-- `dhd_ioctl_recieved_status_t` -/
inductive Received
  | wait
  | onSuccess
  | onTrap
  | onBusStop
  | onError
deriving DecidableEq, Repr

structure Prot where
  /-- `MSGBUF_IOCTL_ACK_PENDING` in `ioctl_state` -/
  ackPending : Bool
  /-- `MSGBUF_IOCTL_RESP_PENDING` in `ioctl_state` -/
  respPending : Bool
  ioctlReceived : Received
  currIoctlCmd : Nat
  /-- a `uint16` -/
  ioctlTransId : Nat
  ioctlResplen : Nat
  ioctlStatus : Int16
  retbuf : Nat → UInt8

/-- What the dongle answers. -/
structure Reply where
  status : Int16
  respLen : UInt16
  payload : Nat → UInt8

/-- A request; `number` counts the requests from 1 on. -/
structure Request where
  number : Nat
  transId : Nat
  cmd : Nat
deriving DecidableEq, Repr

/-- What a call returns. -/
inductive Outcome
  | error
  | response (data : List UInt8) (status : Int16)
deriving DecidableEq, Repr

/-- Where the caller is. -/
inductive Caller
  | idle
  /-- `ioctl_state` is set -/
  | reserved (cmd len : Nat)
  /-- there is space on the ring and `curr_ioctl_cmd` is set -/
  | described (cmd len : Nat)
  /-- the request is sent -/
  | submitted (len : Nat)
  | waiting (len : Nat)
  /-- the wait is over, and not by a timeout -/
  | woken (len : Nat)
  /-- at `out` -/
  | leaving (len : Nat) (outcome : Outcome)
deriving DecidableEq, Repr

/-- Where the handler of completions is in `dhd_prot_ioctcmplt_process`. -/
inductive Handler
  | idle
  /-- the pending bit is cleared -/
  | admitted (request : Request) (reply : Reply)
  /-- transaction id and command are those expected -/
  | matched (request : Request) (reply : Reply)
  | mismatched

structure State where
  prot : Prot
  iovarTimeoutOccured : Bool
  caller : Caller
  handler : Handler
  /-- requests not acknowledged, oldest first -/
  toAck : List Request
  /-- requests acknowledged and not answered, oldest first -/
  toAnswer : List Request
  /-- how many requests were sent -/
  issued : Nat
  /-- what the dongle answered to which request -/
  replies : List (Nat × Reply)

def init : State where
  prot :=
    { ackPending := false
      respPending := false
      ioctlReceived := .wait
      currIoctlCmd := 0
      ioctlTransId := 0xffff - bufferBeforeRollover
      ioctlResplen := 0
      ioctlStatus := 0
      retbuf := fun _ => 0 }
  iovarTimeoutOccured := false
  caller := .idle
  handler := .idle
  toAck := []
  toAnswer := []
  issued := 0
  replies := []

/-! ## The caller -/

inductive Result
  | running
  /-- an error before a request is sent -/
  | refused
  /-- `BCME_BUSY` -/
  | busy
  /-- the call that sent request `number` returns -/
  | returned (number len : Nat) (outcome : Outcome)
deriving DecidableEq, Repr

/-- `busError` is the answer of `dhd_query_bus_erros`, a timeout before apart. -/
def ioctl (s : State) (cmd len : Nat) (busError : Bool) : State × Result :=
  if busError || s.iovarTimeoutOccured then (s, .refused)
  else if len > wlcIoctlMaxlen then (s, .refused)
  else if s.prot.ackPending || s.prot.respPending then (s, .busy)
  else
    ({ s with
        prot := { s.prot with ackPending := true, respPending := true }
        caller := .reserved cmd len }, .running)

/-- `space`: there is room on the control ring. -/
def describe (s : State) (cmd len : Nat) (space : Bool) : State × Result :=
  if !space then
    ({ s with
        prot :=
          { s.prot with
            ackPending := false
            respPending := false
            currIoctlCmd := 0
            ioctlReceived := .wait }
        caller := .idle }, .refused)
  else
    ({ s with prot := { s.prot with currIoctlCmd := cmd }, caller := .described cmd len }, .running)

def submit (s : State) (cmd len : Nat) : State :=
  let transId := (s.prot.ioctlTransId + 1) % 0x10000
  { s with
    prot := { s.prot with ioctlTransId := transId }
    toAck := s.toAck ++ [⟨s.issued + 1, transId, cmd⟩]
    issued := s.issued + 1
    caller := .submitted len }

def checkBus (s : State) (len : Nat) (busError : Bool) : State :=
  { s with
    caller := if busError || s.iovarTimeoutOccured then .leaving len .error else .waiting len }

/-- The wait is over when `ioctl_received` is set, or times out.  `trapped`: the dongle trapped
or there is a bus error; `linkGood`: the link is up and the dongle has not trapped unnoticed. -/
def wait (s : State) (len : Nat) (trapped linkGood : Bool) : State :=
  if s.prot.ioctlReceived ≠ .wait ∨ trapped then { s with caller := .woken len }
  else if !linkGood then { s with caller := .leaving len .error }
  else { s with iovarTimeoutOccured := true, caller := .leaving len .error }

def collect (s : State) (len : Nat) : State :=
  if s.prot.ioctlReceived ≠ .onSuccess then
    { s with iovarTimeoutOccured := true, caller := .leaving len .error }
  else
    let resplen := min s.prot.ioctlResplen len
    { s with
      prot := { s.prot with ioctlResplen := resplen }
      caller := .leaving len (.response ((List.range resplen).map s.prot.retbuf) s.prot.ioctlStatus) }

/-- `out` -/
def finish (s : State) : State :=
  { s with
    prot :=
      { s.prot with
        ackPending := false
        respPending := false
        ioctlResplen := 0
        ioctlReceived := .wait
        currIoctlCmd := 0 }
    caller := .idle }

/-! ## The handlers -/

def ioctackProcess (s : State) : State :=
  if s.prot.ackPending && s.prot.respPending then
    { s with prot := { s.prot with ackPending := false } }
  else s

/-- `dropped`: the response is lost by a failed audit or an induced error. -/
def clearPending (s : State) (request : Request) (reply : Reply) (dropped : Bool) : State :=
  if dropped || s.prot.ackPending || !s.prot.respPending then s
  else
    { s with prot := { s.prot with respPending := false }, handler := .admitted request reply }

def expected (s : State) (request : Request) : Bool :=
  request.transId == s.prot.ioctlTransId && s.prot.currIoctlCmd == request.cmd

/-- `pktOk`: the id of the response is one of an ioctl buffer. -/
def compare (s : State) (request : Request) (reply : Reply) (pktOk : Bool) : State :=
  if !pktOk then { s with handler := .idle }
  else
    { s with
      prot := { s.prot with ioctlResplen := reply.respLen.toNat, ioctlStatus := reply.status }
      handler := if expected s request then .matched request reply else .mismatched }

/-- The first `n` bytes are copied. -/
def copy (dest src : Nat → UInt8) (n : Nat) : Nat → UInt8 := fun i => if i < n then src i else dest i

def wakeSuccess (s : State) (reply : Reply) : State :=
  { s with
    prot :=
      { s.prot with
        retbuf := copy s.prot.retbuf reply.payload (min s.prot.ioctlResplen ioctRetbufSize)
        ioctlReceived := .onSuccess }
    handler := .idle }

def wakeError (s : State) : State :=
  { s with prot := { s.prot with ioctlReceived := .onError }, handler := .idle }

/-! ## Steps -/

inductive Call
  /-- `dhd_prot_ioctl` up to the check of `ioctl_state` -/
  | ioctl (cmd len : Nat) (busError : Bool)
  | describe (space : Bool)
  | submit
  | checkBus (busError : Bool)
  | wait (trapped linkGood : Bool)
  | collect
  | finish
  /-- the oldest request is acknowledged -/
  | ack
  /-- the oldest request acknowledged is answered -/
  | answer (reply : Reply) (dropped : Bool)
  | compare (pktOk : Bool)
  /-- the caller is woken up by the handler -/
  | wake
  /-- `dhd_wakeup_ioctl_event` by the bus -/
  | abort (stopped : Bool)
  /-- the bus errors are cleared -/
  | recover

/-- The handlers run one after the other.  A response is compared before 65536 later requests
were sent. -/
def step (s : State) : Call → Option (State × Result)
  | .ioctl cmd len busError =>
    match s.caller with
    | .idle => some (ioctl s cmd len busError)
    | _ => none
  | .describe space =>
    match s.caller with
    | .reserved cmd len => some (describe s cmd len space)
    | _ => none
  | .submit =>
    match s.caller with
    | .described cmd len => some (submit s cmd len, .running)
    | _ => none
  | .checkBus busError =>
    match s.caller with
    | .submitted len => some (checkBus s len busError, .running)
    | _ => none
  | .wait trapped linkGood =>
    match s.caller with
    | .waiting len => some (wait s len trapped linkGood, .running)
    | _ => none
  | .collect =>
    match s.caller with
    | .woken len => some (collect s len, .running)
    | _ => none
  | .finish =>
    match s.caller with
    | .leaving len outcome => some (finish s, .returned s.issued len outcome)
    | _ => none
  | .ack =>
    match s.handler, s.toAck with
    | .idle, request :: rest =>
      some (ioctackProcess { s with toAck := rest, toAnswer := s.toAnswer ++ [request] }, .running)
    | _, _ => none
  | .answer reply dropped =>
    match s.handler, s.toAnswer with
    | .idle, request :: rest =>
      some (clearPending { s with
          toAnswer := rest
          replies := (request.number, reply) :: s.replies } request reply dropped, .running)
    | _, _ => none
  | .compare pktOk =>
    match s.handler with
    | .admitted request reply =>
      if s.issued < request.number + 0x10000 then some (compare s request reply pktOk, .running)
      else none
    | _ => none
  | .wake =>
    match s.handler with
    | .matched _ reply => some (wakeSuccess s reply, .running)
    | .mismatched => some (wakeError s, .running)
    | _ => none
  | .abort stopped =>
    some ({ s with
      prot := { s.prot with ioctlReceived := if stopped then .onBusStop else .onTrap } }, .running)
  | .recover => some ({ s with iovarTimeoutOccured := false }, .running)

/-- What a step can do. -/
inductive Moves (s : State) : Call → State → Result → Prop
  | ioctl (cmd len : Nat) (busError : Bool) (hp : s.caller = .idle) :
    Moves s (.ioctl cmd len busError) (ioctl s cmd len busError).1 (ioctl s cmd len busError).2
  | describe (cmd len : Nat) (space : Bool) (hp : s.caller = .reserved cmd len) :
    Moves s (.describe space) (describe s cmd len space).1 (describe s cmd len space).2
  | submit (cmd len : Nat) (hp : s.caller = .described cmd len) :
    Moves s .submit (submit s cmd len) .running
  | checkBus (len : Nat) (busError : Bool) (hp : s.caller = .submitted len) :
    Moves s (.checkBus busError) (checkBus s len busError) .running
  | wait (len : Nat) (trapped linkGood : Bool) (hp : s.caller = .waiting len) :
    Moves s (.wait trapped linkGood) (wait s len trapped linkGood) .running
  | collect (len : Nat) (hp : s.caller = .woken len) :
    Moves s .collect (collect s len) .running
  | finish (len : Nat) (outcome : Outcome) (hp : s.caller = .leaving len outcome) :
    Moves s .finish (finish s) (.returned s.issued len outcome)
  | ack (request : Request) (rest : List Request) (hp : s.handler = .idle)
    (hq : s.toAck = request :: rest) :
    Moves s .ack
      (ioctackProcess { s with toAck := rest, toAnswer := s.toAnswer ++ [request] }) .running
  | answer (request : Request) (rest : List Request) (reply : Reply) (dropped : Bool)
    (hp : s.handler = .idle) (hq : s.toAnswer = request :: rest) :
    Moves s (.answer reply dropped)
      (clearPending { s with
          toAnswer := rest
          replies := (request.number, reply) :: s.replies } request reply dropped) .running
  | compare (request : Request) (reply : Reply) (pktOk : Bool)
    (hp : s.handler = .admitted request reply) (hlate : s.issued < request.number + 0x10000) :
    Moves s (.compare pktOk) (compare s request reply pktOk) .running
  | wakeSuccess (request : Request) (reply : Reply) (hp : s.handler = .matched request reply) :
    Moves s .wake (wakeSuccess s reply) .running
  | wakeError (hp : s.handler = .mismatched) : Moves s .wake (wakeError s) .running
  | abort (stopped : Bool) :
    Moves s (.abort stopped) { s with
      prot := { s.prot with ioctlReceived := if stopped then .onBusStop else .onTrap } } .running
  | recover : Moves s .recover { s with iovarTimeoutOccured := false } .running

variable {s s' : State} {e : Call} {r : Result} {tr : Trace} {request : Request} {len : Nat}

theorem step_moves (hs : step s e = some (s', r)) :
    Moves s e s' r := by
  unfold step at hs
  cases e with
  | ioctl cmd len busError =>
    dsimp only at hs
    split at hs
    · next hp =>
      obtain ⟨rfl, rfl⟩ := Prod.mk.inj (Option.some.inj hs)
      exact .ioctl cmd len busError hp
    · cases hs
  | describe space =>
    dsimp only at hs
    split at hs
    · next hp =>
      obtain ⟨rfl, rfl⟩ := Prod.mk.inj (Option.some.inj hs)
      exact .describe _ _ space hp
    · cases hs
  | submit =>
    dsimp only at hs
    split at hs
    · next hp =>
      cases hs
      exact .submit _ _ hp
    · cases hs
  | checkBus busError =>
    dsimp only at hs
    split at hs
    · next hp =>
      cases hs
      exact .checkBus _ busError hp
    · cases hs
  | wait trapped linkGood =>
    dsimp only at hs
    split at hs
    · next hp =>
      cases hs
      exact .wait _ trapped linkGood hp
    · cases hs
  | collect =>
    dsimp only at hs
    split at hs
    · next hp =>
      cases hs
      exact .collect _ hp
    · cases hs
  | finish =>
    dsimp only at hs
    split at hs
    · next hp =>
      cases hs
      exact .finish _ _ hp
    · cases hs
  | ack =>
    dsimp only at hs
    split at hs
    · next hp hq =>
      cases hs
      exact .ack _ _ hp hq
    · cases hs
  | answer reply dropped =>
    dsimp only at hs
    split at hs
    · next hp hq =>
      cases hs
      exact .answer _ _ reply dropped hp hq
    · cases hs
  | compare pktOk =>
    dsimp only at hs
    split at hs
    · next hp =>
      split at hs
      · next hlate =>
        cases hs
        exact .compare _ _ pktOk hp hlate
      · cases hs
    · cases hs
  | wake =>
    dsimp only at hs
    split at hs
    · next hp =>
      cases hs
      exact .wakeSuccess _ _ hp
    · next hp =>
      cases hs
      exact .wakeError hp
    · cases hs
  | abort stopped =>
    cases hs
    exact .abort stopped
  | recover =>
    cases hs
    exact .recover

/-- The request is sent and the call has not returned. -/
def Caller.active : Caller → Bool
  | .submitted _ | .waiting _ | .woken _ | .leaving _ _ => true
  | _ => false

/-- A response is found to be the one expected only while a request is waited for, and the call
does not return before the handler has woken it up. -/
def undivided (s : State) : Call → Bool
  | .compare _ =>
    match s.handler with
    | .admitted request _ => !expected s request || s.caller.active
    | _ => true
  | .finish =>
    match s.handler with
    | .matched _ _ => false
    | _ => true
  | _ => true

abbrev Trace := List (Call × Result)

/-! ## No ioctl is left pending -/

/-- No response is awaited while no call is made, and no call was refused as busy. -/
structure Quiet (s : State) (tr : Trace) : Prop where
  clear : s.caller = .idle → s.prot.ackPending = false ∧ s.prot.respPending = false
  admitted : ∀ e ∈ tr, e.2 ≠ .busy

theorem quiet_of_eq (h : Quiet s tr)
    (hclear : s'.caller = .idle → s'.prot.ackPending = false ∧ s'.prot.respPending = false)
    (hr : r ≠ .busy) : Quiet s' (tr ++ [(e, r)]) := by
  refine ⟨hclear, ?_⟩
  intro x hx
  rcases List.mem_append.1 hx with hx | hx
  · exact h.admitted x hx
  · rw [List.mem_singleton.1 hx]
    exact hr

theorem ioctl_quiet (h : Quiet s tr) (hp : s.caller = .idle) (cmd len : Nat) (busError : Bool) :
    Quiet (ioctl s cmd len busError).1
      (tr ++ [(.ioctl cmd len busError, (ioctl s cmd len busError).2)]) := by
  obtain ⟨hack, hresp⟩ := h.clear hp
  unfold ioctl
  split
  · exact quiet_of_eq h h.clear nofun
  · split
    · exact quiet_of_eq h h.clear nofun
    · rw [if_neg (by simp [hack, hresp])]
      exact quiet_of_eq h nofun nofun

theorem describe_quiet (h : Quiet s tr) (e : Call) (cmd len : Nat) (space : Bool) :
    Quiet (describe s cmd len space).1 (tr ++ [(e, (describe s cmd len space).2)]) := by
  unfold describe
  split
  · exact quiet_of_eq h (fun _ => ⟨rfl, rfl⟩) nofun
  · exact quiet_of_eq h nofun nofun

/-- The handlers clear bits, and the caller does not move. -/
theorem handlers_quiet (h : Quiet s tr) (hcaller : s'.caller = s.caller)
    (hack : s'.prot.ackPending = true → s.prot.ackPending = true)
    (hresp : s'.prot.respPending = true → s.prot.respPending = true) :
    Quiet s' (tr ++ [(e, .running)]) := by
  refine quiet_of_eq h ?_ nofun
  intro hidle
  rw [hcaller] at hidle
  obtain ⟨ha, hr⟩ := h.clear hidle
  constructor
  · cases hs : s'.prot.ackPending with
    | false => rfl
    | true => rw [← hack hs, ha]
  · cases hs : s'.prot.respPending with
    | false => rfl
    | true => rw [← hresp hs, hr]

theorem step_quiet (h : Quiet s tr) (hs : step s e = some (s', r)) : Quiet s' (tr ++ [(e, r)]) := by
  cases step_moves hs with
  | ioctl cmd len busError hp => exact ioctl_quiet h hp cmd len busError
  | describe cmd len space hp => exact describe_quiet h _ cmd len space
  | submit cmd len hp => exact quiet_of_eq h nofun nofun
  | checkBus len busError hp =>
    refine quiet_of_eq h ?_ nofun
    unfold checkBus
    dsimp only
    split
    · nofun
    · nofun
  | wait len trapped linkGood hp =>
    refine quiet_of_eq h ?_ nofun
    unfold wait
    split
    · nofun
    · split
      · nofun
      · nofun
  | collect len hp =>
    refine quiet_of_eq h ?_ nofun
    unfold collect
    split
    · nofun
    · nofun
  | finish len outcome hp => exact quiet_of_eq h (fun _ => ⟨rfl, rfl⟩) nofun
  | ack request rest hp hq =>
    unfold ioctackProcess
    split
    · exact handlers_quiet h rfl nofun id
    · exact handlers_quiet h rfl id id
  | answer request rest reply dropped hp hq =>
    unfold clearPending
    split
    · exact handlers_quiet h rfl id id
    · exact handlers_quiet h rfl id nofun
  | compare request reply pktOk hp hlate =>
    unfold compare
    split
    · exact handlers_quiet h rfl id id
    · exact handlers_quiet h rfl id id
  | wakeSuccess request reply hp => exact handlers_quiet h rfl id id
  | wakeError hp => exact handlers_quiet h rfl id id
  | abort stopped => exact handlers_quiet h rfl id id
  | recover => exact handlers_quiet h rfl id id

theorem runs_quiet {es : List Call} (h : runs step init es = some (s, tr)) : Quiet s tr :=
  runs_inv step Quiet (fun _ _ _ _ _ hi hs => step_quiet hi hs) _ _ es tr
    ⟨fun _ => ⟨rfl, rfl⟩, nofun⟩ h

/-! ## Responses are told apart -/

/-- What a caller with a buffer of `len` bytes gets of a reply. -/
def receive (reply : Reply) (len : Nat) : Outcome :=
  .response ((List.range (min reply.respLen.toNat len)).map reply.payload) reply.status

/-- The outcome is an error, or the dongle's answer to this request. -/
def Own (s : State) (number len : Nat) (outcome : Outcome) : Prop :=
  outcome = .error ∨ ∃ reply, (number, reply) ∈ s.replies ∧ outcome = receive reply len

/-- The transaction id of a request that was sent. -/
def Stamped (issued : Nat) (request : Request) : Prop :=
  request.number ≤ issued ∧
    request.transId = (0xffff - bufferBeforeRollover + request.number) % 0x10000

/-- The response is where the caller takes it from. -/
def Holds (prot : Prot) (reply : Reply) : Prop :=
  prot.ioctlResplen = reply.respLen.toNat ∧ prot.ioctlStatus = reply.status ∧
    ∀ i, i < prot.ioctlResplen → i < ioctRetbufSize → prot.retbuf i = reply.payload i

/-- The caller may still take a response. -/
def Caller.attending : Caller → Bool
  | .submitted _ | .waiting _ | .woken _ => true
  | _ => false

/-- The caller's buffer is not larger than the one of the driver. -/
def LenOk : Caller → Prop
  | .idle => True
  | .reserved _ len | .described _ len | .submitted len | .waiting len | .woken len
  | .leaving len _ => len ≤ wlcIoctlMaxlen

/-- What the handler can rely on. -/
def HandlerOk (s : State) : Handler → Prop
  | .idle => True
  | .admitted request reply =>
    Stamped s.issued request ∧ (request.number, reply) ∈ s.replies ∧
      (request.number = s.issued → s.caller.active = true → s.prot.respPending = false)
  | .matched _ reply =>
    s.caller.active = true ∧ s.prot.respPending = false ∧ (s.issued, reply) ∈ s.replies ∧
      s.prot.ioctlResplen = reply.respLen.toNat ∧ s.prot.ioctlStatus = reply.status
  | .mismatched => True

structure Inv (s : State) (tr : Trace) : Prop where
  transId : s.prot.ioctlTransId = (0xffff - bufferBeforeRollover + s.issued) % 0x10000
  requests : ∀ request ∈ s.toAck ++ s.toAnswer, Stamped s.issued request
  lenOk : LenOk s.caller
  handler : HandlerOk s s.handler
  success : s.prot.ioctlReceived = .onSuccess → s.caller.active = true ∧
    s.handler = .idle ∧ s.prot.respPending = false ∧
    (s.caller.attending = true → ∃ reply, (s.issued, reply) ∈ s.replies ∧ Holds s.prot reply)
  leaving : ∀ len outcome, s.caller = .leaving len outcome → Own s s.issued len outcome
  results : ∀ e number len outcome, (e, .returned number len outcome) ∈ tr →
    Own s number len outcome

theorem inv_init : Inv init [] where
  transId := rfl
  requests := nofun
  lenOk := trivial
  handler := trivial
  success := nofun
  leaving := nofun
  results := nofun

/-- The id of a request tells it from those sent less than 65536 requests later. -/
theorem Stamped.eq_of_transId {issued : Nat} (h : Stamped issued request)
    (hlate : issued < request.number + 0x10000)
    (heq : request.transId = (0xffff - bufferBeforeRollover + issued) % 0x10000) :
    request.number = issued := by
  obtain ⟨hle, htrans⟩ := h
  unfold bufferBeforeRollover at htrans heq
  omega

theorem Stamped.mono {issued issued' : Nat} (h : Stamped issued request) (hle : issued ≤ issued') :
    Stamped issued' request := ⟨Nat.le_trans h.1 hle, h.2⟩

theorem Own.mono {number : Nat} {outcome : Outcome} (h : Own s number len outcome)
    (hsub : s.replies ⊆ s'.replies) :
    Own s' number len outcome := by
  rcases h with h | ⟨reply, hin, h⟩
  · exact .inl h
  · exact .inr ⟨reply, hsub hin, h⟩

section

variable {s : State} {tr : Trace}

/-- A step that no call returns in. -/
theorem Inv.results_running (h : Inv s tr) (hsub : s.replies ⊆ s'.replies)
    (hr : ∀ number len outcome, r ≠ .returned number len outcome) :
    ∀ e' number len outcome, (e', .returned number len outcome) ∈ tr ++ [(e, r)] →
      Own s' number len outcome := by
  intro e' number len outcome hin
  rcases List.mem_append.1 hin with hin | hin
  · exact (h.results e' number len outcome hin).mono hsub
  · have heq := List.mem_singleton.1 hin
    cases heq
    exact absurd rfl (hr number len outcome)

/-- While no request is waited for, no response is taken or about to be. -/
theorem Inv.inactive (h : Inv s tr) (hp : s.caller.active = false) :
    s.prot.ioctlReceived ≠ .onSuccess ∧ ∀ request reply, s.handler ≠ .matched request reply := by
  constructor
  · intro hs
    have hact := (h.success hs).1
    rw [hp] at hact
    cases hact
  · intro request reply hm
    have hok := h.handler
    rw [hm] at hok
    have hact := hok.1
    rw [hp] at hact
    cases hact

/-- The handler goes on as before when no request is waited for after the step. -/
theorem Inv.handler_inactive (h : Inv s tr) (hsub : s.replies ⊆ s'.replies)
    (hhandler : s'.handler = s.handler) (hp : s'.caller.active = false)
    (hm : ∀ request reply, s.handler ≠ .matched request reply) (hissued : s.issued ≤ s'.issued) :
    HandlerOk s' s'.handler := by
  have hok := h.handler
  rw [hhandler]
  cases hh : s.handler with
  | idle => trivial
  | mismatched => trivial
  | matched request reply => exact absurd hh (hm request reply)
  | admitted request reply =>
    rw [hh] at hok
    refine ⟨hok.1.mono hissued, hsub hok.2.1, ?_⟩
    intro _ hact
    rw [hp] at hact
    cases hact

/-- The caller moves on while it is waiting. -/
theorem Inv.handler_active (h : Inv s tr) (hreplies : s'.replies = s.replies)
    (hhandler : s'.handler = s.handler) (hissued : s'.issued = s.issued)
    (hwas : s.caller.active = true) (hnow : s'.caller.active = true)
    (hresp : s'.prot.respPending = s.prot.respPending)
    (hplace : s.handler = .idle ∨ (s'.prot.ioctlResplen = s.prot.ioctlResplen ∧
      s'.prot.ioctlStatus = s.prot.ioctlStatus)) : HandlerOk s' s'.handler := by
  have hok := h.handler
  rw [hhandler]
  cases hh : s.handler with
  | idle => trivial
  | mismatched => trivial
  | admitted request reply =>
    rw [hh] at hok
    unfold HandlerOk
    rw [hissued, hreplies, hresp]
    exact ⟨hok.1, hok.2.1, fun heq _ => hok.2.2 heq hwas⟩
  | matched request reply =>
    rw [hh] at hok hplace
    obtain ⟨hlen, hstatus⟩ := hplace.resolve_left nofun
    unfold HandlerOk
    rw [hissued, hreplies, hresp, hlen, hstatus]
    exact ⟨hnow, hok.2⟩

theorem ioctl_inv (h : Inv s tr) (hp : s.caller = .idle) (e : Call) (cmd len : Nat)
    (busError : Bool) :
    Inv (ioctl s cmd len busError).1 (tr ++ [(e, (ioctl s cmd len busError).2)]) := by
  have hidle : s.caller.active = false := by
    rw [hp]
    rfl
  obtain ⟨hno, hm⟩ := h.inactive hidle
  have hsame : ∀ r : Result, (∀ number len outcome, r ≠ .returned number len outcome) →
      Inv s (tr ++ [(e, r)]) := fun r hr =>
    { h with results := h.results_running (List.Subset.refl _) hr }
  unfold ioctl
  split
  · exact hsame _ nofun
  · split
    · exact hsame _ nofun
    · next hlen =>
      split
      · exact hsame _ nofun
      · exact
          { transId := h.transId
            requests := h.requests
            lenOk := Nat.not_lt.1 hlen
            handler := h.handler_inactive (List.Subset.refl _) rfl rfl hm (Nat.le_refl _)
            success := fun hs => absurd hs hno
            leaving := nofun
            results := h.results_running (List.Subset.refl _) nofun }

theorem describe_inv (h : Inv s tr) {cmd : Nat} (hp : s.caller = .reserved cmd len) (e : Call)
    (space : Bool) :
    Inv (describe s cmd len space).1 (tr ++ [(e, (describe s cmd len space).2)]) := by
  have hidle : s.caller.active = false := by
    rw [hp]
    rfl
  have hlen := h.lenOk
  rw [hp] at hlen
  obtain ⟨hno, hm⟩ := h.inactive hidle
  unfold describe
  split
  · exact
      { transId := h.transId
        requests := h.requests
        lenOk := trivial
        handler := h.handler_inactive (List.Subset.refl _) rfl rfl hm (Nat.le_refl _)
        success := nofun
        leaving := nofun
        results := h.results_running (List.Subset.refl _) nofun }
  · exact
      { transId := h.transId
        requests := h.requests
        lenOk := hlen
        handler := h.handler_inactive (List.Subset.refl _) rfl rfl hm (Nat.le_refl _)
        success := fun hs => absurd hs hno
        leaving := nofun
        results := h.results_running (List.Subset.refl _) nofun }

theorem submit_inv (h : Inv s tr) {cmd : Nat} (hp : s.caller = .described cmd len) (e : Call) :
    Inv (submit s cmd len) (tr ++ [(e, .running)]) := by
  have hidle : s.caller.active = false := by
    rw [hp]
    rfl
  have hlen := h.lenOk
  rw [hp] at hlen
  obtain ⟨hno, hm⟩ := h.inactive hidle
  have htrans : (s.prot.ioctlTransId + 1) % 0x10000 =
      (0xffff - bufferBeforeRollover + (s.issued + 1)) % 0x10000 := by
    rw [h.transId]
    omega
  refine ⟨htrans, ?_, hlen, ?_, fun hs => absurd hs hno, nofun,
    h.results_running (List.Subset.refl _) nofun⟩
  · intro request hin
    unfold submit at hin ⊢
    dsimp only at hin ⊢
    rw [List.append_assoc, List.mem_append, List.singleton_append, List.mem_cons] at hin
    rcases hin with hin | rfl | hin
    · exact (h.requests request (List.mem_append_left _ hin)).mono (Nat.le_succ _)
    · exact ⟨Nat.le_refl _, htrans⟩
    · exact (h.requests request (List.mem_append_right _ hin)).mono (Nat.le_succ _)
  · -- what the handler has in hand belongs to an earlier request
    have hok := h.handler
    cases hh : s.handler with
    | idle =>
      unfold submit
      dsimp only
      rw [hh]
      trivial
    | mismatched =>
      unfold submit
      dsimp only
      rw [hh]
      trivial
    | matched request reply => exact absurd hh (hm request reply)
    | admitted request reply =>
      rw [hh] at hok
      have hle := hok.1.1
      unfold submit
      dsimp only
      rw [hh]
      refine ⟨hok.1.mono (Nat.le_succ _), hok.2.1, ?_⟩
      intro heq
      dsimp only at heq
      omega

/-- The caller moves on while its request is pending. -/
theorem Inv.of_caller (h : Inv s tr) {caller : Caller} {flag : Bool} (e : Call)
    (hwas : s.caller.active = true) (hnow : caller.active = true) (hlen : LenOk caller)
    (hattend : caller.attending = true → s.caller.attending = true)
    (hleave : ∀ len outcome, caller = .leaving len outcome → outcome = .error) :
    Inv { s with iovarTimeoutOccured := flag, caller := caller } (tr ++ [(e, .running)]) where
  transId := h.transId
  requests := h.requests
  lenOk := hlen
  handler := h.handler_active rfl rfl rfl hwas hnow rfl (.inr ⟨rfl, rfl⟩)
  success := by
    intro hs
    obtain ⟨-, hidle, hresp, hholds⟩ := h.success hs
    exact ⟨hnow, hidle, hresp, fun ha => hholds (hattend ha)⟩
  leaving := fun len outcome hl => .inl (hleave len outcome hl)
  results := h.results_running (List.Subset.refl _) nofun

theorem checkBus_inv (h : Inv s tr) (hp : s.caller = .submitted len) (e : Call) (busError : Bool) :
    Inv (checkBus s len busError) (tr ++ [(e, .running)]) := by
  have hact : s.caller.active = true ∧ s.caller.attending = true := by
    rw [hp]
    exact ⟨rfl, rfl⟩
  have hlen := h.lenOk
  rw [hp] at hlen
  unfold checkBus
  cases hb : busError || s.iovarTimeoutOccured with
  | true =>
    refine h.of_caller e hact.1 rfl hlen nofun ?_
    intro len' outcome hl
    cases hl
    rfl
  | false => exact h.of_caller e hact.1 rfl hlen (fun _ => hact.2) nofun

theorem wait_inv (h : Inv s tr) (hp : s.caller = .waiting len) (e : Call)
    (trapped linkGood : Bool) : Inv (wait s len trapped linkGood) (tr ++ [(e, .running)]) := by
  have hact : s.caller.active = true ∧ s.caller.attending = true := by
    rw [hp]
    exact ⟨rfl, rfl⟩
  have hlen := h.lenOk
  rw [hp] at hlen
  have hleave : ∀ len' outcome, Caller.leaving len .error = .leaving len' outcome →
      outcome = .error := by
    intro len' outcome hl
    cases hl
    rfl
  unfold wait
  split
  · exact h.of_caller e hact.1 rfl hlen (fun _ => hact.2) nofun
  · split
    · exact h.of_caller e hact.1 rfl hlen nofun hleave
    · exact h.of_caller e hact.1 rfl hlen nofun hleave

theorem collect_inv (h : Inv s tr) (hp : s.caller = .woken len) (e : Call) :
    Inv (collect s len) (tr ++ [(e, .running)]) := by
  have hact : s.caller.active = true ∧ s.caller.attending = true := by
    rw [hp]
    exact ⟨rfl, rfl⟩
  have hlen := h.lenOk
  rw [hp] at hlen
  unfold collect
  split
  · refine h.of_caller e hact.1 rfl hlen nofun ?_
    intro len' outcome hl
    cases hl
    rfl
  · next hs =>
    rw [not_not] at hs
    obtain ⟨-, hidle, hresp, hholds⟩ := h.success hs
    obtain ⟨reply, hin, hresplen, hstatus, hretbuf⟩ := hholds hact.2
    have hdata : (List.range (min s.prot.ioctlResplen len)).map s.prot.retbuf =
        (List.range (min reply.respLen.toNat len)).map reply.payload := by
      rw [hresplen]
      apply List.map_congr_left
      intro i hi
      rw [List.mem_range, Nat.lt_min] at hi
      refine hretbuf i (by rw [hresplen]; exact hi.1) ?_
      unfold LenOk at hlen
      unfold ioctRetbufSize
      omega
    exact
      { transId := h.transId
        requests := h.requests
        lenOk := hlen
        handler := h.handler_active rfl rfl rfl hact.1 rfl rfl (.inl hidle)
        success := fun _ => ⟨rfl, hidle, hresp, nofun⟩
        leaving := by
          intro len' outcome hl
          cases hl
          refine .inr ⟨reply, hin, ?_⟩
          unfold receive
          rw [← hdata, hstatus]
        results := h.results_running (List.Subset.refl _) nofun }

theorem finish_inv (h : Inv s tr) {outcome : Outcome} (hp : s.caller = .leaving len outcome)
    (e : Call) (hm : ∀ request reply, s.handler ≠ .matched request reply) :
    Inv (finish s) (tr ++ [(e, .returned s.issued len outcome)]) where
  transId := h.transId
  requests := h.requests
  lenOk := trivial
  handler := h.handler_inactive (List.Subset.refl _) rfl rfl hm (Nat.le_refl _)
  success := nofun
  leaving := nofun
  results := by
    intro e' number len' outcome' hin
    rcases List.mem_append.1 hin with hin | hin
    · exact h.results e' number len' outcome' hin
    · cases List.mem_singleton.1 hin
      exact h.leaving len outcome hp

theorem ack_inv (h : Inv s tr) (hp : s.handler = .idle) {rest : List Request}
    (hq : s.toAck = request :: rest) (e : Call) :
    Inv (ioctackProcess { s with toAck := rest, toAnswer := s.toAnswer ++ [request] })
      (tr ++ [(e, .running)]) := by
  have hreq : ∀ x ∈ rest ++ (s.toAnswer ++ [request]), Stamped s.issued x := by
    intro x hx
    apply h.requests
    rw [hq]
    simp only [List.mem_append, List.mem_cons, List.not_mem_nil, or_false] at hx ⊢
    tauto
  have h' : Inv { s with toAck := rest, toAnswer := s.toAnswer ++ [request] }
      (tr ++ [(e, .running)]) :=
    { transId := h.transId
      requests := hreq
      lenOk := h.lenOk
      handler := by
        dsimp only
        rw [hp]
        trivial
      success := h.success
      leaving := h.leaving
      results := h.results_running (List.Subset.refl _) nofun }
  unfold ioctackProcess
  split
  · exact
      { h' with
        handler := by
          dsimp only
          rw [hp]
          trivial }
  · exact h'

theorem answer_inv (h : Inv s tr) (hp : s.handler = .idle) {rest : List Request}
    (hq : s.toAnswer = request :: rest) (e : Call) (reply : Reply) (dropped : Bool) :
    Inv (clearPending { s with
        toAnswer := rest
        replies := (request.number, reply) :: s.replies } request reply dropped)
      (tr ++ [(e, .running)]) := by
  have hsub : s.replies ⊆ (request.number, reply) :: s.replies := List.subset_cons_self _ _
  have hstamped : Stamped s.issued request := by
    apply h.requests
    rw [hq]
    exact List.mem_append_right _ List.mem_cons_self
  have hreq : ∀ x ∈ s.toAck ++ rest, Stamped s.issued x := by
    intro x hx
    apply h.requests
    rw [hq]
    rw [List.mem_append] at hx ⊢
    exact hx.imp_right (List.mem_cons_of_mem _)
  have h' : Inv { s with toAnswer := rest, replies := (request.number, reply) :: s.replies }
      (tr ++ [(e, .running)]) :=
    { transId := h.transId
      requests := hreq
      lenOk := h.lenOk
      handler := by
        dsimp only
        rw [hp]
        trivial
      success := by
        intro hs
        obtain ⟨hact, hidle, hresp, hholds⟩ := h.success hs
        refine ⟨hact, hidle, hresp, ?_⟩
        intro ha
        obtain ⟨reply', hin, hold⟩ := hholds ha
        exact ⟨reply', hsub hin, hold⟩
      leaving := fun len outcome hl => (h.leaving len outcome hl).mono hsub
      results := h.results_running hsub nofun }
  unfold clearPending
  split
  · exact h'
  · next hbits =>
    simp only [Bool.or_eq_true, not_or, Bool.not_eq_true, Bool.not_eq_false'] at hbits
    exact
      { h' with
        handler := ⟨hstamped, List.mem_cons_self, fun _ _ => rfl⟩
        success := by
          intro hs
          have hresp := (h.success hs).2.2.1
          rw [hbits.2] at hresp
          cases hresp }

theorem compare_inv (h : Inv s tr) {reply : Reply} (hp : s.handler = .admitted request reply)
    (hlate : s.issued < request.number + 0x10000)
    (hwait : expected s request = true → s.caller.active = true) (e : Call) (pktOk : Bool) :
    Inv (compare s request reply pktOk) (tr ++ [(e, .running)]) := by
  have hok := h.handler
  rw [hp] at hok
  obtain ⟨hstamped, hin, hresp⟩ := hok
  have hno : s.prot.ioctlReceived ≠ .onSuccess := by
    intro hs
    have hidle := (h.success hs).2.1
    rw [hp] at hidle
    cases hidle
  unfold compare
  split
  · exact
      { transId := h.transId
        requests := h.requests
        lenOk := h.lenOk
        handler := trivial
        success := fun hs => absurd hs hno
        leaving := h.leaving
        results := h.results_running (List.Subset.refl _) nofun }
  · refine ⟨h.transId, h.requests, h.lenOk, ?_, fun hs => absurd hs hno, h.leaving,
      h.results_running (List.Subset.refl _) nofun⟩
    dsimp only
    split
    · next hexp =>
      have hact := hwait hexp
      unfold expected at hexp
      rw [Bool.and_eq_true, beq_iff_eq, h.transId] at hexp
      have hnumber := hstamped.eq_of_transId hlate hexp.1
      refine ⟨hact, hresp hnumber hact, ?_, rfl, rfl⟩
      rw [← hnumber]
      exact hin
    · trivial

theorem wakeSuccess_inv (h : Inv s tr) {reply : Reply} (hp : s.handler = .matched request reply)
    (e : Call) :
    Inv (wakeSuccess s reply) (tr ++ [(e, .running)]) := by
  have hok := h.handler
  rw [hp] at hok
  obtain ⟨hact, hresp, hin, hlen, hstatus⟩ := hok
  refine ⟨h.transId, h.requests, h.lenOk, trivial, ?_, h.leaving,
    h.results_running (List.Subset.refl _) nofun⟩
  intro _
  refine ⟨hact, rfl, hresp, fun _ => ⟨reply, hin, hlen, hstatus, ?_⟩⟩
  intro i hi hsize
  exact if_pos (Nat.lt_min.2 ⟨hi, hsize⟩)

/-- The caller is told of an error. -/
theorem Inv.of_error (h : Inv s tr) {handler : Handler} {received : Received} (e : Call)
    (hhandler : HandlerOk s handler) (hr : received ≠ .onSuccess) :
    Inv { s with prot := { s.prot with ioctlReceived := received }, handler := handler }
      (tr ++ [(e, .running)]) where
  transId := h.transId
  requests := h.requests
  lenOk := h.lenOk
  handler := by
    cases handler with
    | idle => trivial
    | mismatched => trivial
    | admitted => exact hhandler
    | matched => exact hhandler
  success := fun hs => absurd hs hr
  leaving := h.leaving
  results := h.results_running (List.Subset.refl _) nofun

/-! ## Runs -/

theorem step_inv (h : Inv s tr) (hc : undivided s e = true) (hs : step s e = some (s', r)) :
    Inv s' (tr ++ [(e, r)]) := by
  cases step_moves hs with
  | ioctl cmd len busError hp => exact ioctl_inv h hp _ cmd len busError
  | describe cmd len space hp => exact describe_inv h hp _ space
  | submit cmd len hp => exact submit_inv h hp _
  | checkBus len busError hp => exact checkBus_inv h hp _ busError
  | wait len trapped linkGood hp => exact wait_inv h hp _ trapped linkGood
  | collect len hp => exact collect_inv h hp _
  | finish len outcome hp =>
    refine finish_inv h hp _ ?_
    intro request reply hm
    unfold undivided at hc
    dsimp only at hc
    rw [hm] at hc
    cases hc
  | ack request rest hp hq => exact ack_inv h hp hq _
  | answer request rest reply dropped hp hq => exact answer_inv h hp hq _ reply dropped
  | compare request reply pktOk hp hlate =>
    refine compare_inv h hp hlate ?_ _ pktOk
    intro hexp
    unfold undivided at hc
    dsimp only at hc
    rw [hp] at hc
    dsimp only at hc
    rwa [hexp, Bool.not_true, Bool.false_or] at hc
  | wakeSuccess request reply hp => exact wakeSuccess_inv h hp _
  | wakeError hp => exact h.of_error _ trivial nofun
  | abort stopped =>
    refine h.of_error _ h.handler ?_
    cases stopped with
    | true => nofun
    | false => nofun
  | recover =>
    refine { h with handler := ?_, results := h.results_running (List.Subset.refl _) nofun }
    have hok := h.handler
    dsimp only
    cases hh : s.handler with
    | idle => trivial
    | mismatched => trivial
    | admitted =>
      rw [hh] at hok
      exact hok
    | matched =>
      rw [hh] at hok
      exact hok

end

/-- **An ioctl is answered by its own response.**  After every call `ioctl_state` is 0, so that
none is refused as busy.  In every run in which a response matches only while a request is waited
for, and no call returns between the match and the wake-up, a call returns an error or the payload,
length and status that the dongle answered to the call's own request. -/
theorem ioctl_own_response (es : List Call) (s : State) (tr : Trace)
    (h : runs step init es = some (s, tr)) :
    (s.caller = .idle → s.prot.ackPending = false ∧ s.prot.respPending = false) ∧
    (∀ e ∈ tr, e.2 ≠ .busy) ∧
    (meets step undivided init es = true →
      ∀ e number len outcome, (e, .returned number len outcome) ∈ tr →
        Own s number len outcome) := by
  have hquiet := runs_quiet h
  refine ⟨hquiet.clear, hquiet.admitted, ?_⟩
  intro hm
  have hinv : Inv s tr :=
    runs_inv_of_meets step undivided Inv (fun _ _ _ _ _ hi hc hs => step_inv hi hc hs) _ _ es tr
      inv_init hm h
  exact hinv.results

/-- A reply of four bytes. -/
def fourBytes (status : Int16) : Reply := ⟨status, 4, fun i => UInt8.ofNat i⟩

/-- The first call times out, and its response comes while the second one waits; the response to
the second comes when no call is made; the third is answered. -/
def lateResponses : List Call :=
  [.ioctl 262 100 false, .describe true, .submit, .checkBus false, .wait false false, .finish,
    .ioctl 262 100 false, .describe true, .submit, .checkBus false, .ack,
    .answer (fourBytes 0) false, .compare true, .wake, .wait false true, .collect, .finish,
    .recover, .ack, .answer (fourBytes 1) false,
    .ioctl 263 2 false, .describe true, .submit, .ack, .answer (fourBytes 2) false, .compare true,
    .wake, .checkBus false, .wait false true, .collect, .finish]

theorem ioctl_own_response_two : ∃ s tr, runs step init lateResponses = some (s, tr) ∧
    (∀ e ∈ tr, e.2 ≠ .busy) ∧
    ∀ e number len outcome, (e, .returned number len outcome) ∈ tr → Own s number len outcome := by
  obtain ⟨-, hbusy, hown⟩ := ioctl_own_response lateResponses _ _ rfl
  exact ⟨_, _, rfl, hbusy, hown (by decide)⟩

/-- The call returns between the match of its response and the wake-up: the next call finds
`ioctl_received` set and takes the status of the earlier response, with no data. -/
theorem ioctl_own_response_fails : ∃ s tr,
    runs step init
      [.ioctl 262 100 false, .describe true, .submit, .checkBus false, .ack,
        .answer (fourBytes 0) false, .compare true, .wait false false, .finish, .wake,
        .ioctl 262 100 false, .describe true, .submit, .checkBus false, .wait false true,
        .collect, .finish] = some (s, tr) ∧
    ¬ ∀ e number len outcome, (e, .returned number len outcome) ∈ tr →
      Own s number len outcome := by
  refine ⟨_, _, rfl, ?_⟩
  intro hall
  have hown := hall .finish 2 100 (.response [] 0)
    (List.mem_of_getLast? (by rfl))
  rcases hown with herr | ⟨reply, hin, -⟩
  · cases herr
  · -- the dongle has not answered the second request
    rcases List.mem_singleton.1 hin

end Bcmdhd.Ioctl
