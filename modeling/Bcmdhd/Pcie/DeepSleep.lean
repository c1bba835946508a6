import Bcmdhd.Lib.Between
import Bcmdhd.Lib.Runs

/-!
# Deep sleep of the device (`PCIE_INB_DW`)

The device asks to be let into deep sleep (`D2H_DEV_DS_ENTER_REQ`), and the host lets it with
`H2D_HOST_DS_ACK`.  A context that has work for the device counts itself in `host_active_cnt`, wakes
the device if it has been let (`H2DMB_DS_DEVICE_WAKE_ASSERT`, `D2H_DEV_DS_EXIT_NOTE`), posts its
work, and leaves; the last one to leave answers a request that has come meanwhile.  Contexts, the
messages of the device, the watchdog and a suspend are interleaved in any order; each of them holds
`inb_lock` for one step below.

    H2D_HOST_DS_ACK is sent  →  no context is inside, and no suspend is under way
    a request waits for its answer outside a suspend  →
      a context is inside, and the last one to leave answers it
                                                                        (deep_sleep_acks)
    between H2D_HOST_DS_ACK and an item posted the device has been woken
                                                                        (posts_after_wake)
-/

namespace Bcmdhd.DeepSleep

abbrev Id := Nat

/-! ## Algorithm -/

/-- `enum dhd_bus_ds_state`, for the states that are ever set -/
inductive DsState
  | devSleep | devSleepPend | disabledWait | devWake | active | hostSleepWait | hostSleep
  | hostWakeWait
  deriving DecidableEq

/-- Mailbox messages to and from the device, and items posted for it by a context. -/
inductive Msg
  | dsAck | deviceWakeAssert | deviceWakeDeassert | d3Inform
  | dsEnterReq | dsExitNote | hostSleepExitAck
  | post (c : Id)
  deriving DecidableEq

/-- How far a context is: it has counted itself, waits for `wait_for_ds_exit`, has got
`BCME_OK`, or an error. -/
inductive Phase
  | out | counted | waiting | granted | failed
  deriving DecidableEq

/-- How far a suspend is (`dhdpcie_bus_suspend`). -/
inductive Suspend
  | awake | begun | waiting | asserted | deasserted | marked | informed | suspended
  deriving DecidableEq

/-- In-band device wake is enabled, and `dhd_doorbell_timeout` is not 0. -/
structure State where
  dsState : DsState
  hostActiveCnt : Nat
  skipDsAck : Bool
  waitForDsExit : Bool
  phase : Id → Phase
  suspend : Suspend

/-- `dhd_prot_init` -/
def State.init : State where
  dsState := .active
  hostActiveCnt := 0
  skipDsAck := false
  waitForDsExit := false
  phase := fun _ => .out
  suspend := .awake

def State.goto (s : State) (c : Id) (x : Phase) : State :=
  { s with phase := Function.update s.phase c x }

/-- `dhdpcie_send_mb_data`, which may fail -/
def send (sent : Bool) (m : Msg) : List Msg := if sent then [m] else []

/-- `dhd_bus_inb_ack_pending_ds_req`; whether the message is sent is not looked at. -/
def inbAckPendingDsReq (s : State) (sent : Bool) : State × List Msg :=
  if s.dsState = .devSleepPend ∧ s.hostActiveCnt = 0 ∧ s.skipDsAck = false then
    ({ s with dsState := .devSleep }, send sent .dsAck)
  else (s, [])

inductive Wake
  | error | ok | wait
  deriving DecidableEq

/-- The device has been told to wake up: who cannot sleep takes it to be awake after 1 ms. -/
def awaitExit (s : State) (canSleep : Bool) : State × Wake :=
  if canSleep then (s, .wait) else ({ s with dsState := .devWake }, .ok)

/-- `dhd_bus_inb_set_device_wake` with TRUE, up to the wait -/
def inbAssert (s : State) (sent canSleep : Bool) : State × List Msg × Wake :=
  match s.dsState with
  | .devSleep =>
    let s := { s with waitForDsExit := false }
    if sent then
      let r := awaitExit { s with dsState := .disabledWait } canSleep
      (r.1, [.deviceWakeAssert], r.2)
    else (s, [], .error)
  | .disabledWait =>
    let r := awaitExit s canSleep
    (r.1, [], r.2)
  | _ => (s, [], .ok)

/-- `dhd_bus_inb_set_device_wake` with FALSE -/
def inbDeassert (s : State) (sent : Bool) : State × List Msg :=
  if s.dsState = .devWake then
    if sent then ({ s with dsState := .active }, [.deviceWakeDeassert]) else (s, [])
  else inbAckPendingDsReq s sent

/-- `D2H_DEV_DS_ENTER_REQ` in `dhd_bus_handle_mb_data` -/
def handleDsEnterReq (s : State) (sent : Bool) : State × List Msg :=
  if s.skipDsAck then (s, [.dsEnterReq])
  else if s.dsState = .active then
    if s.hostActiveCnt = 0 then
      ({ s with dsState := .devSleep }, .dsEnterReq :: send sent .dsAck)
    else ({ s with dsState := .devSleepPend }, [.dsEnterReq])
  else (s, [.dsEnterReq])

/-- `D2H_DEV_DS_EXIT_NOTE`; the device wake is deasserted in a step of its own. -/
def handleDsExitNote (s : State) : State :=
  match s.dsState with
  | .disabledWait => { s with waitForDsExit := true, dsState := .devWake }
  | .devSleep => { s with dsState := .devWake }
  | _ => s

inductive Act
  /-- `dhd_prot_inc_hostactive_devwake_assert`, in four steps -/
  | incHostactive (c : Id)
  | devwakeAssert (c : Id) (sent canSleep : Bool)
  | dsExitWait (c : Id) (timeleft : Bool)
  | devwakeFailed (c : Id) (sent : Bool)
  | post (c : Id)
  /-- `dhd_prot_dec_hostactive_ack_pending_dsreq` -/
  | decHostactive (c : Id) (sent : Bool)
  | dsEnterReq (sent : Bool)
  | dsExitNote
  | hostSleepExitAck
  /-- by the watchdog, or after a `D2H_DEV_DS_EXIT_NOTE` -/
  | deassert (sent : Bool)
  | suspendBegin
  | suspendAssert (sent canSleep : Bool)
  | suspendWaited
  | suspendDeassert (sent : Bool)
  | suspendMark
  | suspendInform (sent : Bool)
  | suspendAcked
  /-- a wake lock is held -/
  | suspendAborted
  | suspendTimedOut
  | resume

def Wake.phase : Wake → Phase
  | .error => .failed
  | .ok => .granted
  | .wait => .waiting

def Wake.stage : Wake → Suspend
  | .wait => .waiting
  | _ => .asserted

/-- `host_active_cnt--`, and the answer to a request that has come meanwhile -/
def leave (s : State) (c : Id) (sent : Bool) : State × List Msg :=
  inbAckPendingDsReq ({ s with hostActiveCnt := s.hostActiveCnt - 1 }.goto c .out) sent

/-- Each section that holds `inb_lock` is a step. -/
def step (s : State) : Act → Option (State × List Msg)
  | .incHostactive c =>
    if s.phase c = .out then
      some ({ s with hostActiveCnt := s.hostActiveCnt + 1 }.goto c .counted, [])
    else none
  | .devwakeAssert c sent canSleep =>
    if s.phase c = .counted then
      let r := inbAssert s sent canSleep
      some (r.1.goto c r.2.2.phase, r.2.1)
    else none
  | .dsExitWait c timeleft =>
    if s.phase c = .waiting then
      some (s.goto c (if s.waitForDsExit && timeleft then .granted else .failed), [])
    else none
  | .devwakeFailed c sent => if s.phase c = .failed then some (leave s c sent) else none
  | .post c => if s.phase c = .granted then some (s, [.post c]) else none
  | .decHostactive c sent => if s.phase c = .granted then some (leave s c sent) else none
  | .dsEnterReq sent => if s.suspend = .suspended then none else some (handleDsEnterReq s sent)
  | .dsExitNote => some (handleDsExitNote s, [.dsExitNote])
  | .hostSleepExitAck =>
    some (if s.dsState = .hostWakeWait then { s with dsState := .active } else s,
      [.hostSleepExitAck])
  | .deassert sent => some (inbDeassert s sent)
  | .suspendBegin =>
    if s.suspend = .awake then some ({ s with suspend := .begun, skipDsAck := true }, []) else none
  | .suspendAssert sent canSleep =>
    if s.suspend = .begun then
      let r := inbAssert s sent canSleep
      some ({ r.1 with suspend := r.2.2.stage }, r.2.1)
    else none
  | .suspendWaited =>
    if s.suspend = .waiting then some ({ s with suspend := .asserted }, []) else none
  | .suspendDeassert sent =>
    if s.suspend = .asserted then
      let r := inbDeassert s sent
      some ({ r.1 with suspend := .deasserted }, r.2)
    else none
  | .suspendMark =>
    if s.suspend = .deasserted then
      some ({ s with suspend := .marked, dsState := .hostSleepWait }, [])
    else none
  | .suspendInform sent =>
    if s.suspend = .marked then some ({ s with suspend := .informed }, send sent .d3Inform)
    else none
  | .suspendAcked =>
    if s.suspend = .informed then
      some ({ s with
        suspend := .suspended
        dsState := if s.dsState = .hostSleepWait then .hostSleep else s.dsState }, [])
    else none
  | .suspendAborted =>
    if s.suspend = .informed then
      some ({ s with suspend := .awake, dsState := .hostWakeWait, skipDsAck := false }, [])
    else none
  | .suspendTimedOut =>
    if s.suspend = .informed then some ({ s with suspend := .awake }, []) else none
  | .resume =>
    if s.suspend = .suspended then
      some ({ s with
        suspend := .awake
        dsState := if s.dsState = .hostSleep then .hostWakeWait else s.dsState
        skipDsAck := false }, [])
    else none

/-! ## What a section does -/

variable {r : State × List Msg} {l : List Msg} {s t : State} {c : Id} {a : Act}

theorem guarded {p : Prop} [Decidable p] {x : State × List Msg}
    (hs : (if p then some x else none) = some r) : p ∧ x = r :=
  (Option.ite_none_right_eq_some.mp hs).imp_right Option.some.inj

theorem ack_cases (s : State) (sent : Bool) : inbAckPendingDsReq s sent = (s, []) ∨
    s.dsState = .devSleepPend ∧ s.hostActiveCnt = 0 ∧ s.skipDsAck = false ∧
      inbAckPendingDsReq s sent = ({ s with dsState := .devSleep }, send sent .dsAck) := by
  unfold inbAckPendingDsReq
  split
  · next h => exact Or.inr ⟨h.1, h.2.1, h.2.2, rfl⟩
  · exact Or.inl rfl

theorem mem_send {sent : Bool} {m x : Msg} (h : x ∈ send sent m) : x = m := by
  unfold send at h
  split at h
  · exact List.mem_singleton.mp h
  · cases h

/-- One answer to a request that is still waiting for it. -/
theorem answer_le (sent : Bool) (h : l.count .dsAck + 1 ≤ l.count .dsEnterReq) :
    (l ++ send sent .dsAck).count .dsAck ≤ (l ++ send sent .dsAck).count .dsEnterReq := by
  unfold send
  cases sent
  · rw [if_neg nofun, List.append_nil]
    exact Nat.le_of_succ_le h
  · rw [if_pos rfl, List.count_append, List.count_append]
    exact h

/-- What asserting the device wake can do. -/
inductive Asserts (s : State) : State × List Msg × Wake → Prop
  | wakes : s.dsState = .devSleep → Asserts s
      ({ s with waitForDsExit := false, dsState := .disabledWait }, [.deviceWakeAssert], .wait)
  | forced : s.dsState = .devSleep → Asserts s
      ({ s with waitForDsExit := false, dsState := .devWake }, [.deviceWakeAssert], .ok)
  | refused : s.dsState = .devSleep → Asserts s ({ s with waitForDsExit := false }, [], .error)
  | joins : s.dsState = .disabledWait → Asserts s (s, [], .wait)
  | joinsForced : s.dsState = .disabledWait → Asserts s ({ s with dsState := .devWake }, [], .ok)
  | awake : s.dsState ≠ .devSleep → s.dsState ≠ .disabledWait → Asserts s (s, [], .ok)

theorem asserts (s : State) (sent canSleep : Bool) : Asserts s (inbAssert s sent canSleep) := by
  unfold inbAssert awaitExit
  split
  · next hd =>
    cases sent
    · exact .refused hd
    · cases canSleep
      · exact .forced hd
      · exact .wakes hd
  · next hd =>
    cases canSleep
    · exact .joinsForced hd
    · exact .joins hd
  · next hs hw => exact .awake hs hw

/-- A context inside is one that is counted. -/
def Active (s : State) : Prop :=
  ∃ cs : List Id, cs.Nodup ∧ (∀ c, c ∈ cs ↔ s.phase c ≠ .out) ∧ s.hostActiveCnt = cs.length

/-- What is known of each state, after the messages `l`. -/
structure Inv (s : State) (l : List Msg) : Prop where
  active : Active s
  asleep : s.dsState = .devSleep → ∀ c, s.phase c ≠ .granted ∧ s.phase c ≠ .waiting
  exiting : s.dsState = .disabledWait → s.waitForDsExit = false ∧ ∀ c, s.phase c ≠ .granted
  pend : s.dsState = .devSleepPend → s.skipDsAck = false → s.hostActiveCnt ≠ 0
  skip : s.skipDsAck = true → s.suspend = .begun ∨ s.suspend = .waiting ∨ s.suspend = .asserted ∨
    s.suspend = .deasserted ∨ s.dsState = .hostSleepWait ∨ s.dsState = .hostSleep
  staged : s.suspend ≠ .awake → s.skipDsAck = true
  acks : l.count .dsAck + (if s.dsState = .devSleepPend then 1 else 0) ≤ l.count .dsEnterReq

theorem inv_init : Inv .init [] where
  active := ⟨[], List.nodup_nil, fun _ => iff_of_false nofun fun h => h rfl, rfl⟩
  asleep := nofun
  exiting := nofun
  pend := nofun
  skip := nofun
  staged h := absurd rfl h
  acks := Nat.le_refl 0

/-- Nobody is inside if nobody is counted. -/
theorem Active.alone (h : Active s) (hc : s.hostActiveCnt = 0) (c : Id) :
    s.phase c = .out := by
  obtain ⟨cs, _, hm, hl⟩ := h
  by_contra hn
  have hmem := (hm c).mpr hn
  rw [List.length_eq_zero_iff.mp (hl.symm.trans hc)] at hmem
  cases hmem

theorem Active.enter (h : Active s) (hc : s.phase c = .out) {x : Phase} (hx : x ≠ .out) :
    Active ({ s with hostActiveCnt := s.hostActiveCnt + 1 }.goto c x) := by
  obtain ⟨cs, hnd, hm, hl⟩ := h
  refine ⟨c :: cs, List.nodup_cons.mpr ⟨fun hi => (hm c).mp hi hc, hnd⟩, fun d => ?_, ?_⟩
  · show _ ↔ Function.update s.phase c x d ≠ .out
    rw [List.mem_cons, hm d]
    by_cases hd : d = c
    · subst hd
      rw [Function.update_self]
      exact iff_of_true (Or.inl rfl) hx
    · rw [Function.update_of_ne hd]
      exact or_iff_right hd
  · show s.hostActiveCnt + 1 = (c :: cs).length
    rw [hl, List.length_cons]

theorem Active.goto (h : Active s) (hc : s.phase c ≠ .out) {x : Phase} (hx : x ≠ .out) :
    Active (s.goto c x) := by
  obtain ⟨cs, hnd, hm, hl⟩ := h
  refine ⟨cs, hnd, fun d => ?_, hl⟩
  show _ ↔ Function.update s.phase c x d ≠ .out
  rw [hm d]
  by_cases hd : d = c
  · subst hd
    rw [Function.update_self]
    exact iff_of_true hc hx
  · rw [Function.update_of_ne hd]

theorem Active.exit (h : Active s) (hc : s.phase c ≠ .out) :
    Active ({ s with hostActiveCnt := s.hostActiveCnt - 1 }.goto c .out) := by
  obtain ⟨cs, hnd, hm, hl⟩ := h
  refine ⟨cs.erase c, hnd.erase c, fun d => ?_, ?_⟩
  · show _ ↔ Function.update s.phase c .out d ≠ .out
    rw [hnd.mem_erase_iff, hm d]
    by_cases hd : d = c
    · subst hd
      rw [Function.update_self]
      exact iff_of_false (fun h => h.1 rfl) fun h => h rfl
    · rw [Function.update_of_ne hd]
      exact and_iff_right hd
  · show s.hostActiveCnt - 1 = (cs.erase c).length
    rw [hl, List.length_erase_of_mem ((hm c).mpr hc)]

/-! ## The invariant -/

section

variable {s : State} {l : List Msg}

/-- A context that is inside goes on. -/
theorem Inv.goto (h : Inv s l) {x : Phase} (hc : s.phase c ≠ .out) (hx : x ≠ .out)
    (hsleep : s.dsState = .devSleep → x ≠ .granted ∧ x ≠ .waiting)
    (hexit : s.dsState = .disabledWait → x ≠ .granted) : Inv (s.goto c x) l where
  active := h.active.goto hc hx
  asleep hs d := by
    show Function.update s.phase c x d ≠ _ ∧ Function.update s.phase c x d ≠ _
    by_cases hd : d = c
    · subst hd
      rw [Function.update_self]
      exact hsleep hs
    · rw [Function.update_of_ne hd]
      exact h.asleep hs d
  exiting hs := by
    refine ⟨(h.exiting hs).1, fun d => ?_⟩
    show Function.update s.phase c x d ≠ _
    by_cases hd : d = c
    · subst hd
      rw [Function.update_self]
      exact hexit hs
    · rw [Function.update_of_ne hd]
      exact (h.exiting hs).2 d
  pend := h.pend
  skip := h.skip
  staged := h.staged
  acks := h.acks

/-- A message that is no request and no answer. -/
theorem Inv.say (h : Inv s l) {ms : List Msg} (ha : Msg.dsAck ∉ ms) : Inv s (l ++ ms) where
  active := h.active
  asleep := h.asleep
  exiting := h.exiting
  pend := h.pend
  skip := h.skip
  staged := h.staged
  acks := by
    have hacks := h.acks
    rw [List.count_append, List.count_append, List.count_eq_zero_of_not_mem ha]
    omega

/-- The device is let into deep sleep with nobody inside. -/
theorem inv_answered (hc : Active s) (ha : s.hostActiveCnt = 0) (hs : s.skipDsAck = false)
    (hst : s.suspend ≠ .awake → s.skipDsAck = true) (hl : l.count .dsAck ≤ l.count .dsEnterReq) :
    Inv { s with dsState := .devSleep } l where
  active := hc
  asleep _ c := by
    rw [hc.alone ha c]
    exact ⟨nofun, nofun⟩
  exiting := nofun
  pend := nofun
  skip hk := nomatch hs.symm.trans hk
  staged := hst
  acks := hl

theorem Inv.ackPending (h : Inv s l) (sent : Bool) :
    Inv (inbAckPendingDsReq s sent).1 (l ++ (inbAckPendingDsReq s sent).2) := by
  rcases ack_cases s sent with he | ⟨hp, ha, hs, he⟩
  · rw [he, List.append_nil]
    exact h
  · rw [he]
    have hacks := h.acks
    rw [if_pos hp] at hacks
    exact inv_answered h.active ha hs h.staged (answer_le sent hacks)

/-- The state changes between states without a request that waits. -/
theorem Inv.turn (h : Inv s l) (x : DsState) (b : Bool)
    (hs : s.skipDsAck = true → s.dsState = .hostSleepWait ∨ s.dsState = .hostSleep →
      x = .hostSleepWait ∨ x = .hostSleep)
    (hx : x ≠ .devSleep ∧ x ≠ .disabledWait ∧ x ≠ .devSleepPend) :
    Inv { s with waitForDsExit := b, dsState := x } l where
  active := h.active
  asleep he := absurd he hx.1
  exiting he := absurd he hx.2.1
  pend he := absurd he hx.2.2
  skip hk := by
    rcases h.skip hk with hb | hb | hb | hb | hb
    · exact Or.inl hb
    · exact Or.inr (Or.inl hb)
    · exact Or.inr (Or.inr (Or.inl hb))
    · exact Or.inr (Or.inr (Or.inr (Or.inl hb)))
    · exact Or.inr (Or.inr (Or.inr (Or.inr (hs hk hb))))
  staged := h.staged
  acks := by
    have hacks := h.acks
    rw [if_neg hx.2.2]
    omega

/-- The flag that is waited for is cleared while nobody waits for it. -/
theorem Inv.clear (h : Inv s l) : Inv { s with waitForDsExit := false } l where
  active := h.active
  asleep := h.asleep
  exiting he := ⟨rfl, (h.exiting he).2⟩
  pend := h.pend
  skip := h.skip
  staged := h.staged
  acks := h.acks

/-- From deep sleep to the wait for the exit from it. -/
theorem Inv.disable (h : Inv s l) (hd : s.dsState = .devSleep) :
    Inv { s with waitForDsExit := false, dsState := .disabledWait } l where
  active := h.active
  asleep := nofun
  exiting _ := ⟨rfl, fun c => (h.asleep hd c).1⟩
  pend := nofun
  skip hk := by
    have hs := h.skip hk
    rw [hd] at hs
    simpa using hs
  staged := h.staged
  acks := by
    have hacks := h.acks
    rw [if_neg nofun]
    omega

theorem not_suspended {x : DsState} (hx : x ≠ .hostSleepWait ∧ x ≠ .hostSleep) {P : Prop}
    (h : x = .hostSleepWait ∨ x = .hostSleep) : P :=
  absurd h (not_or.mpr hx)

theorem Inv.assert {r : State × List Msg × Wake} (h : Inv s l) (hr : Asserts s r) :
    Inv r.1 (l ++ r.2.1) := by
  cases hr with
  | wakes hd =>
    exact (h.disable hd).say nofun
  | forced hd =>
    refine Inv.say (h.turn .devWake false (fun _ => ?_) ⟨nofun, nofun, nofun⟩) nofun
    exact not_suspended (by rw [hd]; exact ⟨nofun, nofun⟩)
  | refused hd =>
    rw [List.append_nil]
    exact h.clear
  | joins hd =>
    rw [List.append_nil]
    exact h
  | joinsForced hd =>
    rw [List.append_nil]
    refine h.turn .devWake s.waitForDsExit (fun _ => ?_) ⟨nofun, nofun, nofun⟩
    exact not_suspended (by rw [hd]; exact ⟨nofun, nofun⟩)
  | awake =>
    rw [List.append_nil]
    exact h

theorem Inv.deassert (h : Inv s l) (sent : Bool) :
    Inv (inbDeassert s sent).1 (l ++ (inbDeassert s sent).2) := by
  unfold inbDeassert
  split
  · next hd =>
    split
    · refine Inv.say (h.turn .active s.waitForDsExit (fun _ => ?_) ⟨nofun, nofun, nofun⟩) nofun
      exact not_suspended (by rw [hd]; exact ⟨nofun, nofun⟩)
    · rw [List.append_nil]
      exact h
  · exact h.ackPending sent

theorem Inv.enterReq (h : Inv s l) (sent : Bool) :
    Inv (handleDsEnterReq s sent).1 (l ++ (handleDsEnterReq s sent).2) := by
  have hacks := h.acks
  unfold handleDsEnterReq
  split
  · exact h.say nofun
  · next hk =>
    have hk : s.skipDsAck = false := Bool.eq_false_iff.mpr hk
    split
    · next hd =>
      rw [if_neg (by rw [hd]; nofun)] at hacks
      split
      · next ha =>
        have hreq : (l ++ [Msg.dsEnterReq]).count .dsAck + 1 ≤
            (l ++ [Msg.dsEnterReq]).count .dsEnterReq := by
          rw [List.count_append, List.count_append]
          exact Nat.add_le_add_right hacks 1
        have hle := answer_le sent hreq
        rw [List.append_assoc] at hle
        exact inv_answered h.active ha hk h.staged hle
      · next ha =>
        exact {
          active := h.active
          asleep := nofun
          exiting := nofun
          pend := fun _ _ => ha
          skip := fun hs => nomatch hk.symm.trans hs
          staged := h.staged
          acks := by
            dsimp only
            rw [if_pos rfl, List.count_append, List.count_append]
            exact Nat.add_le_add_right hacks 1 }
    · exact h.say nofun

theorem Inv.exitNote (h : Inv s l) : Inv (handleDsExitNote s) l := by
  unfold handleDsExitNote
  split
  · next hd =>
    refine h.turn .devWake true (fun _ => ?_) ⟨nofun, nofun, nofun⟩
    exact not_suspended (by rw [hd]; exact ⟨nofun, nofun⟩)
  · next hd =>
    refine h.turn .devWake s.waitForDsExit (fun _ => ?_) ⟨nofun, nofun, nofun⟩
    exact not_suspended (by rw [hd]; exact ⟨nofun, nofun⟩)
  · exact h

/-- A context that is inside leaves, and the last one answers. -/
theorem Inv.leave (h : Inv s l) (hc : s.phase c ≠ .out) (sent : Bool) :
    Inv (leave s c sent).1 (l ++ (leave s c sent).2) := by
  have hactive := h.active.exit hc
  have hphase : ∀ d, Function.update s.phase c .out d = s.phase d ∨
      Function.update s.phase c .out d = .out := by
    intro d
    by_cases hd : d = c
    · subst hd
      exact Or.inr (Function.update_self _ _ _)
    · exact Or.inl (Function.update_of_ne hd _ _)
  unfold DeepSleep.leave inbAckPendingDsReq
  split
  · next hp =>
    have hacks := h.acks
    rw [if_pos (show s.dsState = .devSleepPend from hp.1)] at hacks
    exact inv_answered hactive hp.2.1 hp.2.2 h.staged (answer_le sent hacks)
  · next hp =>
    rw [List.append_nil]
    exact {
      active := hactive
      asleep := fun hs d => by
        show Function.update s.phase c .out d ≠ _ ∧ Function.update s.phase c .out d ≠ _
        rcases hphase d with he | he <;> rw [he]
        · exact h.asleep hs d
        · exact ⟨nofun, nofun⟩
      exiting := fun hs => ⟨(h.exiting hs).1, fun d => by
        show Function.update s.phase c .out d ≠ _
        rcases hphase d with he | he <;> rw [he]
        · exact (h.exiting hs).2 d
        · exact nofun⟩
      pend := fun hs hk ha => hp ⟨hs, ha, hk⟩
      skip := h.skip
      staged := h.staged
      acks := h.acks }

/-- A suspend goes on while answers are skipped. -/
theorem Inv.stage (h : Inv s l) {x : Suspend} {y : DsState} (hk : s.skipDsAck = true)
    (hx : x = .begun ∨ x = .waiting ∨ x = .asserted ∨ x = .deasserted ∨ y = .hostSleepWait ∨
      y = .hostSleep)
    (hy : y = s.dsState ∨ y = .hostSleepWait ∨ y = .hostSleep) :
    Inv { s with suspend := x, dsState := y } l where
  active := h.active
  asleep he := by
    rcases hy with rfl | rfl | rfl
    · exact h.asleep he
    · cases he
    · cases he
  exiting he := by
    rcases hy with rfl | rfl | rfl
    · exact h.exiting he
    · cases he
    · cases he
  pend _ hn := nomatch hk.symm.trans hn
  skip _ := hx
  staged _ := hk
  acks := by
    have hacks := h.acks
    rcases hy with rfl | rfl | rfl
    · exact hacks
    · rw [if_neg nofun]
      omega
    · rw [if_neg nofun]
      omega

/-- Answers are no longer skipped. -/
theorem Inv.awaken (h : Inv s l) {y : DsState}
    (hy : y ≠ .devSleep ∧ y ≠ .disabledWait ∧ y ≠ .devSleepPend) :
    Inv { s with suspend := .awake, dsState := y, skipDsAck := false } l where
  active := h.active
  asleep he := absurd he hy.1
  exiting he := absurd he hy.2.1
  pend he := absurd he hy.2.2
  skip := nofun
  staged hn := absurd rfl hn
  acks := by
    have hacks := h.acks
    rw [if_neg hy.2.2]
    omega

theorem Inv.enter (h : Inv s l) (hc : s.phase c = .out) :
    Inv ({ s with hostActiveCnt := s.hostActiveCnt + 1 }.goto c .counted) l where
  active := h.active.enter hc nofun
  asleep hs d := by
    show Function.update s.phase c .counted d ≠ _ ∧ Function.update s.phase c .counted d ≠ _
    by_cases hd : d = c
    · subst hd
      rw [Function.update_self]
      exact ⟨nofun, nofun⟩
    · rw [Function.update_of_ne hd]
      exact h.asleep hs d
  exiting hs := by
    refine ⟨(h.exiting hs).1, fun d => ?_⟩
    show Function.update s.phase c .counted d ≠ _
    by_cases hd : d = c
    · subst hd
      rw [Function.update_self]
      nofun
    · rw [Function.update_of_ne hd]
      exact (h.exiting hs).2 d
  pend _ _ := Nat.succ_ne_zero _
  skip := h.skip
  staged := h.staged
  acks := h.acks

theorem Asserts.phase {r : State × List Msg × Wake} (hr : Asserts s r) :
    r.1.phase = s.phase ∧ r.1.suspend = s.suspend ∧ r.1.skipDsAck = s.skipDsAck ∧
      (r.1.dsState = .devSleep → r.2.2 = .error) ∧
      (r.1.dsState = .disabledWait → r.2.2 = .wait) := by
  cases hr with
  | wakes => exact ⟨rfl, rfl, rfl, nofun, fun _ => rfl⟩
  | forced => exact ⟨rfl, rfl, rfl, nofun, nofun⟩
  | refused hd => exact ⟨rfl, rfl, rfl, fun _ => rfl, fun he => nomatch hd.symm.trans he⟩
  | joins hd => exact ⟨rfl, rfl, rfl, fun he => (nomatch hd.symm.trans he), fun _ => rfl⟩
  | joinsForced => exact ⟨rfl, rfl, rfl, nofun, nofun⟩
  | awake hs hw => exact ⟨rfl, rfl, rfl, fun he => absurd he hs, fun he => absurd he hw⟩

theorem Wake.phase_ne_out (w : Wake) : w.phase ≠ .out := by
  cases w <;> nofun

theorem deassert_suspend (s : State) (sent : Bool) :
    (inbDeassert s sent).1.suspend = s.suspend ∧
      (inbDeassert s sent).1.skipDsAck = s.skipDsAck := by
  unfold inbDeassert inbAckPendingDsReq
  split
  · split <;> exact ⟨rfl, rfl⟩
  · split <;> exact ⟨rfl, rfl⟩

theorem Inv.onStep (h : Inv s l) (hs : step s a = some r) :
    Inv r.1 (l ++ r.2) := by
  have hbusy : ∀ {x : Suspend}, s.suspend = x → x ≠ .awake → s.skipDsAck = true :=
    fun hx hne => h.staged (hx ▸ hne)
  cases a with
  | incHostactive c =>
    obtain ⟨hc, rfl⟩ := guarded hs
    rw [List.append_nil]
    exact h.enter hc
  | devwakeAssert c sent canSleep =>
    obtain ⟨hc, rfl⟩ := guarded hs
    have hr := asserts s sent canSleep
    obtain ⟨hphase, _, _, hsleep, hwait⟩ := hr.phase
    refine (h.assert hr).goto (by rw [hphase, hc]; nofun) (Wake.phase_ne_out _)
      (fun he => ?_) fun he => ?_
    · rw [hsleep he]
      exact ⟨nofun, nofun⟩
    · rw [hwait he]
      nofun
  | dsExitWait c timeleft =>
    obtain ⟨hc, rfl⟩ := guarded hs
    rw [List.append_nil]
    refine h.goto (by rw [hc]; nofun) (by split <;> nofun) (fun he => ?_) fun he => ?_
    · exact absurd hc (h.asleep he c).2
    · rw [(h.exiting he).1]
      nofun
  | devwakeFailed c sent =>
    obtain ⟨hc, rfl⟩ := guarded hs
    exact h.leave (by rw [hc]; nofun) sent
  | post c =>
    obtain ⟨hc, rfl⟩ := guarded hs
    exact h.say nofun
  | decHostactive c sent =>
    obtain ⟨hc, rfl⟩ := guarded hs
    exact h.leave (by rw [hc]; nofun) sent
  | dsEnterReq sent =>
    obtain ⟨_, hs⟩ := Option.ite_none_left_eq_some.mp hs
    cases hs
    exact h.enterReq sent
  | dsExitNote =>
    cases hs
    exact h.exitNote.say nofun
  | hostSleepExitAck =>
    cases hs
    refine Inv.say ?_ nofun
    split
    · next hd =>
      refine h.turn .active s.waitForDsExit (fun _ => ?_) ⟨nofun, nofun, nofun⟩
      exact not_suspended (by rw [hd]; exact ⟨nofun, nofun⟩)
    · exact h
  | deassert sent =>
    cases hs
    exact h.deassert sent
  | suspendBegin =>
    obtain ⟨_, rfl⟩ := guarded hs
    rw [List.append_nil]
    exact {
      active := h.active
      asleep := h.asleep
      exiting := h.exiting
      pend := fun _ => nofun
      skip := fun _ => Or.inl rfl
      staged := fun _ => rfl
      acks := h.acks }
  | suspendAssert sent canSleep =>
    obtain ⟨hst, rfl⟩ := guarded hs
    have hr := asserts s sent canSleep
    refine (h.assert hr).stage (hr.phase.2.2.1.trans (hbusy hst nofun)) ?_ (Or.inl rfl)
    generalize (inbAssert s sent canSleep).2.2 = w
    cases w
    · exact Or.inr (Or.inr (Or.inl rfl))
    · exact Or.inr (Or.inr (Or.inl rfl))
    · exact Or.inr (Or.inl rfl)
  | suspendWaited =>
    obtain ⟨hst, rfl⟩ := guarded hs
    rw [List.append_nil]
    exact h.stage (hbusy hst nofun) (Or.inr (Or.inr (Or.inl rfl))) (Or.inl rfl)
  | suspendDeassert sent =>
    obtain ⟨hst, rfl⟩ := guarded hs
    exact (h.deassert sent).stage ((deassert_suspend s sent).2.trans (hbusy hst nofun))
      (Or.inr (Or.inr (Or.inr (Or.inl rfl)))) (Or.inl rfl)
  | suspendMark =>
    obtain ⟨hst, rfl⟩ := guarded hs
    rw [List.append_nil]
    exact h.stage (hbusy hst nofun) (Or.inr (Or.inr (Or.inr (Or.inr (Or.inl rfl)))))
      (Or.inr (Or.inl rfl))
  | suspendInform sent =>
    obtain ⟨hst, rfl⟩ := guarded hs
    have hk := hbusy hst nofun
    have hd := h.skip hk
    rw [hst] at hd
    refine Inv.say (h.stage hk ?_ (Or.inl rfl)) fun hm => nomatch mem_send hm
    simpa using hd
  | suspendAcked =>
    obtain ⟨hst, rfl⟩ := guarded hs
    have hk := hbusy hst nofun
    have hd := h.skip hk
    rw [hst] at hd
    rw [List.append_nil]
    refine h.stage hk ?_ ?_
    · split
      · exact Or.inr (Or.inr (Or.inr (Or.inr (Or.inr rfl))))
      · simpa using hd
    · split
      · exact Or.inr (Or.inr rfl)
      · exact Or.inl rfl
  | suspendAborted =>
    obtain ⟨_, rfl⟩ := guarded hs
    rw [List.append_nil]
    exact h.awaken ⟨nofun, nofun, nofun⟩
  | suspendTimedOut =>
    obtain ⟨hst, rfl⟩ := guarded hs
    have hk := hbusy hst nofun
    have hd := h.skip hk
    rw [hst] at hd
    rw [List.append_nil]
    exact {
      active := h.active
      asleep := h.asleep
      exiting := h.exiting
      pend := h.pend
      skip := fun _ => by simpa using hd
      staged := fun hn => absurd rfl hn
      acks := h.acks }
  | resume =>
    obtain ⟨hst, rfl⟩ := guarded hs
    have hd := h.skip (hbusy hst nofun)
    rw [hst] at hd
    have hd : s.dsState = .hostSleepWait ∨ s.dsState = .hostSleep := by simpa using hd
    rw [List.append_nil]
    refine h.awaken ?_
    rcases hd with hd | hd <;> rw [hd] <;> exact ⟨nofun, nofun, nofun⟩

end

/-! ## Answers -/

theorem mem_ackPending {sent : Bool} (h : Msg.dsAck ∈ (inbAckPendingDsReq s sent).2) :
    (inbAckPendingDsReq s sent).1.hostActiveCnt = 0 ∧
      (inbAckPendingDsReq s sent).1.skipDsAck = false := by
  rcases ack_cases s sent with he | ⟨_, ha, hk, he⟩
  · rw [he] at h
    cases h
  · rw [he]
    exact ⟨ha, hk⟩

theorem mem_deassert {sent : Bool} (h : Msg.dsAck ∈ (inbDeassert s sent).2) :
    (inbDeassert s sent).1.hostActiveCnt = 0 ∧ (inbDeassert s sent).1.skipDsAck = false := by
  unfold inbDeassert at h ⊢
  split at h
  · split at h
    · exact nomatch List.mem_singleton.mp h
    · cases h
  · next hd =>
    rw [if_neg hd]
    exact mem_ackPending h

theorem Asserts.no_ack {r : State × List Msg × Wake} (hr : Asserts s r) :
    Msg.dsAck ∉ r.2.1 := by
  cases hr <;> simp

/-- An answer is sent when nobody is counted and answers are not skipped. -/
theorem step_ack (hs : step s a = some r) (hm : Msg.dsAck ∈ r.2) :
    r.1.hostActiveCnt = 0 ∧ r.1.skipDsAck = false := by
  cases a with
  | devwakeAssert c sent canSleep =>
    obtain ⟨_, rfl⟩ := guarded hs
    exact absurd hm (asserts s sent canSleep).no_ack
  | suspendAssert sent canSleep =>
    obtain ⟨_, rfl⟩ := guarded hs
    exact absurd hm (asserts s sent canSleep).no_ack
  | devwakeFailed c sent | decHostactive c sent =>
    obtain ⟨_, rfl⟩ := guarded hs
    exact mem_ackPending hm
  | dsEnterReq sent =>
    obtain ⟨_, hs⟩ := Option.ite_none_left_eq_some.mp hs
    cases hs
    unfold handleDsEnterReq at hm ⊢
    split at hm
    · cases List.mem_singleton.mp hm
    · next hk =>
      rw [if_neg hk]
      split at hm
      · next hd =>
        rw [if_pos hd]
        split at hm
        · next ha =>
          rw [if_pos ha]
          exact ⟨ha, Bool.eq_false_iff.mpr hk⟩
        · cases List.mem_singleton.mp hm
      · cases List.mem_singleton.mp hm
  | deassert sent =>
    cases hs
    exact mem_deassert hm
  | suspendDeassert sent =>
    obtain ⟨_, rfl⟩ := guarded hs
    exact mem_deassert hm
  | dsExitNote | hostSleepExitAck =>
    cases hs
    cases List.mem_singleton.mp hm
  | suspendInform sent =>
    obtain ⟨_, rfl⟩ := guarded hs
    cases mem_send hm
  | post c =>
    obtain ⟨_, rfl⟩ := guarded hs
    cases List.mem_singleton.mp hm
  | incHostactive | dsExitWait | suspendBegin | suspendWaited | suspendMark | suspendAcked
  | suspendAborted | suspendTimedOut | resume =>
    obtain ⟨_, rfl⟩ := guarded hs
    cases hm

/-! ## The last one to leave -/

/-- A context leaves `host_active_cnt`. -/
inductive Leaves (sent : Bool) : Act → Prop
  | failed (c : Id) : Leaves sent (.devwakeFailed c sent)
  | done (c : Id) : Leaves sent (.decHostactive c sent)

section

variable {s : State} {l : List Msg} {a : Act} {r : State × List Msg} {c : Id}

theorem goto_inside {d : Id} {x : Phase} (hx : x ≠ .out) (hc : s.phase c ≠ .out) :
    (s.goto d x).phase c ≠ .out := by
  show Function.update s.phase d x c ≠ .out
  by_cases hd : c = d
  · rw [hd, Function.update_self]
    exact hx
  · rw [Function.update_of_ne hd]
    exact hc

theorem deassert_phase (s : State) (sent : Bool) : (inbDeassert s sent).1.phase = s.phase := by
  unfold inbDeassert inbAckPendingDsReq
  split
  · split <;> rfl
  · split <;> rfl

/-- Contexts go by their own steps only. -/
theorem step_inside (hs : step s a = some r) (hc : s.phase c ≠ .out) :
    r.1.phase c ≠ .out ∨ ∃ sent, Leaves sent a := by
  cases a with
  | devwakeFailed d sent => exact Or.inr ⟨sent, .failed d⟩
  | decHostactive d sent => exact Or.inr ⟨sent, .done d⟩
  | incHostactive d =>
    obtain ⟨_, rfl⟩ := guarded hs
    exact Or.inl (goto_inside nofun hc)
  | devwakeAssert d sent canSleep =>
    obtain ⟨_, rfl⟩ := guarded hs
    refine Or.inl (goto_inside (Wake.phase_ne_out _) ?_)
    rw [(asserts s sent canSleep).phase.1]
    exact hc
  | dsExitWait d timeleft =>
    obtain ⟨_, rfl⟩ := guarded hs
    exact Or.inl (goto_inside (by split <;> nofun) hc)
  | dsEnterReq sent =>
    obtain ⟨_, hs⟩ := Option.ite_none_left_eq_some.mp hs
    cases hs
    left
    unfold handleDsEnterReq
    split
    · exact hc
    · split
      · split <;> exact hc
      · exact hc
  | dsExitNote =>
    cases hs
    left
    show (handleDsExitNote s).phase c ≠ .out
    unfold handleDsExitNote
    split <;> exact hc
  | hostSleepExitAck =>
    cases hs
    left
    dsimp only
    split <;> exact hc
  | deassert sent =>
    cases hs
    left
    rw [deassert_phase]
    exact hc
  | suspendAssert sent canSleep =>
    obtain ⟨_, rfl⟩ := guarded hs
    left
    show (inbAssert s sent canSleep).1.phase c ≠ .out
    rw [(asserts s sent canSleep).phase.1]
    exact hc
  | suspendDeassert sent =>
    obtain ⟨_, rfl⟩ := guarded hs
    left
    show (inbDeassert s sent).1.phase c ≠ .out
    rw [deassert_phase]
    exact hc
  | post | suspendBegin | suspendWaited | suspendMark | suspendInform | suspendAcked
  | suspendAborted | suspendTimedOut | resume =>
    obtain ⟨_, rfl⟩ := guarded hs
    exact Or.inl hc

/-- Nobody is counted if nobody is inside. -/
theorem Active.count_eq_zero (h : Active s) (ho : ∀ c, s.phase c = .out) :
    s.hostActiveCnt = 0 := by
  obtain ⟨cs, _, hm, hl⟩ := h
  rw [hl, List.length_eq_zero_iff, List.eq_nil_iff_forall_not_mem]
  exact fun c hc => (hm c).mp hc (ho c)

/-- A request that waits, outside a suspend -/
theorem Inv.waiting (h : Inv s l) (hd : s.dsState = .devSleepPend) (hw : s.suspend = .awake) :
    s.skipDsAck = false ∧ ∃ c, s.phase c ≠ .out := by
  have hk : s.skipDsAck = false := by
    by_contra hk
    have hs := h.skip (Bool.not_eq_false _ ▸ hk)
    rw [hw, hd] at hs
    simp at hs
  refine ⟨hk, ?_⟩
  by_contra hn
  push Not at hn
  exact h.pend hd hk (h.active.count_eq_zero hn)

theorem leave_answers (h : Active s) (hc : s.phase c ≠ .out) (hd : s.dsState = .devSleepPend)
    (hk : s.skipDsAck = false) (sent : Bool) (ho : ∀ d, (leave s c sent).1.phase d = .out) :
    (leave s c sent).1.dsState = .devSleep ∧ (leave s c sent).2 = send sent .dsAck := by
  have hphase : (leave s c sent).1.phase = (s.goto c .out).phase := by
    unfold leave inbAckPendingDsReq
    split <;> rfl
  have hcnt : s.hostActiveCnt - 1 = 0 := (h.exit hc).count_eq_zero (hphase ▸ ho)
  unfold leave inbAckPendingDsReq
  rw [if_pos ⟨hd, hcnt, hk⟩]
  exact ⟨rfl, rfl⟩

/-- The step after which nobody is inside any more answers the request. -/
theorem Inv.answered (h : Inv s l) (hd : s.dsState = .devSleepPend) (hw : s.suspend = .awake)
    (hs : step s a = some r) (ho : ∀ c, r.1.phase c = .out) :
    ∃ sent, Leaves sent a ∧ r.1.dsState = .devSleep ∧ r.2 = send sent .dsAck := by
  obtain ⟨hk, c, hc⟩ := h.waiting hd hw
  rcases step_inside hs hc with hin | ⟨sent, hl⟩
  · exact absurd (ho c) hin
  · refine ⟨sent, hl, ?_⟩
    cases hl with
    | failed d | done d =>
      obtain ⟨hp, rfl⟩ := guarded hs
      exact leave_answers h.active (by rw [hp]; nofun) hd hk sent ho

end

/-! ## Runs -/

open Runs

/-- The messages of a run. -/
def msgs (tr : List (Act × List Msg)) : List Msg := tr.flatMap Prod.snd

theorem msgs_concat (tr : List (Act × List Msg)) (a : Act) (ms : List Msg) :
    msgs (tr ++ [(a, ms)]) = msgs tr ++ ms := by
  unfold msgs
  rw [List.flatMap_append, List.flatMap_singleton]

theorem inv_runs {es : List Act} {tr : List (Act × List Msg)}
    (h : runs step .init es = some (t, tr)) : Inv t (msgs tr) :=
  runs_inv step (fun s tr => Inv s (msgs tr)) (fun s tr a s' r hi hs => by
    rw [msgs_concat]
    exact hi.onStep hs) .init t es tr inv_init h

/-- In every run `host_active_cnt` is the number of the contexts inside; the device is let into
deep sleep when there is none and no suspend is under way, at most once for each of its requests;
and for a request that waits outside a suspend there is a context inside, and the one that leaves
nobody inside answers it. -/
theorem deep_sleep_acks {es : List Act} {t : State} {tr : List (Act × List Msg)}
    (h : runs step .init es = some (t, tr)) :
    Active t ∧
    (∀ a r, step t a = some r → Msg.dsAck ∈ r.2 →
      (∀ c, r.1.phase c = .out) ∧ r.1.suspend = .awake) ∧
    (t.dsState = .devSleepPend → t.suspend = .awake → (∃ c, t.phase c ≠ .out) ∧
      ∀ a r, step t a = some r → (∀ c, r.1.phase c = .out) →
        ∃ sent, Leaves sent a ∧ r.1.dsState = .devSleep ∧ r.2 = send sent .dsAck) ∧
    (msgs tr).count .dsAck + (if t.dsState = .devSleepPend then 1 else 0) ≤
      (msgs tr).count .dsEnterReq := by
  have hi := inv_runs h
  refine ⟨hi.active, fun a r hs hm => ?_, fun hd hw => ⟨(hi.waiting hd hw).2, ?_⟩, hi.acks⟩
  · have hi' := hi.onStep hs
    obtain ⟨ha, hk⟩ := step_ack hs hm
    refine ⟨hi'.active.alone ha, ?_⟩
    by_contra hst
    exact nomatch hk.symm.trans (hi'.staged hst)
  · exact fun a r hs ho => hi.answered hd hw hs ho

/-- A request comes while context 1 is inside, and is answered when it leaves; context 2 wakes the
device. -/
def slept : List Act :=
  [.incHostactive 1, .devwakeAssert 1 true true, .dsEnterReq true, .post 1, .decHostactive 1 true,
    .incHostactive 2, .devwakeAssert 2 true true, .dsExitNote, .dsExitWait 2 true, .post 2]

/-- Then the device is deasserted, and asks again while context 2 is inside. -/
theorem deep_sleep_acks_slept :
    ∃ t tr, runs step .init (slept ++ [.deassert true, .dsEnterReq true]) = some (t, tr) ∧
      msgs tr = [.dsEnterReq, .post 1, .dsAck, .deviceWakeAssert, .dsExitNote, .post 2,
        .deviceWakeDeassert, .dsEnterReq] ∧ t.dsState = .devSleepPend ∧ t.suspend = .awake ∧
      Active t ∧
      (∀ a r, step t a = some r → Msg.dsAck ∈ r.2 →
        (∀ c, r.1.phase c = .out) ∧ r.1.suspend = .awake) ∧
      (t.dsState = .devSleepPend → t.suspend = .awake → (∃ c, t.phase c ≠ .out) ∧
        ∀ a r, step t a = some r → (∀ c, r.1.phase c = .out) →
          ∃ sent, Leaves sent a ∧ r.1.dsState = .devSleep ∧ r.2 = send sent .dsAck) ∧
      (msgs tr).count .dsAck + (if t.dsState = .devSleepPend then 1 else 0) ≤
        (msgs tr).count .dsEnterReq := by
  have hr : (runs step .init (slept ++ [.deassert true, .dsEnterReq true])).map
      (fun r => (msgs r.2, r.1.dsState, r.1.suspend)) =
    some ([.dsEnterReq, .post 1, .dsAck, .deviceWakeAssert, .dsExitNote, .post 2,
      .deviceWakeDeassert, .dsEnterReq], .devSleepPend, .awake) := rfl
  obtain ⟨⟨t, tr⟩, hs, he⟩ := Option.map_eq_some_iff.mp hr
  obtain ⟨hm, hrest⟩ := Prod.mk.inj he
  obtain ⟨hd, hw⟩ := Prod.mk.inj hrest
  exact ⟨t, tr, hs, hm, hd, hw, deep_sleep_acks hs⟩

/-! ## Items posted -/

open Between

/-- A suspend does not go on before the device has been told to wake up. -/
def Act.told (s : State) : Act → Bool
  | .suspendMark => s.dsState ≠ .devSleep
  | _ => true

/-- Nobody goes on before the device is out of deep sleep. -/
def Act.patient (s : State) : Act → Bool
  | .suspendMark => s.dsState ≠ .devSleep && s.dsState ≠ .disabledWait
  | .devwakeAssert _ _ canSleep | .suspendAssert _ canSleep => canSleep
  | _ => true

/-- What a section means for a device that was let into deep sleep. -/
inductive Turns (s : State) (a : Act) (r : State × List Msg) : Prop
  | asleep : r.1.dsState = .devSleep → Turns s a r
  | awake : Msg.dsAck ∉ r.2 → s.dsState ≠ .devSleep → s.dsState ≠ .disabledWait → Turns s a r
  | same : Msg.dsAck ∉ r.2 → r.1.dsState = s.dsState → Turns s a r
  | asserted : Msg.dsAck ∉ r.2 → Msg.deviceWakeAssert ∈ r.2 → r.1.dsState = .disabledWait →
      Turns s a r
  | forced : Msg.dsAck ∉ r.2 → a.patient s = false →
      (s.dsState = .devSleep → Msg.deviceWakeAssert ∈ r.2 ∨ a.told s = false) → Turns s a r
  | noted : Msg.dsAck ∉ r.2 → Msg.dsExitNote ∈ r.2 → Turns s a r

theorem turns_ackPending (s : State) (a : Act) (sent : Bool) :
    Turns s a (inbAckPendingDsReq s sent) := by
  rcases ack_cases s sent with he | ⟨_, _, _, he⟩
  · rw [he]
    exact .same nofun rfl
  · rw [he]
    exact .asleep rfl

theorem turns_deassert (s : State) (a : Act) (sent : Bool) : Turns s a (inbDeassert s sent) := by
  unfold inbDeassert
  split
  · next hd =>
    split
    · exact .awake nofun (by rw [hd]; nofun) (by rw [hd]; nofun)
    · exact .same nofun rfl
  · exact turns_ackPending s a sent

/-- What may follow when the device wake is asserted: only who cannot sleep goes on early. -/
theorem turns_assert (s : State) (sent canSleep : Bool)
    (ht : t.dsState = (inbAssert s sent canSleep).1.dsState) (ha : a.patient s = canSleep) :
    Turns s a (t, (inbAssert s sent canSleep).2.1) := by
  unfold inbAssert at ht ⊢
  split at ht
  · next hd =>
    cases sent
    · exact .same nofun (show t.dsState = s.dsState from ht)
    · cases canSleep
      · exact .forced nofun ha fun _ => Or.inl List.mem_cons_self
      · exact .asserted nofun List.mem_cons_self ht
  · next hd =>
    cases canSleep
    · exact .forced nofun ha fun hs => nomatch hd.symm.trans hs
    · exact .same nofun ht
  · exact .same nofun ht

theorem step_turns (hi : Inv s l) (hs : step s a = some r) : Turns s a r := by
  cases a with
  | devwakeAssert c sent canSleep =>
    obtain ⟨_, rfl⟩ := guarded hs
    exact turns_assert s sent canSleep rfl rfl
  | suspendAssert sent canSleep =>
    obtain ⟨_, rfl⟩ := guarded hs
    exact turns_assert s sent canSleep rfl rfl
  | devwakeFailed c sent | decHostactive c sent =>
    obtain ⟨_, rfl⟩ := guarded hs
    rcases ack_cases ({ s with hostActiveCnt := s.hostActiveCnt - 1 }.goto c .out) sent with
      he | ⟨_, _, _, he⟩
    · unfold leave
      rw [he]
      exact .same nofun rfl
    · unfold leave
      rw [he]
      exact .asleep rfl
  | dsEnterReq sent =>
    obtain ⟨_, hs⟩ := Option.ite_none_left_eq_some.mp hs
    cases hs
    unfold handleDsEnterReq
    split
    · exact .same (by simp) rfl
    · split
      · next hd =>
        split
        · exact .asleep rfl
        · exact .awake (by simp) (by rw [hd]; nofun) (by rw [hd]; nofun)
      · exact .same (by simp) rfl
  | dsExitNote =>
    cases hs
    exact .noted (by simp) List.mem_cons_self
  | hostSleepExitAck =>
    cases hs
    by_cases hd : s.dsState = .hostWakeWait
    · exact .awake (by simp) (by rw [hd]; nofun) (by rw [hd]; nofun)
    · rw [if_neg hd]
      exact .same (by simp) rfl
  | deassert sent =>
    cases hs
    exact turns_deassert s _ sent
  | suspendDeassert sent =>
    obtain ⟨_, rfl⟩ := guarded hs
    cases turns_deassert s (.suspendDeassert sent) sent with
    | asleep h => exact .asleep h
    | awake h h' h'' => exact .awake h h' h''
    | same h h' => exact .same h h'
    | asserted h h' h'' => exact .asserted h h' h''
    | forced h h' h'' => exact .forced h h' h''
    | noted h h' => exact .noted h h'
  | suspendMark =>
    obtain ⟨_, rfl⟩ := guarded hs
    by_cases hd : s.dsState = .devSleep
    · exact .forced nofun (by simp [Act.patient, hd]) fun _ => Or.inr (by simp [Act.told, hd])
    · by_cases hd' : s.dsState = .disabledWait
      · exact .forced nofun (by simp [Act.patient, hd']) fun hs => absurd hs hd
      · exact .awake nofun hd hd'
  | suspendAborted =>
    obtain ⟨hst, rfl⟩ := guarded hs
    have hd := hi.skip (hi.staged (by rw [hst]; nofun))
    rw [hst] at hd
    have hd : s.dsState = .hostSleepWait ∨ s.dsState = .hostSleep := by simpa using hd
    rcases hd with hd | hd <;> exact .awake nofun (by rw [hd]; nofun) (by rw [hd]; nofun)
  | suspendInform sent =>
    obtain ⟨_, rfl⟩ := guarded hs
    exact .same (fun hm => nomatch mem_send hm) rfl
  | post c =>
    obtain ⟨_, rfl⟩ := guarded hs
    exact .same (by simp) rfl
  | suspendAcked =>
    obtain ⟨_, rfl⟩ := guarded hs
    by_cases hd : s.dsState = .hostSleepWait
    · exact .awake nofun (by rw [hd]; nofun) (by rw [hd]; nofun)
    · exact .same nofun (if_neg hd)
  | resume =>
    obtain ⟨_, rfl⟩ := guarded hs
    by_cases hd : s.dsState = .hostSleep
    · exact .awake nofun (by rw [hd]; nofun) (by rw [hd]; nofun)
    · exact .same nofun (if_neg hd)
  | incHostactive | dsExitWait | suspendBegin | suspendWaited | suspendTimedOut =>
    obtain ⟨_, rfl⟩ := guarded hs
    exact .same nofun rfl

def Msg.isPost (m : Msg) : Prop := ∃ c, m = .post c

theorem not_isPost_ackPending (s : State) (sent : Bool) :
    ∀ m ∈ (inbAckPendingDsReq s sent).2, ¬ m.isPost := by
  rintro m hm ⟨c, rfl⟩
  rcases ack_cases s sent with he | ⟨_, _, _, he⟩
  · rw [he] at hm
    cases hm
  · rw [he] at hm
    cases mem_send hm

theorem not_isPost_deassert (s : State) (sent : Bool) :
    ∀ m ∈ (inbDeassert s sent).2, ¬ m.isPost := by
  rintro m hm ⟨c, rfl⟩
  unfold inbDeassert at hm
  split at hm
  · split at hm
    · cases List.mem_singleton.mp hm
    · cases hm
  · exact not_isPost_ackPending s sent _ hm ⟨c, rfl⟩

theorem Asserts.not_isPost {r : State × List Msg × Wake} (hr : Asserts s r) :
    ∀ m ∈ r.2.1, ¬ m.isPost := by
  rintro m hm ⟨c, rfl⟩
  cases hr with
  | wakes | forced => cases List.mem_singleton.mp hm
  | refused | joins | joinsForced | awake => cases hm

theorem not_isPost_enterReq (s : State) (sent : Bool) :
    ∀ m ∈ (handleDsEnterReq s sent).2, ¬ m.isPost := by
  rintro m hm ⟨c, rfl⟩
  unfold handleDsEnterReq at hm
  split at hm
  · cases List.mem_singleton.mp hm
  · split at hm
    · split at hm
      · rcases List.mem_cons.mp hm with hm | hm
        · cases hm
        · cases mem_send hm
      · cases List.mem_singleton.mp hm
    · cases List.mem_singleton.mp hm

/-- What is posted is posted by a context that has been granted. -/
theorem step_post (hs : step s a = some r) :
    (∀ m ∈ r.2, ¬ m.isPost) ∨ ∃ c, s.phase c = .granted ∧ r = (s, [.post c]) := by
  cases a with
  | post c =>
    obtain ⟨hc, rfl⟩ := guarded hs
    exact Or.inr ⟨c, hc, rfl⟩
  | devwakeAssert c sent canSleep | suspendAssert sent canSleep =>
    obtain ⟨_, rfl⟩ := guarded hs
    exact Or.inl (asserts s sent canSleep).not_isPost
  | devwakeFailed c sent | decHostactive c sent =>
    obtain ⟨_, rfl⟩ := guarded hs
    exact Or.inl (not_isPost_ackPending _ sent)
  | dsEnterReq sent =>
    obtain ⟨_, hs⟩ := Option.ite_none_left_eq_some.mp hs
    cases hs
    exact Or.inl (not_isPost_enterReq s sent)
  | deassert sent =>
    cases hs
    exact Or.inl (not_isPost_deassert s sent)
  | suspendDeassert sent =>
    obtain ⟨_, rfl⟩ := guarded hs
    exact Or.inl (not_isPost_deassert s sent)
  | suspendInform sent =>
    obtain ⟨_, rfl⟩ := guarded hs
    refine Or.inl fun m hm ⟨c, hc⟩ => ?_
    subst hc
    cases mem_send hm
  | dsExitNote | hostSleepExitAck =>
    cases hs
    refine Or.inl fun m hm ⟨c, hc⟩ => ?_
    subst hc
    cases List.mem_singleton.mp hm
  | incHostactive | dsExitWait | suspendBegin | suspendWaited | suspendMark | suspendAcked
  | suspendAborted | suspendTimedOut | resume =>
    obtain ⟨_, rfl⟩ := guarded hs
    exact Or.inl nofun

/-- After `H2D_HOST_DS_ACK` the host knows that the device may sleep until one of `sep`. -/
def Knows (sep : Msg → Prop) (D : DsState → Prop) (s : State) (l : List Msg) : Prop :=
  Pending (· = .dsAck) sep l → D s.dsState

theorem Knows.append {sep : Msg → Prop} {D : DsState → Prop} {ms : List Msg} (h : Knows sep D s l)
    (ha : Msg.dsAck ∉ ms) (hd : D s.dsState → D t.dsState ∨ ∃ m ∈ ms, sep m) :
    Knows sep D t (l ++ ms) := by
  intro hp
  rcases pending_append hp with ⟨m, hm, rfl⟩ | ⟨hp, hn⟩
  · exact absurd hm ha
  · exact (hd (h hp)).resolve_right fun ⟨m, hm, hs⟩ => hn m hm hs

/-- The device is woken: it is told to, or it says that it is awake. -/
def Msg.wakes (m : Msg) : Prop := m = .deviceWakeAssert ∨ m = .dsExitNote

theorem Turns.told (h : Turns s a r) (ha : a.told s = true)
    (hk : Knows Msg.wakes (· = .devSleep) s l) :
    Knows Msg.wakes (· = .devSleep) r.1 (l ++ r.2) := by
  cases h with
  | asleep hd => exact fun _ => hd
  | awake hn hs hw => exact hk.append hn fun hd => absurd hd hs
  | same hn he => exact hk.append hn fun hd => Or.inl (he.trans hd)
  | asserted hn hm hd => exact hk.append hn fun _ => Or.inr ⟨_, hm, Or.inl rfl⟩
  | forced hn hp hm =>
    refine hk.append hn fun hd => Or.inr ⟨.deviceWakeAssert, ?_, Or.inl rfl⟩
    exact (hm hd).resolve_right fun hf => nomatch hf.symm.trans ha
  | noted hn hm => exact hk.append hn fun _ => Or.inr ⟨_, hm, Or.inr rfl⟩

theorem Turns.patient (h : Turns s a r) (ha : a.patient s = true)
    (hk : Knows (· = .dsExitNote) (fun d => d = .devSleep ∨ d = .disabledWait) s l) :
    Knows (· = .dsExitNote) (fun d => d = .devSleep ∨ d = .disabledWait) r.1 (l ++ r.2) := by
  cases h with
  | asleep hd => exact fun _ => Or.inl hd
  | awake hn hs hw => exact hk.append hn fun hd => absurd hd (not_or.mpr ⟨hs, hw⟩)
  | same hn he => exact hk.append hn fun hd => Or.inl (he ▸ hd)
  | asserted hn hm hd => exact hk.append hn fun _ => Or.inl (Or.inr hd)
  | forced hn hp hm => exact nomatch hp.symm.trans ha
  | noted hn hm => exact hk.append hn fun _ => Or.inr ⟨_, hm, rfl⟩

/-- Items are posted while the host knows that the device is awake. -/
theorem Inv.separated (h : Inv s l) {sep : Msg → Prop} {D : DsState → Prop}
    (hD : ∀ d, D d → d = .devSleep ∨ d = .disabledWait) (hk : Knows sep D s l)
    (hsep : Separated (· = .dsAck) Msg.isPost sep l) (hs : step s a = some r) :
    Separated (· = .dsAck) Msg.isPost sep (l ++ r.2) := by
  rcases step_post hs with hn | ⟨c, hc, rfl⟩
  · exact hsep.append hn
  · refine separated_concat.mpr ⟨hsep, fun _ hp => ?_⟩
    rcases hD _ (hk hp) with hd | hd
    · exact (h.asleep hd c).1 hc
    · exact (h.exiting hd).2 c hc

/-- In every run of contexts, device, watchdog and suspends: if no suspend goes on over a refused
device wake, then between an answer and a later item the device has been told to wake up or has
said that it did; and if moreover nobody goes on early, it has said so. -/
theorem posts_after_wake {es : List Act} {t : State} {tr : List (Act × List Msg)}
    (h : runs step .init es = some (t, tr)) :
    (meets step (fun s a => a.told s) .init es = true →
      Separated (· = .dsAck) Msg.isPost Msg.wakes (msgs tr)) ∧
    (meets step (fun s a => a.patient s) .init es = true →
      Separated (· = .dsAck) Msg.isPost (· = .dsExitNote) (msgs tr)) := by
  constructor
  · intro hm
    refine (runs_inv_of_meets step (fun s a => a.told s) (fun s tr => Inv s (msgs tr) ∧
      Knows Msg.wakes (· = .devSleep) s (msgs tr) ∧
      Separated (· = .dsAck) Msg.isPost Msg.wakes (msgs tr)) (fun s tr a s' r hi ha hs => ?_)
      .init t es tr ⟨inv_init, fun hp => absurd hp not_pending_nil, separated_nil⟩ hm h).2.2
    rw [msgs_concat]
    obtain ⟨hi, hk, hsep⟩ := hi
    exact ⟨hi.onStep hs, (step_turns hi hs).told ha hk, hi.separated (fun _ => Or.inl) hk hsep hs⟩
  · intro hm
    refine (runs_inv_of_meets step (fun s a => a.patient s) (fun s tr => Inv s (msgs tr) ∧
      Knows (· = .dsExitNote) (fun d => d = .devSleep ∨ d = .disabledWait) s (msgs tr) ∧
      Separated (· = .dsAck) Msg.isPost (· = .dsExitNote) (msgs tr))
      (fun s tr a s' r hi ha hs => ?_) .init t es tr
      ⟨inv_init, fun hp => absurd hp not_pending_nil, separated_nil⟩ hm h).2.2
    rw [msgs_concat]
    obtain ⟨hi, hk, hsep⟩ := hi
    exact ⟨hi.onStep hs, (step_turns hi hs).patient ha hk, hi.separated (fun _ => id) hk hsep hs⟩

/-- The device lets the host know that it is awake before context 2 posts. -/
theorem posts_after_wake_slept : ∃ t tr, runs step .init slept = some (t, tr) ∧
    Separated (· = .dsAck) Msg.isPost Msg.wakes (msgs tr) ∧
    Separated (· = .dsAck) Msg.isPost (· = .dsExitNote) (msgs tr) := by
  have hr : (runs step .init slept).isSome = true := rfl
  obtain ⟨⟨t, tr⟩, hs⟩ := Option.isSome_iff_exists.mp hr
  exact ⟨t, tr, hs, (posts_after_wake hs).1 (by decide), (posts_after_wake hs).2 (by decide)⟩

/-- A device wake that is refused to a suspend, which goes on. -/
def overslept : List Act :=
  [.dsEnterReq true, .suspendBegin, .suspendAssert false true, .suspendDeassert true, .suspendMark,
    .incHostactive 1, .devwakeAssert 1 true true, .post 1]

/-- Then an item is posted for a device that sleeps. -/
example : (runs step .init overslept).map (fun r => msgs r.2) =
    some [.dsEnterReq, .dsAck, .post 1] := rfl

end Bcmdhd.DeepSleep
