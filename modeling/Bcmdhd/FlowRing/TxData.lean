import Mathlib.Data.List.Induction
import Bcmdhd.Lib.Runs
import Bcmdhd.FlowRing.FlowQueue
import Bcmdhd.FlowRing.LifeCycle

/-!
# Transmit order of one flow (`dhd_pcie.c`)

`dhd_bus_txdata` puts a packet on the queue of its flow ring, schedules the queue, and then tries
once more to put on a packet that was refused.  The lock of the flow ring is dropped in between,
and the status is read without it; other callers, the scheduling of the queue and changes of the
status come in there.

    meets step notInduced (init ..) es → runs step (init ..) es = some (s, tr) →
      order tr = taken tr ++ what is queued ∧ what is posted is what was taken and not dropped ∧
      no queued packet is freed ∧ the length is right         (flow_transmit_order)

A step is one of the calls of the life cycle of the ring (`step_refines`).  What `is_qempty` is set
to is left out.
-/

namespace Bcmdhd.TxData

open Runs Links FlowQueues
open FlowRing (Status Pc)

variable {Pkt : Type}

/-! ## Packets -/

inductive DataDropMode
  | noDataDrop
  | fwDrop
  | txpktDrop
  | xmitDrop
deriving DecidableEq, Repr

/-- What is read of a packet, and of `conf`. -/
structure Cfg (Pkt : Type) where
  /-- `PKTLEN` -/
  pktlen : Pkt → Nat
  /-- `ether_type` of the header -/
  etherType : Pkt → Nat
  isEapolPkt : Pkt → Bool
  isArpPkt : Pkt → Bool
  isIcmpPkt : Pkt → Bool
  isDhcpPkt : Pkt → Bool
  enqHdrPkt : Nat
  dataDropMode : DataDropMode

def etherHdrLen : Nat := 14

def etherTypeIp : Nat := 0x0800

def etherTypeArp : Nat := 0x0806

def etherType8021x : Nat := 0x888e

/-- The bits `ENQ_PKT_TYPE_` of `enq_hdr_pkt` -/
def enqPktTypeEapol : Nat := 0
def enqPktTypeArp : Nat := 1
def enqPktTypeDhcp : Nat := 2
def enqPktTypeIcmp : Nat := 3

def dhdMatchPktType (cfg : Cfg Pkt) (pkt : Pkt) : Bool :=
  if cfg.pktlen pkt < etherHdrLen then false
  else if cfg.enqHdrPkt.testBit enqPktTypeEapol && cfg.etherType pkt == etherType8021x then
    cfg.isEapolPkt pkt
  else if cfg.enqHdrPkt.testBit enqPktTypeArp && cfg.etherType pkt == etherTypeArp then
    cfg.isArpPkt pkt
  else if cfg.etherType pkt == etherTypeIp then
    let icmp := cfg.enqHdrPkt.testBit enqPktTypeIcmp && cfg.isIcmpPkt pkt
    if !icmp && cfg.enqHdrPkt.testBit enqPktTypeDhcp then cfg.isDhcpPkt pkt else icmp
  else false

/-- Who has the packet. -/
inductive Owner
  | host
  | driver
  | dongle
  | freed
deriving DecidableEq, Repr

/-! ## From the queue to the flow ring -/

/-- What one `dhd_prot_txdata` finds. -/
structure Attempt (Pkt : Type) where
  /-- `dhd_induce_error` is `DHD_INDUCE_TX_BIG_PKT` -/
  induceTxBigPkt : Bool
  /-- `DHD_PKTID_AVAIL` -/
  pktidAvail : Bool
  bigPktbuf : Option Pkt
  /-- a packet id could be reserved -/
  pktidRsv : Bool
  /-- there is space on the flow ring -/
  ringSpace : Bool
deriving DecidableEq, Repr

def noResource : Attempt Pkt := ⟨false, false, none, false, false⟩

/-- What became of a packet taken off the queue. -/
structure Sent (Pkt : Type) where
  taken : Pkt
  posted : Option Pkt
deriving DecidableEq, Repr

structure Drained (Pkt : Type) where
  queue : FlowQueue Pkt
  owner : Pkt → Owner
  sent : List (Sent Pkt)

section
variable [DecidableEq Pkt]

/-- The buffer gets a packet id and a place on the flow ring, or neither. -/
def post (a : Attempt Pkt) (owner : Pkt → Owner) (pktbuf : Pkt) :
    (Pkt → Owner) × Option Pkt × Bcme :=
  if a.pktidRsv && a.ringSpace then (Function.update owner pktbuf .dongle, some pktbuf, .ok)
  else (owner, none, .noResource)

/-- The owners, the packet posted and the result. -/
def protTxdata (a : Attempt Pkt) (owner : Pkt → Owner) (pktbuf : Pkt) :
    (Pkt → Owner) × Option Pkt × Bcme :=
  if !a.pktidAvail then (owner, none, .noResource)
  else if a.induceTxBigPkt then
    match a.bigPktbuf with
    | none => (owner, none, .noResource)
    -- the packet is freed, and the big one is posted in its place
    | some big => post a (Function.update owner pktbuf .freed) big
  else post a owner pktbuf

/-- In this mode long packets are not posted (and nothing else is done with them). -/
def dropped (cfg : Cfg Pkt) (pkt : Pkt) : Bool :=
  cfg.dataDropMode == .txpktDrop && decide (cfg.pktlen pkt > 500)

/-- A bound for the loop; it must not need it. -/
def fuel : Nat := 0x10000

/-- The loop of `dhd_bus_schedule_queue`.  It ends with the queue, with a packet that cannot be
posted, or with the bound; `cnt` packets were taken before. -/
def drain (cfg : Cfg Pkt) (bound : Nat) :
    Nat → Nat → List (Attempt Pkt) → FlowQueue Pkt → (Pkt → Owner) → Option (Drained Pkt)
  | 0, _, _, _, _ => none
  | fuel + 1, cnt, attempts, queue, owner =>
    match dequeue queue with
    | (queue, none) => some ⟨queue, owner, []⟩
    | (queue, some txp) =>
      let r :=
        if dropped cfg txp then (owner, none, .ok)
        else protTxdata (attempts.headD noResource) owner txp
      -- reinsert at head
      if r.2.2 ≠ .ok then some ⟨reinsert queue txp, r.1, []⟩
      -- check bound and break if exceeded
      else if bound ≠ 0 ∧ cnt + 1 ≥ bound then some ⟨queue, r.1, [⟨txp, r.2.1⟩]⟩
      else
        let attempts := if dropped cfg txp then attempts else attempts.tail
        (drain cfg bound fuel (cnt + 1) attempts queue r.1).map fun d =>
          { d with sent := ⟨txp, r.2.1⟩ :: d.sent }

end

/-! ## Steps -/

structure State (Pkt : Type) where
  queue : FlowQueue Pkt
  status : Status
  active : Bool
  owner : Pkt → Owner
  callers : Nat → Pc Pkt

/-- The state after `dhd_flow_queue_reinit`. -/
def init (link : Pkt → Option Pkt) (max clen l2clen : Nat) (status : Status) : State Pkt where
  queue := reinit link max clen l2clen
  status := status
  active := true
  owner := fun _ => .host
  callers := fun _ => .idle

/-- What `dhd_bus_schedule_queue` finds before it takes the lock. -/
structure Ready where
  /-- `prot_info` is set -/
  protInfo : Bool
  /-- the precedence of the flow is in `dequeue_prec_map` -/
  inPrecMap : Bool
deriving DecidableEq, Repr

inductive Call (Pkt : Type)
  /-- `dhd_bus_txdata` up to the unlock; `inited` says that there is a `flowid_allocator` -/
  | txdata (caller : Nat) (txp : Pkt) (inited : Bool)
  | readStatus (caller : Nat)
  | schedule (caller : Nat) (ready : Ready) (attempts : List (Attempt Pkt))
  | retry (caller : Nat)
  /-- `dhd_bus_schedule_queue`, not from `dhd_bus_txdata` -/
  | scheduleQueue (ready : Ready) (bound : Nat) (attempts : List (Attempt Pkt))
  /-- by others -/
  | setStatus (status : Status) (active : Bool)
deriving DecidableEq, Repr

inductive Result (Pkt : Type)
  | nothing
  /-- the packet is put on the queue -/
  | accepted (txp : Pkt)
  | pended (txp : Pkt)
  | tossed (txp : Pkt) (ret : Bcme)
  | scheduled (sent : List (Sent Pkt)) (ret : Bcme)
  /-- `NULL` was dereferenced or a loop does not end -/
  | fault
deriving DecidableEq, Repr

section
variable [DecidableEq Pkt]

def enqueuePkt (cfg : Cfg Pkt) (queue : FlowQueue Pkt) (pkt : Pkt) :
    Option (FlowQueue Pkt × Bcme) :=
  if dhdMatchPktType cfg pkt then some (enqueueHead queue pkt) else enqueue queue pkt

/-- `PKTCFREE` -/
def toss (s : State Pkt) (txp : Pkt) (ret : Bcme) : State Pkt × Result Pkt :=
  ({ s with owner := Function.update s.owner txp .freed }, .tossed txp ret)

def goto (s : State Pkt) (caller : Nat) (pc : Pc Pkt) : State Pkt :=
  { s with callers := Function.update s.callers caller pc }

def busScheduleQueue (cfg : Cfg Pkt) (s : State Pkt) (ready : Ready) (bound : Nat)
    (attempts : List (Attempt Pkt)) : State Pkt × Result Pkt :=
  if !ready.protInfo then (s, .scheduled [] .notReady)
  else if !ready.inPrecMap then (s, .scheduled [] .ok)
  else if s.status ≠ .opened then (s, .scheduled [] .notReady)
  else if s.queue.len = 0 then (s, .scheduled [] .notReady)
  else
    match drain cfg bound fuel 0 attempts s.queue s.owner with
    | none => (s, .fault)
    | some d => ({ s with queue := d.queue, owner := d.owner }, .scheduled d.sent .ok)

/-- The first part of `dhd_bus_txdata`. -/
def busTxdata (cfg : Cfg Pkt) (s : State Pkt) (caller : Nat) (txp : Pkt) (inited : Bool) :
    State Pkt × Result Pkt :=
  if !inited then toss s txp .ok
  else if !s.active || s.status == .deletePending || s.status == .staFreeing then
    toss s txp .error
  else
    match enqueuePkt cfg s.queue txp with
    | none => (s, .fault)
    | some (queue, .ok) => (goto { s with queue := queue } caller (.unlocked none), .accepted txp)
    | some (queue, _) =>
      (goto { s with queue := queue } caller (.unlocked (some txp)), .pended txp)

/-- The status is read. -/
def busReadStatus (s : State Pkt) (caller : Nat) (txpPend : Option Pkt) :
    State Pkt × Result Pkt :=
  if s.status ≠ .opened then
    match txpPend with
    | some txp => toss (goto s caller .idle) txp .noResource
    | none => (goto s caller .idle, .nothing)
  else (goto s caller (.scheduling txpPend), .nothing)

/-- If we have anything pending, try to push into q. -/
def busRetry (cfg : Cfg Pkt) (s : State Pkt) (caller : Nat) (txp : Pkt) :
    State Pkt × Result Pkt :=
  match enqueuePkt cfg s.queue txp with
  | none => (s, .fault)
  | some (queue, .ok) => (goto { s with queue := queue } caller .idle, .accepted txp)
  | some (queue, ret) => toss (goto { s with queue := queue } caller .idle) txp ret

/-- A packet is given to `dhd_bus_txdata` when the driver does not have it; it has it from then
on. -/
def step (cfg : Cfg Pkt) (s : State Pkt) : Call Pkt → Option (State Pkt × Result Pkt)
  | .txdata caller txp inited =>
    if s.callers caller = .idle ∧ s.owner txp ≠ .driver then
      some (busTxdata cfg { s with owner := Function.update s.owner txp .driver } caller txp
        inited)
    else none
  | .readStatus caller =>
    match s.callers caller with
    | .unlocked txpPend => some (busReadStatus s caller txpPend)
    | _ => none
  | .schedule caller ready attempts =>
    match s.callers caller with
    | .scheduling txpPend =>
      let pc := match txpPend with
        | some txp => .pending txp
        | none => .idle
      some (busScheduleQueue cfg (goto s caller pc) ready 0 attempts)
    | _ => none
  | .retry caller =>
    match s.callers caller with
    | .pending txp => some (busRetry cfg s caller txp)
    | _ => none
  | .scheduleQueue ready bound attempts => some (busScheduleQueue cfg s ready bound attempts)
  | .setStatus status active => some ({ s with status, active }, .nothing)

end

/-! ## What a run did -/

abbrev Trace (Pkt : Type) := List (Call Pkt × Result Pkt)

/-- The packets put on the queue, oldest first. -/
def accepted (tr : Trace Pkt) : List Pkt :=
  tr.filterMap fun e => match e.2 with
    | .accepted txp => some txp
    | _ => none

def sentOf : Result Pkt → List (Sent Pkt)
  | .scheduled sent _ => sent
  | _ => []

def sent (tr : Trace Pkt) : List (Sent Pkt) := tr.flatMap fun e => sentOf e.2

/-- The packets taken off the queue for good. -/
def taken (tr : Trace Pkt) : List Pkt := (sent tr).map Sent.taken

/-- The packets posted to the flow ring. -/
def posted (tr : Trace Pkt) : List Pkt := (sent tr).filterMap Sent.posted

/-- The order in which accepted packets are to be sent, when `n` were taken already: a packet
goes to the end, or before all that wait. -/
def orderStep (cfg : Cfg Pkt) (order : List Pkt) (n : Nat) : Result Pkt → List Pkt
  | .accepted txp =>
    if dhdMatchPktType cfg txp then order.take n ++ txp :: order.drop n else order ++ [txp]
  | _ => order

theorem orderStep_accepted (cfg : Cfg Pkt) (order : List Pkt) (n : Nat) (txp : Pkt) :
    orderStep cfg order n (.accepted txp) =
      if dhdMatchPktType cfg txp then order.take n ++ txp :: order.drop n else order ++ [txp] := rfl

/-- The order of the accepted packets, and the number taken. -/
def orders (cfg : Cfg Pkt) (tr : Trace Pkt) : List Pkt × Nat :=
  tr.foldl (fun a e => (orderStep cfg a.1 a.2 e.2, a.2 + (sentOf e.2).length)) ([], 0)

def order (cfg : Cfg Pkt) (tr : Trace Pkt) : List Pkt := (orders cfg tr).1

/-- No error is induced while packets are posted. -/
def notInduced (_ : State Pkt) : Call Pkt → Bool
  | .schedule _ _ attempts => attempts.all fun a => !a.induceTxBigPkt
  | .scheduleQueue _ _ attempts => attempts.all fun a => !a.induceTxBigPkt
  | _ => true

/-! ## The loop -/

variable {attempts : List (Attempt Pkt)} {caller : Nat} {r : Result Pkt}

theorem headD_notInduced (ha : ∀ a ∈ attempts, a.induceTxBigPkt = false) :
    (attempts.headD noResource).induceTxBigPkt = false := by
  cases attempts with
  | nil => rfl
  | cons a as => exact ha a List.mem_cons_self

section
variable [DecidableEq Pkt]

theorem post_cases (a : Attempt Pkt) (owner : Pkt → Owner) (pktbuf : Pkt) :
    post a owner pktbuf = (owner, none, .noResource) ∨
    post a owner pktbuf = (Function.update owner pktbuf .dongle, some pktbuf, .ok) := by
  unfold post
  split
  · exact .inr rfl
  · exact .inl rfl

/-- With no error induced, a packet is posted or nothing happens. -/
theorem protTxdata_cases {a : Attempt Pkt} (ha : a.induceTxBigPkt = false) (owner : Pkt → Owner)
    (pktbuf : Pkt) :
    protTxdata a owner pktbuf = (owner, none, .noResource) ∨
    protTxdata a owner pktbuf = (Function.update owner pktbuf .dongle, some pktbuf, .ok) := by
  unfold protTxdata
  rw [ha]
  split
  · exact .inl rfl
  · exact post_cases a owner pktbuf

/-- What is posted of a packet that is taken. -/
def fate (cfg : Cfg Pkt) (pkt : Pkt) : Option Pkt := if dropped cfg pkt then none else some pkt

/-- One round for a packet at the head: it stays there, or it is taken, and posted unless it is
dropped. -/
theorem round_cases (cfg : Cfg Pkt) (ha : ∀ a ∈ attempts, a.induceTxBigPkt = false)
    (owner : Pkt → Owner) (txp : Pkt) :
    ∃ owner', (∀ p, p ≠ txp → owner' p = owner p) ∧
      ((if dropped cfg txp then (owner, none, .ok)
          else protTxdata (attempts.headD noResource) owner txp) = (owner', fate cfg txp, .ok) ∨
        owner' = owner ∧
        (if dropped cfg txp then (owner, none, .ok)
          else protTxdata (attempts.headD noResource) owner txp) =
            ((owner, none, .noResource) : (Pkt → Owner) × Option Pkt × Bcme)) := by
  unfold fate
  split
  · exact ⟨owner, fun _ _ => rfl, .inl rfl⟩
  · rcases protTxdata_cases (headD_notInduced ha) owner txp with hr | hr
    · exact ⟨owner, fun _ _ => rfl, .inr ⟨rfl, hr⟩⟩
    · exact ⟨_, fun p hp => Function.update_of_ne hp .., .inl hr⟩

/-- **The loop** takes packets from the front of the queue, and ends. -/
theorem drain_spec (cfg : Cfg Pkt) (bound fuel : Nat) :
    ∀ (cnt : Nat) {attempts : List (Attempt Pkt)} {queue : FlowQueue Pkt} (owner : Pkt → Owner)
      {l : List Pkt}, Holds queue l → l.length < fuel →
      (∀ a ∈ attempts, a.induceTxBigPkt = false) →
      ∃ d l', drain cfg bound fuel cnt attempts queue owner = some d ∧
        l = d.sent.map Sent.taken ++ l' ∧ Holds d.queue l' ∧ SameCounters queue d.queue ∧
        (∀ x ∈ d.sent, x.posted = fate cfg x.taken) ∧
        ∀ p, p ∉ d.sent.map Sent.taken → d.owner p = owner p := by
  induction fuel with
  | zero => exact fun _ _ _ _ _ _ hf => absurd hf (Nat.not_lt_zero _)
  | succ fuel ih =>
    intro cnt attempts queue owner l h hf ha
    unfold drain
    cases l with
    | nil =>
      rw [dequeue_nil h]
      exact ⟨⟨queue, owner, []⟩, [], rfl, rfl, h, .rfl' queue, nofun, fun _ _ => rfl⟩
    | cons txp rest =>
      obtain ⟨queue', hdeq, hsame, h', hnot⟩ := dequeue_cons h
      have hroom : rest.length < queue'.max := by
        have hle := h.length_le
        rw [List.length_cons] at hle
        rw [hsame.1]
        omega
      obtain ⟨owner', hother, hr | ⟨rfl, hr⟩⟩ := round_cases cfg ha owner txp
      · rw [hdeq]
        dsimp only
        rw [hr, if_neg (not_not_intro rfl)]
        by_cases hb : bound ≠ 0 ∧ cnt + 1 ≥ bound
        · rw [if_pos hb]
          refine ⟨_, rest, rfl, rfl, h', hsame, ?_, ?_⟩
          · intro x hx
            rw [List.mem_singleton.1 hx]
          · intro p hp
            exact hother p fun heq => hp (by rw [heq]; exact List.mem_singleton_self txp)
        · rw [if_neg hb]
          have hmore : ∀ a ∈ if dropped cfg txp then attempts else attempts.tail,
              a.induceTxBigPkt = false := by
            split
            · exact ha
            · exact fun a hm => ha a (List.mem_of_mem_tail hm)
          obtain ⟨d, l', hd, hsplit, hlast, hsame', hfate, hown⟩ :=
            ih (cnt + 1) owner' h' (Nat.lt_of_succ_lt_succ hf) hmore
          rw [hd]
          refine ⟨_, l', rfl, ?_, hlast, hsame.trans hsame', ?_, ?_⟩
          · rw [hsplit]
            rfl
          · intro x hx
            rcases List.mem_cons.1 hx with rfl | hx
            · rfl
            · exact hfate x hx
          · intro p hp
            rw [List.map_cons, List.mem_cons, not_or] at hp
            exact (hown p hp.2).trans (hother p hp.1)
      · rw [hdeq]
        dsimp only
        rw [hr, if_pos nofun]
        obtain ⟨hsame', hback⟩ := reinsert_spec h' hnot hroom
        exact ⟨_, txp :: rest, rfl, rfl, hback, hsame.trans hsame', nofun, fun _ _ => rfl⟩

end

/-! ## Who has what -/

/-- The queue holds `l`; the driver has what is queued and what is pending, each once. -/
structure Shape (queue : FlowQueue Pkt) (owner : Pkt → Owner) (callers : Nat → Pc Pkt)
    (l : List Pkt) : Prop where
  holds : Holds queue l
  owned : ∀ p ∈ l, owner p = .driver
  pend_owned : ∀ c p, (callers c).txpPend = some p → owner p = .driver ∧ p ∉ l
  pend_unique : ∀ c c' p, (callers c).txpPend = some p → (callers c').txpPend = some p → c' = c

/-- The driver has the packet, neither queued nor pending. -/
structure InHand (owner : Pkt → Owner) (callers : Nat → Pc Pkt) (l : List Pkt) (p : Pkt) :
    Prop where
  owned : owner p = .driver
  not_queued : p ∉ l
  not_pend : ∀ c, (callers c).txpPend ≠ some p

variable {cfg : Cfg Pkt} {queue queue' : FlowQueue Pkt} {owner owner' : Pkt → Owner}
  {callers : Nat → Pc Pkt} {l l' : List Pkt} {p : Pkt}

/-- A packet that the driver does not have is given to it. -/
theorem Shape.give [DecidableEq Pkt] (h : Shape queue owner callers l) (ho : owner p ≠ .driver) :
    Shape queue (Function.update owner p .driver) callers l ∧
    InHand (Function.update owner p .driver) callers l p := by
  have hkeep : ∀ p', owner p' = .driver → Function.update owner p .driver p' = .driver := by
    intro p' hp'
    rw [Function.update_of_ne, hp']
    rintro rfl
    exact ho hp'
  refine ⟨⟨h.holds, fun p' hp' => hkeep p' (h.owned p' hp'), ?_, h.pend_unique⟩, ?_, ?_, ?_⟩
  · intro c p' hc
    obtain ⟨hown, hnot⟩ := h.pend_owned c p' hc
    exact ⟨hkeep p' hown, hnot⟩
  · exact Function.update_self ..
  · exact fun hp => ho (h.owned p hp)
  · exact fun c hc => ho (h.pend_owned c p hc).1

/-- A packet in hand is freed. -/
theorem Shape.toss [DecidableEq Pkt] (h : Shape queue owner callers l)
    (hp : InHand owner callers l p) (o : Owner) :
    Shape queue (Function.update owner p o) callers l := by
  refine ⟨h.holds, ?_, ?_, h.pend_unique⟩
  · intro p' hp'
    rw [Function.update_of_ne, h.owned p' hp']
    rintro rfl
    exact hp.not_queued hp'
  · intro c p' hc
    obtain ⟨hown, hnot⟩ := h.pend_owned c p' hc
    rw [Function.update_of_ne]
    · exact ⟨hown, hnot⟩
    · rintro rfl
      exact hp.not_pend c hc

/-- The pending packet of a caller stays with it, or it has none any more. -/
theorem Shape.goto (h : Shape queue owner callers l) {pc : Pc Pkt}
    (hpc : ∀ p, pc.txpPend = some p → (callers caller).txpPend = some p) :
    Shape queue owner (Function.update callers caller pc) l := by
  have hwas : ∀ c p, (Function.update callers caller pc c).txpPend = some p →
      (callers c).txpPend = some p := by
    intro c p hc
    by_cases heq : c = caller
    · subst heq
      rw [Function.update_self] at hc
      exact hpc p hc
    · rwa [Function.update_of_ne heq] at hc
  exact ⟨h.holds, h.owned, fun c p hc => h.pend_owned c p (hwas c p hc),
    fun c c' p hc hc' => h.pend_unique c c' p (hwas c p hc) (hwas c' p hc')⟩

/-- A pending packet is taken in hand. -/
theorem Shape.release (h : Shape queue owner callers l) {pc : Pc Pkt}
    (hc : (callers caller).txpPend = some p) (hpc : pc.txpPend = none) :
    InHand owner (Function.update callers caller pc) l p := by
  obtain ⟨hown, hnot⟩ := h.pend_owned caller p hc
  refine ⟨hown, hnot, ?_⟩
  intro c hcp
  by_cases heq : c = caller
  · rw [heq, Function.update_self, hpc] at hcp
    cases hcp
  · rw [Function.update_of_ne heq] at hcp
    exact heq (h.pend_unique caller c p hc hcp)

/-- A packet in hand becomes pending. -/
theorem Shape.pend (h : Shape queue owner callers l) (hp : InHand owner callers l p) {pc : Pc Pkt}
    (hpc : pc.txpPend = some p) :
    Shape queue owner (Function.update callers caller pc) l := by
  have hwas : ∀ c p', (Function.update callers caller pc c).txpPend = some p' →
      (c = caller ∧ p' = p) ∨ (c ≠ caller ∧ (callers c).txpPend = some p') := by
    intro c p' hc
    by_cases heq : c = caller
    · rw [heq, Function.update_self, hpc] at hc
      exact .inl ⟨heq, (Option.some.inj hc).symm⟩
    · rw [Function.update_of_ne heq] at hc
      exact .inr ⟨heq, hc⟩
  refine ⟨h.holds, h.owned, ?_, ?_⟩
  · intro c p' hc
    rcases hwas c p' hc with ⟨-, rfl⟩ | ⟨-, hc⟩
    · exact ⟨hp.owned, hp.not_queued⟩
    · exact h.pend_owned c p' hc
  · intro c c' p' hc hc'
    rcases hwas c p' hc with ⟨rfl, rfl⟩ | ⟨-, hc⟩
    · rcases hwas c' p' hc' with ⟨rfl, -⟩ | ⟨-, hc'⟩
      · rfl
      · exact absurd hc' (hp.not_pend c')
    · rcases hwas c' p' hc' with ⟨-, rfl⟩ | ⟨-, hc'⟩
      · exact absurd hc (hp.not_pend c)
      · exact h.pend_unique c c' p' hc hc'

/-- Where a packet is put on the queue. -/
def put (cfg : Cfg Pkt) (p : Pkt) (l : List Pkt) : List Pkt :=
  if dhdMatchPktType cfg p then p :: l else l ++ [p]

theorem mem_put {p' : Pkt} : p' ∈ put cfg p l ↔ p' = p ∨ p' ∈ l := by
  unfold put
  split
  · exact List.mem_cons
  · rw [List.mem_append, List.mem_singleton]
    exact or_comm

/-- A packet in hand is put on the queue. -/
theorem Shape.put (h : Shape queue owner callers l) (hp : InHand owner callers l p)
    (hq : Holds queue' (put cfg p l)) : Shape queue' owner callers (put cfg p l) := by
  refine ⟨hq, ?_, ?_, h.pend_unique⟩
  · intro p' hp'
    rcases mem_put.1 hp' with rfl | hp'
    · exact hp.owned
    · exact h.owned p' hp'
  · intro c p' hc
    obtain ⟨hown, hnot⟩ := h.pend_owned c p' hc
    refine ⟨hown, fun hm => ?_⟩
    rcases mem_put.1 hm with rfl | hm
    · exact hp.not_pend c hc
    · exact hnot hm

/-- Packets leave the front of the queue. -/
theorem Shape.leave (h : Shape queue owner callers l) {ts : List Pkt} (hl : l = ts ++ l')
    (hq : Holds queue' l') (hother : ∀ p, p ∉ ts → owner' p = owner p) :
    Shape queue' owner' callers l' := by
  subst hl
  have hnd := h.holds.chain.nodup
  have hdisj := List.disjoint_of_nodup_append hnd
  refine ⟨hq, ?_, ?_, h.pend_unique⟩
  · intro p hp
    rw [hother p fun ht => hdisj ht hp]
    exact h.owned p (List.mem_append_right ts hp)
  · intro c p hc
    obtain ⟨hown, hnot⟩ := h.pend_owned c p hc
    rw [List.mem_append, not_or] at hnot
    rw [hother p hnot.1]
    exact ⟨hown, hnot.2⟩

/-! ## Steps -/

/-- What a call does to the queue: from `l`, when `t` was taken before, to `l'`. -/
structure Effect (cfg : Cfg Pkt) (l l' : List Pkt) (r : Result Pkt) : Prop where
  noFault : r ≠ .fault
  fates : ∀ x ∈ sentOf r, x.posted = fate cfg x.taken
  moves : ∀ t : List Pkt,
    orderStep cfg (t ++ l) t.length r = t ++ (sentOf r).map Sent.taken ++ l'

theorem effect_nothing (cfg : Cfg Pkt) (l : List Pkt) : Effect cfg l l .nothing :=
  ⟨nofun, nofun, fun t => by rw [List.append_assoc]; rfl⟩

theorem effect_pended (cfg : Cfg Pkt) (l : List Pkt) (p : Pkt) : Effect cfg l l (.pended p) :=
  ⟨nofun, nofun, fun t => by rw [List.append_assoc]; rfl⟩

theorem effect_tossed (cfg : Cfg Pkt) (l : List Pkt) (p : Pkt) (ret : Bcme) :
    Effect cfg l l (.tossed p ret) :=
  ⟨nofun, nofun, fun t => by rw [List.append_assoc]; rfl⟩

theorem effect_accepted (cfg : Cfg Pkt) (l : List Pkt) (p : Pkt) :
    Effect cfg l (put cfg p l) (.accepted p) := by
  refine ⟨nofun, nofun, fun t => ?_⟩
  show orderStep cfg (t ++ l) t.length (.accepted p) = t ++ [] ++ put cfg p l
  unfold put
  rw [List.append_nil, orderStep_accepted]
  split
  · rw [List.take_left, List.drop_left]
  · rw [List.append_assoc]

/-- A call keeps the shape, and the counters that are shared. -/
def Keeps (cfg : Cfg Pkt) (s : State Pkt) (l : List Pkt) (res : State Pkt × Result Pkt) : Prop :=
  ∃ l', Shape res.1.queue res.1.owner res.1.callers l' ∧ Effect cfg l l' res.2 ∧
    SameCounters s.queue res.1.queue

section
variable [DecidableEq Pkt] {s s' : State Pkt}

theorem enqueuePkt_spec (cfg : Cfg Pkt) (h : Holds queue l) (hp : p ∉ l) :
    ∃ q' ret, enqueuePkt cfg queue p = some (q', ret) ∧ SameCounters queue q' ∧
      ((ret = .noResource ∧ Holds q' l) ∨ (ret = .ok ∧ Holds q' (put cfg p l))) := by
  unfold enqueuePkt put
  split
  · obtain ⟨q', ret, heq, hrest⟩ := enqueueHead_spec h hp
    exact ⟨q', ret, congrArg some heq, hrest⟩
  · exact enqueue_spec h hp

theorem toss_keeps {s₀ : State Pkt} (h : Shape s.queue s.owner s.callers l)
    (hp : InHand s.owner s.callers l p) (ret : Bcme) (hsame : SameCounters s₀.queue s.queue) :
    Keeps cfg s₀ l (toss s p ret) :=
  ⟨l, h.toss hp .freed, effect_tossed cfg l p ret, hsame⟩

theorem busTxdata_keeps (h : Shape s.queue s.owner s.callers l)
    (hp : InHand s.owner s.callers l p) (caller : Nat) (inited : Bool) :
    Keeps cfg s l (busTxdata cfg s caller p inited) := by
  unfold busTxdata
  split
  · exact toss_keeps h hp .ok (.rfl' s.queue)
  · split
    · exact toss_keeps h hp .error (.rfl' s.queue)
    · obtain ⟨q', ret, heq, hsame, ⟨rfl, hq⟩ | ⟨rfl, hq⟩⟩ :=
        enqueuePkt_spec cfg h.holds hp.not_queued
      · rw [heq]
        have h' : Shape q' s.owner s.callers l :=
          ⟨hq, h.owned, h.pend_owned, h.pend_unique⟩
        exact ⟨l, h'.pend hp rfl, effect_pended cfg l p, hsame⟩
      · rw [heq]
        exact ⟨put cfg p l, (h.put hp hq).goto nofun, effect_accepted cfg l p, hsame⟩

theorem busReadStatus_keeps (h : Shape s.queue s.owner s.callers l) {txpPend : Option Pkt}
    (hpc : s.callers caller = .unlocked txpPend) :
    Keeps cfg s l (busReadStatus s caller txpPend) := by
  unfold busReadStatus
  split
  · cases txpPend with
    | none => exact ⟨l, h.goto nofun, effect_nothing cfg l, .rfl' s.queue⟩
    | some txp =>
      have hpend : (s.callers caller).txpPend = some txp := by
        rw [hpc]
        rfl
      have hp : InHand s.owner (Function.update s.callers caller .idle) l txp :=
        h.release hpend rfl
      have hidle : Shape s.queue s.owner (Function.update s.callers caller .idle) l :=
        h.goto nofun
      exact toss_keeps hidle hp .noResource (.rfl' s.queue)
  · refine ⟨l, h.goto ?_, effect_nothing cfg l, .rfl' s.queue⟩
    intro p hp
    rw [hpc]
    exact hp

theorem busRetry_keeps (h : Shape s.queue s.owner s.callers l) {txp : Pkt}
    (hpc : s.callers caller = .pending txp) : Keeps cfg s l (busRetry cfg s caller txp) := by
  have hpend : (s.callers caller).txpPend = some txp := by
    rw [hpc]
    rfl
  have hp : InHand s.owner (Function.update s.callers caller .idle) l txp :=
    h.release hpend rfl
  have hidle : Shape s.queue s.owner (Function.update s.callers caller .idle) l := h.goto nofun
  unfold busRetry
  obtain ⟨q', ret, heq, hsame, ⟨rfl, hq⟩ | ⟨rfl, hq⟩⟩ :=
    enqueuePkt_spec cfg h.holds hp.not_queued
  · rw [heq]
    have h' : Shape q' s.owner (Function.update s.callers caller .idle) l :=
      ⟨hq, hidle.owned, hidle.pend_owned, hidle.pend_unique⟩
    exact toss_keeps h' hp .noResource hsame
  · rw [heq]
    exact ⟨put cfg txp l, hidle.put hp hq, effect_accepted cfg l txp, hsame⟩

theorem busScheduleQueue_keeps (h : Shape s.queue s.owner s.callers l) (ready : Ready) (bound : Nat)
    (ha : ∀ a ∈ attempts, a.induceTxBigPkt = false) :
    Keeps cfg s l (busScheduleQueue cfg s ready bound attempts) := by
  have hnone : ∀ ret, Keeps cfg s l (s, .scheduled [] ret) := fun ret =>
    ⟨l, h, ⟨nofun, fun _ hx => absurd hx List.not_mem_nil,
      fun t => by rw [List.append_assoc]; rfl⟩, .rfl' s.queue⟩
  have hfuel : l.length < fuel := Nat.lt_of_le_of_lt h.holds.length_le h.holds.max_lt
  obtain ⟨d, l', hd, hsplit, hq, hsame, hfate, hother⟩ :=
    drain_spec cfg bound fuel 0 s.owner h.holds hfuel ha
  unfold busScheduleQueue
  split
  · exact hnone _
  · split
    · exact hnone _
    · split
      · exact hnone _
      · split
        · exact hnone _
        · rw [hd]
          refine ⟨l', h.leave hsplit hq hother, ⟨nofun, hfate, fun t => ?_⟩, hsame⟩
          show t ++ l = t ++ d.sent.map Sent.taken ++ l'
          rw [hsplit, List.append_assoc]

/-- **One call.** -/
theorem step_keeps {e : Call Pkt} (h : Shape s.queue s.owner s.callers l)
    (hc : notInduced s e = true) (hs : step cfg s e = some (s', r)) : Keeps cfg s l (s', r) := by
  have hall : ∀ {attempts : List (Attempt Pkt)},
      (attempts.all fun a => !a.induceTxBigPkt) = true →
      ∀ a ∈ attempts, a.induceTxBigPkt = false := by
    intro attempts hm a ha
    have hb := List.all_eq_true.1 hm a ha
    rwa [Bool.not_eq_true'] at hb
  unfold step at hs
  cases e with
  | txdata caller txp inited =>
    dsimp only at hs
    split at hs
    · next hok =>
      obtain ⟨hgive, hp⟩ := h.give hok.2
      rw [← Option.some.inj hs]
      exact busTxdata_keeps (s := { s with owner := Function.update s.owner txp .driver })
        hgive hp caller inited
    · cases hs
  | readStatus caller =>
    dsimp only at hs
    split at hs
    · next txpPend hpc =>
      rw [← Option.some.inj hs]
      exact busReadStatus_keeps h hpc
    · cases hs
  | schedule caller ready attempts =>
    dsimp only at hs
    split at hs
    · next txpPend hpc =>
      rw [← Option.some.inj hs]
      refine busScheduleQueue_keeps (s := goto s caller _) (h.goto ?_) ready 0 (hall hc)
      intro p hp
      rw [hpc]
      cases txpPend with
      | none => cases hp
      | some txp => exact hp
    · cases hs
  | retry caller =>
    dsimp only at hs
    split at hs
    · next txp hpc =>
      rw [← Option.some.inj hs]
      exact busRetry_keeps h hpc
    · cases hs
  | scheduleQueue ready bound attempts =>
    rw [← Option.some.inj hs]
    exact busScheduleQueue_keeps h ready bound (hall hc)
  | setStatus status active =>
    rw [← Option.some.inj hs]
    exact ⟨l, h, effect_nothing cfg l, .rfl' s.queue⟩

end

/-! ## The steps on the packets alone -/

/-- The node of the life cycle, with the packets `l` on its queue; `b` has the rest. -/
def abstract (b : FlowRing.Bus Pkt) (s : State Pkt) (l : List Pkt) : FlowRing.Bus Pkt :=
  { b with
    node := { b.node with status := s.status, active := s.active, queue := l }
    callers := s.callers }

def effects : Result Pkt → List (FlowRing.Effect Pkt)
  | .accepted txp => [.accept txp]
  | .scheduled sent _ => (sent.map Sent.taken).map .move
  | _ => []

/-- The call is one of `dhd_bus_txdata` or `dhd_bus_schedule_queue`, and finds `prot_info` so. -/
def finds (protInfo : Bool) : Call Pkt → Bool
  | .schedule _ ready _ => ready.protInfo == protInfo
  | .scheduleQueue ready _ _ => ready.protInfo == protInfo
  | .setStatus _ _ => false
  | _ => true

/-- Nothing happens, or what a step of the life cycle does. -/
def Refines (b : FlowRing.Bus Pkt) (s : State Pkt) (l : List Pkt) (s' : State Pkt) (l' : List Pkt)
    (r : Result Pkt) : Prop :=
  abstract b s' l' = abstract b s l ∧ effects r = [] ∨
    ∃ c, FlowRing.txStep (abstract b s l) c = some (abstract b s' l', effects r)

variable {s s' : State Pkt} {b : FlowRing.Bus Pkt}

theorem scheduleQueue_zero (b : FlowRing.Bus Pkt) : FlowRing.scheduleQueue b 0 = (b, []) := by
  unfold FlowRing.scheduleQueue
  split
  · rfl
  · split
    · rfl
    · rfl

/-- The queue of the life cycle after a packet was accepted. -/
theorem Effect.accepted_queue {txp : Pkt} (h : Effect cfg l l' (.accepted txp)) :
    (if dhdMatchPktType cfg txp then txp :: l else l ++ [txp]) = l' := by
  have hmoves := h.moves []
  exact hmoves

section
variable [DecidableEq Pkt]

/-- What was taken off the queue was in front of what is left. -/
theorem busScheduleQueue_refines {ready : Ready} {bound : Nat}
    (hready : ready.protInfo = b.node.protInfo)
    (hr : busScheduleQueue cfg s ready bound attempts = (s', r)) (heffect : Effect cfg l l' r) :
    FlowRing.scheduleQueue (abstract b s l) (sentOf r).length =
      (abstract b s' l', effects r) := by
  have hmoves := heffect.moves []
  unfold busScheduleQueue at hr
  have hnone : ∀ ret, (s, Result.scheduled [] ret) = (s', r) →
      FlowRing.scheduleQueue (abstract b s l) (sentOf r).length =
        (abstract b s' l', effects r) := by
    rintro ret heq
    obtain ⟨rfl, rfl⟩ := Prod.mk.inj heq
    have hl : l = l' := hmoves
    rw [← hl]
    exact scheduleQueue_zero _
  split at hr
  · exact hnone _ hr
  · next hinfo =>
    split at hr
    · exact hnone _ hr
    · split at hr
      · exact hnone _ hr
      · next hopen =>
        split at hr
        · exact hnone _ hr
        · split at hr
          · obtain ⟨-, rfl⟩ := Prod.mk.inj hr
            exact absurd rfl heffect.noFault
          · next d _ =>
            obtain ⟨rfl, rfl⟩ := Prod.mk.inj hr
            have hl : l = d.sent.map Sent.taken ++ l' := hmoves
            have hlen : d.sent.length = (d.sent.map Sent.taken).length := by
              rw [List.length_map]
            unfold FlowRing.scheduleQueue
            have hset : ¬ (abstract b s l).node.protInfo = false := by
              show ¬ b.node.protInfo = false
              rw [← hready]
              simpa using hinfo
            have hstatus : ¬ (abstract b s l).node.status ≠ .opened := hopen
            rw [if_neg hset, if_neg hstatus]
            have hdrop : l.drop d.sent.length = l' := by rw [hl, hlen, List.drop_left]
            have htake : l.take d.sent.length = d.sent.map Sent.taken := by
              rw [hlen, hl, List.take_left]
            show (abstract b _ (l.drop d.sent.length), (l.take d.sent.length).map _) = _
            rw [hdrop, htake]
            rfl

/-- **The calls refine those of the life cycle**, with the packets that the queue holds. -/
theorem step_refines {e : Call Pkt} (h : Shape s.queue s.owner s.callers l)
    (hc : notInduced s e = true) (hfinds : finds b.node.protInfo e = true)
    (hs : step cfg s e = some (s', r)) :
    ∃ l', Shape s'.queue s'.owner s'.callers l' ∧ Refines b s l s' l' r := by
  obtain ⟨l', hshape, heffect, -⟩ := step_keeps h hc hs
  refine ⟨l', hshape, ?_⟩
  have hmoves := heffect.moves []
  unfold step at hs
  cases e with
  | txdata caller txp inited =>
    dsimp only at hs
    split at hs
    · next hidle =>
      have hs := Option.some.inj hs
      unfold busTxdata at hs
      split at hs
      · obtain ⟨rfl, rfl⟩ := Prod.mk.inj hs
        have hl : l = l' := hmoves
        exact .inl ⟨by rw [hl]; rfl, rfl⟩
      · split at hs
        · obtain ⟨rfl, rfl⟩ := Prod.mk.inj hs
          have hl : l = l' := hmoves
          exact .inl ⟨by rw [hl]; rfl, rfl⟩
        · next hrun =>
          have hnot : ¬ ((abstract b s l).node.active = false ∨
              (abstract b s l).node.status = .deletePending ∨
              (abstract b s l).node.status = .staFreeing) := by
            simpa [abstract, not_or, and_assoc] using hrun
          have hstep : ∀ fits, FlowRing.txStep (abstract b s l)
              (.txdata caller txp (dhdMatchPktType cfg txp) fits) =
                some (FlowRing.busTxdata (abstract b s l) caller txp (dhdMatchPktType cfg txp)
                  fits) := by
            intro fits
            unfold FlowRing.txStep
            simp only [abstract, hidle.1]
          split at hs
          · obtain ⟨-, rfl⟩ := Prod.mk.inj hs
            exact absurd rfl heffect.noFault
          · obtain ⟨rfl, rfl⟩ := Prod.mk.inj hs
            refine .inr ⟨_, (hstep true).trans (congrArg some ?_)⟩
            unfold FlowRing.busTxdata
            rw [if_neg hnot, ← heffect.accepted_queue]
            rfl
          · obtain ⟨rfl, rfl⟩ := Prod.mk.inj hs
            have hl : l = l' := hmoves
            refine .inr ⟨_, (hstep false).trans (congrArg some ?_)⟩
            unfold FlowRing.busTxdata
            rw [if_neg hnot, ← hl]
            rfl
    · cases hs
  | readStatus caller =>
    dsimp only at hs
    split at hs
    · next txpPend hpc =>
      have hs := Option.some.inj hs
      have hstep : FlowRing.txStep (abstract b s l) (.readStatus caller) =
          some (FlowRing.busReadStatus (abstract b s l) caller txpPend, []) := by
        unfold FlowRing.txStep
        simp only [abstract, hpc]
      refine .inr ⟨_, hstep.trans (congrArg some ?_)⟩
      unfold busReadStatus at hs
      unfold FlowRing.busReadStatus
      split at hs
      · next hne =>
        have hne : (abstract b s l).node.status ≠ .opened := hne
        rw [if_pos hne]
        cases txpPend with
        | none =>
          obtain ⟨rfl, rfl⟩ := Prod.mk.inj hs
          have hl : l = l' := hmoves
          rw [hl]
          rfl
        | some txp =>
          obtain ⟨rfl, rfl⟩ := Prod.mk.inj hs
          have hl : l = l' := hmoves
          rw [hl]
          rfl
      · next hopen =>
        have hopen : ¬ (abstract b s l).node.status ≠ .opened := hopen
        rw [if_neg hopen]
        obtain ⟨rfl, rfl⟩ := Prod.mk.inj hs
        have hl : l = l' := hmoves
        rw [hl]
        rfl
    · cases hs
  | schedule caller ready attempts =>
    dsimp only at hs
    split at hs
    · next txpPend hpc =>
      have hs := Option.some.inj hs
      refine .inr ⟨.schedule caller (sentOf r).length, ?_⟩
      have hstep : FlowRing.txStep (abstract b s l) (.schedule caller (sentOf r).length) =
          some (FlowRing.busSchedule (abstract b s l) caller txpPend (sentOf r).length) := by
        unfold FlowRing.txStep
        simp only [abstract, hpc]
      rw [hstep]
      have hpc' : (match txpPend with
          | some txp => Pc.pending txp
          | none => .idle) = .scheduled txpPend := by
        cases txpPend with
        | none => rfl
        | some txp => rfl
      rw [hpc'] at hs
      exact congrArg some
        (busScheduleQueue_refines (s := goto s caller (.scheduled txpPend)) (beq_iff_eq.mp hfinds)
          hs heffect)
    · cases hs
  | retry caller =>
    dsimp only at hs
    split at hs
    · next txp hpc =>
      have hs := Option.some.inj hs
      have hstep : ∀ toHead fits,
          FlowRing.txStep (abstract b s l) (.retry caller toHead fits) =
            some (FlowRing.busRetry (abstract b s l) caller txp toHead fits) := by
        intro toHead fits
        unfold FlowRing.txStep
        simp only [abstract, hpc]
      unfold busRetry at hs
      split at hs
      · obtain ⟨-, rfl⟩ := Prod.mk.inj hs
        exact absurd rfl heffect.noFault
      · obtain ⟨rfl, rfl⟩ := Prod.mk.inj hs
        refine .inr ⟨_, (hstep (dhdMatchPktType cfg txp) true).trans (congrArg some ?_)⟩
        rw [← heffect.accepted_queue]
        rfl
      · obtain ⟨rfl, rfl⟩ := Prod.mk.inj hs
        have hl : l = l' := hmoves
        refine .inr ⟨_, (hstep (dhdMatchPktType cfg txp) false).trans (congrArg some ?_)⟩
        rw [← hl]
        rfl
    · cases hs
  | scheduleQueue ready bound attempts =>
    refine .inr ⟨.scheduleQueue (sentOf r).length, ?_⟩
    exact congrArg some
      (busScheduleQueue_refines (beq_iff_eq.mp hfinds) (Option.some.inj hs) heffect)
  | setStatus status active => cases hfinds

end

/-! ## Runs -/

theorem sent_snoc (tr : Trace Pkt) (e : Call Pkt × Result Pkt) :
    sent (tr ++ [e]) = sent tr ++ sentOf e.2 := by
  unfold sent
  rw [List.flatMap_append, List.flatMap_singleton]

theorem orders_snoc (cfg : Cfg Pkt) (tr : Trace Pkt) (e : Call Pkt × Result Pkt) :
    orders cfg (tr ++ [e]) =
      (orderStep cfg (orders cfg tr).1 (orders cfg tr).2 e.2,
        (orders cfg tr).2 + (sentOf e.2).length) := by
  unfold orders
  rw [List.foldl_append]
  rfl

theorem accepted_snoc (tr : Trace Pkt) (e : Call Pkt × Result Pkt) :
    accepted (tr ++ [e]) = accepted tr ++ accepted [e] := by
  unfold accepted
  rw [List.filterMap_append]

/-- **The invariant**, from the queue `q₀` on: `l` is queued. -/
structure Inv (cfg : Cfg Pkt) (q₀ : FlowQueue Pkt) (s : State Pkt) (tr : Trace Pkt)
    (l : List Pkt) : Prop where
  shape : Shape s.queue s.owner s.callers l
  noFault : ∀ e ∈ tr, e.2 ≠ .fault
  orders_eq : orders cfg tr = (taken tr ++ l, (taken tr).length)
  fates : ∀ x ∈ sent tr, x.posted = fate cfg x.taken
  counters : SameCounters q₀ s.queue

theorem inv_init (cfg : Cfg Pkt) (link : Pkt → Option Pkt) (max clen l2clen : Nat)
    (status : Status) :
    Inv cfg (reinit link max clen l2clen) (init link max clen l2clen status) [] [] where
  shape := ⟨holds_reinit link max clen l2clen, nofun, nofun, nofun⟩
  noFault := nofun
  orders_eq := rfl
  fates := nofun
  counters := .rfl' _

section
variable [DecidableEq Pkt] {s s' : State Pkt}

theorem step_inv {cfg : Cfg Pkt} {q₀ : FlowQueue Pkt} {tr : Trace Pkt} {e : Call Pkt}
    (h : Inv cfg q₀ s tr l) (hc : notInduced s e = true) (hs : step cfg s e = some (s', r)) :
    ∃ l', Inv cfg q₀ s' (tr ++ [(e, r)]) l' := by
  obtain ⟨l', hshape, heffect, hsame⟩ := step_keeps h.shape hc hs
  have htaken : taken (tr ++ [(e, r)]) = taken tr ++ (sentOf r).map Sent.taken := by
    unfold taken
    rw [sent_snoc, List.map_append]
  refine ⟨l', hshape, ?_, ?_, ?_, h.counters.trans hsame⟩
  · intro e' he'
    rcases List.mem_append.1 he' with he' | he'
    · exact h.noFault e' he'
    · rw [List.mem_singleton.1 he']
      exact heffect.noFault
  · rw [orders_snoc, h.orders_eq, htaken, List.length_append, List.length_map]
    exact congrArg (fun order => (order, _)) (heffect.moves (taken tr))
  · intro x hx
    rw [sent_snoc] at hx
    rcases List.mem_append.1 hx with hx | hx
    · exact h.fates x hx
    · exact heffect.fates x hx

theorem runs_keep_inv (cfg : Cfg Pkt) (link : Pkt → Option Pkt) (max clen l2clen : Nat)
    (status : Status) (es : List (Call Pkt)) (s : State Pkt) (tr : Trace Pkt)
    (hm : meets (step cfg) notInduced (init link max clen l2clen status) es = true)
    (h : runs (step cfg) (init link max clen l2clen status) es = some (s, tr)) :
    ∃ l, Inv cfg (reinit link max clen l2clen) s tr l :=
  runs_inv_of_meets (step cfg) notInduced
    (fun s tr => ∃ l, Inv cfg (reinit link max clen l2clen) s tr l)
    (fun _ _ _ _ _ ⟨_, hi⟩ hc hs => step_inv hi hc hs)
    (init link max clen l2clen status) s es tr ⟨[], inv_init cfg link max clen l2clen status⟩
    hm h

end

/-- The order is one of the accepted packets. -/
theorem order_perm (cfg : Cfg Pkt) (tr : Trace Pkt) : (order cfg tr).Perm (accepted tr) := by
  unfold order
  induction tr using List.reverseRecOn with
  | nil => exact List.Perm.nil
  | append_singleton tr e ih =>
    rw [orders_snoc, accepted_snoc]
    obtain ⟨call, r⟩ := e
    cases r with
    | accepted txp =>
      refine List.Perm.trans ?_ (ih.append_right [txp])
      dsimp only
      rw [orderStep_accepted]
      split
      · refine List.perm_middle.trans ?_
        rw [List.take_append_drop]
        exact (List.perm_append_singleton txp _).symm
      · exact List.Perm.refl _
    | _ => exact ih.trans (List.Perm.of_eq (List.append_nil _).symm)

/-- Where no packet is put at the head, the order is that in which they were accepted. -/
theorem order_eq_accepted {cfg : Cfg Pkt} (hno : ∀ p, dhdMatchPktType cfg p = false)
    (tr : Trace Pkt) : order cfg tr = accepted tr := by
  unfold order
  induction tr using List.reverseRecOn with
  | nil => rfl
  | append_singleton tr e ih =>
    rw [orders_snoc, accepted_snoc, ← ih]
    obtain ⟨call, r⟩ := e
    cases r with
    | accepted txp =>
      dsimp only
      rw [orderStep_accepted, hno txp]
      rfl
    | _ => exact (List.append_nil _).symm

/-- What is posted, of the packets that are taken. -/
theorem posted_eq {cfg : Cfg Pkt} {tr : Trace Pkt}
    (h : ∀ x ∈ sent tr, x.posted = fate cfg x.taken) :
    posted tr = (taken tr).filter fun p => !dropped cfg p := by
  unfold posted taken
  generalize sent tr = xs at h ⊢
  induction xs with
  | nil => rfl
  | cons x xs ih =>
    have hrest := ih fun y hy => h y (List.mem_cons_of_mem x hy)
    have hx := h x List.mem_cons_self
    unfold fate at hx
    rw [List.map_cons, List.filter_cons]
    cases hd : dropped cfg x.taken with
    | true =>
      rw [hd, if_pos rfl] at hx
      rw [List.filterMap_cons_none hx]
      exact hrest
    | false =>
      rw [hd, if_neg nofun] at hx
      rw [List.filterMap_cons_some hx, hrest]
      rfl

/-! ## Top theorem -/

section
variable [DecidableEq Pkt]

/-- **The transmit order of a flow.**  What was taken off the queue and what is still on it are,
together and in order, the accepted packets.  What was posted is what was taken, less the long
packets that `TXPKT_DROP` drops; in any other mode it is a prefix. -/
theorem flow_transmit_order (cfg : Cfg Pkt) (link : Pkt → Option Pkt) (max clen l2clen : Nat)
    (status : Status) (es : List (Call Pkt)) (s : State Pkt) (tr : Trace Pkt)
    (hm : meets (step cfg) notInduced (init link max clen l2clen status) es = true)
    (h : runs (step cfg) (init link max clen l2clen status) es = some (s, tr)) :
    (∀ e ∈ tr, e.2 ≠ .fault) ∧
    (∃ l, Chain s.queue.link s.queue.head l ∧ s.queue.tail = l.getLast? ∧
      order cfg tr = taken tr ++ l ∧ s.queue.len = l.length ∧ ∀ p ∈ l, s.owner p = .driver) ∧
    posted tr = (taken tr).filter (fun p => !dropped cfg p) ∧
    (cfg.dataDropMode ≠ .txpktDrop → posted tr <+: order cfg tr) ∧
    (order cfg tr).Perm (accepted tr) ∧
    ((∀ p, dhdMatchPktType cfg p = false) → order cfg tr = accepted tr) ∧
    (∀ p, (posted tr).count p ≤ (accepted tr).count p) ∧
    s.queue.clen = clen ∧ s.queue.l2clen = l2clen := by
  obtain ⟨l, hinv⟩ := runs_keep_inv cfg link max clen l2clen status es s tr hm h
  have horder : order cfg tr = taken tr ++ l := congrArg Prod.fst hinv.orders_eq
  have hposted := posted_eq hinv.fates
  have hsub : (posted tr).Sublist (order cfg tr) := by
    rw [hposted, horder]
    exact List.filter_sublist.trans (List.sublist_append_left _ _)
  refine ⟨hinv.noFault, ⟨l, hinv.shape.holds.chain, hinv.shape.holds.tail_eq, horder,
    hinv.shape.holds.len_eq, hinv.shape.owned⟩, hposted, ?_, order_perm cfg tr,
    fun hno => order_eq_accepted hno tr, ?_, hinv.counters.2.1, hinv.counters.2.2⟩
  · intro hmode
    have hall : posted tr = taken tr := by
      rw [hposted]
      refine List.filter_eq_self.2 fun p _ => ?_
      unfold dropped
      rw [beq_eq_false_iff_ne.2 hmode]
      rfl
    rw [hall, horder]
    exact List.prefix_append _ _
  · intro p
    rw [← (order_perm cfg tr).count_eq p]
    exact hsub.count_le p

end

/-- Packets are their lengths. -/
def cfg₀ (mode : DataDropMode) : Cfg Nat where
  pktlen := id
  etherType := fun _ => 0
  isEapolPkt := fun _ => false
  isArpPkt := fun _ => false
  isIcmpPkt := fun _ => false
  isDhcpPkt := fun _ => false
  enqHdrPkt := 0
  dataDropMode := mode

def ready₀ : Ready := ⟨true, true⟩

def attempt₀ : Attempt Nat := ⟨false, true, none, true, true⟩

/-- Two packets wait for the ring, and one of them is posted. -/
def calls₀ : List (Call Nat) :=
  [.txdata 0 600 true, .txdata 1 60 true, .scheduleQueue ready₀ 0 [attempt₀]]

theorem flow_transmit_order_two :
    ∃ s tr, runs (step (cfg₀ .noDataDrop)) (init (fun _ => none) 8 0 0 .opened) calls₀ =
        some (s, tr) ∧
      posted tr = [600] ∧ posted tr <+: order (cfg₀ .noDataDrop) tr :=
  ⟨_, _, rfl, rfl, (flow_transmit_order (cfg₀ .noDataDrop) (fun _ => none) 8 0 0 .opened calls₀ _ _
    (by decide) rfl).2.2.2.1 (by decide)⟩

/-- With `TXPKT_DROP` the first packet accepted is not posted and the second one is.  The
cumulative counters stay where they are while two packets are queued.  And with the error
induced, a packet is freed and put back when there is no space. -/
theorem flow_transmit_order_fails :
    (∃ s tr, runs (step (cfg₀ .txpktDrop)) (init (fun _ => none) 8 0 0 .opened) calls₀ =
        some (s, tr) ∧
      accepted tr = [600, 60] ∧ posted tr = [60]) ∧
    (∃ s tr, runs (step (cfg₀ .noDataDrop)) (init (fun _ => none) 8 0 0 .opened)
        [.txdata 0 600 true, .txdata 1 60 true] = some (s, tr) ∧
      s.queue.len = 2 ∧ s.queue.clen = 0 ∧ s.queue.l2clen = 0) ∧
    (∃ s tr, runs (step (cfg₀ .noDataDrop)) (init (fun _ => none) 8 0 0 .opened)
        [.txdata 0 60 true, .scheduleQueue ready₀ 0 [⟨true, true, some 9, true, false⟩]] =
          some (s, tr) ∧
      s.queue.head = some 60 ∧ s.owner 60 = .freed) :=
  ⟨⟨_, _, rfl, rfl, rfl⟩, ⟨_, _, rfl, rfl, rfl, rfl⟩, ⟨_, _, rfl, rfl, rfl⟩⟩

end Bcmdhd.TxData
