import Mathlib.Data.List.Basic
import Mathlib.Logic.Function.Basic
import Bcmdhd.Lib.Runs

/-!
# Life cycle of a flow ring (`dhd_flowring.c`, `dhd_pcie.c`)

One flow ring node: the host creates, flushes and deletes it by requests on the control
ring, which the dongle answers in order.  A delete for a peer may be requested while the
create is outstanding.  The create response then opens the ring, and the delete response
is the next to come.  `dhd_bus_txdata` drops the lock of the node twice; the steps of other
callers come in there.

    meets step untouchedWhileReopened init es → runs step init es = some (s, tr) →
      linked at most once ∧ as many frees as creates, or one less ∧
      DELETE_PENDING is left by a response only, and no packet is accepted in it but by
      a second try of `dhd_bus_txdata`                             (life_cycle)
-/

namespace Bcmdhd.FlowRing

open Runs

variable {α : Type}

/-! ## The node -/

/-- `FLOW_RING_STATUS_` -/
inductive Status
  | opened
  | createPending
  | closed
  | deletePending
  | flushPending
  | staFreeing
deriving DecidableEq, Repr

/-- A request that the dongle answers. -/
inductive Request
  | create
  | delete
  | flush
deriving DecidableEq, Repr

/-- Where a caller is in `dhd_bus_txdata`; a packet that was refused is pending. -/
inductive Pc (α : Type)
  | idle
  /-- before the status is read without the lock -/
  | unlocked (txpPend : Option α)
  /-- before `dhd_bus_schedule_queue` -/
  | scheduling (txpPend : Option α)
  /-- before the second try -/
  | pending (txpPend : α)
deriving DecidableEq, Repr

/-- Where a caller goes from `dhd_bus_schedule_queue`. -/
def Pc.scheduled : Option α → Pc α
  | some txpPend => .pending txpPend
  | none => .idle

/-- The packet that a caller still has to put on the queue. -/
def Pc.txpPend : Pc α → Option α
  | .idle => none
  | .unlocked txpPend => txpPend
  | .scheduling txpPend => txpPend
  | .pending txpPend => some txpPend

structure FlowRingNode (α : Type) where
  status : Status
  active : Bool
  /-- packets that wait for the ring -/
  queue : List α
  /-- `prot_info` is set -/
  protInfo : Bool
  /-- how often `list` was put on `flowring_active_list` since it was taken off -/
  linked : Nat

structure Bus (α : Type) where
  node : FlowRingNode α
  /-- the flowid of the node is in the lookup table -/
  hashed : Bool
  /-- requests on the control ring that are not answered, oldest first -/
  outstanding : List Request
  /-- the callers of `dhd_bus_txdata` -/
  callers : Nat → Pc α

inductive Effect (α : Type)
  /-- `dhd_flowid_alloc` -/
  | alloc
  /-- `dhd_flowid_free` -/
  | free
  /-- the packet is put on the queue -/
  | accept (pkt : α)
  /-- the packet is moved from the queue to the ring -/
  | move (pkt : α)
deriving DecidableEq, Repr

def init : Bus α := ⟨⟨.closed, false, [], false, 0⟩, false, [], fun _ => .idle⟩

/-- `posted`: there was space on the control ring. -/
def post (s : Bus α) (request : Request) (posted : Bool) : Bus α :=
  if posted then { s with outstanding := s.outstanding ++ [request] } else s

theorem post_eq (s : Bus α) (request : Request) (posted : Bool) :
    post s request posted =
      { s with outstanding := s.outstanding ++ if posted then [request] else [] } := by
  unfold post
  cases posted with
  | true => rfl
  | false => simp

/-! ## `dhd_pcie.c` -/

/-- The ring has room for `room` packets. -/
def scheduleQueue (s : Bus α) (room : Nat) : Bus α × List (Effect α) :=
  if s.node.protInfo = false then (s, [])
  else if s.node.status ≠ .opened then (s, [])
  else
    ({ s with node := { s.node with queue := s.node.queue.drop room } },
      (s.node.queue.take room).map .move)

/-- The packet `pkt` goes to the head or the tail of the queue. -/
def enqueue (s : Bus α) (pkt : α) (toHead : Bool) : Bus α :=
  { s with
    node := { s.node with
      queue := if toHead then pkt :: s.node.queue else s.node.queue ++ [pkt] } }

def goto (s : Bus α) (caller : Nat) (pc : Pc α) : Bus α :=
  { s with callers := Function.update s.callers caller pc }

/-- `dhd_bus_txdata` up to the first unlock.  `toHead` is the answer of `dhd_match_pkt_type`;
`fits`: the queue has room. -/
def busTxdata (s : Bus α) (caller : Nat) (pkt : α) (toHead fits : Bool) :
    Bus α × List (Effect α) :=
  if s.node.active = false ∨ s.node.status = .deletePending ∨ s.node.status = .staFreeing then
    (s, [])
  else if fits then (goto (enqueue s pkt toHead) caller (.unlocked none), [.accept pkt])
  else (goto s caller (.unlocked (some pkt)), [])

/-- The status is read, without the lock. -/
def busReadStatus (s : Bus α) (caller : Nat) (txpPend : Option α) : Bus α :=
  if s.node.status ≠ .opened then goto s caller .idle else goto s caller (.scheduling txpPend)

def busSchedule (s : Bus α) (caller : Nat) (txpPend : Option α) (room : Nat) :
    Bus α × List (Effect α) :=
  scheduleQueue (goto s caller (.scheduled txpPend)) room

/-- If we have anything pending, try to push into q; the status is not read again. -/
def busRetry (s : Bus α) (caller : Nat) (pkt : α) (toHead fits : Bool) :
    Bus α × List (Effect α) :=
  if fits then (goto (enqueue s pkt toHead) caller .idle, [.accept pkt])
  else (goto s caller .idle, [])

def cleanFlowRing (s : Bus α) : Bus α × List (Effect α) :=
  ({ s with
      node := { s.node with queue := [], status := .closed, active := false, linked := 0 }
      hashed := false }, [.free])

/-- Fails when there is no space on the control ring. -/
def flowRingCreateRequest (s : Bus α) (posted : Bool) : Bus α × Bool :=
  if posted then (post { s with node := { s.node with protInfo := true } } .create true, true)
  else (s, false)

/-- `ok`: the dongle reports success. -/
def flowRingCreateResponse (s : Bus α) (ok : Bool) (room : Nat) : Bus α × List (Effect α) :=
  if !ok then cleanFlowRing s
  else
    scheduleQueue
      { s with node := { s.node with status := .opened, linked := s.node.linked + 1 } } room

def flowRingDeleteRequest (s : Bus α) (posted : Bool) : Bus α :=
  if s.node.status = .deletePending then s
  else post { s with node := { s.node with status := .deletePending, queue := [] } } .delete posted

def flowRingDeleteResponse (s : Bus α) (ok : Bool) : Bus α × List (Effect α) :=
  if !ok then (s, []) else cleanFlowRing s

def flowRingFlushRequest (s : Bus α) (posted : Bool) : Bus α :=
  post { s with node := { s.node with status := .flushPending, queue := [] } } .flush posted

def flowRingFlushResponse (s : Bus α) (ok : Bool) : Bus α :=
  if !ok then s else { s with node := { s.node with status := .opened } }

/-! ## `dhd_flowring.c` -/

/-- The flow of the node is created unless `dhd_flowid_find` finds it. -/
def flowidLookup (s : Bus α) (posted : Bool) : Bus α × List (Effect α) :=
  if s.hashed then (s, [])
  else
    let s := { s with node := { s.node with active := true, status := .createPending }, hashed := true }
    let r := flowRingCreateRequest s posted
    if r.2 then (r.1, [.alloc])
    else ({ r.1 with node := { r.1.node with status := .closed, active := false } }, [.alloc])

def flowRingsDelete (s : Bus α) (posted : Bool) : Bus α :=
  if s.node.active ∧ s.node.status = .opened then flowRingDeleteRequest s posted else s

def flowRingsFlush (s : Bus α) (posted : Bool) : Bus α :=
  if s.node.active ∧ s.node.status = .opened then flowRingFlushRequest s posted else s

/-- The request is sent also while the create is pending, as no event comes later that
would delete the ring. -/
def flowRingsDeleteForPeer (s : Bus α) (posted : Bool) : Bus α :=
  if s.node.active ∧ (s.node.status = .opened ∨ s.node.status = .createPending) then
    flowRingDeleteRequest s posted
  else s

/-! ## Steps -/

/-- The parts of `dhd_bus_txdata`, and `dhd_bus_schedule_queue` -/
inductive TxCall (α : Type)
  | txdata (caller : Nat) (pkt : α) (toHead fits : Bool)
  | readStatus (caller : Nat)
  | schedule (caller room : Nat)
  | retry (caller : Nat) (toHead fits : Bool)
  /-- not from `dhd_bus_txdata` -/
  | scheduleQueue (room : Nat)
deriving DecidableEq, Repr

def txStep (s : Bus α) : TxCall α → Option (Bus α × List (Effect α))
  | .txdata caller pkt toHead fits =>
    match s.callers caller with
    | .idle => some (busTxdata s caller pkt toHead fits)
    | _ => none
  | .readStatus caller =>
    match s.callers caller with
    | .unlocked txpPend => some (busReadStatus s caller txpPend, [])
    | _ => none
  | .schedule caller room =>
    match s.callers caller with
    | .scheduling txpPend => some (busSchedule s caller txpPend room)
    | _ => none
  | .retry caller toHead fits =>
    match s.callers caller with
    | .pending pkt => some (busRetry s caller pkt toHead fits)
    | _ => none
  | .scheduleQueue room => some (scheduleQueue s room)

inductive Call (α : Type)
  | lookup (posted : Bool)
  | delete (posted : Bool)
  | deleteForPeer (posted : Bool)
  | flush (posted : Bool)
  | tx (c : TxCall α)
  /-- the dongle answers its oldest request, with success -/
  | respond (room : Nat)
deriving DecidableEq, Repr

/-- The handler of a response. -/
def response (s : Bus α) (room : Nat) : Request → Bus α × List (Effect α)
  | .create => flowRingCreateResponse s true room
  | .delete => flowRingDeleteResponse s true
  | .flush => (flowRingFlushResponse s true, [])

def step (s : Bus α) : Call α → Option (Bus α × List (Effect α))
  | .lookup posted => some (flowidLookup s posted)
  | .delete posted => some (flowRingsDelete s posted, [])
  | .deleteForPeer posted => some (flowRingsDeleteForPeer s posted, [])
  | .flush posted => some (flowRingsFlush s posted, [])
  | .tx c => txStep s c
  | .respond room =>
    match s.outstanding with
    | [] => none
    | request :: rest => some (response { s with outstanding := rest } room request)

/-- Neither a delete nor a flush is requested of a ring that was opened by the response
of its create while its delete is outstanding. -/
def untouchedWhileReopened (s : Bus α) : Call α → Bool
  | .delete _ | .deleteForPeer _ | .flush _ =>
    !(s.node.status == .opened && s.outstanding.contains .delete)
  | _ => true

abbrev Trace (α : Type) := List (Call α × List (Effect α))

def isAlloc : Effect α → Bool
  | .alloc => true
  | _ => false

def isFree : Effect α → Bool
  | .free => true
  | _ => false

/-- The number of creates. -/
def creates (tr : Trace α) : Nat := (tr.flatMap Prod.snd).countP isAlloc

/-- The number of calls of `dhd_flowid_free`. -/
def frees (tr : Trace α) : Nat := (tr.flatMap Prod.snd).countP isFree

theorem creates_snoc (tr : Trace α) (c : Call α) (effs : List (Effect α)) :
    creates (tr ++ [(c, effs)]) = creates tr + effs.countP isAlloc := by
  simp [creates, List.flatMap_append, List.countP_append]

theorem frees_snoc (tr : Trace α) (c : Call α) (effs : List (Effect α)) :
    frees (tr ++ [(c, effs)]) = frees tr + effs.countP isFree := by
  simp [frees, List.flatMap_append, List.countP_append]

/-! ## Phases -/

/-- What can be outstanding in a status, and whether the node is on the active list. -/
inductive Phase : Status → List Request → Nat → Prop
  | closed : Phase .closed [] 0
  | creating : Phase .createPending [.create] 0
  /-- deleted before the create response came -/
  | doomed : Phase .deletePending [.create, .delete] 0
  | doomedUnposted : Phase .deletePending [.create] 0
  | opened : Phase .opened [] 1
  /-- the create response came while the delete was outstanding -/
  | reopened : Phase .opened [.delete] 1
  | deleting : Phase .deletePending [.delete] 1
  | deletingUnposted : Phase .deletePending [] 1
  | flushing : Phase .flushPending [.flush] 1
  | flushingUnposted : Phase .flushPending [] 1

theorem Phase.of_closed {outstanding : List Request} {linked : Nat}
    (h : Phase .closed outstanding linked) : outstanding = [] ∧ linked = 0 := by
  cases h
  exact ⟨rfl, rfl⟩

theorem Phase.of_createPending {outstanding : List Request} {linked : Nat}
    (h : Phase .createPending outstanding linked) : outstanding = [.create] ∧ linked = 0 := by
  cases h
  exact ⟨rfl, rfl⟩

theorem Phase.of_opened {outstanding : List Request} {linked : Nat}
    (h : Phase .opened outstanding linked) :
    (outstanding = [] ∨ outstanding = [.delete]) ∧ linked = 1 := by
  cases h with
  | opened => exact ⟨.inl rfl, rfl⟩
  | reopened => exact ⟨.inr rfl, rfl⟩

/-- What the oldest request can be, and what is left after it. -/
theorem Phase.of_cons {status : Status} {request : Request} {rest : List Request} {linked : Nat}
    (h : Phase status (request :: rest) linked) :
    (request = .create ∧ linked = 0 ∧ status ≠ .closed ∧ (rest = [] ∨ rest = [.delete])) ∨
    (request = .delete ∧ status ≠ .closed ∧ rest = []) ∨
    (request = .flush ∧ linked = 1 ∧ status = .flushPending ∧ rest = []) := by
  cases h with
  | creating => exact .inl ⟨rfl, rfl, nofun, .inl rfl⟩
  | doomed => exact .inl ⟨rfl, rfl, nofun, .inr rfl⟩
  | doomedUnposted => exact .inl ⟨rfl, rfl, nofun, .inl rfl⟩
  | reopened => exact .inr (.inl ⟨rfl, nofun, rfl⟩)
  | deleting => exact .inr (.inl ⟨rfl, nofun, rfl⟩)
  | flushing => exact .inr (.inr ⟨rfl, rfl, rfl, rfl⟩)

/-- **The invariant.**  A node that is not closed has its flowid, which is what the creates
and frees add up to. -/
structure Inv (s : Bus α) (tr : Trace α) : Prop where
  phase : Phase s.node.status s.outstanding s.node.linked
  hashed : s.node.status ≠ .closed → s.hashed = true
  counted : creates tr = frees tr + if s.hashed then 1 else 0

theorem inv_init : Inv (init : Bus α) [] where
  phase := .closed
  hashed := by
    intro h
    exact absurd rfl h
  counted := rfl

/-- Only the queue and the callers changed. -/
def withTx (s : Bus α) (queue : List α) (callers : Nat → Pc α) : Bus α :=
  { s with node := { s.node with queue := queue }, callers := callers }

/-- No flowid was allocated or freed. -/
def noFlowid (effs : List (Effect α)) : Prop := effs.countP isAlloc = 0 ∧ effs.countP isFree = 0

theorem noFlowid_nil : noFlowid ([] : List (Effect α)) := ⟨rfl, rfl⟩

variable {s s' : Bus α} {tr : Trace α} {effs : List (Effect α)}

theorem Inv.queue (h : Inv s tr) (c : Call α) (queue : List α) (callers : Nat → Pc α)
    (heffs : noFlowid effs) :
    Inv (withTx s queue callers) (tr ++ [(c, effs)]) where
  phase := h.phase
  hashed := h.hashed
  counted := by
    rw [creates_snoc, frees_snoc, heffs.1, heffs.2]
    exact h.counted

theorem Inv.same (h : Inv s tr) (c : Call α) :
    Inv s (tr ++ [(c, [])]) :=
  h.queue c s.node.queue s.callers noFlowid_nil

/-- Scheduling moves packets from the queue to an open ring. -/
theorem scheduleQueue_cases (s : Bus α) (room : Nat) :
    ∃ queue pkts, scheduleQueue s room =
        (withTx s queue s.callers, pkts.map .move) ∧
      (s.node.status ≠ .opened → pkts = []) := by
  unfold scheduleQueue
  split
  · exact ⟨s.node.queue, [], rfl, fun _ => rfl⟩
  · split
    · exact ⟨s.node.queue, [], rfl, fun _ => rfl⟩
    · next hopen =>
      exact ⟨s.node.queue.drop room, s.node.queue.take room, rfl, fun hne => absurd hne hopen⟩

theorem noFlowid_move (pkts : List α) : noFlowid (pkts.map Effect.move) := by
  constructor
  · rw [List.countP_eq_zero]
    intro e he
    obtain ⟨p, -, rfl⟩ := List.mem_map.1 he
    exact Bool.false_ne_true
  · rw [List.countP_eq_zero]
    intro e he
    obtain ⟨p, -, rfl⟩ := List.mem_map.1 he
    exact Bool.false_ne_true

/-- A packet is accepted where the status was looked at, or by a second try; it is moved from an
open node. -/
structure TxEffects (s : Bus α) (c : TxCall α) (effs : List (Effect α)) : Prop where
  noFlowid : noFlowid effs
  accepted : s.node.status = .deletePending → ∀ pkt, .accept pkt ∈ effs →
    ∃ caller toHead fits, c = .retry caller toHead fits
  moved : s.node.status ≠ .opened → ∀ pkt, .move pkt ∉ effs

theorem TxEffects.nothing (s : Bus α) (c : TxCall α) : TxEffects s c [] :=
  ⟨noFlowid_nil, fun _ _ h => absurd h List.not_mem_nil, fun _ _ h => absurd h List.not_mem_nil⟩

theorem TxEffects.moves (c : TxCall α) {pkts : List α} (h : s.node.status ≠ .opened → pkts = []) :
    TxEffects s c (pkts.map .move) where
  noFlowid := noFlowid_move pkts
  accepted := by
    intro _ pkt hmem
    obtain ⟨p, -, hp⟩ := List.mem_map.1 hmem
    cases hp
  moved := by
    intro hne pkt hmem
    rw [h hne] at hmem
    cases hmem

/-- A part of `dhd_bus_txdata` changes the queue and its caller only. -/
theorem txStep_cases {c : TxCall α} (h : txStep s c = some (s', effs)) :
    ∃ queue callers, s' = withTx s queue callers ∧ TxEffects s c effs := by
  cases c with
  | txdata caller pkt toHead fits =>
    unfold txStep busTxdata at h
    dsimp only at h
    split at h
    · split at h
      · cases h
        exact ⟨_, _, rfl, .nothing s _⟩
      · next hrun =>
        have hne : s.node.status ≠ .deletePending := fun hd => hrun (.inr (.inl hd))
        split at h
        · cases h
          refine ⟨_, _, rfl, ⟨rfl, rfl⟩, fun hd => absurd hd hne, fun _ p hmem => ?_⟩
          cases List.mem_singleton.1 hmem
        · cases h
          exact ⟨_, _, rfl, .nothing s _⟩
    · cases h
  | readStatus caller =>
    unfold txStep busReadStatus at h
    dsimp only at h
    split at h
    · split at h
      · cases h
        exact ⟨_, _, rfl, .nothing s _⟩
      · cases h
        exact ⟨_, _, rfl, .nothing s _⟩
    · cases h
  | schedule caller room =>
    unfold txStep busSchedule at h
    dsimp only at h
    split at h
    · next txpPend _ =>
      obtain ⟨queue, pkts, hr, hne⟩ := scheduleQueue_cases (goto s caller (.scheduled txpPend)) room
      obtain ⟨rfl, rfl⟩ := Prod.mk.inj (hr.symm.trans (Option.some.inj h))
      exact ⟨_, _, rfl, .moves _ hne⟩
    · cases h
  | retry caller toHead fits =>
    unfold txStep busRetry at h
    dsimp only at h
    split at h
    · split at h
      · cases h
        refine ⟨_, _, rfl, ⟨rfl, rfl⟩, fun _ _ _ => ⟨_, _, _, rfl⟩, fun _ p hmem => ?_⟩
        cases List.mem_singleton.1 hmem
      · cases h
        exact ⟨_, _, rfl, .nothing s _⟩
    · cases h
  | scheduleQueue room =>
    obtain ⟨queue, pkts, hr, hne⟩ := scheduleQueue_cases s room
    obtain ⟨rfl, rfl⟩ := Prod.mk.inj (hr.symm.trans (Option.some.inj h))
    exact ⟨_, _, rfl, .moves _ hne⟩

/-! ## Every step -/

/-- A create, posted or not. -/
theorem flowidLookup_cases (s : Bus α) (posted : Bool) :
    (s.hashed = true ∧ flowidLookup s posted = (s, [])) ∨
    (s.hashed = false ∧ ∃ s', flowidLookup s posted = (s', [.alloc]) ∧ s'.hashed = true ∧
      s'.node.linked = s.node.linked ∧
      ((s'.node.status = .createPending ∧ s'.outstanding = s.outstanding ++ [.create]) ∨
        (s'.node.status = .closed ∧ s'.outstanding = s.outstanding))) := by
  unfold flowidLookup
  cases hs : s.hashed with
  | true => exact .inl ⟨rfl, rfl⟩
  | false =>
    refine .inr ⟨rfl, ?_⟩
    cases posted with
    | true => exact ⟨_, rfl, rfl, rfl, .inl ⟨rfl, rfl⟩⟩
    | false => exact ⟨_, rfl, rfl, rfl, .inr ⟨rfl, rfl⟩⟩

theorem flowidLookup_inv (h : Inv s tr) (posted : Bool) :
    Inv (flowidLookup s posted).1 (tr ++ [(.lookup posted, (flowidLookup s posted).2)]) := by
  rcases flowidLookup_cases s posted with ⟨-, hr⟩ | ⟨hno, s', hr, hhashed, hlinked, hnext⟩
  · rw [hr]
    exact h.same _
  · rw [hr]
    -- a node without flowid is closed
    have hclosed : s.node.status = .closed := by
      by_contra hne
      rw [h.hashed hne] at hno
      cases hno
    have hphase := h.phase
    rw [hclosed] at hphase
    obtain ⟨hout, hzero⟩ := hphase.of_closed
    rw [hout] at hnext
    rw [hzero] at hlinked
    have hcount := h.counted
    rw [hno] at hcount
    refine ⟨?_, fun _ => hhashed, ?_⟩
    · rw [hlinked]
      rcases hnext with ⟨hst, hnew⟩ | ⟨hst, hnew⟩
      · rw [hst, hnew]
        exact .creating
      · rw [hst, hnew]
        exact .closed
    · show creates (tr ++ [(.lookup posted, [.alloc])]) = frees (tr ++ [(.lookup posted, [.alloc])]) + _
      rw [creates_snoc, frees_snoc, hhashed, hcount]
      rfl

/-- A request changes neither the flowid nor the counts. -/
theorem Inv.request (h : Inv s tr) (c : Call α)
    (hphase : Phase s'.node.status s'.outstanding s'.node.linked) (hopen : s.node.status ≠ .closed)
    (hhashed : s'.hashed = s.hashed) :
    Inv s' (tr ++ [(c, [])]) where
  phase := hphase
  hashed := by
    intro _
    rw [hhashed]
    exact h.hashed hopen
  counted := by
    rw [creates_snoc, frees_snoc, hhashed]
    exact h.counted

/-- Where an open ring may be touched, nothing is outstanding. -/
theorem Inv.opened (h : Inv s tr) (hopen : s.node.status = .opened)
    (hc : (!(s.node.status == .opened && s.outstanding.contains .delete)) = true) :
    s.outstanding = [] ∧ s.node.linked = 1 := by
  have hphase := h.phase
  rw [hopen] at hphase hc
  obtain ⟨hout | hout, hlinked⟩ := hphase.of_opened
  · exact ⟨hout, hlinked⟩
  · rw [hout] at hc
    exact absurd hc (by decide)

theorem deleteRequest_inv (h : Inv s tr) (c : Call α) (posted : Bool)
    (hopen : s.node.status = .opened ∨ s.node.status = .createPending)
    (hc : (!(s.node.status == .opened && s.outstanding.contains .delete)) = true) :
    Inv (flowRingDeleteRequest s posted) (tr ++ [(c, [])]) := by
  have hne : s.node.status ≠ .deletePending ∧ s.node.status ≠ .closed := by
    rcases hopen with ho | ho
    · rw [ho]
      exact ⟨nofun, nofun⟩
    · rw [ho]
      exact ⟨nofun, nofun⟩
  have hphase : Phase .deletePending (s.outstanding ++ if posted then [.delete] else [])
      s.node.linked := by
    rcases hopen with ho | ho
    · obtain ⟨hout, hlinked⟩ := h.opened ho hc
      rw [hout, hlinked]
      cases posted with
      | true => exact .deleting
      | false => exact .deletingUnposted
    · obtain ⟨hout, hlinked⟩ := (ho ▸ h.phase).of_createPending
      rw [hout, hlinked]
      cases posted with
      | true => exact .doomed
      | false => exact .doomedUnposted
  unfold flowRingDeleteRequest
  rw [if_neg hne.1, post_eq]
  exact h.request c hphase hne.2 rfl

theorem flushRequest_inv (h : Inv s tr) (c : Call α) (posted : Bool)
    (hopen : s.node.status = .opened)
    (hc : (!(s.node.status == .opened && s.outstanding.contains .delete)) = true) :
    Inv (flowRingFlushRequest s posted) (tr ++ [(c, [])]) := by
  obtain ⟨hout, hlinked⟩ := h.opened hopen hc
  have hphase : Phase .flushPending (s.outstanding ++ if posted then [.flush] else [])
      s.node.linked := by
    rw [hout, hlinked]
    cases posted with
    | true => exact .flushing
    | false => exact .flushingUnposted
  have hne : s.node.status ≠ .closed := by
    rw [hopen]
    exact nofun
  unfold flowRingFlushRequest
  rw [post_eq]
  exact h.request c hphase hne rfl

/-- The node is cleaned, and its flowid freed. -/
theorem cleanFlowRing_inv (h : Inv s tr) (c : Call α) (hne : s.node.status ≠ .closed) :
    Inv (cleanFlowRing { s with outstanding := [] }).1 (tr ++ [(c, [.free])]) where
  phase := .closed
  hashed := fun hnc => absurd rfl hnc
  counted := by
    have hcount := h.counted
    rw [h.hashed hne] at hcount
    rw [creates_snoc, frees_snoc, hcount]
    rfl

/-- A response sets the node to open. -/
theorem Inv.reopen (h : Inv s tr) (c : Call α) (hne : s.node.status ≠ .closed)
    (hopen : s'.node.status = .opened) (hout : s'.outstanding = [] ∨ s'.outstanding = [.delete])
    (hlinked : s'.node.linked = 1) (hhashed : s'.hashed = s.hashed) (heffs : noFlowid effs) :
    Inv s' (tr ++ [(c, effs)]) where
  phase := by
    rw [hopen, hlinked]
    rcases hout with hout | hout
    · rw [hout]
      exact .opened
    · rw [hout]
      exact .reopened
  hashed := by
    intro _
    rw [hhashed]
    exact h.hashed hne
  counted := by
    rw [creates_snoc, frees_snoc, heffs.1, heffs.2, hhashed]
    exact h.counted

theorem response_inv (h : Inv s tr) (c : Call α) (room : Nat) {request : Request}
    {rest : List Request} (hs : s.outstanding = request :: rest) :
    Inv (response { s with outstanding := rest } room request).1
      (tr ++ [(c, (response { s with outstanding := rest } room request).2)]) := by
  rcases (hs ▸ h.phase).of_cons with ⟨rfl, hl, hne, hrest⟩ | ⟨rfl, hne, rfl⟩ | ⟨rfl, hl, hst, rfl⟩
  · obtain ⟨queue, pkts, hr, -⟩ := scheduleQueue_cases
      { s with
        outstanding := rest
        node := { s.node with status := .opened, linked := s.node.linked + 1 } } room
    show Inv (scheduleQueue _ room).1 (tr ++ [(c, (scheduleQueue _ room).2)])
    rw [hr]
    refine h.reopen c hne rfl hrest ?_ rfl (noFlowid_move pkts)
    show s.node.linked + 1 = 1
    rw [hl]
  · exact cleanFlowRing_inv h c hne
  · refine h.reopen c ?_ rfl (.inl rfl) hl rfl noFlowid_nil
    rw [hst]
    exact nofun

theorem step_inv {c : Call α} (h : Inv s tr) (hc : untouchedWhileReopened s c = true)
    (hs : step s c = some (s', effs)) :
    Inv s' (tr ++ [(c, effs)]) := by
  cases c with
  | lookup posted =>
    obtain ⟨rfl, rfl⟩ := Prod.mk.inj (Option.some.inj hs)
    exact flowidLookup_inv h posted
  | delete posted =>
    cases hs
    unfold flowRingsDelete
    split
    · next hact => exact deleteRequest_inv h _ posted (.inl hact.2) hc
    · exact h.same _
  | deleteForPeer posted =>
    cases hs
    unfold flowRingsDeleteForPeer
    split
    · next hact => exact deleteRequest_inv h _ posted hact.2 hc
    · exact h.same _
  | flush posted =>
    cases hs
    unfold flowRingsFlush
    split
    · next hact => exact flushRequest_inv h _ posted hact.2 hc
    · exact h.same _
  | tx c =>
    obtain ⟨queue, callers, rfl, heffs⟩ := txStep_cases hs
    exact h.queue _ queue callers heffs.noFlowid
  | respond room =>
    unfold step at hs
    dsimp only at hs
    split at hs
    · cases hs
    · next request rest hout =>
      obtain ⟨hs', heffs⟩ := Prod.mk.inj (Option.some.inj hs)
      rw [← hs', ← heffs]
      exact response_inv h _ room hout

theorem runs_keep_inv {es : List (Call α)} (hm : meets step untouchedWhileReopened init es = true)
    (h : runs step init es = some (s, tr)) : Inv s tr :=
  runs_inv_of_meets step untouchedWhileReopened Inv
    (fun _ _ _ _ _ hi hc hs => step_inv hi hc hs) _ _ _ _ inv_init hm h

/-! ## Every run -/

/-- A step from `DELETE_PENDING`: no packet is accepted but by a second try, none is moved while
the status is kept, and the status is left by the delete response, which cleans the node, or by
the response of a create that was requested before the delete. -/
structure PendingStep (s s' : Bus α) (c : Call α) (effs : List (Effect α)) : Prop where
  accepted : ∀ pkt, .accept pkt ∈ effs → ∃ caller toHead fits, c = .tx (.retry caller toHead fits)
  moved : ∀ pkt, .move pkt ∈ effs → s'.node.status = .opened
  status : s'.node.status = .deletePending ∨ ∃ room request, c = .respond room ∧
    s.outstanding = request :: s'.outstanding ∧
    ((request = .delete ∧ s'.node.status = .closed ∧ s'.node.linked = 0 ∧ effs = [.free]) ∨
      (request = .create ∧ s'.node.status = .opened ∧
        (s'.outstanding = [] ∨ s'.outstanding = [.delete])))

/-- Nothing happened. -/
theorem PendingStep.same (h : s.node.status = .deletePending) (c : Call α) :
    PendingStep s s c [] where
  accepted := fun _ hmem => absurd hmem List.not_mem_nil
  moved := fun _ hmem => absurd hmem List.not_mem_nil
  status := .inl h

theorem response_pending (h : Inv s tr) (hd : s.node.status = .deletePending) (room : Nat)
    {request : Request} {rest : List Request} (hs : s.outstanding = request :: rest) :
    PendingStep s (response { s with outstanding := rest } room request).1 (.respond room)
      (response { s with outstanding := rest } room request).2 := by
  rcases (hs ▸ h.phase).of_cons with ⟨rfl, -, -, hrest⟩ | ⟨rfl, -, rfl⟩ | ⟨-, -, hst, -⟩
  · obtain ⟨queue, pkts, hr, -⟩ := scheduleQueue_cases
      { s with
        outstanding := rest
        node := { s.node with status := .opened, linked := s.node.linked + 1 } } room
    show PendingStep s (scheduleQueue _ room).1 _ (scheduleQueue _ room).2
    rw [hr]
    refine ⟨fun pkt hmem => ?_, fun _ _ => rfl, .inr ⟨room, .create, rfl, hs, ?_⟩⟩
    · obtain ⟨p, -, hp⟩ := List.mem_map.1 hmem
      cases hp
    · exact .inr ⟨rfl, rfl, hrest⟩
  · refine ⟨?_, ?_, .inr ⟨room, .delete, rfl, hs, .inl ⟨rfl, rfl, rfl, rfl⟩⟩⟩
    · intro pkt hmem
      cases List.mem_singleton.1 hmem
    · intro pkt hmem
      cases List.mem_singleton.1 hmem
  · rw [hd] at hst
    cases hst

theorem pendingStep {c : Call α} (h : Inv s tr) (hd : s.node.status = .deletePending)
    (hs : step s c = some (s', effs)) :
    PendingStep s s' c effs := by
  have hno : s.node.status ≠ .opened ∧ s.node.status ≠ .createPending := by
    rw [hd]
    exact ⟨nofun, nofun⟩
  cases c with
  | lookup posted =>
    rcases flowidLookup_cases s posted with ⟨-, hr⟩ | ⟨hnot, -⟩
    · obtain ⟨rfl, rfl⟩ := Prod.mk.inj (hr.symm.trans (Option.some.inj hs))
      exact .same hd _
    · rw [h.hashed (by rw [hd]; exact nofun)] at hnot
      cases hnot
  | delete posted =>
    have hr : flowRingsDelete s posted = s := if_neg fun hact => hno.1 hact.2
    cases hs
    rw [hr]
    exact .same hd _
  | deleteForPeer posted =>
    have hr : flowRingsDeleteForPeer s posted = s :=
      if_neg fun hact => hact.2.elim hno.1 hno.2
    cases hs
    rw [hr]
    exact .same hd _
  | flush posted =>
    have hr : flowRingsFlush s posted = s := if_neg fun hact => hno.1 hact.2
    cases hs
    rw [hr]
    exact .same hd _
  | tx c =>
    obtain ⟨queue, callers, rfl, heffs⟩ := txStep_cases hs
    refine ⟨fun pkt hmem => ?_, fun pkt hmem => ?_, .inl hd⟩
    · obtain ⟨caller, toHead, fits, rfl⟩ := heffs.accepted hd pkt hmem
      exact ⟨caller, toHead, fits, rfl⟩
    · exact absurd hmem (heffs.moved hno.1 pkt)
  | respond room =>
    unfold step at hs
    dsimp only at hs
    split at hs
    · cases hs
    · next request rest hout =>
      obtain ⟨hs', heffs⟩ := Prod.mk.inj (Option.some.inj hs)
      rw [← hs', ← heffs]
      exact response_pending h hd room hout

/-- **Life cycle.**  In every run that neither deletes nor flushes a ring opened by the
response of its create while its delete is outstanding: the node is linked at most once,
every create but one whose ring is still there was freed once, and a delete that is
pending stays so until its response, or until the response of an earlier create; until then no
packet is moved, and none is accepted where the status was looked at. -/
theorem life_cycle (es : List (Call α)) (s : Bus α) (tr : Trace α)
    (hm : meets step untouchedWhileReopened init es = true)
    (h : runs step init es = some (s, tr)) :
    s.node.linked ≤ 1 ∧ (creates tr = frees tr + if s.hashed then 1 else 0) ∧
    (s.node.status = .deletePending →
      ∀ c s' effs, step s c = some (s', effs) → PendingStep s s' c effs) := by
  have hinv := runs_keep_inv hm h
  refine ⟨?_, hinv.counted, ?_⟩
  · have hphase := hinv.phase
    generalize s.node.linked = linked at hphase ⊢
    generalize s.node.status = status at hphase
    generalize s.outstanding = outstanding at hphase
    cases hphase with
    | closed | creating | doomed | doomedUnposted => exact Nat.zero_le 1
    | opened | reopened | deleting | deletingUnposted | flushing | flushingUnposted =>
      exact Nat.le_refl 1
  · intro hd c s' effs hs
    exact pendingStep hinv hd hs

/-- A ring that carries a packet, refuses one and takes it the second time, is flushed, and is
deleted. -/
def flushed : List (Call Nat) :=
  [.lookup true, .tx (.txdata 0 7 false true), .tx (.readStatus 0), .respond 1,
    .tx (.txdata 0 8 false false), .tx (.readStatus 0), .tx (.schedule 0 1),
    .tx (.retry 0 false true), .flush true, .respond 0, .delete true]

theorem life_cycle_two : ∃ (s : Bus Nat) (tr : Trace Nat),
    runs step init flushed = some (s, tr) ∧
    s.node.linked ≤ 1 ∧ (creates tr = frees tr + if s.hashed then 1 else 0) ∧
    (s.node.status = .deletePending →
      ∀ c s' effs, step s c = some (s', effs) → PendingStep s s' c effs) :=
  ⟨_, _, rfl, life_cycle flushed _ _ rfl rfl⟩

/-- A peer is deleted while its ring is created: the create response opens the ring before the
delete response comes.  And a packet that was refused is accepted after a delete was requested. -/
theorem life_cycle_fails :
    (∃ (s s' : Bus Nat) (tr : Trace Nat) (effs : List (Effect Nat)),
      runs step init [.lookup true, .deleteForPeer true] = some (s, tr) ∧
      s.node.status = .deletePending ∧ s.outstanding = [.create, .delete] ∧
      step s (.respond 0) = some (s', effs) ∧
      s'.node.status = .opened ∧ s'.outstanding = [.delete]) ∧
    (∃ (s s' : Bus Nat) (tr : Trace Nat),
      runs step init [.lookup true, .respond 0, .tx (.txdata 0 8 false false),
        .tx (.readStatus 0), .tx (.schedule 0 0), .delete true] = some (s, tr) ∧
      s.node.status = .deletePending ∧
      step s (.tx (.retry 0 false true)) = some (s', [.accept 8]) ∧
      s'.node.status = .deletePending) :=
  ⟨⟨_, _, _, _, rfl, rfl, rfl, rfl, rfl, rfl⟩, ⟨_, _, _, rfl, rfl, rfl, rfl⟩⟩

end Bcmdhd.FlowRing
