import Bcmdhd.FlowRing.Lookup
import Bcmdhd.FlowRing.LifeCycle

/-!
# Concurrent flow lookups (`dhd_flowring.c`)

Any number of contexts run `dhd_flowid_lookup`; a step is one critical section of
`flowid_lock` or of a ring's lock.  The lock is dropped between `dhd_flowid_find` and the
two sections of `dhd_flowid_alloc`, and the search is not made again.

    meets (step cfg) (servedByOne cfg) (init cfg) es → runs (step cfg) (init cfg) es = some (s, tr) →
      lookups of one key have one id, and the id has one create request, until it is deleted
                                                                     (one_ring_per_flow)
-/

namespace Bcmdhd.ConcurrentLookup

open Runs Buckets Id16 FlowLookup FlowRing

/-! ## Lookups -/

/-- The arguments of a lookup. -/
structure Flow where
  ifindex : Nat
  prio : UInt8
  da : Ea
deriving DecidableEq, Repr

/-- What `dhd_flowid_find` tells apart. -/
inductive Key
  /-- a station's flow for a priority -/
  | station (ifindex : Nat) (prio : UInt8)
  | tdls (ifindex : Nat) (prio : UInt8) (da : Ea)
  | multicast (ifindex : Nat)
  | dest (ifindex : Nat) (prio : UInt8) (da : Ea)
deriving DecidableEq, Repr

def keyOf (cfg : Cfg) (flow : Flow) : Key :=
  if genericSta (cfg.role flow.ifindex) then
    if isTdlsDestination cfg flow.da then .tdls flow.ifindex flow.prio flow.da
    else .station flow.ifindex flow.prio
  else if isMulti flow.da then .multicast flow.ifindex
  else .dest flow.ifindex flow.prio flow.da

/-- Where a context is in `dhd_flowid_lookup`. -/
inductive Pc
  | idle
  /-- `dhd_flowid_find` found nothing -/
  | missed (flow : Flow)
  /-- after the first section of `dhd_flowid_alloc`: the context has an id -/
  | allocated (flow : Flow) (flowid : Nat)
  /-- after the second section: the node is in the table -/
  | linked (flow : Flow) (flowid : Nat)
  /-- the ring is `FLOW_RING_STATUS_CREATE_PENDING` -/
  | pending (flow : Flow) (flowid : Nat)
  /-- `dhd_bus_flow_ring_create_request` failed -/
  | refused (flow : Flow) (flowid : Nat)
  /-- `dhd_flowid_find` found the flow when its id had been freed `gen` times -/
  | found (flow : Flow) (flowid gen : Nat)
deriving DecidableEq, Repr

/-- `flow_ring_node_t` -/
structure RingNode where
  status : Status
  active : Bool
  ifindex : Nat
  /-- the dongle has a create request and may report the ring's end -/
  informed : Bool
  /-- in `dhd_bus_clean_flow_ring`, before `dhd_flowid_free` -/
  cleaning : Bool
  /-- the create request could not be sent -/
  refused : Bool
deriving DecidableEq, Repr

/-- A lookup that returned `BCME_OK`; `gen` tells since when the id is its answer. -/
structure Answer where
  flow : Flow
  flowid : Nat
  gen : Nat
deriving DecidableEq, Repr

structure State where
  dhd : Dhd
  ring : Nat → RingNode
  pc : Nat → Pc
  /-- how often an id was freed -/
  gen : Nat → Nat
  /-- how many create requests were sent for an id in one of its lives -/
  creates : Nat × Nat → Nat
  answered : List Answer

def init (cfg : Cfg) : State where
  dhd := FlowLookup.init cfg
  ring := fun _ => ⟨.closed, false, 0, false, false, false⟩
  pc := fun _ => .idle
  gen := fun _ => 0
  creates := fun _ => 0
  answered := []

inductive Call
  /-- a context calls `dhd_flowid_lookup`, which calls `dhd_flowid_find` -/
  | find (ctx : Nat) (flow : Flow)
  /-- the checks that the interface is up, below its limit of flows and has the peer
  (`admitted`), and the first section of `dhd_flowid_alloc` -/
  | mapAlloc (ctx : Nat) (admitted mallocOk htputSta : Bool)
  /-- the second section of `dhd_flowid_alloc` -/
  | insert (ctx : Nat)
  /-- the flow info and the status are set under the ring's lock -/
  | initNode (ctx : Nat)
  /-- `dhd_bus_flow_ring_create_request`; `sent`: there was room for it -/
  | createRequest (ctx : Nat) (sent : Bool)
  /-- after a failure the ring is closed under its lock -/
  | closeNode (ctx : Nat)
  /-- the status of a ring that was found is checked under its lock -/
  | checkStatus (ctx : Nat)
  /-- the dongle reports success -/
  | createResponse (flowid : Nat)
  | deleteRequest (flowid : Nat)
  /-- the dongle reports that the ring is deleted or was not created:
  `dhd_bus_clean_flow_ring` up to the ring's lock; it does so once for each time it learns of the
  ring, so that no second delete response comes while the ring is created again -/
  | clean (flowid : Nat)
  /-- its call of `dhd_flowid_free` -/
  | free (flowid : Nat)
deriving DecidableEq, Repr

inductive Result
  /-- the lookup goes on -/
  | running
  | error
  | ok (flowid : Nat)
  /-- not a lookup -/
  | done
deriving DecidableEq, Repr

def setPc (s : State) (ctx : Nat) (pc : Pc) : State := { s with pc := Function.update s.pc ctx pc }

def setRing (s : State) (flowid : Nat) (ring : RingNode) : State :=
  { s with ring := Function.update s.ring flowid ring }

@[simp] theorem setPc_self (s : State) (ctx : Nat) (pc : Pc) : (setPc s ctx pc).pc ctx = pc :=
  Function.update_self _ _ _

variable {ctx flowid id : Nat} {s' : State} {flow : Flow}

theorem setPc_of_ne (s : State) {c : Nat} (pc : Pc) (hne : c ≠ ctx) :
    (setPc s ctx pc).pc c = s.pc c :=
  Function.update_of_ne hne _ _

@[simp] theorem setRing_self (s : State) (flowid : Nat) (ring : RingNode) :
    (setRing s flowid ring).ring flowid = ring :=
  Function.update_self _ _ _

theorem setRing_of_ne (s : State) (ring : RingNode) (hne : id ≠ flowid) :
    (setRing s flowid ring).ring id = s.ring id :=
  Function.update_of_ne hne _ _

@[simp] theorem setRing_pc (s : State) (flowid : Nat) (ring : RingNode) :
    (setRing s flowid ring).pc = s.pc := rfl

/-- The lookup returns `BCME_OK`. -/
def answer (s : State) (ctx : Nat) (a : Answer) : State :=
  { setPc s ctx .idle with answered := a :: s.answered }

def nodeOf (flow : Flow) (flowid : Nat) : Node := ⟨flowid, flow.ifindex, flow.prio, flow.da⟩

def findFlow (cfg : Cfg) (s : State) (flow : Flow) : Nat :=
  FlowLookup.find cfg s.dhd flow.ifindex flow.prio flow.da

def lookupStep (cfg : Cfg) (s : State) (ctx : Nat) (flow : Flow) : State × Result :=
  if flow.ifindex ≥ dhdMaxIfs then (s, .error)
  else
    let id := findFlow cfg s flow
    if id = flowidInvalid ∨ id > maxTxFlowid cfg then (setPc s ctx (.missed flow), .running)
    else (setPc s ctx (.found flow id (s.gen id)), .running)

def mapAllocStep (cfg : Cfg) (s : State) (ctx : Nat) (flow : Flow)
    (admitted mallocOk htputSta : Bool) : State × Result :=
  if !admitted || !mallocOk then (setPc s ctx .idle, .error)
  else
    let r := mapAlloc cfg s.dhd flow.ifindex flow.prio flow.da htputSta
    let s := { s with dhd := r.1 }
    if r.2 = flowidInvalid then (setPc s ctx .idle, .error)
    else (setPc s ctx (.allocated flow r.2), .running)

def insertStep (cfg : Cfg) (s : State) (ctx : Nat) (flow : Flow) (flowid : Nat) :
    State × Result :=
  let s := { s with dhd := insertNode cfg s.dhd (nodeOf flow flowid) }
  if flowid > maxTxFlowid cfg then (setPc s ctx .idle, .error)
  else (setPc s ctx (.linked flow flowid), .running)

def initNodeStep (cfg : Cfg) (s : State) (ctx : Nat) (flow : Flow) (flowid : Nat) : State :=
  let s :=
    { s with
      dhd :=
        { s.dhd with
          -- only after flowid alloc
          multiClientFlowRings :=
            if multiClient (cfg.role flow.ifindex) then s.dhd.multiClientFlowRings + 1
            else s.dhd.multiClientFlowRings } }
  setPc
    (setRing s flowid
      { s.ring flowid with
        status := .createPending
        active := true
        ifindex := flow.ifindex
        refused := false })
    ctx (.pending flow flowid)

def createRequestStep (s : State) (ctx : Nat) (flow : Flow) (flowid : Nat) (sent : Bool) :
    State × Result :=
  if sent then
    let key := (flowid, s.gen flowid)
    let s :=
      { setRing s flowid { s.ring flowid with informed := true } with
        creates := Function.update s.creates key (s.creates key + 1) }
    (answer s ctx ⟨flow, flowid, s.gen flowid⟩, .ok flowid)
  else
    (setPc (setRing s flowid { s.ring flowid with refused := true }) ctx (.refused flow flowid),
      .running)

def checkStatusStep (s : State) (ctx : Nat) (flow : Flow) (flowid gen : Nat) : State × Result :=
  -- packets are dropped while the ring is being deleted
  if (s.ring flowid).status = .deletePending ∨ (s.ring flowid).status = .closed then
    (setPc s ctx .idle, .error)
  else (answer s ctx ⟨flow, flowid, gen⟩, .ok flowid)

def deleteRequestStep (s : State) (flowid : Nat) : State :=
  if (s.ring flowid).status = .deletePending then s
  else setRing s flowid { s.ring flowid with status := .deletePending }

def cleanStep (s : State) (flowid : Nat) : State :=
  setRing s flowid
    { s.ring flowid with
      status := .closed
      active := false
      informed := false
      cleaning := true }

def freeStep (cfg : Cfg) (s : State) (flowid : Nat) : State :=
  { setRing s flowid { s.ring flowid with cleaning := false } with
    dhd := FlowLookup.free cfg s.dhd (s.ring flowid).ifindex flowid
    gen := Function.update s.gen flowid (s.gen flowid + 1) }

def step (cfg : Cfg) (s : State) : Call → Option (State × Result)
  | .find ctx flow =>
    match s.pc ctx with
    | .idle => some (lookupStep cfg s ctx flow)
    | _ => none
  | .mapAlloc ctx admitted mallocOk htputSta =>
    match s.pc ctx with
    | .missed flow => some (mapAllocStep cfg s ctx flow admitted mallocOk htputSta)
    | _ => none
  | .insert ctx =>
    match s.pc ctx with
    | .allocated flow flowid => some (insertStep cfg s ctx flow flowid)
    | _ => none
  | .initNode ctx =>
    match s.pc ctx with
    | .linked flow flowid => some (initNodeStep cfg s ctx flow flowid, .running)
    | _ => none
  | .createRequest ctx sent =>
    match s.pc ctx with
    | .pending flow flowid => some (createRequestStep s ctx flow flowid sent)
    | _ => none
  | .closeNode ctx =>
    match s.pc ctx with
    | .refused _ flowid =>
      some (setPc (setRing s flowid { s.ring flowid with status := .closed, active := false })
        ctx .idle, .error)
    | _ => none
  | .checkStatus ctx =>
    match s.pc ctx with
    | .found flow flowid gen => some (checkStatusStep s ctx flow flowid gen)
    | _ => none
  | .createResponse flowid =>
    if (s.ring flowid).informed then
      some (setRing s flowid { s.ring flowid with status := .opened }, .done)
    else none
  | .deleteRequest flowid => some (deleteRequestStep s flowid, .done)
  | .clean flowid => if (s.ring flowid).informed then some (cleanStep s flowid, .done) else none
  | .free flowid => if (s.ring flowid).cleaning then some (freeStep cfg s flowid, .done) else none

/-- What a step can do. -/
inductive Moves (cfg : Cfg) (s : State) : Call → State → Result → Prop
  | find (ctx : Nat) (flow : Flow) (hp : s.pc ctx = .idle) :
    Moves cfg s (.find ctx flow) (lookupStep cfg s ctx flow).1 (lookupStep cfg s ctx flow).2
  | mapAlloc (ctx : Nat) (flow : Flow) (admitted mallocOk htputSta : Bool)
    (hp : s.pc ctx = .missed flow) :
    Moves cfg s (.mapAlloc ctx admitted mallocOk htputSta)
      (mapAllocStep cfg s ctx flow admitted mallocOk htputSta).1
      (mapAllocStep cfg s ctx flow admitted mallocOk htputSta).2
  | insert (ctx : Nat) (flow : Flow) (flowid : Nat) (hp : s.pc ctx = .allocated flow flowid) :
    Moves cfg s (.insert ctx) (insertStep cfg s ctx flow flowid).1
      (insertStep cfg s ctx flow flowid).2
  | initNode (ctx : Nat) (flow : Flow) (flowid : Nat) (hp : s.pc ctx = .linked flow flowid) :
    Moves cfg s (.initNode ctx) (initNodeStep cfg s ctx flow flowid) .running
  | createRequest (ctx : Nat) (flow : Flow) (flowid : Nat) (sent : Bool)
    (hp : s.pc ctx = .pending flow flowid) :
    Moves cfg s (.createRequest ctx sent) (createRequestStep s ctx flow flowid sent).1
      (createRequestStep s ctx flow flowid sent).2
  | closeNode (ctx : Nat) (flow : Flow) (flowid : Nat) (hp : s.pc ctx = .refused flow flowid) :
    Moves cfg s (.closeNode ctx)
      (setPc (setRing s flowid { s.ring flowid with status := .closed, active := false })
        ctx .idle) .error
  | checkStatus (ctx : Nat) (flow : Flow) (flowid gen : Nat)
    (hp : s.pc ctx = .found flow flowid gen) :
    Moves cfg s (.checkStatus ctx) (checkStatusStep s ctx flow flowid gen).1
      (checkStatusStep s ctx flow flowid gen).2
  | createResponse (flowid : Nat) (hr : (s.ring flowid).informed = true) :
    Moves cfg s (.createResponse flowid)
      (setRing s flowid { s.ring flowid with status := .opened }) .done
  | deleteRequest (flowid : Nat) :
    Moves cfg s (.deleteRequest flowid) (deleteRequestStep s flowid) .done
  | clean (flowid : Nat) (hr : (s.ring flowid).informed = true) :
    Moves cfg s (.clean flowid) (cleanStep s flowid) .done
  | free (flowid : Nat) (hr : (s.ring flowid).cleaning = true) :
    Moves cfg s (.free flowid) (freeStep cfg s flowid) .done

theorem step_moves {cfg : Cfg} {s : State} {e : Call} {r : Result}
    (hs : step cfg s e = some (s', r)) : Moves cfg s e s' r := by
  unfold step at hs
  cases e with
  | find ctx flow =>
    dsimp only at hs
    split at hs
    · next hp =>
      obtain ⟨rfl, rfl⟩ := Prod.mk.inj (Option.some.inj hs)
      exact .find ctx flow hp
    · cases hs
  | mapAlloc ctx admitted mallocOk htputSta =>
    dsimp only at hs
    split at hs
    · next hp =>
      obtain ⟨rfl, rfl⟩ := Prod.mk.inj (Option.some.inj hs)
      exact .mapAlloc ctx _ admitted mallocOk htputSta hp
    · cases hs
  | insert ctx =>
    dsimp only at hs
    split at hs
    · next hp =>
      obtain ⟨rfl, rfl⟩ := Prod.mk.inj (Option.some.inj hs)
      exact .insert ctx _ _ hp
    · cases hs
  | initNode ctx =>
    dsimp only at hs
    split at hs
    · next hp =>
      cases hs
      exact .initNode ctx _ _ hp
    · cases hs
  | createRequest ctx sent =>
    dsimp only at hs
    split at hs
    · next hp =>
      obtain ⟨rfl, rfl⟩ := Prod.mk.inj (Option.some.inj hs)
      exact .createRequest ctx _ _ sent hp
    · cases hs
  | closeNode ctx =>
    dsimp only at hs
    split at hs
    · next hp =>
      cases hs
      exact .closeNode ctx _ _ hp
    · cases hs
  | checkStatus ctx =>
    dsimp only at hs
    split at hs
    · next hp =>
      obtain ⟨rfl, rfl⟩ := Prod.mk.inj (Option.some.inj hs)
      exact .checkStatus ctx _ _ _ hp
    · cases hs
  | createResponse flowid =>
    dsimp only at hs
    split at hs
    · next hr =>
      cases hs
      exact .createResponse flowid hr
    · cases hs
  | deleteRequest flowid =>
    cases hs
    exact .deleteRequest flowid
  | clean flowid =>
    dsimp only at hs
    split at hs
    · next hr =>
      cases hs
      exact .clean flowid hr
    · cases hs
  | free flowid =>
    dsimp only at hs
    split at hs
    · next hr =>
      cases hs
      exact .free flowid hr
    · cases hs

/-! ## Where the lookups go wrong -/

/-- A lookup was answered with the id, in the id's present life. -/
def answeredWith (s : State) (flowid : Nat) : Bool :=
  s.answered.any fun a => a.flowid == flowid && a.gen == s.gen flowid

/-- No node is linked for a flow that `dhd_flowid_find` finds by then, and no lookup but its own
is answered with a ring whose create request fails. -/
def servedByOne (cfg : Cfg) (s : State) : Call → Bool
  | .insert ctx =>
    match s.pc ctx with
    | .allocated flow _ => findFlow cfg s flow == flowidInvalid
    | _ => true
  | .createRequest ctx false =>
    match s.pc ctx with
    | .pending _ flowid => !answeredWith s flowid
    | _ => true
  | .checkStatus ctx =>
    match s.pc ctx with
    | .found _ flowid gen =>
      !((s.ring flowid).refused && (s.ring flowid).status == .createPending &&
        gen == s.gen flowid)
    | _ => true
  | _ => true

/-! ## Searching by key -/

def Key.slot : Key → Nat × Nat
  | .station ifindex prio => (ifindex, prio.toNat)
  | .tdls ifindex prio da => (ifindex, hashIndex da prio)
  | .multicast ifindex => (ifindex, 0)
  | .dest ifindex prio da => (ifindex, hashIndex da prio)

def Key.hits (cur : Node) : Key → Bool
  | .station _ _ => true
  | .tdls _ _ da => cur.da == da
  | .multicast _ => isMulti cur.da
  | .dest _ prio da => cur.da == da && cur.tid == prio

/-- `dhd_flowid_find` depends on the key alone. -/
theorem findFlow_eq (cfg : Cfg) (s : State) (hi : flow.ifindex < dhdMaxIfs) :
    findFlow cfg s flow =
      firstFlowid (s.dhd.flHash (keyOf cfg flow).slot) fun cur => (keyOf cfg flow).hits cur := by
  unfold findFlow find keyOf
  rw [if_neg (Nat.not_le.2 hi)]
  split
  · split
    · rfl
    · rfl
  · cases hm : isMulti flow.da with
    | true =>
      have hp : (fun cur : Node =>
          (true && isMulti cur.da) || (cur.da == flow.da && cur.tid == flow.prio)) =
          fun cur => isMulti cur.da := by
        funext cur
        cases hc : isMulti cur.da with
        | true => rfl
        | false =>
          have hne : cur.da ≠ flow.da := by
            rintro heq
            rw [heq, hm] at hc
            cases hc
          simp [hne]
      rw [hp]
      rfl
    | false => rfl

theorem slot_keyOf (cfg : Cfg) (flow : Flow) (flowid : Nat) :
    (keyOf cfg flow).slot = (flow.ifindex, homeSlot cfg (nodeOf flow flowid)) := by
  unfold keyOf homeSlot nodeOf
  dsimp only
  split
  · split
    · rfl
    · rfl
  · split
    · rfl
    · rfl

theorem hits_nodeOf (cfg : Cfg) (flow : Flow) (flowid : Nat) :
    (keyOf cfg flow).hits (nodeOf flow flowid) = true := by
  unfold keyOf
  split
  · split
    · simp [Key.hits, nodeOf]
    · rfl
  · split
    · next hm => exact hm
    · simp [Key.hits, nodeOf]

/-! ## Invariant -/

/-- The id a context holds until its lookup returns. -/
def Pc.makes : Pc → Option Nat
  | .allocated _ flowid | .linked _ flowid | .pending _ flowid | .refused _ flowid => some flowid
  | _ => none

/-- The id whose create request the context is to send. -/
def Pc.comes : Pc → Option Nat
  | .linked _ flowid | .pending _ flowid => some flowid
  | _ => none

def Coming (s : State) (flowid : Nat) : Prop := ∃ ctx, (s.pc ctx).comes = some flowid

/-- No create response was handled. -/
def Shut (status : Status) : Prop :=
  status = .createPending ∨ status = .closed ∨ status = .deletePending

/-- The create request failed. -/
def Dead (ring : RingNode) : Prop := ring.refused = true ∧ Shut ring.status

/-- The id is the answer for the flow, unless it was freed since. -/
def Hit (cfg : Cfg) (s : State) (flow : Flow) (flowid gen : Nat) : Prop :=
  flow.ifindex < dhdMaxIfs ∧ flowid ∈ allIds cfg ∧ gen ≤ s.gen flowid ∧
    (gen = s.gen flowid → findFlow cfg s flow = flowid)

/-- What a context can rely on. -/
def PcOk (cfg : Cfg) (s : State) : Pc → Prop
  | .idle => True
  | .missed flow => flow.ifindex < dhdMaxIfs
  | .allocated flow flowid =>
    flow.ifindex < dhdMaxIfs ∧ flowid ∈ allIds cfg ∧
      flowid ∉ (nodes s.dhd).map Node.flowid ∧ flowid ∉ avail s.dhd
  | .linked flow flowid =>
    nodeOf flow flowid ∈ nodes s.dhd ∧ Hit cfg s flow flowid (s.gen flowid)
  | .pending flow flowid =>
    nodeOf flow flowid ∈ nodes s.dhd ∧ Hit cfg s flow flowid (s.gen flowid) ∧
      (s.ring flowid).ifindex = flow.ifindex ∧ Shut (s.ring flowid).status
  | .refused flow flowid => nodeOf flow flowid ∈ nodes s.dhd
  | .found flow flowid gen => Hit cfg s flow flowid gen

/-- The create requests of a life of an id: one, or one to come. -/
def Created (s : State) (flowid gen : Nat) : Prop :=
  s.creates (flowid, gen) = 1 ∨
    (gen = s.gen flowid ∧ s.creates (flowid, gen) = 0 ∧ Coming s flowid)

structure Inv (cfg : Cfg) (s : State) : Prop where
  home : ∀ i h node, i < dhdMaxIfs → h < dhdFlowringHashSize → node ∈ s.dhd.flHash (i, h) →
    node.ifindex = i ∧ homeSlot cfg node = h
  nodup : ((nodes s.dhd).map Node.flowid ++ avail s.dhd).Nodup
  lt : ∀ id ∈ (nodes s.dhd).map Node.flowid ++ avail s.dhd, id ∈ allIds cfg
  pcs : ∀ ctx, PcOk cfg s (s.pc ctx)
  makers : ∀ c c' id, (s.pc c).makes = some id → (s.pc c').makes = some id → c = c'
  made : ∀ ctx id, (s.pc ctx).makes = some id → s.creates (id, s.gen id) = 0
  unlinked : ∀ id, id ∉ (nodes s.dhd).map Node.flowid → s.creates (id, s.gen id) = 0
  past : ∀ id g, g < s.gen id → s.creates (id, g) = 1
  future : ∀ id g, s.gen id < g → s.creates (id, g) = 0
  sent : ∀ id, (s.ring id).informed = true ∨ (s.ring id).cleaning = true →
    s.creates (id, s.gen id) = 1 ∧
      ∃ node ∈ nodes s.dhd, node.flowid = id ∧ node.ifindex = (s.ring id).ifindex
  cleaned : ∀ id, (s.ring id).cleaning = true → (s.ring id).informed = false
  stage : ∀ node ∈ nodes s.dhd, Created s node.flowid (s.gen node.flowid) ∨
    (s.creates (node.flowid, s.gen node.flowid) = 0 ∧ Dead (s.ring node.flowid))
  answers : ∀ a ∈ s.answered, Hit cfg s a.flow a.flowid a.gen ∧ Created s a.flowid a.gen

theorem inv_init (cfg : Cfg) : Inv cfg (init cfg) := by
  have hinv := FlowLookup.inv_init cfg
  have hnodes : nodes (init cfg).dhd = [] := nodes_init cfg
  refine ⟨hinv.home, hinv.ids_nodup, fun id hid => hinv.ids.mem_iff.1 hid, fun _ => trivial, ?_, ?_,
    fun _ _ => rfl, ?_, fun _ _ _ => rfl, ?_, fun _ _ => rfl, ?_, ?_⟩
  · intro c c' id hc
    cases hc
  · intro ctx id hc
    cases hc
  · intro id g hg
    exact absurd hg (Nat.not_lt_zero g)
  · rintro id (h | h)
    · cases h
    · cases h
  · intro node hnode
    rw [hnodes] at hnode
    cases hnode
  · intro a ha
    cases ha

section

variable {cfg : Cfg} {s : State}

theorem PcOk.keep {pc : Pc} (h : PcOk cfg s pc)
    (hnodes : ∀ node ∈ nodes s.dhd, pc.makes = some node.flowid → node ∈ nodes s'.dhd)
    (hfree : ∀ id, pc.makes = some id → id ∉ (nodes s.dhd).map Node.flowid → id ∉ avail s.dhd →
      id ∉ (nodes s'.dhd).map Node.flowid ∧ id ∉ avail s'.dhd)
    (hring : ∀ id, pc.makes = some id → (s'.ring id).ifindex = (s.ring id).ifindex ∧
      (Shut (s.ring id).status → Shut (s'.ring id).status))
    (hgen : ∀ id, pc.makes = some id → s'.gen id = s.gen id)
    (hhit : ∀ flow id g, Hit cfg s flow id g → Hit cfg s' flow id g) : PcOk cfg s' pc := by
  cases pc with
  | idle => trivial
  | missed flow => exact h
  | allocated flow id =>
    obtain ⟨hi, hid, hn, ha⟩ := h
    exact ⟨hi, hid, hfree id rfl hn ha⟩
  | linked flow id =>
    refine ⟨hnodes _ h.1 rfl, ?_⟩
    rw [hgen id rfl]
    exact hhit _ _ _ h.2
  | pending flow id =>
    obtain ⟨hn, hh, hif, hshut⟩ := h
    refine ⟨hnodes _ hn rfl, ?_, (hring id rfl).1.trans hif, (hring id rfl).2 hshut⟩
    rw [hgen id rfl]
    exact hhit _ _ _ hh
  | refused flow id => exact hnodes _ h rfl
  | found flow id g => exact hhit _ _ _ h

/-- The present life of every id has one create request at most. -/
theorem Inv.creates_le (h : Inv cfg s) (id g : Nat) : s.creates (id, g) ≤ 1 := by
  rcases Nat.lt_trichotomy g (s.gen id) with hg | rfl | hg
  · exact Nat.le_of_eq (h.past id g hg)
  · by_cases hid : id ∈ (nodes s.dhd).map Node.flowid
    · obtain ⟨node, hnode, rfl⟩ := List.mem_map.1 hid
      rcases h.stage node hnode with (hone | ⟨-, hz, -⟩) | ⟨hz, -⟩
      · exact Nat.le_of_eq hone
      · omega
      · omega
    · have hz := h.unlinked id hid
      omega
  · have hz := h.future id g hg
    omega

theorem Inv.not_avail (h : Inv cfg s) {node : Node} (hn : node ∈ nodes s.dhd) :
    node.flowid ∉ avail s.dhd := by
  intro hin
  exact (List.nodup_append.1 h.nodup).2.2 _ (List.mem_map_of_mem hn) _ hin rfl

/-- The id a context holds is not available. -/
theorem Inv.held (h : Inv cfg s) (hm : (s.pc ctx).makes = some id) :
    id ∉ avail s.dhd := by
  have hok := h.pcs ctx
  cases hp : s.pc ctx with
  | allocated flow id' =>
    rw [hp] at hok hm
    cases hm
    exact hok.2.2.2
  | linked flow id' =>
    rw [hp] at hok hm
    cases hm
    exact h.not_avail hok.1
  | pending flow id' =>
    rw [hp] at hok hm
    cases hm
    exact h.not_avail hok.1
  | refused flow id' =>
    rw [hp] at hok hm
    cases hm
    exact h.not_avail hok
  | _ =>
    rw [hp] at hm
    cases hm

/-- A ring the dongle knows, or that is being cleaned, has no context at work on it. -/
theorem Inv.not_made (h : Inv cfg s)
    (hr : (s.ring id).informed = true ∨ (s.ring id).cleaning = true)
    (hm : (s.pc ctx).makes = some id) : False := by
  have hone := (h.sent id hr).1
  rw [h.made ctx id hm] at hone
  cases hone

/-- The id a context holds is its own. -/
theorem Inv.own (h : Inv cfg s) (hm : (s.pc ctx).makes = some id) :
    s.creates (id, s.gen id) = 0 ∧ ∀ c, (s.pc c).makes = some id → c = ctx :=
  ⟨h.made ctx id hm, fun c hc => h.makers c ctx id hc hm⟩

/-! ## Steps that leave the table -/

/-- A context goes on. -/
theorem Inv.of_pc (h : Inv cfg s) {pc : Pc} (hok : PcOk cfg s pc)
    (hmakes : ∀ id, pc.makes = some id → s.creates (id, s.gen id) = 0 ∧
      ∀ c, (s.pc c).makes = some id → c = ctx)
    (hcomes : ∀ id, (s.pc ctx).comes = some id →
      pc.comes = some id ∨ (Dead (s.ring id) ∧ answeredWith s id = false)) :
    Inv cfg (setPc s ctx pc) := by
  have hcoming : ∀ id, Coming s id → Coming (setPc s ctx pc) id ∨
      (Dead (s.ring id) ∧ answeredWith s id = false) := by
    rintro id ⟨c, hc⟩
    by_cases heq : c = ctx
    · subst heq
      rcases hcomes id hc with hnew | hdead
      · exact .inl ⟨c, by rw [setPc_self]; exact hnew⟩
      · exact .inr hdead
    · exact .inl ⟨c, by rw [setPc_of_ne s pc heq]; exact hc⟩
  refine ⟨h.home, h.nodup, h.lt, ?_, ?_, ?_, h.unlinked, h.past, h.future, h.sent,
    h.cleaned, ?_, ?_⟩
  · intro c
    have hkeep : ∀ p, PcOk cfg s p → PcOk cfg (setPc s ctx pc) p := by
      intro p hp
      exact hp.keep (fun _ hn _ => hn) (fun _ _ hn ha => ⟨hn, ha⟩) (fun _ _ => ⟨rfl, id⟩)
        (fun _ _ => rfl) fun _ _ _ hh => hh
    by_cases heq : c = ctx
    · rw [heq, setPc_self]
      exact hkeep _ hok
    · rw [setPc_of_ne s pc heq]
      exact hkeep _ (h.pcs c)
  · intro c c' id hc hc'
    by_cases heq : c = ctx
    · by_cases heq' : c' = ctx
      · rw [heq, heq']
      · rw [heq, setPc_self] at hc
        rw [setPc_of_ne s pc heq'] at hc'
        exact absurd ((hmakes id hc).2 c' hc') heq'
    · rw [setPc_of_ne s pc heq] at hc
      by_cases heq' : c' = ctx
      · rw [heq', setPc_self] at hc'
        exact absurd ((hmakes id hc').2 c hc) heq
      · rw [setPc_of_ne s pc heq'] at hc'
        exact h.makers c c' id hc hc'
  · intro c id hc
    by_cases heq : c = ctx
    · rw [heq, setPc_self] at hc
      exact (hmakes id hc).1
    · rw [setPc_of_ne s pc heq] at hc
      exact h.made c id hc
  · intro node hnode
    rcases h.stage node hnode with (hone | ⟨hg, hz, hco⟩) | hdead
    · exact .inl (.inl hone)
    · rcases hcoming _ hco with hco | hdead
      · exact .inl (.inr ⟨hg, hz, hco⟩)
      · exact .inr ⟨hz, hdead.1⟩
    · exact .inr hdead
  · intro a ha
    obtain ⟨hhit, hone | ⟨hg, hz, hco⟩⟩ := h.answers a ha
    · exact ⟨hhit, .inl hone⟩
    · rcases hcoming _ hco with hco | ⟨-, hno⟩
      · exact ⟨hhit, .inr ⟨hg, hz, hco⟩⟩
      · unfold answeredWith at hno
        rw [List.any_eq_false] at hno
        exact absurd (by simp [hg]) (hno a ha)

/-- A ring changes. -/
theorem Inv.of_ring (h : Inv cfg s) {ring : RingNode}
    (hpc : ∀ ctx, (s.pc ctx).makes = some id →
      PcOk cfg (setRing s id ring) (s.pc ctx))
    (hsent : ring.informed = true ∨ ring.cleaning = true →
      s.creates (id, s.gen id) = 1 ∧
        ∃ node ∈ nodes s.dhd, node.flowid = id ∧ node.ifindex = ring.ifindex)
    (hcleaned : ring.cleaning = true → ring.informed = false)
    (hdead : Dead (s.ring id) → s.creates (id, s.gen id) = 0 → Dead ring ∨ Coming s id) :
    Inv cfg (setRing s id ring) := by
  refine ⟨h.home, h.nodup, h.lt, ?_, h.makers, h.made, h.unlinked, h.past, h.future, ?_, ?_, ?_,
    h.answers⟩
  · intro c
    by_cases hc : (s.pc c).makes = some id
    · exact hpc c hc
    · refine (h.pcs c).keep (fun _ hn _ => hn) (fun _ _ hn ha => ⟨hn, ha⟩) ?_ (fun _ _ => rfl)
        fun _ _ _ hh => hh
      intro id' hid'
      have hne : id' ≠ id := by
        rintro rfl
        exact hc hid'
      rw [setRing_of_ne s ring hne]
      exact ⟨rfl, fun hs => hs⟩
  · intro id' hid'
    by_cases heq : id' = id
    · subst heq
      rw [setRing_self] at hid' ⊢
      exact hsent hid'
    · rw [setRing_of_ne s ring heq] at hid' ⊢
      exact h.sent id' hid'
  · intro id' hid'
    by_cases heq : id' = id
    · subst heq
      rw [setRing_self] at hid' ⊢
      exact hcleaned hid'
    · rw [setRing_of_ne s ring heq] at hid' ⊢
      exact h.cleaned id' hid'
  · intro node hnode
    rcases h.stage node hnode with hcreated | ⟨hz, hd⟩
    · exact .inl hcreated
    · by_cases heq : node.flowid = id
      · subst heq
        rcases hdead hd hz with hd | hco
        · refine .inr ⟨hz, ?_⟩
          rw [setRing_self]
          exact hd
        · exact .inl (.inr ⟨rfl, hz, hco⟩)
      · refine .inr ⟨hz, ?_⟩
        rw [setRing_of_ne s ring heq]
        exact hd

/-- The chains do not change, and no id becomes available. -/
theorem Inv.of_dhd (h : Inv cfg s) {dhd : Dhd} (taken : List Nat)
    (hflash : dhd.flHash = s.dhd.flHash) (havail : (avail s.dhd).Perm (taken ++ avail dhd)) :
    Inv cfg { s with dhd := dhd } := by
  have hnodes : nodes dhd = nodes s.dhd := by
    unfold nodes
    rw [hflash]
  have hhit : ∀ flow id g, Hit cfg s flow id g → Hit cfg { s with dhd := dhd } flow id g := by
    rintro flow id g ⟨hi, hid, hle, hfind⟩
    exact ⟨hi, hid, hle, fun hg => (find_congr hflash _ _ _).trans (hfind hg)⟩
  have hsub : ∀ id ∈ avail dhd, id ∈ avail s.dhd := fun id hid =>
    havail.mem_iff.2 (List.mem_append_right _ hid)
  refine ⟨?_, ?_, ?_, ?_, h.makers, h.made, ?_, h.past, h.future, ?_, h.cleaned, ?_, ?_⟩
  · dsimp only
    rw [hflash]
    exact h.home
  · dsimp only
    rw [hnodes]
    have hnd := (havail.append_left ((nodes s.dhd).map Node.flowid)).nodup_iff.1 h.nodup
    exact hnd.sublist ((List.sublist_append_right _ _).append_left _)
  · dsimp only
    rw [hnodes]
    intro id hid
    rw [List.mem_append] at hid
    exact h.lt id (List.mem_append.2 (hid.imp_right (hsub id)))
  · intro c
    refine (h.pcs c).keep ?_ ?_ (fun _ _ => ⟨rfl, fun hs => hs⟩) (fun _ _ => rfl) hhit
    · intro node hn _
      dsimp only
      rwa [hnodes]
    · intro id _ hn ha
      dsimp only
      rw [hnodes]
      exact ⟨hn, fun hin => ha (hsub id hin)⟩
  · dsimp only
    rw [hnodes]
    exact h.unlinked
  · dsimp only
    rw [hnodes]
    exact h.sent
  · dsimp only
    rw [hnodes]
    exact h.stage
  · intro a ha
    exact ⟨hhit _ _ _ (h.answers a ha).1, (h.answers a ha).2⟩

/-- A lookup is answered. -/
theorem Inv.of_answer (h : Inv cfg s) {a : Answer} (hhit : Hit cfg s a.flow a.flowid a.gen)
    (hcreated : Created s a.flowid a.gen) : Inv cfg { s with answered := a :: s.answered } := by
  refine ⟨h.home, h.nodup, h.lt, ?_, h.makers, h.made, h.unlinked, h.past, h.future, h.sent,
    h.cleaned, h.stage, ?_⟩
  · intro c
    exact (h.pcs c).keep (fun _ hn _ => hn) (fun _ _ hn ha => ⟨hn, ha⟩) (fun _ _ => ⟨rfl, id⟩)
      (fun _ _ => rfl) fun _ _ _ hh => hh
  · intro b hb
    rcases List.mem_cons.1 hb with rfl | hb
    · exact ⟨hhit, hcreated⟩
    · exact h.answers b hb

/-- What `dhd_flowid_find` returns is the id of a node. -/
theorem found_node (hi : flow.ifindex < dhdMaxIfs) (hne : findFlow cfg s flow ≠ flowidInvalid) :
    ∃ node ∈ nodes s.dhd, node.flowid = findFlow cfg s flow := by
  have heq := findFlow_eq cfg s hi
  unfold firstFlowid at heq
  split at heq
  · next cur hcur =>
    have hmem := List.mem_of_find?_eq_some hcur
    rw [slot_keyOf cfg flow 0] at hmem
    exact ⟨cur, mem_entries.2 ⟨_, mem_slots.2 ⟨hi, homeSlot_lt _ _⟩, hmem⟩, heq.symm⟩
  · exact absurd heq hne

theorem lookupStep_inv (h : Inv cfg s) (flow : Flow) (hp : s.pc ctx = .idle) :
    Inv cfg (lookupStep cfg s ctx flow).1 := by
  have hcomes : ∀ id pc, (s.pc ctx).comes = some id →
      Pc.comes pc = some id ∨ (Dead (s.ring id) ∧ answeredWith s id = false) := by
    intro id pc hc
    rw [hp] at hc
    cases hc
  unfold lookupStep
  split
  · exact h
  · next hi =>
    rw [Nat.not_le] at hi
    dsimp only
    split
    · exact h.of_pc hi nofun fun id => hcomes id _
    · next hfound =>
      rw [not_or] at hfound
      obtain ⟨node, hnode, hid⟩ := found_node hi hfound.1
      refine h.of_pc ⟨hi, ?_, Nat.le_refl _, fun _ => rfl⟩ nofun fun id => hcomes id _
      rw [← hid]
      exact h.lt _ (List.mem_append_left _ (List.mem_map_of_mem hnode))

theorem initNodeStep_inv (h : Inv cfg s) (hp : s.pc ctx = .linked flow flowid) :
    Inv cfg (initNodeStep cfg s ctx flow flowid) := by
  have hmakes : (s.pc ctx).makes = some flowid := by
    rw [hp]
    rfl
  have hok := h.pcs ctx
  rw [hp] at hok
  have hd : Inv cfg
      { s with
        dhd :=
          { s.dhd with
            multiClientFlowRings :=
              if multiClient (cfg.role flow.ifindex) then s.dhd.multiClientFlowRings + 1
              else s.dhd.multiClientFlowRings } } := h.of_dhd [] rfl (List.Perm.refl _)
  unfold initNodeStep
  refine Inv.of_pc (hd.of_ring ?_ ?_ ?_ ?_) ?_ ?_ ?_
  · intro c hc
    have heq : c = ctx := h.makers c ctx flowid hc hmakes
    subst heq
    dsimp only
    rw [hp]
    exact hok
  · intro hr
    exact (h.not_made hr hmakes).elim
  · exact h.cleaned flowid
  · intro _ _
    refine .inr ⟨ctx, ?_⟩
    dsimp only
    rw [hp]
    rfl
  · refine ⟨hok.1, hok.2, ?_, ?_⟩
    · simp [setRing]
    · left
      simp [setRing]
  · intro id hid
    cases hid
    exact h.own hmakes
  · intro id hc
    refine .inl ?_
    rw [setRing_pc, hp] at hc
    exact hc

theorem checkStatusStep_inv (h : Inv cfg s) {gen : Nat} (hp : s.pc ctx = .found flow flowid gen)
    (hlive : ((s.ring flowid).refused && (s.ring flowid).status == .createPending &&
      gen == s.gen flowid) = false) :
    Inv cfg (checkStatusStep s ctx flow flowid gen).1 := by
  have hok := h.pcs ctx
  rw [hp] at hok
  have hcomes : ∀ id, (s.pc ctx).comes = some id → Pc.comes .idle = some id := by
    intro id hc
    rw [hp] at hc
    cases hc
  unfold checkStatusStep
  split
  · exact h.of_pc trivial nofun fun id hc => .inl (hcomes id hc)
  · next hstatus =>
    rw [not_or] at hstatus
    have hcreated : Created s flowid gen := by
      obtain ⟨hi, hid, hle, hfind⟩ := hok
      rcases Nat.lt_or_eq_of_le hle with hlt | rfl
      · exact .inl (h.past _ _ hlt)
      · have hne : findFlow cfg s flow ≠ flowidInvalid := by
          rw [hfind rfl]
          exact Nat.ne_of_lt (lt_of_mem_allIds hid).1
        obtain ⟨node, hnode, heq⟩ := found_node hi hne
        rw [hfind rfl] at heq
        subst heq
        rcases h.stage node hnode with hcreated | ⟨-, hrefused, hshut⟩
        · exact hcreated
        · rcases hshut with hs | hs | hs
          · rw [hrefused, hs] at hlive
            simp at hlive
          · exact absurd hs hstatus.2
          · exact absurd hs hstatus.1
    have h' : Inv cfg { s with answered := ⟨flow, flowid, gen⟩ :: s.answered } :=
      h.of_answer hok hcreated
    exact h'.of_pc trivial nofun fun id hc => .inl (hcomes id hc)

/-- The create request of a pending ring is sent, and its context has nothing left to do. -/
theorem Inv.of_send (h : Inv cfg s) (hp : s.pc ctx = .pending flow flowid)
    (hs' : s' =
      { setPc s ctx .idle with
        creates := Function.update s.creates (flowid, s.gen flowid)
          (s.creates (flowid, s.gen flowid) + 1) }) :
    Inv cfg s' ∧ s'.creates (flowid, s.gen flowid) = 1 := by
  have hmakes : (s.pc ctx).makes = some flowid := by
    rw [hp]
    rfl
  have hnode : nodeOf flow flowid ∈ nodes s.dhd := by
    have hok := h.pcs ctx
    rw [hp] at hok
    exact hok.1
  have hzero := h.made ctx flowid hmakes
  have hrest : s'.dhd = s.dhd ∧ s'.ring = s.ring ∧ s'.gen = s.gen ∧ s'.answered = s.answered := by
    rw [hs']
    exact ⟨rfl, rfl, rfl, rfl⟩
  obtain ⟨hdhd, hring, hgen, hanswered⟩ := hrest
  have hone : s'.creates (flowid, s.gen flowid) = 1 := by
    rw [hs']
    dsimp only
    rw [Function.update_self, hzero]
  have hother : ∀ key, key ≠ (flowid, s.gen flowid) → s'.creates key = s.creates key := by
    intro key hkey
    rw [hs']
    exact Function.update_of_ne hkey _ _
  have hothers : ∀ id g, id ≠ flowid → s'.creates (id, g) = s.creates (id, g) := by
    intro id g hne
    exact hother _ fun heq => hne (congrArg Prod.fst heq)
  have hlives : ∀ id g, g ≠ s.gen id → s'.creates (id, g) = s.creates (id, g) := by
    intro id g hne
    apply hother
    rintro heq
    cases heq
    exact hne rfl
  have hpc : ∀ c, c ≠ ctx → s'.pc c = s.pc c := by
    intro c hne
    rw [hs']
    exact setPc_of_ne s _ hne
  have hidle : s'.pc ctx = .idle := by
    rw [hs']
    exact setPc_self s ctx _
  have hmk : ∀ c id, (s'.pc c).makes = some id → (s.pc c).makes = some id ∧ id ≠ flowid := by
    intro c id hc
    by_cases heq : c = ctx
    · rw [heq, hidle] at hc
      cases hc
    · rw [hpc c heq] at hc
      refine ⟨hc, ?_⟩
      rintro rfl
      exact heq (h.makers c ctx id hc hmakes)
  have hcreated : ∀ id g, Created s id g → Created s' id g := by
    rintro id g (hc | ⟨rfl, hz, c, hc⟩)
    · left
      rw [hother]
      · exact hc
      · rintro heq
        rw [heq, hzero] at hc
        cases hc
    · by_cases heq : id = flowid
      · subst heq
        exact .inl hone
      · refine .inr ⟨by rw [hgen], (hothers id _ heq).trans hz, c, ?_⟩
        rw [hpc c]
        · exact hc
        · rintro rfl
          rw [hp] at hc
          exact heq (Option.some.inj hc).symm
  have hhit : ∀ flow id g, Hit cfg s flow id g → Hit cfg s' flow id g := by
    intro flow id g hh
    unfold Hit findFlow
    rw [hgen, hdhd]
    exact hh
  refine ⟨⟨?_, ?_, ?_, ?_, ?_, ?_, ?_, ?_, ?_, ?_, ?_, ?_, ?_⟩, hone⟩
  · rw [hdhd]
    exact h.home
  · rw [hdhd]
    exact h.nodup
  · rw [hdhd]
    exact h.lt
  · intro c
    by_cases heq : c = ctx
    · rw [heq, hidle]
      trivial
    · rw [hpc c heq]
      refine (h.pcs c).keep ?_ ?_ ?_ ?_ hhit
      · rw [hdhd]
        exact fun _ hn _ => hn
      · rw [hdhd]
        exact fun _ _ hn ha => ⟨hn, ha⟩
      · rw [hring]
        exact fun _ _ => ⟨rfl, fun hsh => hsh⟩
      · rw [hgen]
        exact fun _ _ => rfl
  · intro c c' id hc hc'
    exact h.makers c c' id (hmk c id hc).1 (hmk c' id hc').1
  · intro c id hc
    rw [hgen, hothers id _ (hmk c id hc).2]
    exact h.made c id (hmk c id hc).1
  · intro id hid
    rw [hdhd] at hid
    have hne : id ≠ flowid := by
      rintro rfl
      exact hid (List.mem_map_of_mem hnode)
    rw [hgen, hothers id _ hne]
    exact h.unlinked id hid
  · intro id g hg
    rw [hgen] at hg
    rw [hlives id g (Nat.ne_of_lt hg)]
    exact h.past id g hg
  · intro id g hg
    rw [hgen] at hg
    rw [hlives id g (Nat.ne_of_gt hg)]
    exact h.future id g hg
  · intro id hid
    rw [hring] at hid ⊢
    have hne : id ≠ flowid := by
      rintro rfl
      exact h.not_made hid hmakes
    rw [hgen, hdhd, hothers id _ hne]
    exact h.sent id hid
  · rw [hring]
    exact h.cleaned
  · intro node hn
    rw [hdhd] at hn
    rw [hgen]
    rcases h.stage node hn with hc | ⟨hz, hd⟩
    · exact .inl (hcreated _ _ hc)
    · by_cases heq : node.flowid = flowid
      · rw [heq]
        exact .inl (.inl hone)
      · rw [hothers _ _ heq, hring]
        exact .inr ⟨hz, hd⟩
  · intro a ha
    rw [hanswered] at ha
    exact ⟨hhit _ _ _ (h.answers a ha).1, hcreated _ _ (h.answers a ha).2⟩

/-- The dongle is told of the ring, and the lookup returns. -/
theorem createSent_inv (h : Inv cfg s) (hp : s.pc ctx = .pending flow flowid) :
    Inv cfg (createRequestStep s ctx flow flowid true).1 := by
  have hmakes : (s.pc ctx).makes = some flowid := by
    rw [hp]
    rfl
  have hok := h.pcs ctx
  rw [hp] at hok
  obtain ⟨hnode, hhit, hif, -⟩ := hok
  obtain ⟨s', hs'⟩ : ∃ s', s' =
      { setPc s ctx .idle with
        creates := Function.update s.creates (flowid, s.gen flowid)
          (s.creates (flowid, s.gen flowid) + 1) } := ⟨_, rfl⟩
  obtain ⟨hsend, hone⟩ := h.of_send hp hs'
  have hgen : s'.gen = s.gen := by
    rw [hs']
    rfl
  rw [← hgen] at hone
  have hzero : s'.creates (flowid, s'.gen flowid) ≠ 0 := by
    rw [hone]
    exact Nat.one_ne_zero
  have htold : Inv cfg (setRing s' flowid { s.ring flowid with informed := true }) := by
    refine hsend.of_ring ?_ ?_ ?_ ?_
    · exact fun c hc => absurd (hsend.made c flowid hc) hzero
    · refine fun _ => ⟨hone, nodeOf flow flowid, ?_, rfl, hif.symm⟩
      rw [hs']
      exact hnode
    · exact fun hcl => (h.not_made (.inr hcl) hmakes).elim
    · exact fun _ hz => absurd hz hzero
  have hanswer : Inv cfg
      { setRing s' flowid { s.ring flowid with informed := true } with
        answered := ⟨flow, flowid, s.gen flowid⟩ :: s'.answered } := by
    rw [hs'] at htold hone ⊢
    exact htold.of_answer hhit (.inl hone)
  unfold createRequestStep
  rw [if_pos rfl]
  rw [hs'] at hanswer
  exact hanswer

/-- There is no room for the create request. -/
theorem createRefused_inv (h : Inv cfg s) (hp : s.pc ctx = .pending flow flowid)
    (hserved : answeredWith s flowid = false) :
    Inv cfg (createRequestStep s ctx flow flowid false).1 := by
  have hmakes : (s.pc ctx).makes = some flowid := by
    rw [hp]
    rfl
  have hok := h.pcs ctx
  rw [hp] at hok
  obtain ⟨hnode, hhit, hif, hshut⟩ := hok
  unfold createRequestStep
  rw [if_neg Bool.false_ne_true]
  refine Inv.of_pc (h.of_ring ?_ ?_ ?_ ?_) ?_ ?_ ?_
  · intro c hc
    have heq := h.makers c ctx flowid hc hmakes
    subst heq
    rw [hp]
    exact ⟨hnode, hhit, by simp [setRing, hif], by simpa [setRing] using hshut⟩
  · intro hr
    exact (h.not_made hr hmakes).elim
  · exact h.cleaned flowid
  · intro _ _
    exact .inl ⟨rfl, hshut⟩
  · exact hnode
  · intro id hid
    cases hid
    exact h.own hmakes
  · intro id hc
    have hid : flowid = id := by
      rw [setRing_pc, hp] at hc
      exact Option.some.inj hc
    subst hid
    refine .inr ⟨?_, hserved⟩
    simpa [setRing, Dead] using hshut

/-- The ring whose create request failed is closed, and the lookup returns. -/
theorem closeNode_inv (h : Inv cfg s) (hp : s.pc ctx = .refused flow flowid) :
    Inv cfg (setPc (setRing s flowid { s.ring flowid with status := .closed, active := false })
      ctx .idle) := by
  have hmakes : (s.pc ctx).makes = some flowid := by
    rw [hp]
    rfl
  have hok := h.pcs ctx
  rw [hp] at hok
  refine Inv.of_pc (h.of_ring ?_ ?_ ?_ ?_) trivial nofun ?_
  · intro c hc
    rw [h.makers c ctx flowid hc hmakes, hp]
    exact hok
  · exact h.sent flowid
  · exact h.cleaned flowid
  · exact fun hd _ => .inl ⟨hd.1, .inr (.inl rfl)⟩
  · intro id hc
    rw [setRing_pc, hp] at hc
    cases hc

theorem createResponse_inv (h : Inv cfg s) (hr : (s.ring flowid).informed = true) :
    Inv cfg (setRing s flowid { s.ring flowid with status := .opened }) := by
  refine h.of_ring ?_ (h.sent flowid) (h.cleaned flowid) ?_
  · exact fun c hc => (h.not_made (.inl hr) hc).elim
  · intro _ hz
    rw [(h.sent flowid (.inl hr)).1] at hz
    cases hz

theorem deleteRequestStep_inv (h : Inv cfg s) (flowid : Nat) :
    Inv cfg (deleteRequestStep s flowid) := by
  unfold deleteRequestStep
  split
  · exact h
  · refine h.of_ring ?_ (h.sent flowid) (h.cleaned flowid) ?_
    · intro c _
      refine (h.pcs c).keep (fun _ hn _ => hn) (fun _ _ hn ha => ⟨hn, ha⟩) ?_ (fun _ _ => rfl)
        fun _ _ _ hh => hh
      intro id _
      by_cases heq : id = flowid
      · subst heq
        rw [setRing_self]
        exact ⟨rfl, fun _ => .inr (.inr rfl)⟩
      · rw [setRing_of_ne s _ heq]
        exact ⟨rfl, fun hsh => hsh⟩
    · exact fun hd _ => .inl ⟨hd.1, .inr (.inr rfl)⟩

theorem cleanStep_inv (h : Inv cfg s) (hr : (s.ring flowid).informed = true) :
    Inv cfg (cleanStep s flowid) := by
  refine h.of_ring ?_ (fun _ => h.sent flowid (.inl hr)) (fun _ => rfl) ?_
  · exact fun c hc => (h.not_made (.inl hr) hc).elim
  · exact fun hd _ => .inl ⟨hd.1, .inr (.inl rfl)⟩

/-! ## Steps on the table -/

theorem mapAllocStep_inv (h : Inv cfg s) (hp : s.pc ctx = .missed flow)
    (admitted mallocOk htputSta : Bool) :
    Inv cfg (mapAllocStep cfg s ctx flow admitted mallocOk htputSta).1 := by
  have hok := h.pcs ctx
  rw [hp] at hok
  have hcomes : ∀ {P : Nat → Prop} (id : Nat), (s.pc ctx).comes = some id → P id := by
    intro P id hc
    rw [hp] at hc
    cases hc
  have hbound : ∀ id ∈ avail s.dhd, id < flowidInvalid := fun id hid =>
    (lt_of_mem_allIds (h.lt id (List.mem_append_right _ hid))).1
  have htaken : Took s.dhd (mapAlloc cfg s.dhd flow.ifindex flow.prio flow.da htputSta) :=
    took_mapAlloc hbound flow.ifindex flow.prio flow.da htputSta
  obtain ⟨hflash, htook⟩ := htaken
  unfold mapAllocStep
  split
  · exact h.of_pc trivial nofun hcomes
  · dsimp only
    obtain ⟨r, hr⟩ : ∃ r, mapAlloc cfg s.dhd flow.ifindex flow.prio flow.da htputSta = r := ⟨_, rfl⟩
    rw [hr] at hflash htook ⊢
    split
    · next hnone =>
      have hsame : avail s.dhd = avail r.1 := by
        unfold avail
        rcases htook with ⟨-, hn, hh⟩ | ⟨hn, -⟩ | ⟨-, hh⟩
        · rw [hn, hh]
        · exact absurd hnone (Nat.ne_of_lt (hbound _ (by simp [avail, hn])))
        · exact absurd hnone (Nat.ne_of_lt (hbound _ (by simp [avail, hh])))
      have h' : Inv cfg { s with dhd := r.1 } := h.of_dhd [] hflash (by rw [hsame]; rfl)
      exact h'.of_pc trivial nofun hcomes
    · next hsome =>
      have htaken : Taken s.dhd r.1 r.2 := htook.resolve_left fun hc => hsome hc.1
      have hin : r.2 ∈ avail s.dhd := htaken.perm.mem_iff.2 List.mem_cons_self
      have h' : Inv cfg { s with dhd := r.1 } := h.of_dhd [r.2] hflash htaken.perm
      have hnodes : nodes r.1 = nodes s.dhd := by
        unfold nodes
        rw [hflash]
      have hout : r.2 ∉ (nodes s.dhd).map Node.flowid := fun hmem =>
        (List.nodup_append.1 h.nodup).2.2 _ hmem _ hin rfl
      have hgone : r.2 ∉ avail r.1 :=
        (List.nodup_cons.1 (htaken.perm.nodup_iff.1 h.nodup.of_append_right)).1
      refine h'.of_pc ⟨hok, h.lt _ (List.mem_append_right _ hin), ?_, hgone⟩ ?_ hcomes
      · dsimp only
        rw [hnodes]
        exact hout
      · intro id hid
        cases hid
        refine ⟨h.unlinked _ hout, ?_⟩
        intro c hc
        exact absurd hin (h.held hc)

/-- The node of a context comes into the table. -/
theorem Inv.of_insert (h : Inv cfg s) (hp : s.pc ctx = .allocated flow flowid) {dhd : Dhd}
    (hs' : s' = ConcurrentLookup.setPc { s with dhd := dhd } ctx (.linked flow flowid))
    (hhome : ∀ i k node, i < dhdMaxIfs → k < dhdFlowringHashSize → node ∈ dhd.flHash (i, k) →
      node.ifindex = i ∧ homeSlot cfg node = k)
    (hnodes : (nodes dhd).Perm (nodeOf flow flowid :: nodes s.dhd))
    (havail : avail dhd = avail s.dhd)
    (hhit : ∀ other id g, Hit cfg s other id g → Hit cfg s' other id g)
    (hfind : findFlow cfg s' flow = flowid) : Inv cfg s' := by
  have hmakes : (s.pc ctx).makes = some flowid := by
    rw [hp]
    rfl
  have hok := h.pcs ctx
  rw [hp] at hok
  obtain ⟨hi, hid, hout, hgone⟩ := hok
  obtain ⟨hzero, honly⟩ := h.own hmakes
  have hdhd : s'.dhd = dhd := by
    rw [hs']
    rfl
  have hrest : s'.ring = s.ring ∧ s'.gen = s.gen ∧ s'.creates = s.creates ∧
      s'.answered = s.answered := by
    rw [hs']
    exact ⟨rfl, rfl, rfl, rfl⟩
  obtain ⟨hring, hgen, hcreates, hanswered⟩ := hrest
  have hself : s'.pc ctx = .linked flow flowid := by
    rw [hs']
    exact Function.update_self _ _ _
  have hother : ∀ c, c ≠ ctx → s'.pc c = s.pc c := by
    intro c hne
    rw [hs']
    exact Function.update_of_ne hne _ _
  have hmk : ∀ c, (s'.pc c).makes = (s.pc c).makes := by
    intro c
    by_cases heq : c = ctx
    · rw [heq, hself, hmakes]
      rfl
    · rw [hother c heq]
  have hids : ((nodes dhd).map Node.flowid ++ avail dhd).Perm
      (flowid :: ((nodes s.dhd).map Node.flowid ++ avail s.dhd)) := by
    rw [havail]
    exact (hnodes.map Node.flowid).append_right _
  have hmem : ∀ node ∈ nodes s.dhd, node ∈ nodes dhd := fun node hn =>
    hnodes.mem_iff.2 (List.mem_cons_of_mem _ hn)
  have hmemIds : ∀ id ∈ (nodes s.dhd).map Node.flowid, id ∈ (nodes dhd).map Node.flowid := by
    intro id hin
    obtain ⟨node, hn, rfl⟩ := List.mem_map.1 hin
    exact List.mem_map_of_mem (hmem node hn)
  have hcreated : ∀ id g, Created s id g → Created s' id g := by
    rintro id g (hone | ⟨hg, hz, c, hc⟩)
    · left
      rw [hcreates]
      exact hone
    · refine .inr ⟨by rw [hgen]; exact hg, by rw [hcreates]; exact hz, c, ?_⟩
      rw [hother c]
      · exact hc
      · rintro rfl
        rw [hp] at hc
        cases hc
  refine ⟨?_, ?_, ?_, ?_, ?_, ?_, ?_, ?_, ?_, ?_, ?_, ?_, ?_⟩
  · rw [hdhd]
    exact hhome
  · rw [hdhd, hids.nodup_iff, List.nodup_cons, List.mem_append, not_or]
    exact ⟨⟨hout, hgone⟩, h.nodup⟩
  · rw [hdhd]
    intro id hin
    rcases List.mem_cons.1 (hids.mem_iff.1 hin) with rfl | hin
    · exact hid
    · exact h.lt id hin
  · intro c
    by_cases heq : c = ctx
    · rw [heq, hself]
      refine ⟨?_, hi, hid, Nat.le_refl _, fun _ => hfind⟩
      rw [hdhd]
      exact hnodes.mem_iff.2 List.mem_cons_self
    · rw [hother c heq]
      refine (h.pcs c).keep ?_ ?_ ?_ ?_ hhit
      · rw [hdhd]
        exact fun node hn _ => hmem node hn
      · rw [hdhd, havail]
        intro id hc hn ha
        refine ⟨?_, ha⟩
        rw [(hnodes.map Node.flowid).mem_iff, List.map_cons, List.mem_cons, not_or]
        refine ⟨?_, hn⟩
        rintro rfl
        exact heq (honly c hc)
      · rw [hring]
        exact fun _ _ => ⟨rfl, fun hsh => hsh⟩
      · rw [hgen]
        exact fun _ _ => rfl
  · intro c c' id hc hc'
    rw [hmk] at hc hc'
    exact h.makers c c' id hc hc'
  · intro c id hc
    rw [hmk] at hc
    rw [hcreates, hgen]
    exact h.made c id hc
  · intro id hin
    rw [hdhd] at hin
    rw [hcreates, hgen]
    exact h.unlinked id fun hold => hin (hmemIds id hold)
  · rw [hgen, hcreates]
    exact h.past
  · rw [hgen, hcreates]
    exact h.future
  · intro id hr
    rw [hring] at hr ⊢
    rw [hcreates, hgen, hdhd]
    obtain ⟨hone, node, hn, hnode⟩ := h.sent id hr
    exact ⟨hone, node, hmem node hn, hnode⟩
  · rw [hring]
    exact h.cleaned
  · intro node hn
    rw [hdhd] at hn
    rcases List.mem_cons.1 (hnodes.mem_iff.1 hn) with rfl | hn
    · refine .inl (.inr ⟨rfl, ?_, ctx, ?_⟩)
      · rw [hcreates, hgen]
        exact hzero
      · rw [hself]
        rfl
    · rcases h.stage node hn with hc | hd
      · rw [hgen]
        exact .inl (hcreated _ _ hc)
      · rw [hcreates, hgen, hring]
        exact .inr hd
  · intro a ha
    rw [hanswered] at ha
    exact ⟨hhit _ _ _ (h.answers a ha).1, hcreated _ _ (h.answers a ha).2⟩

/-- The node is linked where `dhd_flowid_find` does not find its flow. -/
theorem insertStep_inv (h : Inv cfg s) (hp : s.pc ctx = .allocated flow flowid)
    (hmiss : findFlow cfg s flow = flowidInvalid) :
    Inv cfg (insertStep cfg s ctx flow flowid).1 := by
  have hok := h.pcs ctx
  rw [hp] at hok
  obtain ⟨hi, hid, -, -⟩ := hok
  obtain ⟨node, hnode⟩ : ∃ node, node = nodeOf flow flowid := ⟨_, rfl⟩
  have hslot : homeSlot cfg node < dhdFlowringHashSize := homeSlot_lt _ _
  have hvalid : ∀ cur ∈ s.dhd.flHash (flow.ifindex, homeSlot cfg node),
      cur.flowid < flowidInvalid := by
    intro cur hcur
    have hmem : cur ∈ nodes s.dhd := mem_entries.2 ⟨_, mem_slots.2 ⟨hi, hslot⟩, hcur⟩
    exact (lt_of_mem_allIds (h.lt _ (List.mem_append_left _ (List.mem_map_of_mem hmem)))).1
  have hflash : (insertNode cfg s.dhd node).flHash =
      Function.update s.dhd.flHash (flow.ifindex, homeSlot cfg node)
        (s.dhd.flHash (flow.ifindex, homeSlot cfg node) ++ [node]) := by
    subst hnode
    exact insertNode_flHash hi hmiss hvalid
  obtain ⟨hn', hh'⟩ := insertNode_allocators cfg s.dhd node
  unfold insertStep
  dsimp only
  rw [if_neg (Nat.not_lt.2 (lt_of_mem_allIds hid).2), ← hnode]
  obtain ⟨dhd, hdhd⟩ : ∃ dhd, insertNode cfg s.dhd node = dhd := ⟨_, rfl⟩
  rw [hdhd] at hflash hn' hh' ⊢
  have hfindEq : ∀ other : Flow, other.ifindex < dhdMaxIfs →
      findFlow cfg (setPc { s with dhd := dhd } ctx (.linked flow flowid)) other =
        firstFlowid (Function.update s.dhd.flHash (flow.ifindex, homeSlot cfg node)
          (s.dhd.flHash (flow.ifindex, homeSlot cfg node) ++ [node]) (keyOf cfg other).slot)
          fun cur => (keyOf cfg other).hits cur := by
    intro other hi'
    rw [← hflash]
    exact findFlow_eq cfg _ hi'
  refine h.of_insert hp rfl ?_ ?_ ?_ ?_ ?_
  · rw [hflash]
    apply home_update h.home
    intro cur hcur
    rcases List.mem_append.1 hcur with hcur | hcur
    · exact h.home _ _ cur hi hslot hcur
    · rw [List.mem_singleton.1 hcur]
      exact ⟨by rw [hnode]; rfl, rfl⟩
  · unfold nodes
    rw [hflash, ← hnode]
    exact entries_insert slots_nodup (mem_slots.2 ⟨hi, hslot⟩) List.perm_append_comm
  · unfold avail
    rw [hn', hh']
  · rintro other id g ⟨hi', hid', hle, hf⟩
    refine ⟨hi', hid', hle, ?_⟩
    intro hg
    have hbefore := hf hg
    rw [findFlow_eq cfg s hi'] at hbefore
    rw [hfindEq other hi']
    by_cases heq : (keyOf cfg other).slot = (flow.ifindex, homeSlot cfg node)
    · rw [heq] at hbefore ⊢
      rw [Function.update_self]
      exact firstFlowid_append hbefore (Nat.ne_of_lt (lt_of_mem_allIds hid').1)
    · rw [Function.update_of_ne heq]
      exact hbefore
  · rw [findFlow_eq cfg s hi, slot_keyOf cfg flow flowid, ← hnode] at hmiss
    rw [hfindEq flow hi, slot_keyOf cfg flow flowid, ← hnode, Function.update_self,
      firstFlowid_snoc hvalid hmiss]
    · rw [hnode]
      rfl
    · rw [hnode]
      exact hits_nodeOf cfg flow flowid

/-- A node leaves the table, and its id begins another life. -/
theorem Inv.of_unlink (h : Inv cfg s) (hclean : (s.ring flowid).cleaning = true) {dhd : Dhd}
    {node : Node}
    (hs' : s' =
      { setRing s flowid { s.ring flowid with cleaning := false } with
        dhd := dhd
        gen := Function.update s.gen flowid (s.gen flowid + 1) })
    (hhome : ∀ i k cur, i < dhdMaxIfs → k < dhdFlowringHashSize → cur ∈ dhd.flHash (i, k) →
      cur.ifindex = i ∧ homeSlot cfg cur = k) (hnid : node.flowid = flowid)
    (hnodes : (nodes s.dhd).Perm (node :: nodes dhd))
    (havail : (avail dhd).Perm (flowid :: avail s.dhd))
    (hfind : ∀ other : Flow, other.ifindex < dhdMaxIfs → findFlow cfg s other ≠ flowid →
      findFlow cfg s' other = findFlow cfg s other) : Inv cfg s' := by
  have hmade : ∀ c, (s.pc c).makes ≠ some flowid := fun c hc => h.not_made (.inr hclean) hc
  have hone : s.creates (flowid, s.gen flowid) = 1 := (h.sent flowid (.inr hclean)).1
  have hrest : s'.dhd = dhd ∧ s'.pc = s.pc ∧ s'.creates = s.creates ∧
      s'.answered = s.answered := by
    rw [hs']
    exact ⟨rfl, rfl, rfl, rfl⟩
  obtain ⟨hdhd, hpc, hcreates, hanswered⟩ := hrest
  have hself : s'.ring flowid = { s.ring flowid with cleaning := false } := by
    rw [hs']
    exact Function.update_self _ _ _
  have hring : ∀ id, id ≠ flowid → s'.ring id = s.ring id := by
    intro id hne
    rw [hs']
    exact Function.update_of_ne hne _ _
  have hgenSelf : s'.gen flowid = s.gen flowid + 1 := by
    rw [hs']
    exact Function.update_self _ _ _
  have hgen : ∀ id, id ≠ flowid → s'.gen id = s.gen id := by
    intro id hne
    rw [hs']
    exact Function.update_of_ne hne _ _
  have hout : ∀ cur ∈ nodes dhd, cur ∈ nodes s.dhd ∧ cur.flowid ≠ flowid := by
    intro cur hcur
    refine ⟨hnodes.mem_iff.2 (List.mem_cons_of_mem _ hcur), ?_⟩
    rintro heq
    have hnd := (hnodes.map Node.flowid).nodup_iff.1 h.nodup.of_append_left
    rw [List.map_cons, hnid, List.nodup_cons] at hnd
    exact hnd.1 (heq ▸ List.mem_map_of_mem hcur)
  have hkeep : ∀ cur ∈ nodes s.dhd, cur.flowid ≠ flowid → cur ∈ nodes dhd := by
    intro cur hcur hne
    rcases List.mem_cons.1 (hnodes.mem_iff.1 hcur) with rfl | hin
    · exact absurd hnid hne
    · exact hin
  have hids : ((nodes dhd).map Node.flowid ++ avail dhd).Perm
      ((nodes s.dhd).map Node.flowid ++ avail s.dhd) := by
    have hmap := hnodes.map Node.flowid
    rw [List.map_cons, hnid] at hmap
    exact ((havail.append_left _).trans List.perm_middle).trans (hmap.symm.append_right _)
  have hhit : ∀ other id g, Hit cfg s other id g → Hit cfg s' other id g := by
    rintro other id g ⟨hi, hid, hle, hf⟩
    by_cases heq : id = flowid
    · subst heq
      exact ⟨hi, hid, by omega, fun hg => by omega⟩
    · rw [← hgen id heq] at hle hf
      refine ⟨hi, hid, hle, ?_⟩
      intro hg
      rw [← hf hg]
      apply hfind other hi
      rw [hf hg]
      exact heq
  have hcreated : ∀ id g, Created s id g → Created s' id g := by
    rintro id g (hc | ⟨rfl, hz, hco⟩)
    · left
      rw [hcreates]
      exact hc
    · have hne : id ≠ flowid := by
        rintro rfl
        rw [hone] at hz
        cases hz
      refine .inr ⟨(hgen id hne).symm, by rw [hcreates]; exact hz, ?_⟩
      unfold Coming
      rw [hpc]
      exact hco
  refine ⟨?_, ?_, ?_, ?_, ?_, ?_, ?_, ?_, ?_, ?_, ?_, ?_, ?_⟩
  · rw [hdhd]
    exact hhome
  · rw [hdhd, hids.nodup_iff]
    exact h.nodup
  · rw [hdhd]
    exact fun id hin => h.lt id (hids.mem_iff.1 hin)
  · intro c
    have hne : ∀ id, (s.pc c).makes = some id → id ≠ flowid := by
      rintro id hc rfl
      exact hmade c hc
    rw [hpc]
    refine (h.pcs c).keep ?_ ?_ ?_ ?_ hhit
    · rw [hdhd]
      exact fun cur hcur hc => hkeep cur hcur (hne _ hc)
    · rw [hdhd]
      intro id hc hn ha
      refine ⟨?_, ?_⟩
      · intro hin
        obtain ⟨cur, hcur, rfl⟩ := List.mem_map.1 hin
        exact hn (List.mem_map_of_mem (hout cur hcur).1)
      · rw [havail.mem_iff, List.mem_cons, not_or]
        exact ⟨hne id hc, ha⟩
    · intro id hc
      rw [hring id (hne id hc)]
      exact ⟨rfl, fun hsh => hsh⟩
    · exact fun id hc => hgen id (hne id hc)
  · rw [hpc]
    exact h.makers
  · rw [hpc]
    intro c id hc
    have hne : id ≠ flowid := by
      rintro rfl
      exact hmade c hc
    rw [hcreates, hgen id hne]
    exact h.made c id hc
  · intro id hin
    rw [hdhd] at hin
    rw [hcreates]
    by_cases heq : id = flowid
    · rw [heq, hgenSelf]
      exact h.future _ _ (Nat.lt_succ_self _)
    · rw [hgen id heq]
      refine h.unlinked id fun hold => hin ?_
      obtain ⟨cur, hcur, rfl⟩ := List.mem_map.1 hold
      exact List.mem_map_of_mem (hkeep cur hcur heq)
  · intro id g hg
    rw [hcreates]
    by_cases heq : id = flowid
    · subst heq
      rw [hgenSelf] at hg
      rcases Nat.lt_or_eq_of_le (Nat.le_of_lt_succ hg) with hlt | rfl
      · exact h.past id g hlt
      · exact hone
    · rw [hgen id heq] at hg
      exact h.past id g hg
  · intro id g hg
    rw [hcreates]
    by_cases heq : id = flowid
    · subst heq
      rw [hgenSelf] at hg
      exact h.future id g (by omega)
    · rw [hgen id heq] at hg
      exact h.future id g hg
  · intro id hr
    by_cases heq : id = flowid
    · rw [heq, hself] at hr
      rcases hr with hr | hr
      · rw [h.cleaned flowid hclean] at hr
        cases hr
      · cases hr
    · rw [hring id heq] at hr ⊢
      rw [hcreates, hgen id heq, hdhd]
      obtain ⟨hc, cur, hcur, rfl, hif⟩ := h.sent id hr
      exact ⟨hc, cur, hkeep cur hcur heq, rfl, hif⟩
  · intro id hr
    by_cases heq : id = flowid
    · rw [heq, hself] at hr
      cases hr
    · rw [hring id heq] at hr ⊢
      exact h.cleaned id hr
  · intro cur hcur
    rw [hdhd] at hcur
    obtain ⟨hcur, hne⟩ := hout cur hcur
    rcases h.stage cur hcur with hc | hd
    · rw [hgen _ hne]
      exact .inl (hcreated _ _ hc)
    · rw [hcreates, hgen _ hne, hring _ hne]
      exact .inr hd
  · intro a ha
    rw [hanswered] at ha
    exact ⟨hhit _ _ _ (h.answers a ha).1, hcreated _ _ (h.answers a ha).2⟩

/-- A ring that was cleaned leaves the table. -/
theorem freeStep_inv (h : Inv cfg s) (hclean : (s.ring flowid).cleaning = true) :
    Inv cfg (freeStep cfg s flowid) := by
  obtain ⟨-, known, hknown, hkid, hkif⟩ := h.sent flowid (.inr hclean)
  obtain ⟨⟨i, k⟩, hk, hmem⟩ := mem_entries.1 hknown
  obtain ⟨hi, hlt⟩ := mem_slots.1 hk
  obtain ⟨rfl, rfl⟩ := h.home i k known hi hlt hmem
  rw [hkif] at hi hmem
  obtain ⟨hashix, hslot⟩ : ∃ hashix, slotOf s.dhd (s.ring flowid).ifindex flowid = some hashix := by
    cases hs : slotOf s.dhd (s.ring flowid).ifindex flowid with
    | none => exact absurd hkid (slotOf_none hs hlt hmem)
    | some hashix => exact ⟨hashix, rfl⟩
  obtain ⟨node, l₁, l₂, hnid, hsplit, hflash, hback⟩ := free_some cfg hi hslot
  have hhash := (slotOf_some hslot).1
  refine h.of_unlink hclean rfl ?_ hnid ?_ hback.perm ?_
  · rw [hflash]
    apply home_update h.home
    intro cur hcur
    refine h.home _ _ cur hi hhash ?_
    rw [hsplit]
    rw [List.mem_append] at hcur ⊢
    exact hcur.imp_right (List.mem_cons_of_mem _)
  · unfold nodes
    rw [hflash]
    refine entries_erase slots_nodup (mem_slots.2 ⟨hi, hhash⟩) ?_
    rw [hsplit]
    exact List.perm_middle
  · intro other hi' hne
    have hafter : findFlow cfg (freeStep cfg s flowid) other =
        firstFlowid (Function.update s.dhd.flHash ((s.ring flowid).ifindex, hashix) (l₁ ++ l₂)
          (keyOf cfg other).slot) fun cur => (keyOf cfg other).hits cur := by
      rw [← hflash]
      exact findFlow_eq cfg _ hi'
    refine hafter.trans ?_
    rw [findFlow_eq cfg s hi'] at hne ⊢
    by_cases heq : (keyOf cfg other).slot = ((s.ring flowid).ifindex, hashix)
    · rw [heq, hsplit] at hne ⊢
      rw [Function.update_self]
      exact firstFlowid_unlink rfl (by rw [hnid]; exact hne.symm)
    · rw [Function.update_of_ne heq]

/-! ## Runs -/

theorem step_inv {e : Call} {r : Result} (h : Inv cfg s) (hc : servedByOne cfg s e = true)
    (hs : step cfg s e = some (s', r)) : Inv cfg s' := by
  cases step_moves hs with
  | find ctx flow hp => exact lookupStep_inv h flow hp
  | mapAlloc ctx flow admitted mallocOk htputSta hp => exact mapAllocStep_inv h hp _ _ _
  | insert ctx flow flowid hp =>
    unfold servedByOne at hc
    dsimp only at hc
    rw [hp] at hc
    exact insertStep_inv h hp (by simpa using hc)
  | initNode ctx flow flowid hp => exact initNodeStep_inv h hp
  | createRequest ctx flow flowid sent hp =>
    cases sent with
    | true => exact createSent_inv h hp
    | false =>
      unfold servedByOne at hc
      dsimp only at hc
      rw [hp] at hc
      exact createRefused_inv h hp (by simpa using hc)
  | closeNode ctx flow flowid hp => exact closeNode_inv h hp
  | checkStatus ctx flow flowid gen hp =>
    unfold servedByOne at hc
    dsimp only at hc
    rw [hp] at hc
    dsimp only at hc
    rw [Bool.not_eq_true'] at hc
    exact checkStatusStep_inv h hp hc
  | createResponse flowid hr => exact createResponse_inv h hr
  | deleteRequest flowid => exact deleteRequestStep_inv h flowid
  | clean flowid hr => exact cleanStep_inv h hr
  | free flowid hr => exact freeStep_inv h hr

end

theorem runs_keep_inv {cfg : Cfg} {s : State} {es : List Call} {tr : List (Call × Result)}
    (hm : meets (step cfg) (servedByOne cfg) (init cfg) es = true)
    (h : runs (step cfg) (init cfg) es = some (s, tr)) : Inv cfg s :=
  runs_inv_of_meets (step cfg) (servedByOne cfg) (fun s _ => Inv cfg s)
    (fun _ _ _ _ _ hi hc hs => step_inv hi hc hs) _ _ es tr (inv_init cfg) hm h

def okOf : Result → Option Nat
  | .ok flowid => some flowid
  | _ => none

/-- A lookup that succeeds is recorded. -/
def Records (s : State) (r : State × Result) : Prop :=
  r.1.answered.map Answer.flowid = (okOf r.2).toList ++ s.answered.map Answer.flowid

theorem lookupStep_records (cfg : Cfg) (s : State) (ctx : Nat) (flow : Flow) :
    Records s (lookupStep cfg s ctx flow) := by
  unfold lookupStep
  dsimp only
  split
  · rfl
  · split
    · rfl
    · rfl

theorem mapAllocStep_records (cfg : Cfg) (s : State) (ctx : Nat) (flow : Flow)
    (admitted mallocOk htputSta : Bool) :
    Records s (mapAllocStep cfg s ctx flow admitted mallocOk htputSta) := by
  unfold mapAllocStep
  dsimp only
  split
  · rfl
  · split
    · rfl
    · rfl

theorem insertStep_records (cfg : Cfg) (s : State) (ctx : Nat) (flow : Flow) (flowid : Nat) :
    Records s (insertStep cfg s ctx flow flowid) := by
  unfold insertStep
  dsimp only
  split
  · rfl
  · rfl

theorem createRequestStep_records (s : State) (ctx : Nat) (flow : Flow) (flowid : Nat)
    (sent : Bool) : Records s (createRequestStep s ctx flow flowid sent) := by
  cases sent with
  | true => rfl
  | false => rfl

theorem checkStatusStep_records (s : State) (ctx : Nat) (flow : Flow) (flowid gen : Nat) :
    Records s (checkStatusStep s ctx flow flowid gen) := by
  unfold checkStatusStep
  split
  · rfl
  · rfl

theorem deleteRequestStep_records (s : State) (flowid : Nat) :
    Records s (deleteRequestStep s flowid, .done) := by
  unfold deleteRequestStep
  split
  · rfl
  · rfl

theorem step_records {cfg : Cfg} {s : State} {e : Call} {r : Result}
    (hs : step cfg s e = some (s', r)) : Records s (s', r) := by
  cases step_moves hs with
  | find ctx flow hp => exact lookupStep_records cfg s ctx flow
  | mapAlloc ctx flow admitted mallocOk htputSta hp => exact mapAllocStep_records cfg s ctx flow _ _ _
  | insert ctx flow flowid hp => exact insertStep_records cfg s ctx flow flowid
  | initNode ctx flow flowid hp => rfl
  | createRequest ctx flow flowid sent hp => exact createRequestStep_records s ctx flow flowid sent
  | closeNode ctx flow flowid hp => rfl
  | checkStatus ctx flow flowid gen hp => exact checkStatusStep_records s ctx flow flowid gen
  | createResponse flowid hr => rfl
  | deleteRequest flowid => exact deleteRequestStep_records s flowid
  | clean flowid hr => rfl
  | free flowid hr => rfl

theorem runs_answered {cfg : Cfg} {s : State} {es : List Call} {tr : List (Call × Result)}
    (h : runs (step cfg) (init cfg) es = some (s, tr)) :
    s.answered.map Answer.flowid = (tr.filterMap fun e => okOf e.2).reverse := by
  refine runs_inv (step cfg)
    (fun s tr => s.answered.map Answer.flowid = (tr.filterMap fun e => okOf e.2).reverse)
    ?_ _ _ es tr rfl h
  intro s tr e s' r hi hs
  have hrec : s'.answered.map Answer.flowid = (okOf r).toList ++ s.answered.map Answer.flowid :=
    step_records hs
  rw [hrec, hi, List.filterMap_append, List.reverse_append]
  congr 1
  cases hr : okOf r with
  | none => simp [hr]
  | some flowid => simp [hr]

/-- **One flow ring per flow.**  In every run in which no node is linked for a flow that is
found by then, and no other lookup is answered with a ring whose create request fails: lookups
that succeeded with one key return one id as long as their flow is not freed, and one create
request was sent for it, or is about to be. -/
theorem one_ring_per_flow (cfg : Cfg) (es : List Call) (s : State) (tr : List (Call × Result))
    (hm : meets (step cfg) (servedByOne cfg) (init cfg) es = true)
    (h : runs (step cfg) (init cfg) es = some (s, tr)) :
    s.answered.map Answer.flowid = (tr.filterMap fun e => okOf e.2).reverse ∧
    (∀ a ∈ s.answered, ∀ b ∈ s.answered, keyOf cfg a.flow = keyOf cfg b.flow →
      a.gen = s.gen a.flowid → b.gen = s.gen b.flowid → a.flowid = b.flowid) ∧
    (∀ a ∈ s.answered, Created s a.flowid a.gen) ∧
    ∀ flowid gen, s.creates (flowid, gen) ≤ 1 := by
  have hinv := runs_keep_inv hm h
  refine ⟨runs_answered h, ?_, fun a ha => (hinv.answers a ha).2, hinv.creates_le⟩
  intro a ha b hb hkey hga hgb
  obtain ⟨hia, -, -, hfa⟩ := (hinv.answers a ha).1
  obtain ⟨hib, -, -, hfb⟩ := (hinv.answers b hb).1
  rw [← hfa hga, ← hfb hgb, findFlow_eq cfg s hia, findFlow_eq cfg s hib, hkey]

theorem softAp_ids_lt : flowidReserved + 8 + htputTotalFlowRings < id16Invalid := by decide

/-- An access point. -/
def softAp : Cfg where
  role := fun _ => .ap
  tdlsPeers := []
  htputSupport := false
  maxNormalTxFlowRings := 8
  ids_lt := softAp_ids_lt

def toPeer : Flow := ⟨0, 6, ⟨2, 0, 0, 0, 0, 1⟩⟩

/-- The second context searches when the first has linked its node; then the ring is deleted. -/
def inTurn : List Call :=
  [.find 0 toPeer, .mapAlloc 0 true true false, .insert 0, .find 1 toPeer, .initNode 0,
    .checkStatus 1, .createRequest 0 true, .createResponse 9, .find 2 toPeer, .checkStatus 2,
    .deleteRequest 9, .clean 9, .free 9]

theorem one_ring_per_flow_two : ∃ s tr, runs (step softAp) (init softAp) inTurn = some (s, tr) ∧
    s.answered.map Answer.flowid = [9, 9, 9] ∧ (∀ a ∈ s.answered, Created s a.flowid a.gen) ∧
    s.creates (9, 0) ≤ 1 := by
  obtain ⟨-, -, hcreated, hle⟩ := one_ring_per_flow softAp inTurn _ _ (by decide) rfl
  exact ⟨_, _, rfl, by decide, hcreated, hle 9 0⟩

/-- Both contexts search before either has linked its node: two rings for one flow. -/
theorem one_ring_per_flow_fails : ∃ s tr,
    runs (step softAp) (init softAp)
      [.find 0 toPeer, .find 1 toPeer, .mapAlloc 0 true true false, .insert 0,
        .mapAlloc 1 true true false, .insert 1, .initNode 0, .createRequest 0 true,
        .initNode 1, .createRequest 1 true] = some (s, tr) ∧
    ¬ ∀ a ∈ s.answered, ∀ b ∈ s.answered, keyOf softAp a.flow = keyOf softAp b.flow →
      a.gen = s.gen a.flowid → b.gen = s.gen b.flowid → a.flowid = b.flowid :=
  ⟨_, _, rfl, by decide⟩

end Bcmdhd.ConcurrentLookup
