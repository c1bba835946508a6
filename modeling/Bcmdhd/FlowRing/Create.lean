import Bcmdhd.FlowRing.FlowIds
import Bcmdhd.FlowRing.LifeCycle
import Bcmdhd.Msgbuf.H2DRing

/-!
# Creating a flow (`dhd_flowring.c`, `dhd_msgbuf.c`)

`dhd_flowid_lookup` takes an id, puts a node into the lookup table, counts the flow, initializes
its ring and sends a create request.  When the request cannot be sent, the ring is closed.

    createFails conf t flow ans id → the lookup fails ∧
      ¬ (id is available again ∧ no chain has it ∧ the count is as before ∧
          the flow can be looked up later)                        (failed_create_not_undone)
-/

namespace Bcmdhd.FlowCreate

open Buckets Id16 FlowLookup FlowIds FlowRing

/-! ## The tables -/

/-- The codes that a lookup returns. -/
inductive Bcme
  | ok
  | error
  | badarg
  | nomem
deriving DecidableEq, Repr

structure Conf extends Cfg where
  maxMultiClientFlowRings : Nat
  frPhaseNibble : Bool

/-- `flow_ring_node_t`, with its `flow_info` -/
structure RingNode where
  status : Status
  active : Bool
  sa : Ea
  da : Ea
  tid : UInt8
  ifindex : Nat
  /-- `prot_info` is set -/
  protInfo : Bool
deriving DecidableEq, Repr

/-- A ring in the pool of flow rings. -/
structure PoolRing where
  wr : Nat
  rd : Nat
  inited : Bool
  currentPhase : Nat
deriving DecidableEq, Repr

/-- `tx_flowring_create_request_t` -/
structure CreateRequest where
  ifId : Nat
  tid : UInt8
  flowRingId : Nat
  sa : Ea
  da : Ea
  phase : Nat
deriving DecidableEq, Repr

structure Table where
  dhd : Dhd
  /-- `if_flow_lkup[ifindex].role` -/
  role : Nat → Role
  /-- `if_flow_lkup[ifindex].status` -/
  ifStatus : Nat → Bool
  ring : Nat → RingNode
  pool : Nat → PoolRing
  /-- `h2dring_ctrl_subn` -/
  ctrl : H2DRing.MsgbufRing
  /-- the items of the control ring, by slot -/
  requests : Nat → Option CreateRequest

/-- The arguments of a lookup. -/
structure Flow where
  ifindex : Nat
  prio : UInt8
  sa : Ea
  da : Ea
deriving DecidableEq, Repr

/-- What the rest of the driver answers during a lookup. -/
structure Answers where
  /-- `dhdp->flow_ring_table` is there -/
  flowRingTable : Bool
  tdlsPeers : List Ea
  /-- `dhd_sta_associated` -/
  staAssociated : Bool
  /-- `dhd_is_sta_htput` -/
  htputSta : Bool
  mallocOk : Bool
  /-- `dhd_prot_inc_hostactive_devwake_assert` -/
  devwakeOk : Bool
  /-- the read index that the host gets if it has to refresh its copy -/
  fresh : Nat

/-! ## Algorithm -/

def cfgOf (conf : Conf) (t : Table) (ans : Answers) : Cfg := cfgAt conf.toCfg ⟨t.role, ans.tdlsPeers⟩

def setRing (t : Table) (id : Nat) (ring : RingNode) : Table :=
  { t with ring := Function.update t.ring id ring }

/-- `dhd_prot_flowrings_pool_fetch`; the phase is 0 until the first item flips it. -/
def poolFetch (t : Table) (id : Nat) : Table :=
  { t with pool := Function.update t.pool id ⟨0, 0, true, 0⟩ }

def poolRelease (t : Table) (id : Nat) : Table :=
  { t with pool := Function.update t.pool id { t.pool id with wr := 0, rd := 0, inited := false } }

/-- `dhd_prot_flow_ring_create` -/
def protFlowRingCreate (conf : Conf) (t : Table) (ans : Answers) (id : Nat) : Table × Bcme :=
  let t := poolFetch t id
  if !ans.devwakeOk then (t, .error)
  else
    match H2DRing.allocRingSpace conf.frPhaseNibble t.ctrl 1 false ans.fresh with
    | (ctrl, none) => (poolRelease { t with ctrl } id, .nomem)
    | (ctrl, some (slot, _)) =>
      let node := { t.ring id with protInfo := true }
      let rqst : CreateRequest :=
        { ifId := node.ifindex % 0x100
          tid := node.tid
          flowRingId := id
          sa := node.sa
          da := node.da
          phase := ctrl.currentPhase }
      (setRing { t with ctrl, requests := Function.update t.requests slot (some rqst) } id node, .ok)

/-- `dhd_bus_flow_ring_create_request` -/
def flowRingCreateRequest (conf : Conf) (t : Table) (ans : Answers) (id : Nat) : Table × Bcme :=
  let r := protFlowRingCreate conf t ans id
  if r.2 ≠ .ok then (r.1, .nomem) else (r.1, .ok)

/-- The flow has an id: it is counted, and its ring node is set up. -/
def initFlow (t : Table) (flow : Flow) (id : Nat) : Table :=
  setRing
    { t with
      dhd := { t.dhd with
        -- Only after flowid alloc, increment multi_client_flow_rings
        multiClientFlowRings :=
          if multiClient (t.role flow.ifindex) then t.dhd.multiClientFlowRings + 1
          else t.dhd.multiClientFlowRings } }
    id
    { t.ring id with
      sa := flow.sa
      da := flow.da
      tid := flow.prio
      ifindex := flow.ifindex
      active := true
      status := .createPending }

/-- The interface is up, below its limit of flows, and has the peer. -/
def admitted (conf : Conf) (t : Table) (flow : Flow) (ans : Answers) : Bool :=
  let ifRoleMultiClient := multiClient (t.role flow.ifindex)
  t.ifStatus flow.ifindex &&
    -- Abort Flowring creation if multi client flowrings crossed the threshold
    !(ifRoleMultiClient && decide (t.dhd.multiClientFlowRings ≥ conf.maxMultiClientFlowRings)) &&
    -- Do not create Flowring if peer is not associated
    !(ifRoleMultiClient && !isMulti flow.da && !ans.staAssociated)

/-- The flow was not found. -/
def createFlow (conf : Conf) (t : Table) (flow : Flow) (ans : Answers) :
    Table × Bcme × Option Nat :=
  if !admitted conf t flow ans then (t, .error, none)
  else
    let r := alloc (cfgOf conf t ans) t.dhd flow.ifindex flow.prio flow.da ans.mallocOk ans.htputSta
    let id := r.2
    let t := { t with dhd := r.1 }
    if id = flowidInvalid then (t, .error, none)
    else
      let r := flowRingCreateRequest conf (initFlow t flow id) ans id
      let t := r.1
      if r.2 ≠ .ok then
        (setRing t id { t.ring id with status := .closed, active := false }, .error, none)
      else (t, .ok, some id)

/-- `dhd_flowid_lookup`: the code it returns, and `*flowid` where it is set. -/
def lookup (conf : Conf) (t : Table) (flow : Flow) (ans : Answers) : Table × Bcme × Option Nat :=
  if !ans.flowRingTable then (t, .error, none)
  else if flow.ifindex ≥ dhdMaxIfs then (t, .badarg, none)
  else
    let id := find (cfgOf conf t ans) t.dhd flow.ifindex flow.prio flow.da
    if id = flowidInvalid ∨ id > maxTxFlowid conf.toCfg then createFlow conf t flow ans
    -- packets are dropped while the ring is being deleted
    else if (t.ring id).status = .deletePending ∨ (t.ring id).status = .closed then
      (t, .error, some flowidInvalid)
    else (t, .ok, some id)

/-! ## What a failure should leave -/

/-- The lookup comes to `dhd_flowid_alloc`. -/
def hasToCreate (conf : Conf) (t : Table) (flow : Flow) (ans : Answers) : Bool :=
  let id := find (cfgOf conf t ans) t.dhd flow.ifindex flow.prio flow.da
  ans.flowRingTable && decide (flow.ifindex < dhdMaxIfs) &&
    (id == flowidInvalid || decide (id > maxTxFlowid conf.toCfg)) && admitted conf t flow ans

/-- The id that an allocator gives for the flow. -/
def idFor (conf : Conf) (t : Table) (flow : Flow) (ans : Answers) : Nat :=
  (mapAlloc (cfgOf conf t ans) t.dhd flow.ifindex flow.prio flow.da ans.htputSta).2

/-- The control ring takes a create request. -/
def canRequest (conf : Conf) (t : Table) (ans : Answers) : Bool :=
  ans.devwakeOk &&
    (H2DRing.allocRingSpace conf.frPhaseNibble t.ctrl 1 false ans.fresh).2.isSome

/-- A flow has to be created and gets the id `id`, which is too large, or for which no create
request can be sent. -/
def createFails (conf : Conf) (t : Table) (flow : Flow) (ans : Answers) (id : Nat) : Bool :=
  hasToCreate conf t flow ans && ans.mallocOk && idFor conf t flow ans == id &&
    id != flowidInvalid && (decide (id > maxTxFlowid conf.toCfg) || !canRequest conf t ans)

/-- All that a lookup of the flow needs is there. -/
def hasResources (conf : Conf) (t : Table) (flow : Flow) (ans : Answers) : Bool :=
  ans.flowRingTable && decide (flow.ifindex < dhdMaxIfs) && admitted conf t flow ans &&
    ans.mallocOk && idFor conf t flow ans != flowidInvalid &&
    decide (idFor conf t flow ans ≤ maxTxFlowid conf.toCfg) && canRequest conf t ans

/-- The creation of a flow with this id is undone. -/
structure Undone (conf : Conf) (flow : Flow) (id : Nat) (before after : Table) : Prop where
  /-- the id is back in its allocator -/
  avail : (avail after.dhd).Perm (avail before.dhd)
  unhashed : ∀ i h node, node ∈ after.dhd.flHash (i, h) → node.flowid ≠ id
  count : after.dhd.multiClientFlowRings = before.dhd.multiClientFlowRings
  later : ∀ ans, hasResources conf after flow ans = true → (lookup conf after flow ans).2.1 = .ok

/-! ## Lemmas -/

variable {conf : Conf} {t : Table} {flow : Flow} {ans : Answers} {id : Nat}

@[simp] theorem setRing_dhd (t : Table) (id : Nat) (ring : RingNode) :
    (setRing t id ring).dhd = t.dhd := rfl

@[simp] theorem setRing_self (t : Table) (id : Nat) (ring : RingNode) :
    (setRing t id ring).ring id = ring :=
  Function.update_self _ _ _

theorem setRing_of_ne {k id : Nat} (h : k ≠ id) (ring : RingNode) :
    (setRing t id ring).ring k = t.ring k :=
  Function.update_of_ne h _ _

/-- A create request does not touch the lookup table; it is sent if it can be. -/
theorem flowRingCreateRequest_spec (conf : Conf) (t : Table) (ans : Answers) (id : Nat) :
    (flowRingCreateRequest conf t ans id).1.dhd = t.dhd ∧
      (flowRingCreateRequest conf t ans id).1.role = t.role ∧
      (flowRingCreateRequest conf t ans id).2 = if canRequest conf t ans then .ok else .nomem := by
  unfold flowRingCreateRequest protFlowRingCreate canRequest
  cases ans.devwakeOk with
  | false => exact ⟨rfl, rfl, rfl⟩
  | true =>
    simp only [Bool.not_true, Bool.false_eq_true, if_false, Bool.true_and]
    rw [show (poolFetch t id).ctrl = t.ctrl from rfl]
    rcases H2DRing.allocRingSpace conf.frPhaseNibble t.ctrl 1 false ans.fresh with
      ⟨ctrl, _ | ⟨slot, n⟩⟩
    · exact ⟨rfl, rfl, rfl⟩
    · exact ⟨rfl, rfl, rfl⟩

/-- An inserted node is in a chain of its interface. -/
theorem insertNode_mem (cfg : Cfg) (s : Dhd) (node : Node) :
    ∃ h, node ∈ (insertNode cfg s node).flHash (node.ifindex, h) := by
  obtain ⟨h, l, -, hl, hcases⟩ := insertNode_cases cfg s node
  refine ⟨h, ?_⟩
  rw [hl, Function.update_self]
  rcases hcases with ⟨rfl, -⟩ | rfl
  · exact List.mem_cons_self
  · exact List.mem_append_right _ List.mem_cons_self

/-- The node of a flow that gets the id. -/
def nodeOf (flow : Flow) (id : Nat) : Node := ⟨id, flow.ifindex, flow.prio, flow.da⟩

/-- The tables after the node of the flow is inserted. -/
def inserted (conf : Conf) (t : Table) (flow : Flow) (ans : Answers) (id : Nat) : Dhd :=
  insertNode (cfgOf conf t ans)
    (mapAlloc (cfgOf conf t ans) t.dhd flow.ifindex flow.prio flow.da ans.htputSta).1
    (nodeOf flow id)

/-- With an id for the flow, the allocation inserts its node, and does not report an id that is too
large. -/
theorem alloc_of_id (hid : idFor conf t flow ans = id) (hvalid : id ≠ flowidInvalid) :
    alloc (cfgOf conf t ans) t.dhd flow.ifindex flow.prio flow.da true ans.htputSta =
      (inserted conf t flow ans id,
        if id > maxTxFlowid conf.toCfg then flowidInvalid else id) := by
  unfold idFor at hid
  unfold alloc inserted nodeOf
  simp only [Bool.not_true, Bool.false_eq_true, if_false, hid, if_neg hvalid]
  by_cases hmax : id > maxTxFlowid conf.toCfg
  · rw [if_pos hmax, if_pos (show id > maxTxFlowid (cfgOf conf t ans) from hmax)]
  · rw [if_neg hmax, if_neg (show ¬ id > maxTxFlowid (cfgOf conf t ans) from hmax)]

/-- What is left of a creation that fails: the node is in the table and the flow is counted; if
the id was not too large, its ring is closed. -/
theorem lookup_of_createFails (h : createFails conf t flow ans id = true) :
    (lookup conf t flow ans).2 = (.error, none) ∧
      (lookup conf t flow ans).1.dhd.flHash = (inserted conf t flow ans id).flHash ∧
      (lookup conf t flow ans).1.role = t.role ∧
      (id ≤ maxTxFlowid conf.toCfg →
        ((lookup conf t flow ans).1.ring id).status = .closed ∧
        (lookup conf t flow ans).1.dhd.multiClientFlowRings =
          (inserted conf t flow ans id).multiClientFlowRings +
            if multiClient (t.role flow.ifindex) then 1 else 0) := by
  unfold createFails hasToCreate at h
  simp only [Bool.and_eq_true, decide_eq_true_eq, Bool.or_eq_true, beq_iff_eq, bne_iff_ne,
    ne_eq] at h
  obtain ⟨⟨⟨⟨⟨⟨⟨htable, hif⟩, hfind⟩, hadm⟩, hmalloc⟩, hid⟩, hvalid⟩, hfail⟩ := h
  have hlookup : lookup conf t flow ans = createFlow conf t flow ans := by
    unfold lookup
    rw [htable, if_neg (by decide), if_neg (by omega)]
    exact if_pos hfind
  rw [hlookup]
  unfold createFlow
  rw [hadm, hmalloc, alloc_of_id hid hvalid, if_neg (by decide)]
  dsimp only
  by_cases hmax : id > maxTxFlowid conf.toCfg
  · rw [if_pos hmax, if_pos rfl]
    exact ⟨rfl, rfl, rfl, fun hle => absurd hmax (Nat.not_lt.mpr hle)⟩
  · rw [if_neg hmax, if_neg hvalid]
    have hcan : canRequest conf t ans = false := by
      rcases hfail with hgt | hno
      · exact absurd hgt hmax
      · simpa using hno
    obtain ⟨hdhd, hrole, hret⟩ := flowRingCreateRequest_spec conf
      (initFlow { t with dhd := inserted conf t flow ans id } flow id) ans id
    rw [show canRequest conf (initFlow { t with dhd := inserted conf t flow ans id } flow id) ans =
      canRequest conf t ans from rfl, hcan, if_neg Bool.false_ne_true] at hret
    rw [hret, if_pos (by decide)]
    dsimp only [setRing_dhd]
    rw [hdhd]
    refine ⟨rfl, rfl, hrole, fun _ => ⟨?_, ?_⟩⟩
    · rw [setRing_self]
    · show (if multiClient (t.role flow.ifindex) then
        (inserted conf t flow ans id).multiClientFlowRings + 1
        else (inserted conf t flow ans id).multiClientFlowRings) = _
      split <;> rfl

/-! ## Later lookups -/

theorem mapAlloc_flHash (cfg : Cfg) (s : Dhd) (ifindex : Nat) (prio : UInt8) (da : Ea)
    (htputSta : Bool) : (mapAlloc cfg s ifindex prio da htputSta).1.flHash = s.flHash := by
  have hhtput : (htputMapAlloc cfg s ifindex prio da htputSta).1.flHash = s.flHash := by
    unfold htputMapAlloc htputClientAlloc
    dsimp only
    split
    · split
      · rfl
      · split
        · split <;> rfl
        · rfl
    · rfl
  unfold mapAlloc
  dsimp only
  split
  · rfl
  · split
    · exact hhtput
    · exact hhtput

/-- A flow that was not found is found once its node is inserted. -/
theorem find_insertNode {cfg : Cfg} {s : Dhd} {node : Node} (hi : node.ifindex < dhdMaxIfs)
    (hfind : find cfg s node.ifindex node.tid node.da = flowidInvalid)
    (hvalid : ∀ cur ∈ s.flHash (node.ifindex, homeSlot cfg node), cur.flowid < flowidInvalid) :
    find cfg (insertNode cfg s node) node.ifindex node.tid node.da = node.flowid := by
  have hflash := insertNode_flHash hi hfind hvalid
  unfold find at hfind ⊢
  rw [if_neg (by omega)] at hfind ⊢
  rw [hflash]
  unfold homeSlot at hvalid ⊢
  by_cases hsta : genericSta (cfg.role node.ifindex) = true
  · rw [if_pos hsta] at hfind hvalid ⊢
    by_cases htdls : isTdlsDestination cfg node.da = true
    · rw [if_pos htdls] at hfind hvalid ⊢
      rw [if_pos hsta, if_pos htdls, Function.update_self]
      exact firstFlowid_snoc hvalid hfind (beq_self_eq_true node.da)
    · rw [if_neg htdls] at hfind hvalid ⊢
      rw [if_pos hsta, if_neg htdls, Function.update_self]
      exact firstFlowid_snoc hvalid hfind rfl
  · rw [if_neg hsta] at hfind hvalid ⊢
    rw [if_neg hsta]
    dsimp only
    rw [Function.update_self]
    exact firstFlowid_snoc hvalid hfind (by simp)

/-- After a creation whose request could not be sent, no lookup of the flow succeeds. -/
theorem failed_create_blocks (h : createFails conf t flow ans id = true)
    (hmax : id ≤ maxTxFlowid conf.toCfg)
    (hfind : find (cfgOf conf t ans) t.dhd flow.ifindex flow.prio flow.da = flowidInvalid)
    (hvalid : ∀ i k, ∀ cur ∈ t.dhd.flHash (i, k), cur.flowid < flowidInvalid) {ans' : Answers}
    (hpeers : ans'.tdlsPeers = ans.tdlsPeers) :
    (lookup conf (lookup conf t flow ans).1 flow ans').2.1 ≠ .ok := by
  obtain ⟨-, hflash, hrole, hclosed⟩ := lookup_of_createFails h
  obtain ⟨hstatus, -⟩ := hclosed hmax
  have hne : id ≠ flowidInvalid := by
    unfold createFails at h
    simp only [Bool.and_eq_true, bne_iff_ne] at h
    exact h.1.2
  generalize (lookup conf t flow ans).1 = after at hflash hrole hstatus ⊢
  have hcfg : cfgOf conf after ans' = cfgOf conf t ans := by
    unfold cfgOf
    rw [hrole, hpeers]
  unfold lookup
  split
  · nofun
  · split
    · nofun
    · next hif =>
      have hmap := mapAlloc_flHash (cfgOf conf t ans) t.dhd flow.ifindex flow.prio flow.da
        ans.htputSta
      have hfound : find (cfgOf conf t ans) after.dhd flow.ifindex flow.prio flow.da = id := by
        rw [find_congr hflash]
        refine @find_insertNode _ _ (nodeOf flow id) (Nat.lt_of_not_le hif) ?_ ?_
        · exact (find_congr hmap _ _ _).trans hfind
        · rw [hmap]
          exact hvalid _ _
      have hused : ¬ (id = flowidInvalid ∨ id > maxTxFlowid conf.toCfg) := by
        rintro (heq | hgt)
        · exact hne heq
        · omega
      dsimp only
      rw [hcfg, hfound, if_neg hused, if_pos (.inr hstatus)]
      nofun

/-! ## Top theorem -/

/-- **A creation that fails is never undone**: the lookup fails, and a chain still has the node of
the id. -/
theorem failed_create_not_undone (conf : Conf) (t : Table) (flow : Flow) (ans : Answers) (id : Nat)
    (h : createFails conf t flow ans id = true) :
    (lookup conf t flow ans).2.1 = .error ∧ ¬ Undone conf flow id t (lookup conf t flow ans).1 := by
  obtain ⟨hret, hflash, -, -⟩ := lookup_of_createFails h
  refine ⟨congrArg Prod.fst hret, fun hundone => ?_⟩
  obtain ⟨k, hmem⟩ := insertNode_mem (cfgOf conf t ans)
    (mapAlloc (cfgOf conf t ans) t.dhd flow.ifindex flow.prio flow.da ans.htputSta).1
    (nodeOf flow id)
  have hin : nodeOf flow id ∈ (lookup conf t flow ans).1.dhd.flHash (flow.ifindex, k) := by
    rw [hflash]
    exact hmem
  exact hundone.unhashed flow.ifindex k (nodeOf flow id) hin rfl

/-- An access point with one client, whose control ring of two items is full. -/
def apTable : Table where
  dhd := FlowLookup.init ⟨fun _ => .ap, [], false, 40, by decide⟩
  role := fun _ => .ap
  ifStatus := fun _ => true
  ring := fun _ => ⟨.closed, false, ⟨0, 0, 0, 0, 0, 0⟩, ⟨0, 0, 0, 0, 0, 0⟩, 0, 0, false⟩
  pool := fun _ => ⟨0, 0, false, 0⟩
  ctrl := ⟨2, false, 0, 1, 0x80⟩
  requests := fun _ => none

def apConf : Conf := ⟨⟨fun _ => .ap, [], false, 40, by decide⟩, 36, false⟩

def toClient : Flow := ⟨1, 0, ⟨2, 0, 0, 0, 0, 1⟩, ⟨2, 0, 0, 0, 0, 2⟩⟩

def ringFull : Answers := ⟨true, [], true, false, true, true, 0⟩

theorem failed_create_not_undone_ap :
    (lookup apConf apTable toClient ringFull).2.1 = .error ∧
      ¬ Undone apConf toClient 41 apTable (lookup apConf apTable toClient ringFull).1 :=
  failed_create_not_undone apConf apTable toClient ringFull 41 (by decide)

/-- No request can be sent for the first flow of the access point. -/
theorem failed_create_fails :
    ¬ ∀ conf t flow ans id, createFails conf t flow ans id = true →
      Undone conf flow id t (lookup conf t flow ans).1 := by
  intro h
  have hundone := h apConf apTable toClient ringFull 41 (by decide)
  exact absurd hundone.count (by decide)

end Bcmdhd.FlowCreate
