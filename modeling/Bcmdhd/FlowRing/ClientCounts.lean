import Bcmdhd.FlowRing.Create

/-!
# Counting the flows of clients (`dhd_flowring.c`)

`multi_client_flow_rings` and `htput_client_flow_rings` are adjusted when a flow is created, when
it is freed, and when an interface event changes the role of an interface.

    runs (step conf) (init …) es = some (t, tr) →
      ((after every call the counters are exact) ↔
        meets (step conf) (countsRight conf) (init …) es)              (counters_exact_iff)

`countsRight` says of an interface event that it moves the counters as the role moves.
-/

namespace Bcmdhd.ClientCounts

open Runs Buckets Id16 FlowLookup FlowIds FlowRing FlowCreate

/-! ## Calls -/

structure Setup extends Conf where
  numH2dRings : Nat

/-- `WLC_E_IF_` -/
inductive IfOp
  | add
  | del
  | change
deriving DecidableEq, Repr

inductive Ev
  | lookup (flow : Flow) (ans : Answers)
  /-- `dhd_bus_flow_ring_create_response`; `ok`: the dongle reports success -/
  | createResponse (flowid : Nat) (ok : Bool)
  | deleteRequest (flowid : Nat)
  | deleteResponse (flowid : Nat) (ok : Bool)
  | flushRequest (flowid : Nat)
  | flushResponse (flowid : Nat) (ok : Bool)
  /-- `dhd_update_interface_flow_info` -/
  | ifEvent (ifindex : Nat) (op : IfOp) (role : Role)
  /-- `dhd_update_interface_link_status` -/
  | linkStatus (ifindex : Nat) (status : Bool)

/-! ## Algorithm -/

def setStatus (t : Table) (flowid : Nat) (status : Status) : Table :=
  setRing t flowid { t.ring flowid with status }

/-- `dhd_bus_clean_flow_ring` -/
def cleanFlowRing (setup : Setup) (t : Table) (flowid : Nat) : Table :=
  let t := setRing t flowid { t.ring flowid with status := .closed, active := false }
  let t := poolRelease t flowid
  -- the TDLS peers have no part in it
  { t with dhd := free (cfgAt setup.toCfg ⟨t.role, []⟩) t.dhd (t.ring flowid).ifindex flowid }

def createResponse (setup : Setup) (t : Table) (flowid : Nat) (ok : Bool) : Table :=
  if flowid > maxTxFlowid setup.toCfg then t
  else if !ok then cleanFlowRing setup t flowid
  else setStatus t flowid .opened

def deleteRequest (t : Table) (flowid : Nat) : Table :=
  if (t.ring flowid).status = .deletePending then t else setStatus t flowid .deletePending

def deleteResponse (setup : Setup) (t : Table) (flowid : Nat) (ok : Bool) : Table :=
  if flowid > maxTxFlowid setup.toCfg then t
  else if !ok then t
  else cleanFlowRing setup t flowid

def flushResponse (setup : Setup) (t : Table) (flowid : Nat) (ok : Bool) : Table :=
  if !ok then t
  else if flowid > maxTxFlowid setup.toCfg then t
  else setStatus t flowid .opened

/-- The rings that `dhd_update_multicilent_flow_rings` counts. -/
def openOn (t : Table) (ifindex id : Nat) : Bool :=
  (t.ring id).active && (t.ring id).ifindex == ifindex && (t.ring id).status == .opened

/-- One more, or one less; not above the maximum, and not below 0. -/
def bump (setup : Setup) (increment : Bool) (count : Nat) : Nat :=
  if increment then if count < setup.maxMultiClientFlowRings then count + 1 else count
  else count - 1

/-- `dhd_update_multicilent_flow_rings`; the result is `multi_client_flow_rings`. -/
def updateMultiClientFlowRings (setup : Setup) (t : Table) (ifindex : Nat) (increment : Bool) :
    Nat :=
  (List.range setup.numH2dRings).foldl
    (fun count id => if openOn t ifindex id then bump setup increment count else count)
    t.dhd.multiClientFlowRings

def updateInterfaceFlowInfo (setup : Setup) (t : Table) (ifindex : Nat) (op : IfOp) (role : Role) :
    Table :=
  if ifindex ≥ dhdMaxIfs then t
  else
    match op with
    | .del =>
      if role = .wds then { t with ifStatus := Function.update t.ifStatus ifindex false } else t
    | _ =>
      let t := { t with role := Function.update t.role ifindex role }
      let t :=
        if op = .change then
          { t with dhd := { t.dhd with
              multiClientFlowRings :=
                updateMultiClientFlowRings setup t ifindex (multiClient (t.role ifindex)) } }
        else t
      -- WDS role does not send WLC_E_LINK event after interface is up
      if role = .wds then { t with ifStatus := Function.update t.ifStatus ifindex true } else t

def step (setup : Setup) (t : Table) : Ev → Option (Table × Unit)
  | .lookup flow ans => some ((lookup setup.toConf t flow ans).1, ())
  | .createResponse flowid ok => some (createResponse setup t flowid ok, ())
  | .deleteRequest flowid => some (deleteRequest t flowid, ())
  | .deleteResponse flowid ok => some (deleteResponse setup t flowid ok, ())
  | .flushRequest flowid => some (setStatus t flowid .flushPending, ())
  | .flushResponse flowid ok => some (flushResponse setup t flowid ok, ())
  | .ifEvent ifindex op role => some (updateInterfaceFlowInfo setup t ifindex op role, ())
  | .linkStatus ifindex status =>
    some (if ifindex ≥ dhdMaxIfs then t
      else { t with ifStatus := Function.update t.ifStatus ifindex status }, ())

/-- After `dhd_flow_rings_init`, where all roles are that of a station; `ctrl` is the control
ring. -/
def init (setup : Setup) (ctrl : H2DRing.MsgbufRing) : Table where
  dhd := FlowLookup.init setup.toCfg
  role := fun _ => .sta
  ifStatus := fun _ => false
  ring := fun _ => ⟨.closed, false, ⟨0, 0, 0, 0, 0, 0⟩, ⟨0, 0, 0, 0, 0, 0⟩, 0, 0, false⟩
  pool := fun _ => ⟨0, 0, false, 0⟩
  ctrl := ctrl
  requests := fun _ => none

/-! ## What should hold -/

/-- The flow is one of a client. -/
def ofClient (role : Nat → Role) (node : Node) : Bool := multiClient (role node.ifindex)

/-- The flow is one of a client and has a high throughput id. -/
def ofHtputClient (setup : Setup) (role : Nat → Role) (node : Node) : Bool :=
  ofClient role node && isFlowidHtput setup.toCfg node.flowid

/-- Both counters are the numbers of live flows that they stand for. -/
structure Exact (setup : Setup) (t : Table) : Prop where
  multi : t.dhd.multiClientFlowRings = (nodes t.dhd).countP (ofClient t.role)
  htput : t.dhd.htputClientFlowRings = (nodes t.dhd).countP (ofHtputClient setup t.role)

/-- The live flows of an interface. -/
def flowsOn (t : Table) (ifindex : Nat) : Nat := (nodes t.dhd).countP fun node => node.ifindex == ifindex

/-- Those with a high throughput id. -/
def htputFlowsOn (setup : Setup) (t : Table) (ifindex : Nat) : Nat :=
  (nodes t.dhd).countP fun node => node.ifindex == ifindex && isFlowidHtput setup.toCfg node.flowid

/-- The open rings of an interface. -/
def openRings (setup : Setup) (t : Table) (ifindex : Nat) : Nat :=
  (List.range setup.numH2dRings).countP (openOn t ifindex)

/-- The interface stays one with clients, or without: nothing is counted. -/
def keepsCount (setup : Setup) (t : Table) (ifindex : Nat) (op : IfOp) (role : Role) : Bool :=
  op == .add || openRings setup t ifindex == 0 ||
    if multiClient role then decide (t.dhd.multiClientFlowRings ≥ setup.maxMultiClientFlowRings)
    else t.dhd.multiClientFlowRings == 0

/-- The interface gets clients, or loses them: it has no flows, or all their rings are open, and
the count stays in its bounds; no flow has a high throughput id. -/
def movesCount (setup : Setup) (t : Table) (ifindex : Nat) (op : IfOp) (role : Role) : Bool :=
  htputFlowsOn setup t ifindex == 0 &&
    (flowsOn t ifindex == 0 ||
      op == .change && openRings setup t ifindex == flowsOn t ifindex &&
        (!multiClient role || decide (t.dhd.multiClientFlowRings + flowsOn t ifindex ≤
          setup.maxMultiClientFlowRings)))

def countsRight (setup : Setup) (t : Table) : Ev → Bool
  | .ifEvent ifindex op role =>
    decide (ifindex ≥ dhdMaxIfs) || op == .del ||
      if multiClient (t.role ifindex) = multiClient role then keepsCount setup t ifindex op role
      else movesCount setup t ifindex op role
  | _ => true

/-! ## Ids and nodes -/

/-- Every id is available or with one node; the nodes are the flows that some calls leave. -/
def Ids (cfg : Cfg) (s : Dhd) : Prop :=
  ∃ tr, FlowIds.Inv cfg s tr ∧ (nodes s).Perm (FlowIds.live tr)

variable {ifindex : Nat} {prio : UInt8} {da : Ea}

section

variable {cfg : Cfg} {s : Dhd}

theorem Ids.flowids (h : Ids cfg s) :
    ((nodes s).map Node.flowid).Nodup ∧ ∀ node ∈ nodes s, node.flowid ∈ allIds cfg := by
  obtain ⟨tr, hinv, hperm⟩ := h
  refine ⟨?_, fun node hnode => ?_⟩
  · exact (hperm.map Node.flowid).nodup_iff.mpr hinv.nodup.of_append_left
  · rw [← hinv.ids.mem_iff, List.mem_append]
    exact .inl (List.mem_map_of_mem (hperm.mem_iff.mp hnode))

theorem Ids.chain (h : Ids cfg s) {i k : Nat} (hi : i < dhdMaxIfs) (hk : k < dhdFlowringHashSize)
    {node : Node} (hn : node ∈ s.flHash (i, k)) : node ∈ nodes s ∧ node.ifindex = i := by
  obtain ⟨tr, hinv, -⟩ := h
  exact ⟨mem_entries.mpr ⟨_, mem_slots.mpr ⟨hi, hk⟩, hn⟩, hinv.own i k node hi hk hn⟩

theorem Ids.mem_chain (h : Ids cfg s) {node : Node} (hn : node ∈ nodes s) :
    node.ifindex < dhdMaxIfs ∧ ∃ k < dhdFlowringHashSize, node ∈ s.flHash (node.ifindex, k) := by
  obtain ⟨tr, hinv, -⟩ := h
  obtain ⟨⟨i, k⟩, hslot, hmem⟩ := mem_entries.mp hn
  obtain ⟨hi, hk⟩ := mem_slots.mp hslot
  obtain rfl := hinv.own i k node hi hk hmem
  exact ⟨hi, k, hk, hmem⟩

/-- There are fewer flows than a `uint16` can count. -/
theorem Ids.length_lt (h : Ids cfg s) : (nodes s).length < 0x10000 := by
  obtain ⟨hnodup, hmem⟩ := h.flowids
  have hsub : ((nodes s).map Node.flowid).Subperm (List.range 0x10000) := by
    refine List.subperm_of_subset hnodup fun id hid => ?_
    obtain ⟨node, hnode, rfl⟩ := List.mem_map.mp hid
    have hlt := (lt_of_mem_allIds (hmem node hnode)).1
    unfold flowidInvalid id16Invalid at hlt
    exact List.mem_range.mpr (by omega)
  have hle := hsub.length_le
  rw [List.length_map, List.length_range] at hle
  rcases Nat.lt_or_eq_of_le hle with hlt | heq
  · exact hlt
  · -- no flow has the invalid id
    have hperm := hsub.perm_of_length_le (by rw [List.length_range, List.length_map]; omega)
    have hin : 0xffff ∈ (nodes s).map Node.flowid :=
      hperm.mem_iff.mpr (List.mem_range.mpr (by omega))
    obtain ⟨node, hnode, hid⟩ := List.mem_map.mp hin
    have hlt := (lt_of_mem_allIds (hmem node hnode)).1
    unfold flowidInvalid id16Invalid at hlt
    omega

/-- The counters do not matter. -/
theorem Ids.recount (h : Ids cfg s) (count : Nat) :
    Ids cfg { s with multiClientFlowRings := count } := by
  obtain ⟨tr, hinv, hperm⟩ := h
  exact ⟨tr, hinv.same rfl rfl rfl rfl, hperm⟩

theorem Ids.find_cases (h : Ids cfg s) (env : Env) (ifindex : Nat) (prio : UInt8) (da : Ea) :
    find (cfgAt cfg env) s ifindex prio da = flowidInvalid ∨
      find (cfgAt cfg env) s ifindex prio da ≤ maxTxFlowid cfg := by
  have hchain : ∀ {k : Nat}, ifindex < dhdMaxIfs → k < dhdFlowringHashSize →
      ∀ p : Node → Bool, firstFlowid (s.flHash (ifindex, k)) p = flowidInvalid ∨
        firstFlowid (s.flHash (ifindex, k)) p ≤ maxTxFlowid cfg := by
    intro k hi hk p
    rcases firstFlowid_cases (s.flHash (ifindex, k)) p with hno | ⟨cur, hcur, -, hid⟩
    · exact .inl hno
    · rw [hid]
      exact .inr (lt_of_mem_allIds (h.flowids.2 cur (h.chain hi hk hcur).1)).2
  unfold find
  split
  · exact .inl rfl
  · next hif =>
    have hi : ifindex < dhdMaxIfs := Nat.lt_of_not_le hif
    split
    · split
      · exact hchain hi (hashIndex_lt da prio) _
      · exact hchain hi prio.toNat_lt _
    · dsimp only
      split
      · exact hchain hi (by decide) _
      · exact hchain hi (hashIndex_lt da prio) _

/-! ## Allocation -/

theorem insertNode_counts (cfg : Cfg) (s : Dhd) (node : Node) :
    (insertNode cfg s node).multiClientFlowRings = s.multiClientFlowRings ∧
      (insertNode cfg s node).htputClientFlowRings = s.htputClientFlowRings := by
  unfold insertNode
  split
  · split
    · exact ⟨rfl, rfl⟩
    · exact ⟨rfl, rfl⟩
  · exact ⟨rfl, rfl⟩

/-- An id that an allocator gives was available there. -/
theorem alloc_mem {m : Id16Map} (h : (id16MapAlloc m).2 ≠ flowidInvalid) :
    (id16MapAlloc m).2 ∈ available m := by
  rcases id16MapAlloc_cases m with ⟨-, hid⟩ | ha
  · exact absurd hid h
  · rw [ha]
    exact List.mem_append_right _ List.mem_cons_self

/-- Without a high throughput id nothing changes. -/
theorem htputMapAlloc_none {cfg : Cfg} {s : Dhd} {htputSta : Bool}
    (h : (htputMapAlloc cfg s ifindex prio da htputSta).2 = flowidInvalid) :
    (htputMapAlloc cfg s ifindex prio da htputSta).1.flowidAllocator = s.flowidAllocator ∧
      (htputMapAlloc cfg s ifindex prio da htputSta).1.multiClientFlowRings =
        s.multiClientFlowRings ∧
      (htputMapAlloc cfg s ifindex prio da htputSta).1.htputClientFlowRings =
        s.htputClientFlowRings := by
  revert h
  unfold htputMapAlloc htputClientAlloc
  dsimp only
  split
  · split
    · exact fun _ => ⟨rfl, rfl, rfl⟩
    · split
      · split
        · next hid => exact fun hno => absurd hno hid
        · exact fun _ => ⟨rfl, rfl, rfl⟩
      · exact fun _ => ⟨rfl, rfl, rfl⟩
  · exact fun _ => ⟨rfl, rfl, rfl⟩

/-- A high throughput id is from its allocator, and counted if a client gets it. -/
theorem htputMapAlloc_some {cfg : Cfg} {s : Dhd} {htputSta : Bool}
    (h : (htputMapAlloc cfg s ifindex prio da htputSta).2 ≠ flowidInvalid) :
    (htputMapAlloc cfg s ifindex prio da htputSta).2 ∈ available s.htputFlowidAllocator ∧
      (htputMapAlloc cfg s ifindex prio da htputSta).1.multiClientFlowRings =
        s.multiClientFlowRings ∧
      (htputMapAlloc cfg s ifindex prio da htputSta).1.htputClientFlowRings =
        s.htputClientFlowRings + if multiClient (cfg.role ifindex) then 1 else 0 := by
  have hsta : genericSta (cfg.role ifindex) = true → multiClient (cfg.role ifindex) = false := by
    cases cfg.role ifindex <;> simp [genericSta, multiClient]
  revert h
  unfold htputMapAlloc htputClientAlloc
  dsimp only
  split
  · split
    · next hrole =>
      rw [if_neg (Bool.eq_false_iff.mp (hsta hrole))]
      exact fun hid => ⟨alloc_mem hid, rfl, rfl⟩
    · split
      · next hclient =>
        simp only [Bool.and_eq_true] at hclient
        rw [if_pos hclient.1.1.1]
        split
        · exact fun hid => ⟨alloc_mem hid, rfl, rfl⟩
        · next hno => exact fun hid => absurd hid hno
      · exact fun hid => absurd rfl hid
  · exact fun hid => absurd rfl hid

/-- The high throughput counter counts the ids that clients get. -/
theorem mapAlloc_counts {cfg : Cfg} {s : Dhd}
    (hn : ∀ id ∈ available s.flowidAllocator, isFlowidHtput cfg id = false)
    (hh : ∀ id ∈ available s.htputFlowidAllocator, isFlowidHtput cfg id = true)
    (ifindex : Nat) (prio : UInt8) (da : Ea) (htputSta : Bool) :
    (mapAlloc cfg s ifindex prio da htputSta).1.multiClientFlowRings = s.multiClientFlowRings ∧
      (mapAlloc cfg s ifindex prio da htputSta).1.htputClientFlowRings =
        s.htputClientFlowRings +
          if (mapAlloc cfg s ifindex prio da htputSta).2 ≠ flowidInvalid ∧
            (multiClient (cfg.role ifindex) &&
              isFlowidHtput cfg (mapAlloc cfg s ifindex prio da htputSta).2) = true
          then 1 else 0 := by
  have hnormal : ∀ r : Dhd, r.flowidAllocator = s.flowidAllocator →
      r.multiClientFlowRings = s.multiClientFlowRings →
      r.htputClientFlowRings = s.htputClientFlowRings →
      (normalAlloc r).1.multiClientFlowRings = s.multiClientFlowRings ∧
        (normalAlloc r).1.htputClientFlowRings = s.htputClientFlowRings +
          if (normalAlloc r).2 ≠ flowidInvalid ∧ (multiClient (cfg.role ifindex) &&
            isFlowidHtput cfg (normalAlloc r).2) = true then 1 else 0 := by
    intro r halloc hmulti hhtput
    refine ⟨hmulti, ?_⟩
    rw [if_neg]
    · exact hhtput
    · rintro ⟨hid, hclient⟩
      unfold normalAlloc at hid hclient
      rw [halloc] at hid hclient
      rw [hn _ (alloc_mem hid), Bool.and_false] at hclient
      exact Bool.false_ne_true hclient
  unfold mapAlloc
  split
  · exact hnormal s rfl rfl rfl
  · dsimp only
    split
    · next hno =>
      obtain ⟨halloc, hmulti, hhtput⟩ := htputMapAlloc_none hno
      exact hnormal _ halloc hmulti hhtput
    · next hid =>
      obtain ⟨hmem, hmulti, hhtput⟩ := htputMapAlloc_some hid
      refine ⟨hmulti, ?_⟩
      rw [hhtput, hh _ hmem, Bool.and_true]
      simp only [hid, ne_eq, not_false_eq_true, true_and]

theorem alloc_fst (cfg : Cfg) (s : Dhd) (ifindex : Nat) (prio : UInt8) (da : Ea) (htputSta : Bool) :
    (alloc cfg s ifindex prio da true htputSta).1 =
      if (mapAlloc cfg s ifindex prio da htputSta).2 = flowidInvalid then
        (mapAlloc cfg s ifindex prio da htputSta).1
      else insertNode cfg (mapAlloc cfg s ifindex prio da htputSta).1
        ⟨(mapAlloc cfg s ifindex prio da htputSta).2, ifindex, prio, da⟩ := by
  unfold alloc
  rw [if_neg (by decide)]
  dsimp only
  split
  · rfl
  · split
    · rfl
    · rfl

/-- Where `find` failed, the node of a new flow is one more. -/
theorem nodes_insert (h : Ids cfg s) (env : Env) (htputSta : Bool) (hi : ifindex < dhdMaxIfs)
    (hfind : find (cfgAt cfg env) s ifindex prio da = flowidInvalid) (id : Nat) :
    (nodes (insertNode (cfgAt cfg env)
      (mapAlloc (cfgAt cfg env) s ifindex prio da htputSta).1 ⟨id, ifindex, prio, da⟩)).Perm
      (⟨id, ifindex, prio, da⟩ :: nodes s) := by
  have hmap := mapAlloc_flHash (cfgAt cfg env) s ifindex prio da htputSta
  have hflash := @insertNode_flHash (cfgAt cfg env)
    (mapAlloc (cfgAt cfg env) s ifindex prio da htputSta).1 ⟨id, ifindex, prio, da⟩ hi
    ((find_congr hmap _ _ _).trans hfind) (by
      intro cur hcur
      rw [hmap] at hcur
      exact (lt_of_mem_allIds (h.flowids.2 cur (h.chain hi (homeSlot_lt _ _) hcur).1)).1)
  unfold nodes
  rw [hflash, hmap]
  exact entries_insert slots_nodup (mem_slots.mpr ⟨hi, homeSlot_lt _ _⟩) List.perm_append_comm

/-- What an allocation does where `find` failed. -/
theorem alloc_spec (h : Ids cfg s) (env : Env) (mallocOk htputSta : Bool) (hi : ifindex < dhdMaxIfs)
    (hfind : find (cfgAt cfg env) s ifindex prio da = flowidInvalid) :
    ∃ s' id, alloc (cfgAt cfg env) s ifindex prio da mallocOk htputSta = (s', id) ∧ Ids cfg s' ∧
      s'.multiClientFlowRings = s.multiClientFlowRings ∧
      ((id = flowidInvalid ∧ nodes s' = nodes s ∧
          s'.htputClientFlowRings = s.htputClientFlowRings) ∨
        (id ≠ flowidInvalid ∧ (nodes s').Perm (⟨id, ifindex, prio, da⟩ :: nodes s) ∧
          s'.htputClientFlowRings = s.htputClientFlowRings +
            if (multiClient (env.role ifindex) && isFlowidHtput cfg id) = true then 1 else 0)) := by
  obtain ⟨tr, hinv, hperm⟩ := id h
  have hinv' := FlowIds.alloc_inv hinv env prio da mallocOk htputSta hi
  obtain ⟨s', id, hr, hid, hcases⟩ := FlowIds.alloc_cases hinv env ifindex prio da mallocOk htputSta
  rw [hr] at hinv'
  have hlive := FlowIds.live_snoc tr (.alloc env ifindex prio da mallocOk htputSta, .flowid id)
  have hs' : s' = (alloc (cfgAt cfg env) s ifindex prio da mallocOk htputSta).1 := by rw [hr]
  refine ⟨s', id, hr, ?_⟩
  cases hm : mallocOk with
  | false =>
    rw [hm, if_neg Bool.false_ne_true] at hid
    have hsame : s' = s := by
      rw [hs', hm]
      rfl
    rw [hsame]
    exact ⟨h, rfl, .inl ⟨hid, rfl, rfl⟩⟩
  | true =>
    rw [hm, if_pos rfl] at hid
    rw [hm, alloc_fst, ← hid] at hs'
    have hall : ∀ x ∈ avail s, x ∈ allIds cfg := fun x hx =>
      hinv.ids.mem_iff.mp (List.mem_append_right _ hx)
    obtain ⟨hmulti, hhtput⟩ := @mapAlloc_counts (cfgAt cfg env) s
      (fun x hx => by
        have hlt := hinv.normal_lt x hx
        have hiff := isFlowidHtput_iff (hall x (List.mem_append_left _ hx))
        exact Bool.eq_false_iff.mpr fun hp => Nat.not_le.mpr hlt (hiff.mp hp))
      (fun x hx =>
        (isFlowidHtput_iff (hall x (List.mem_append_right _ hx))).mpr (hinv.htput_ge x hx))
      ifindex prio da htputSta
    rw [← hid] at hhtput
    rcases hcases with ⟨hno, hflash, -, -⟩ | ⟨hyes, -, -⟩
    · rw [if_pos hno] at hs'
      rw [if_neg fun hc => hc.1 hno, ← hs'] at hhtput
      have hnodes : nodes s' = nodes s := by
        unfold nodes
        rw [hflash]
      refine ⟨⟨_, hinv', ?_⟩, ?_, .inl ⟨hno, hnodes, hhtput⟩⟩
      · rw [hlive, hnodes]
        show (nodes s).Perm (if id = flowidInvalid then live tr else _)
        rw [if_pos hno]
        exact hperm
      · rw [hs']
        exact hmulti
    · rw [if_neg hyes] at hs'
      obtain ⟨hm', hh'⟩ := insertNode_counts (cfgAt cfg env)
        (mapAlloc (cfgAt cfg env) s ifindex prio da htputSta).1 ⟨id, ifindex, prio, da⟩
      have hnodes := nodes_insert h env htputSta hi hfind id
      rw [← hs'] at hm' hh' hnodes
      refine ⟨⟨_, hinv', ?_⟩, hm'.trans hmulti, .inr ⟨hyes, hnodes, ?_⟩⟩
      · rw [hlive]
        show (nodes s').Perm (if id = flowidInvalid then live tr else _)
        rw [if_neg hyes]
        exact hnodes.trans ((hperm.cons _).trans (List.perm_append_singleton _ _).symm)
      · rw [hh', hhtput]
        exact congrArg (s.htputClientFlowRings + ·) (if_congr (and_iff_right hyes) rfl rfl)

/-! ## Freeing -/

/-- What a free does. -/
theorem free_spec (h : Ids cfg s) (env : Env) (ifindex flowid : Nat) :
    (free (cfgAt cfg env) s ifindex flowid = s ∧
      ∀ node ∈ nodes s, node.flowid = flowid → node.ifindex ≠ ifindex) ∨
    ∃ node s', free (cfgAt cfg env) s ifindex flowid = s' ∧ Ids cfg s' ∧
      node.ifindex = ifindex ∧ node.flowid = flowid ∧ (nodes s).Perm (node :: nodes s') ∧
      s'.multiClientFlowRings =
        (if multiClient (env.role ifindex) then s.multiClientFlowRings - 1
          else s.multiClientFlowRings) ∧
      s'.htputClientFlowRings =
        if (multiClient (env.role ifindex) && isFlowidHtput cfg flowid) = true then
          (s.htputClientFlowRings + 0xffff) % 0x10000
        else s.htputClientFlowRings := by
  obtain ⟨tr, hinv, hperm⟩ := id h
  have hinv' := FlowIds.free_inv hinv env ifindex flowid
  rcases FlowIds.free_cases hinv env ifindex flowid with ⟨hno, hsame⟩ |
    ⟨hyes, hi, node, hash, l, hif, hid, hhash, hl, hflash, hback⟩
  · refine .inl ⟨hsame, ?_⟩
    rintro node hnode rfl rfl
    obtain ⟨hi, k, hk, hmem⟩ := h.mem_chain hnode
    unfold found at hno
    rw [decide_eq_true hi, Bool.true_and, Option.isSome_eq_false_iff, Option.isNone_iff_eq_none]
      at hno
    exact slotOf_none hno hk hmem rfl
  · refine .inr ⟨node, _, rfl, ?_⟩
    have hnodes : (nodes s).Perm (node :: nodes (free (cfgAt cfg env) s ifindex flowid)) := by
      unfold nodes
      rw [hflash]
      exact entries_erase slots_nodup (mem_slots.mpr ⟨hi, hhash⟩) hl
    have hsplit := hinv.live_split
      (hinv.mem_live hi hhash (hl.mem_iff.mpr List.mem_cons_self))
    rw [hif, hid] at hsplit
    refine ⟨⟨_, hinv', ?_⟩, hif, hid, hnodes, ?_⟩
    · rw [hyes]
      rw [FlowIds.live_snoc]
      exact (List.perm_cons node).mp (hnodes.symm.trans (hperm.trans hsplit))
    · unfold found at hyes
      rw [Bool.and_eq_true, Option.isSome_iff_exists] at hyes
      obtain ⟨-, hashix, hslot⟩ := hyes
      unfold free mapFree
      rw [if_neg (Nat.not_le.mpr hi), hslot]
      dsimp only
      rw [show (cfgAt cfg env).role = env.role from rfl,
        show isFlowidHtput (cfgAt cfg env) flowid = isFlowidHtput cfg flowid from rfl]
      cases hht : isFlowidHtput cfg flowid with
      | true =>
        rw [show (cfgAt cfg env).htputSupport = true from isFlowidHtput_support hht]
        simp
      | false => simp

end

/-! ## Counting -/

/-- The flows of an interface, and the others. -/
theorem countP_split (role : Nat → Role) (q : Node → Bool) (i : Nat) (l : List Node) :
    l.countP (fun node => multiClient (role node.ifindex) && q node) =
      l.countP (fun node => node.ifindex != i && (multiClient (role node.ifindex) && q node)) +
        if multiClient (role i) then l.countP fun node => node.ifindex == i && q node else 0 := by
  induction l with
  | nil => simp
  | cons node l ih =>
    rw [List.countP_cons, List.countP_cons, List.countP_cons, ih]
    by_cases hif : node.ifindex = i
    · rw [hif]
      cases multiClient (role i) with
      | false => simp
      | true =>
        simp only [bne_self_eq_false, Bool.false_and, Bool.false_eq_true, if_false,
          beq_self_eq_true, Bool.true_and, if_true]
        omega
    · simp [hif]
      omega

/-- How the role of an interface moves a count. -/
theorem countP_update (role : Nat → Role) (q : Node → Bool) (i : Nat) (r : Role) (l : List Node) :
    l.countP (fun node => multiClient (Function.update role i r node.ifindex) && q node) +
        (if multiClient (role i) then l.countP fun node => node.ifindex == i && q node else 0) =
      l.countP (fun node => multiClient (role node.ifindex) && q node) +
        if multiClient r then l.countP fun node => node.ifindex == i && q node else 0 := by
  have hnew := countP_split (Function.update role i r) q i l
  have hold := countP_split role q i l
  have hrest : l.countP (fun node => node.ifindex != i &&
      (multiClient (Function.update role i r node.ifindex) && q node)) =
      l.countP (fun node => node.ifindex != i && (multiClient (role node.ifindex) && q node)) := by
    refine List.countP_congr fun node _ => ?_
    by_cases hif : node.ifindex = i
    · simp [hif]
    · rw [Function.update_of_ne hif]
  rw [Function.update_self] at hnew
  omega

/-- The loop of `dhd_update_multicilent_flow_rings`. -/
theorem foldl_bump (setup : Setup) (increment : Bool) (p : Nat → Bool) (ids : List Nat)
    (count : Nat) :
    ids.foldl (fun count id => if p id then bump setup increment count else count) count =
      if increment then max count (min (count + ids.countP p) setup.maxMultiClientFlowRings)
      else count - ids.countP p := by
  induction ids generalizing count with
  | nil =>
    rw [List.foldl_nil, List.countP_nil]
    split <;> omega
  | cons id ids ih =>
    rw [List.foldl_cons, ih, List.countP_cons]
    unfold bump
    cases p id with
    | false => simp
    | true =>
      cases increment with
      | false => simp only [Bool.false_eq_true, if_false, if_true]; omega
      | true =>
        simp only [if_true]
        split <;> omega

/-! ## Invariant -/

variable {setup : Setup} {t t' : Table}

/-- The ring of a flow has its interface, and an active ring has a flow. -/
structure Inv (setup : Setup) (t : Table) : Prop where
  ids : Ids setup.toCfg t.dhd
  ring_if : ∀ node ∈ nodes t.dhd, (t.ring node.flowid).ifindex = node.ifindex
  active_live : ∀ id, (t.ring id).active = true → ∃ node ∈ nodes t.dhd, node.flowid = id

/-- The open rings of an interface are rings of its flows. -/
theorem Inv.openRings_le (h : Inv setup t) (ifindex : Nat) :
    openRings setup t ifindex ≤ flowsOn t ifindex := by
  have hsub : ((List.range setup.numH2dRings).filter (openOn t ifindex)).Subperm
      (((nodes t.dhd).filter fun node => node.ifindex == ifindex).map Node.flowid) := by
    refine List.subperm_of_subset (List.nodup_range.filter _) fun id hid => ?_
    obtain ⟨-, hopen⟩ := List.mem_filter.mp hid
    unfold openOn at hopen
    simp only [Bool.and_eq_true, beq_iff_eq] at hopen
    obtain ⟨node, hnode, rfl⟩ := h.active_live id hopen.1.1
    refine List.mem_map.mpr ⟨node, List.mem_filter.mpr ⟨hnode, ?_⟩, rfl⟩
    rw [beq_iff_eq, ← h.ring_if node hnode]
    exact hopen.1.2
  have hle := hsub.length_le
  rw [List.length_map, ← List.countP_eq_length_filter, ← List.countP_eq_length_filter] at hle
  exact hle

/-- Flows and roles stay, and no ring moves or becomes active. -/
structure Quiet (t t' : Table) : Prop where
  dhd : t'.dhd = t.dhd
  role : t'.role = t.role
  ifindex : ∀ id, (t'.ring id).ifindex = (t.ring id).ifindex
  active : ∀ id, (t'.ring id).active = true → (t.ring id).active = true

theorem Quiet.refl (t : Table) : Quiet t t := ⟨rfl, rfl, fun _ => rfl, fun _ h => h⟩

theorem Quiet.trans {t'' : Table} (h : Quiet t t') (h' : Quiet t' t'') : Quiet t t'' where
  dhd := h'.dhd.trans h.dhd
  role := h'.role.trans h.role
  ifindex := fun id => (h'.ifindex id).trans (h.ifindex id)
  active := fun id hid => h.active id (h'.active id hid)

/-- A ring keeps its interface, and does not become active. -/
theorem quiet_setRing (t : Table) (id : Nat) (ring : RingNode)
    (hif : ring.ifindex = (t.ring id).ifindex)
    (hactive : ring.active = true → (t.ring id).active = true) : Quiet t (setRing t id ring) := by
  refine ⟨rfl, rfl, fun k => ?_, fun k => ?_⟩
  · by_cases hk : k = id
    · rw [hk, setRing_self, hif]
    · rw [setRing_of_ne hk]
  · by_cases hk : k = id
    · rw [hk, setRing_self]
      exact hactive
    · rw [setRing_of_ne hk]
      exact fun h => h

theorem quiet_setStatus (t : Table) (id : Nat) (status : Status) :
    Quiet t (setStatus t id status) :=
  quiet_setRing t id _ rfl fun h => h

theorem Quiet.inv (hq : Quiet t t') (h : Inv setup t) : Inv setup t' where
  ids := hq.dhd ▸ h.ids
  ring_if := by
    rw [hq.dhd]
    intro node hnode
    rw [hq.ifindex]
    exact h.ring_if node hnode
  active_live := by
    rw [hq.dhd]
    exact fun id hid => h.active_live id (hq.active id hid)

theorem Quiet.exact (hq : Quiet t t') (h : Exact setup t) : Exact setup t' where
  multi := by
    rw [hq.dhd, hq.role]
    exact h.multi
  htput := by
    rw [hq.dhd, hq.role]
    exact h.htput

/-! ## A flow ends -/

theorem clean_keeps (h : Inv setup t) (flowid : Nat) :
    Inv setup (cleanFlowRing setup t flowid) ∧
      (Exact setup t → Exact setup (cleanFlowRing setup t flowid)) := by
  have hquiet : Quiet t { cleanFlowRing setup t flowid with dhd := t.dhd } := by
    have hring := quiet_setRing t flowid { t.ring flowid with status := .closed, active := false }
      rfl nofun
    exact ⟨rfl, rfl, hring.ifindex, hring.active⟩
  have hclosed : ((cleanFlowRing setup t flowid).ring flowid).active = false := by
    show ((setRing t flowid { t.ring flowid with status := .closed, active := false }).ring
      flowid).active = false
    rw [setRing_self]
  have hdhd : (cleanFlowRing setup t flowid).dhd =
      free (cfgAt setup.toCfg ⟨t.role, []⟩) t.dhd (t.ring flowid).ifindex flowid := by
    show free (cfgAt setup.toCfg ⟨t.role, []⟩) t.dhd
      ((setRing t flowid { t.ring flowid with status := .closed, active := false }).ring
        flowid).ifindex flowid = _
    rw [setRing_self]
  have hrole : (cleanFlowRing setup t flowid).role = t.role := rfl
  generalize cleanFlowRing setup t flowid = after at hquiet hclosed hdhd hrole ⊢
  rcases free_spec h.ids ⟨t.role, []⟩ (t.ring flowid).ifindex flowid with ⟨hsame, -⟩ |
    ⟨node, s', hfree, hids, hif, hid, hnodes, hmulti, hhtput⟩
  · have hq : Quiet t after := ⟨hdhd.trans hsame, hrole, hquiet.ifindex, hquiet.active⟩
    exact ⟨hq.inv h, hq.exact⟩
  · have hd : after.dhd = s' := hdhd.trans hfree
    refine ⟨⟨hd ▸ hids, ?_, ?_⟩, fun hexact => ⟨?_, ?_⟩⟩
    · intro cur hcur
      rw [hd] at hcur
      rw [hquiet.ifindex]
      exact h.ring_if cur (hnodes.mem_iff.mpr (List.mem_cons_of_mem _ hcur))
    · intro id hactive
      rw [hd]
      obtain ⟨cur, hcur, rfl⟩ := h.active_live id (hquiet.active id hactive)
      rcases List.mem_cons.mp (hnodes.mem_iff.mp hcur) with rfl | hcur'
      · -- the ring of the freed flow is not active
        rw [hid, hclosed] at hactive
        exact absurd hactive Bool.false_ne_true
      · exact ⟨cur, hcur', rfl⟩
    · have hcount := hexact.multi
      rw [hnodes.countP_eq, List.countP_cons] at hcount
      unfold ofClient at hcount ⊢
      rw [hif] at hcount
      rw [hd, hrole, hmulti, hcount]
      dsimp only
      split <;> omega
    · have hcount := hexact.htput
      have hlt := h.ids.length_lt
      rw [hnodes.length_eq, List.length_cons] at hlt
      have hle : (nodes s').countP (ofHtputClient setup t.role) ≤ (nodes s').length :=
        List.countP_le_length
      rw [hnodes.countP_eq, List.countP_cons] at hcount
      have hnode : ofHtputClient setup t.role node =
          (multiClient (t.role (t.ring flowid).ifindex) && isFlowidHtput setup.toCfg flowid) := by
        unfold ofHtputClient ofClient
        rw [hif, hid]
      rw [hnode] at hcount
      rw [hd, hrole, hhtput, hcount]
      dsimp only
      split <;> omega

/-! ## A flow begins -/

/-- A create request leaves all that is counted. -/
theorem request_quiet (conf : Conf) (t : Table) (ans : Answers) (id : Nat) :
    Quiet t (FlowCreate.flowRingCreateRequest conf t ans id).1 := by
  obtain ⟨hdhd, hrole, -⟩ := flowRingCreateRequest_spec conf t ans id
  have hring : ∀ k, ((FlowCreate.flowRingCreateRequest conf t ans id).1.ring k).ifindex =
      (t.ring k).ifindex ∧
      (((FlowCreate.flowRingCreateRequest conf t ans id).1.ring k).active = true →
        (t.ring k).active = true) := by
    intro k
    unfold FlowCreate.flowRingCreateRequest protFlowRingCreate
    cases ans.devwakeOk with
    | false => exact ⟨rfl, fun h => h⟩
    | true =>
      simp only [Bool.not_true, Bool.false_eq_true, if_false]
      rcases H2DRing.allocRingSpace conf.frPhaseNibble (poolFetch t id).ctrl 1 false ans.fresh with
        ⟨ctrl, _ | ⟨slot, n⟩⟩
      · exact ⟨rfl, fun h => h⟩
      · have hq := quiet_setRing t id { t.ring id with protInfo := true } rfl fun h => h
        exact ⟨hq.ifindex k, hq.active k⟩
  exact ⟨hdhd, hrole, fun k => (hring k).1, fun k => (hring k).2⟩

/-- What a lookup does to what is counted: nothing, or it tries to allocate an id, with or without
success. -/
theorem lookup_cases (h : Inv setup t) (flow : Flow) (ans : Answers) :
    Quiet t (lookup setup.toConf t flow ans).1 ∨
    (flow.ifindex < dhdMaxIfs ∧
      find (cfgOf setup.toConf t ans) t.dhd flow.ifindex flow.prio flow.da = flowidInvalid ∧
      ∃ s' id, alloc (cfgOf setup.toConf t ans) t.dhd flow.ifindex flow.prio flow.da ans.mallocOk
          ans.htputSta = (s', id) ∧
        if id = flowidInvalid then (lookup setup.toConf t flow ans).1 = { t with dhd := s' }
        else Quiet (initFlow { t with dhd := s' } flow id) (lookup setup.toConf t flow ans).1) := by
  unfold lookup
  split
  · exact .inl (Quiet.refl t)
  · split
    · exact .inl (Quiet.refl t)
    · next hif =>
      dsimp only
      split
      · next hfind =>
        have hno : find (cfgOf setup.toConf t ans) t.dhd flow.ifindex flow.prio flow.da =
            flowidInvalid := by
          have hcases := h.ids.find_cases ⟨t.role, ans.tdlsPeers⟩ flow.ifindex flow.prio flow.da
          rcases hfind with hno | hgt
          · exact hno
          · exact hcases.resolve_right (Nat.not_le.mpr hgt)
        unfold createFlow
        split
        · exact .inl (Quiet.refl t)
        · refine .inr ⟨Nat.lt_of_not_le hif, hno, ?_⟩
          obtain ⟨⟨s', id⟩, hr⟩ : ∃ r, alloc (cfgOf setup.toConf t ans) t.dhd flow.ifindex
            flow.prio flow.da ans.mallocOk ans.htputSta = r := ⟨_, rfl⟩
          refine ⟨s', id, hr, ?_⟩
          rw [hr]
          dsimp only
          split
          · rfl
          · have hreq := request_quiet setup.toConf (initFlow { t with dhd := s' } flow id) ans id
            split
            · exact hreq.trans (quiet_setRing _ id _ rfl nofun)
            · exact hreq
      · split
        · exact .inl (Quiet.refl t)
        · exact .inl (Quiet.refl t)

/-- The flow has an id and a node. -/
theorem initFlow_keeps (h : Inv setup t) (flow : Flow) {s' : Dhd} {id : Nat}
    (hids : Ids setup.toCfg s') (hmulti : s'.multiClientFlowRings = t.dhd.multiClientFlowRings)
    (hnodes : (nodes s').Perm (nodeOf flow id :: nodes t.dhd))
    (hhtput : s'.htputClientFlowRings = t.dhd.htputClientFlowRings +
      if (multiClient (t.role flow.ifindex) && isFlowidHtput setup.toCfg id) = true
      then 1 else 0) :
    Inv setup (initFlow { t with dhd := s' } flow id) ∧
      (Exact setup t → Exact setup (initFlow { t with dhd := s' } flow id)) := by
  have hself : ((initFlow { t with dhd := s' } flow id).ring id).ifindex = flow.ifindex := by
    unfold initFlow
    rw [setRing_self]
  have hring : ∀ k, k ≠ id → (initFlow { t with dhd := s' } flow id).ring k = t.ring k := by
    intro k hk
    unfold initFlow
    rw [setRing_of_ne hk]
  have hsame : nodes (initFlow { t with dhd := s' } flow id).dhd = nodes s' := rfl
  -- no other flow has the id
  have hfresh : ∀ cur ∈ nodes t.dhd, cur.flowid ≠ id := by
    intro cur hcur heq
    have hnodup := ((hnodes.map Node.flowid).nodup_iff.mp hids.flowids.1)
    rw [List.map_cons, List.nodup_cons] at hnodup
    exact hnodup.1 (List.mem_map.mpr ⟨cur, hcur, heq⟩)
  refine ⟨⟨hids.recount _, ?_, ?_⟩, fun hexact => ⟨?_, ?_⟩⟩
  · intro cur hcur
    rw [hsame, hnodes.mem_iff] at hcur
    rcases List.mem_cons.mp hcur with rfl | hcur
    · exact hself
    · rw [hring _ (hfresh cur hcur)]
      exact h.ring_if cur hcur
  · intro k hactive
    rw [hsame]
    by_cases hk : k = id
    · exact ⟨nodeOf flow id, hnodes.mem_iff.mpr List.mem_cons_self, hk.symm⟩
    · rw [hring k hk] at hactive
      obtain ⟨cur, hcur, hid⟩ := h.active_live k hactive
      exact ⟨cur, hnodes.mem_iff.mpr (List.mem_cons_of_mem _ hcur), hid⟩
  · rw [hsame, hnodes.countP_eq, List.countP_cons]
    show (if multiClient (t.role flow.ifindex) then s'.multiClientFlowRings + 1
      else s'.multiClientFlowRings) = (nodes t.dhd).countP (ofClient t.role) +
        if multiClient (t.role flow.ifindex) = true then 1 else 0
    rw [hmulti, hexact.multi]
    split <;> rfl
  · rw [hsame, hnodes.countP_eq, List.countP_cons]
    show s'.htputClientFlowRings = (nodes t.dhd).countP (ofHtputClient setup t.role) +
      if (multiClient (t.role flow.ifindex) && isFlowidHtput setup.toCfg id) = true then 1 else 0
    rw [hhtput, hexact.htput]

theorem lookup_keeps (h : Inv setup t) (flow : Flow) (ans : Answers) :
    Inv setup (lookup setup.toConf t flow ans).1 ∧
      (Exact setup t → Exact setup (lookup setup.toConf t flow ans).1) := by
  rcases lookup_cases h flow ans with hq | ⟨hi, hfind, s', id, hr, hafter⟩
  · exact ⟨hq.inv h, hq.exact⟩
  · obtain ⟨s₁, id₁, hr₁, hids, hmulti, hcases⟩ :=
      alloc_spec h.ids ⟨t.role, ans.tdlsPeers⟩ ans.mallocOk ans.htputSta hi hfind
    obtain ⟨rfl, rfl⟩ := Prod.mk.inj (hr₁.symm.trans hr)
    rcases hcases with ⟨hno, hnodes, hhtput⟩ | ⟨hyes, hnodes, hhtput⟩
    · rw [if_pos hno] at hafter
      rw [hafter]
      refine ⟨⟨hids, ?_, ?_⟩, fun hexact => ⟨?_, ?_⟩⟩
      · dsimp only
        rw [hnodes]
        exact h.ring_if
      · dsimp only
        rw [hnodes]
        exact h.active_live
      · dsimp only
        rw [hmulti, hnodes]
        exact hexact.multi
      · dsimp only
        rw [hhtput, hnodes]
        exact hexact.htput
    · rw [if_neg hyes] at hafter
      obtain ⟨hinv, hexact⟩ := initFlow_keeps h flow hids hmulti hnodes hhtput
      exact ⟨hafter.inv hinv, fun hex => hafter.exact (hexact hex)⟩

/-! ## The role changes -/

/-- An interface event keeps the rings and the flows. -/
theorem ifEvent_inv (h : Inv setup t) (ifindex : Nat) (op : IfOp) (role : Role) :
    Inv setup (updateInterfaceFlowInfo setup t ifindex op role) := by
  unfold updateInterfaceFlowInfo
  split
  · exact h
  · split
    · split
      · exact ⟨h.ids, h.ring_if, h.active_live⟩
      · exact h
    · dsimp only
      split
      · split
        · exact ⟨h.ids.recount _, h.ring_if, h.active_live⟩
        · exact ⟨h.ids, h.ring_if, h.active_live⟩
      · split
        · exact ⟨h.ids.recount _, h.ring_if, h.active_live⟩
        · exact ⟨h.ids, h.ring_if, h.active_live⟩

/-- What `multi_client_flow_rings` is after an event that is not a `WLC_E_IF_DEL`. -/
def newCount (setup : Setup) (t : Table) (ifindex : Nat) (op : IfOp) (role : Role) : Nat :=
  if op = .change then
    if multiClient role then
      max t.dhd.multiClientFlowRings
        (min (t.dhd.multiClientFlowRings + openRings setup t ifindex)
          setup.maxMultiClientFlowRings)
    else t.dhd.multiClientFlowRings - openRings setup t ifindex
  else t.dhd.multiClientFlowRings

/-- What an interface event does to what is counted. -/
theorem ifEvent_spec (setup : Setup) (t : Table) (hi : ifindex < dhdMaxIfs) {op : IfOp}
    (hop : op ≠ .del) (role : Role) :
    (updateInterfaceFlowInfo setup t ifindex op role).role =
        Function.update t.role ifindex role ∧
      (updateInterfaceFlowInfo setup t ifindex op role).dhd.htputClientFlowRings =
        t.dhd.htputClientFlowRings ∧
      nodes (updateInterfaceFlowInfo setup t ifindex op role).dhd = nodes t.dhd ∧
      (updateInterfaceFlowInfo setup t ifindex op role).dhd.multiClientFlowRings =
        newCount setup t ifindex op role := by
  have hfold := foldl_bump setup (multiClient role) (openOn t ifindex)
    (List.range setup.numH2dRings) t.dhd.multiClientFlowRings
  unfold updateInterfaceFlowInfo newCount
  rw [if_neg (Nat.not_le.mpr hi)]
  cases op with
  | del => exact absurd rfl hop
  | add =>
    dsimp only
    split <;> exact ⟨rfl, rfl, rfl, rfl⟩
  | change =>
    dsimp only
    rw [if_pos rfl, if_pos rfl]
    rw [Function.update_self]
    split
    · exact ⟨rfl, rfl, rfl, hfold⟩
    · exact ⟨rfl, rfl, rfl, hfold⟩

theorem keepsCount_iff {op : IfOp} (hop : op ≠ .del) (role : Role) :
    keepsCount setup t ifindex op role = true ↔
      newCount setup t ifindex op role = t.dhd.multiClientFlowRings := by
  unfold keepsCount newCount
  cases op with
  | del => exact absurd rfl hop
  | add => simp
  | change =>
    rw [if_pos rfl, show (IfOp.change == IfOp.add) = false from rfl, Bool.false_or,
      Bool.or_eq_true, beq_iff_eq]
    cases multiClient role with
    | false =>
      rw [if_neg Bool.false_ne_true, if_neg Bool.false_ne_true, beq_iff_eq]
      omega
    | true =>
      rw [if_pos rfl, if_pos rfl, decide_eq_true_eq]
      omega

theorem movesCount_iff (h : Inv setup t) {op : IfOp} (hop : op ≠ .del) (role : Role)
    (hle : multiClient role = false → flowsOn t ifindex ≤ t.dhd.multiClientFlowRings) :
    movesCount setup t ifindex op role = true ↔
      htputFlowsOn setup t ifindex = 0 ∧
        newCount setup t ifindex op role + (if multiClient role then 0 else flowsOn t ifindex) =
          t.dhd.multiClientFlowRings + if multiClient role then flowsOn t ifindex else 0 := by
  have hopen := h.openRings_le ifindex
  unfold movesCount newCount
  rw [Bool.and_eq_true, beq_iff_eq]
  refine and_congr_right fun _ => ?_
  cases op with
  | del => exact absurd rfl hop
  | add =>
    cases multiClient role with
    | false => simp
    | true => simp
  | change =>
    rw [if_pos rfl]
    cases hrole : multiClient role with
    | false =>
      have := hle hrole
      simp only [Bool.false_eq_true, if_false, Bool.or_eq_true, Bool.and_eq_true, beq_iff_eq,
        Bool.not_false, true_or, and_true, true_and, beq_self_eq_true]
      omega
    | true =>
      simp only [if_true, Bool.or_eq_true, Bool.and_eq_true, beq_iff_eq, Bool.not_true,
        Bool.false_or, decide_eq_true_eq, true_and, beq_self_eq_true]
      omega

/-- An interface event keeps the counters exact if it moves them as the role moves, and only then. -/
theorem ifEvent_exact (h : Inv setup t) (hexact : Exact setup t) (ifindex : Nat) (op : IfOp)
    (role : Role) :
    Exact setup (updateInterfaceFlowInfo setup t ifindex op role) ↔
      countsRight setup t (.ifEvent ifindex op role) = true := by
  unfold countsRight
  by_cases hif : ifindex ≥ dhdMaxIfs
  · have hsame : updateInterfaceFlowInfo setup t ifindex op role = t := if_pos hif
    rw [hsame]
    simp [hif, hexact]
  · by_cases hop : op = .del
    · have hq : Quiet t (updateInterfaceFlowInfo setup t ifindex op role) := by
        unfold updateInterfaceFlowInfo
        rw [if_neg hif, hop]
        dsimp only
        split
        · exact ⟨rfl, rfl, fun _ => rfl, fun _ h => h⟩
        · exact Quiet.refl t
      refine iff_of_true (hq.exact hexact) ?_
      simp [hop]
    · obtain ⟨hrole, hhtput, hnodes, hmulti⟩ :=
        ifEvent_spec setup t (Nat.lt_of_not_le hif) hop role
      have hcount := countP_update t.role (fun _ => true) ifindex role (nodes t.dhd)
      have hcount' := countP_update t.role (fun node => isFlowidHtput setup.toCfg node.flowid)
        ifindex role (nodes t.dhd)
      simp only [Bool.and_true] at hcount
      have hiff : Exact setup (updateInterfaceFlowInfo setup t ifindex op role) ↔
          newCount setup t ifindex op role =
            (nodes t.dhd).countP (ofClient (Function.update t.role ifindex role)) ∧
          t.dhd.htputClientFlowRings =
            (nodes t.dhd).countP (ofHtputClient setup (Function.update t.role ifindex role)) := by
        rw [← hmulti, ← hrole, ← hhtput, ← hnodes]
        exact ⟨fun hex => ⟨hex.multi, hex.htput⟩, fun hex => ⟨hex.1, hex.2⟩⟩
      change (nodes t.dhd).countP (ofClient (Function.update t.role ifindex role)) +
        (if _ then flowsOn t ifindex else 0) = (nodes t.dhd).countP (ofClient t.role) +
          (if _ then flowsOn t ifindex else 0) at hcount
      change (nodes t.dhd).countP (ofHtputClient setup (Function.update t.role ifindex role)) +
        (if _ then htputFlowsOn setup t ifindex else 0) =
          (nodes t.dhd).countP (ofHtputClient setup t.role) +
            (if _ then htputFlowsOn setup t ifindex else 0) at hcount'
      rw [← hexact.multi] at hcount
      rw [← hexact.htput] at hcount'
      rw [hiff]
      generalize (nodes t.dhd).countP (ofClient _) = multi at hcount ⊢
      generalize (nodes t.dhd).countP (ofHtputClient _ _) = htput at hcount' ⊢
      simp only [hif, decide_false, Bool.false_or, beq_eq_false_iff_ne.mpr hop]
      by_cases hsame : multiClient (t.role ifindex) = multiClient role
      · rw [if_pos hsame, keepsCount_iff hop]
        rw [hsame] at hcount hcount'
        omega
      · rw [if_neg hsame, movesCount_iff h hop]
        · cases hnew : multiClient role with
          | false =>
            rw [hnew, Bool.not_eq_false] at hsame
            rw [hsame, hnew] at hcount hcount'
            simp only [if_true, Bool.false_eq_true, if_false] at hcount hcount' ⊢
            omega
          | true =>
            rw [hnew, Bool.not_eq_true] at hsame
            rw [hsame, hnew] at hcount hcount'
            simp only [if_true, Bool.false_eq_true, if_false] at hcount hcount' ⊢
            omega
        · intro hnew
          rw [hnew, Bool.not_eq_false] at hsame
          rw [hsame, hnew] at hcount
          simp only [if_true, Bool.false_eq_true, if_false] at hcount
          omega

/-! ## Runs -/

theorem Quiet.keeps (hq : Quiet t t') (h : Inv setup t) :
    Inv setup t' ∧ (Exact setup t → Exact setup t') :=
  ⟨hq.inv h, hq.exact⟩

/-- What one call does to the counters. -/
theorem step_spec {e : Ev} {r : Unit} (h : Inv setup t) (hs : step setup t e = some (t', r)) :
    Inv setup t' ∧ (Exact setup t → (Exact setup t' ↔ countsRight setup t e = true)) := by
  have hquiet := Quiet.refl t
  -- all calls but the interface events keep the counters exact
  have hkeeps : (∀ ifindex op role, e ≠ .ifEvent ifindex op role) →
      Inv setup t' ∧ (Exact setup t → Exact setup t') := by
    intro hne
    cases e with
    | lookup flow ans =>
      cases hs
      exact lookup_keeps h flow ans
    | createResponse flowid ok =>
      cases hs
      unfold createResponse
      split
      · exact hquiet.keeps h
      · split
        · exact clean_keeps h flowid
        · exact (quiet_setStatus t flowid .opened).keeps h
    | deleteRequest flowid =>
      cases hs
      unfold deleteRequest
      split
      · exact hquiet.keeps h
      · exact (quiet_setStatus t flowid .deletePending).keeps h
    | deleteResponse flowid ok =>
      cases hs
      unfold deleteResponse
      split
      · exact hquiet.keeps h
      · split
        · exact hquiet.keeps h
        · exact clean_keeps h flowid
    | flushRequest flowid =>
      cases hs
      exact (quiet_setStatus t flowid .flushPending).keeps h
    | flushResponse flowid ok =>
      cases hs
      unfold flushResponse
      split
      · exact hquiet.keeps h
      · split
        · exact hquiet.keeps h
        · exact (quiet_setStatus t flowid .opened).keeps h
    | ifEvent ifindex op role => exact absurd rfl (hne ifindex op role)
    | linkStatus ifindex status =>
      cases hs
      split
      · exact hquiet.keeps h
      · exact Quiet.keeps ⟨rfl, rfl, fun _ => rfl, fun _ hid => hid⟩ h
  cases e with
  | ifEvent ifindex op role =>
    cases hs
    exact ⟨ifEvent_inv h ifindex op role, fun hexact => ifEvent_exact h hexact ifindex op role⟩
  | _ =>
    obtain ⟨hinv, hex⟩ := hkeeps nofun
    exact ⟨hinv, fun hexact => iff_of_true (hex hexact) rfl⟩

theorem init_inv (setup : Setup) (ctrl : H2DRing.MsgbufRing) : Inv setup (init setup ctrl) where
  ids := by
    refine ⟨[], FlowIds.inv_init setup.toCfg, ?_⟩
    show (nodes (FlowLookup.init setup.toCfg)).Perm []
    rw [nodes_init]
  ring_if := by
    intro node hnode
    change node ∈ nodes (FlowLookup.init setup.toCfg) at hnode
    rw [nodes_init] at hnode
    cases hnode
  active_live := fun _ hactive => absurd hactive Bool.false_ne_true

theorem init_exact (setup : Setup) (ctrl : H2DRing.MsgbufRing) :
    Exact setup (init setup ctrl) := by
  have hnodes : nodes (init setup ctrl).dhd = [] := nodes_init setup.toCfg
  constructor
  · rw [hnodes]
    rfl
  · rw [hnodes]
    rfl

/-! ## Top theorem -/

/-- **The counters of clients are exact after every call of a run if and only if each interface
event moves them as it moves the role.** -/
theorem counters_exact_iff (setup : Setup) (ctrl : H2DRing.MsgbufRing) (es : List Ev) (t : Table)
    (tr : List (Ev × Unit)) (h : runs (step setup) (init setup ctrl) es = some (t, tr)) :
    (∀ es₁ es₂ t₁ tr₁, es₁ ++ es₂ = es →
      runs (step setup) (init setup ctrl) es₁ = some (t₁, tr₁) → Exact setup t₁) ↔
    meets (step setup) (countsRight setup) (init setup ctrl) es = true := by
  constructor
  · intro hexact
    refine meets_of_prefixes (step setup) (fun _ _ => true) (countsRight setup)
      (fun t _ => Inv setup t ∧ Exact setup t) (fun t _ => Exact setup t) ?_ ?_
      _ t es tr ⟨init_inv setup ctrl, init_exact setup ctrl⟩ (meets_true _ _ _) h hexact
    · rintro s _ e s' r ⟨hinv, hex⟩ hc hs
      obtain ⟨hinv', hiff⟩ := step_spec hinv hs
      exact ⟨hinv', (hiff hex).mpr (by simpa using hc)⟩
    · rintro s _ e s' r ⟨hinv, hex⟩ - hc hs hex'
      rw [((step_spec hinv hs).2 hex).mp hex'] at hc
      exact Bool.false_ne_true hc.symm
  · rintro hmeets es₁ es₂ t₁ tr₁ rfl hr
    have hinv := runs_inv_of_meets (step setup) (countsRight setup)
      (fun t _ => Inv setup t ∧ Exact setup t)
      (fun s _ e s' r hi hc hs =>
        ⟨(step_spec hi.1 hs).1, ((step_spec hi.1 hs).2 hi.2).mpr hc⟩)
      _ t₁ es₁ tr₁ ⟨init_inv setup ctrl, init_exact setup ctrl⟩
      (meets_of_append _ _ _ _ _ hmeets) hr
    exact hinv.2

theorem fortyRings_ids : flowidReserved + 40 + htputTotalFlowRings < id16Invalid := by decide

def fortyRings : Setup where
  role := fun _ => .sta
  tdlsPeers := []
  htputSupport := false
  maxNormalTxFlowRings := 40
  ids_lt := fortyRings_ids
  maxMultiClientFlowRings := 36
  frPhaseNibble := false
  numH2dRings := 43

def ctrlRing : H2DRing.MsgbufRing := ⟨4, false, 0, 0, 0x80⟩

/-- An access point comes up, and the ring of its broadcast flow is opened. -/
def broadcastFlow : List Ev :=
  [.ifEvent 0 .add .ap, .linkStatus 0 true,
    .lookup ⟨0, 0, ⟨2, 0, 0, 0, 0, 1⟩, ⟨0xff, 0xff, 0xff, 0xff, 0xff, 0xff⟩⟩
      ⟨true, [], true, false, true, true, 0⟩,
    .createResponse 41 true]

theorem counters_exact_iff_sta : ∃ t tr,
    runs (step fortyRings) (init fortyRings ctrlRing) (broadcastFlow ++ [.ifEvent 0 .change .sta]) =
      some (t, tr) ∧
    ∀ es₁ es₂ t₁ tr₁, es₁ ++ es₂ = broadcastFlow ++ [.ifEvent 0 .change .sta] →
      runs (step fortyRings) (init fortyRings ctrlRing) es₁ = some (t₁, tr₁) →
      Exact fortyRings t₁ :=
  ⟨_, _, rfl, (counters_exact_iff fortyRings ctrlRing _ _ _ rfl).mpr (by decide +kernel)⟩

/-- When the access point becomes a NAN interface, its flow is counted a second time. -/
theorem counters_exact_fails :
    ¬ ∀ setup ctrl es t tr, runs (step setup) (init setup ctrl) es = some (t, tr) →
      Exact setup t := by
  intro h
  have hexact := h fortyRings ctrlRing (broadcastFlow ++ [.ifEvent 0 .change .nan]) _ _ rfl
  exact absurd hexact.multi (by decide +kernel)

end Bcmdhd.ClientCounts
