import Bcmdhd.FlowRing.Lookup
import Mathlib.Data.List.Perm.Subperm

/-!
# The ids of the flow rings (`dhd_flowring.c`)

Ids go from the two allocators to the flows and back.  Here the role of an interface and the
TDLS peers may be others at every call, and a flow may be allocated whether it is in the table
or not.

    runs (step cfg) (init cfg) es = some (s, tr) →
      every id is on the stack it came from, or with one live flow, and
      an allocation fails exactly if no allocator admitted has an id, and
      live flows are found to be freed, where every allocation follows a find that failed
                                                                         (flow_ids_conserved)
-/

namespace Bcmdhd.FlowIds

open Runs Buckets Id16 FlowLookup

/-! ## Calls -/

/-- What the other parts of the driver say at the time of a call. -/
structure Env where
  role : Nat → Role
  tdlsPeers : List Ea

def cfgAt (cfg : Cfg) (env : Env) : Cfg := { cfg with role := env.role, tdlsPeers := env.tdlsPeers }

inductive Call
  | alloc (env : Env) (ifindex : Nat) (prio : UInt8) (da : Ea) (mallocOk htputSta : Bool)
  | free (env : Env) (ifindex flowid : Nat)

inductive Result
  | flowid (f : Nat)
  /-- whether the table had the flow -/
  | freed (found : Bool)
deriving DecidableEq, Repr

def found (s : Dhd) (ifindex flowid : Nat) : Bool :=
  decide (ifindex < dhdMaxIfs) && (slotOf s ifindex flowid).isSome

def step (cfg : Cfg) (s : Dhd) : Call → Option (Dhd × Result)
  | .alloc env ifindex prio da mallocOk htputSta =>
    if ifindex < dhdMaxIfs then
      let r := alloc (cfgAt cfg env) s ifindex prio da mallocOk htputSta
      some (r.1, .flowid r.2)
    else none
  | .free env ifindex flowid =>
    some (free (cfgAt cfg env) s ifindex flowid, .freed (found s ifindex flowid))

abbrev Trace := List (Call × Result)

/-- The effect of a call on the flows that hold an id. -/
def liveStep (live : List Node) : Call × Result → List Node
  | (.alloc _ ifindex prio da _ _, .flowid f) =>
    if f = flowidInvalid then live else live ++ [⟨f, ifindex, prio, da⟩]
  | (.free _ ifindex f, .freed true) =>
    live.filter fun flow => !(flow.ifindex == ifindex && flow.flowid == f)
  | _ => live

def live (tr : Trace) : List Node := tr.foldl liveStep []

/-- The high throughput ids are for this flow too. -/
def admitsHtput (cfg : Cfg) (s : Dhd) (ifindex : Nat) (prio : UInt8) (da : Ea)
    (htputSta : Bool) : Bool :=
  cfg.role ifindex != .p2pClient && cfg.role ifindex != .p2pGo && cfg.htputSupport &&
    prio == htputFlowRingPrio &&
    (genericSta (cfg.role ifindex) ||
      multiClient (cfg.role ifindex) && !isMulti da && htputSta &&
        decide (s.htputClientFlowRings < htputNumClientFlowRings))

/-- A flow is allocated where a find has failed for it. -/
def notFound (cfg : Cfg) (s : Dhd) : Call → Bool
  | .alloc env ifindex prio da _ _ =>
    decide (find (cfgAt cfg env) s ifindex prio da = flowidInvalid)
  | .free .. => true

/-! ## Invariant -/

/-- Nodes are in the slots of their interface and are of live flows, and every id is with one
live flow or available in its own allocator. -/
structure Inv (cfg : Cfg) (s : Dhd) (tr : Trace) : Prop where
  own : ∀ i h node, i < dhdMaxIfs → h < dhdFlowringHashSize → node ∈ s.flHash (i, h) →
    node.ifindex = i
  sub : (nodes s).Subperm (live tr)
  ids : ((live tr).map Node.flowid ++ avail s).Perm (allIds cfg)
  normal_lt : ∀ id ∈ available s.flowidAllocator, id < htputFlowRingStart cfg
  htput_ge : ∀ id ∈ available s.htputFlowidAllocator, htputFlowRingStart cfg ≤ id

theorem live_snoc (tr : Trace) (e : Call × Result) : live (tr ++ [e]) = liveStep (live tr) e := by
  simp [live, List.foldl_append]

theorem inv_init (cfg : Cfg) : Inv cfg (init cfg) [] where
  own := by
    intro i h node _ _ hn
    cases hn
  sub := by
    rw [nodes_init]
    exact List.nil_subperm
  ids := by
    have h := (FlowLookup.inv_init cfg).ids
    rw [nodes_init] at h
    exact h
  normal_lt := (FlowLookup.inv_init cfg).normal_lt
  htput_ge := (FlowLookup.inv_init cfg).htput_ge

variable {node : Node}

section

variable {cfg : Cfg} {s : Dhd} {tr : Trace}

theorem Inv.nodup (h : Inv cfg s tr) : ((live tr).map Node.flowid ++ avail s).Nodup :=
  (h.ids.nodup_iff).2 List.nodup_range'

theorem Inv.avail_lt (h : Inv cfg s tr) {id : Nat} (hid : id ∈ avail s) :
    id < flowidInvalid ∧ id ≤ maxTxFlowid cfg := by
  apply lt_of_mem_allIds
  rw [← h.ids.mem_iff, List.mem_append]
  exact .inr hid

theorem Inv.mem_live (h : Inv cfg s tr) {i k : Nat} (hi : i < dhdMaxIfs)
    (hk : k < dhdFlowringHashSize) (hn : node ∈ s.flHash (i, k)) : node ∈ live tr :=
  h.sub.subset (mem_entries.2 ⟨_, mem_slots.2 ⟨hi, hk⟩, hn⟩)

theorem Inv.same {s' : Dhd} {tr' : Trace} (h : Inv cfg s tr) (hflash : s'.flHash = s.flHash)
    (hn : available s'.flowidAllocator = available s.flowidAllocator)
    (hh : available s'.htputFlowidAllocator = available s.htputFlowidAllocator)
    (hlive : live tr' = live tr) : Inv cfg s' tr' := by
  have hnodes : nodes s' = nodes s := by
    unfold nodes
    rw [hflash]
  refine ⟨?_, ?_, ?_, ?_, ?_⟩
  · rw [hflash]
    exact h.own
  · rw [hlive, hnodes]
    exact h.sub
  · unfold avail
    rw [hlive, hn, hh]
    exact h.ids
  · rw [hn]
    exact h.normal_lt
  · rw [hh]
    exact h.htput_ge

/-! ## Allocation -/

/-- The new node replaces what a find would have come to. -/
def Replaces (cfg : Cfg) (s : Dhd) (node : Node) (chain : List Node) : Prop :=
  node.ifindex < dhdMaxIfs →
    find cfg s node.ifindex node.tid node.da = firstFlowid chain fun _ => true

/-- The new node is appended to a chain of its interface, or replaces it. -/
theorem insertNode_cases (cfg : Cfg) (s : Dhd) (node : Node) :
    ∃ hash l, hash < dhdFlowringHashSize ∧
      (insertNode cfg s node).flHash = Function.update s.flHash (node.ifindex, hash) l ∧
      (l = [node] ∧ Replaces cfg s node (s.flHash (node.ifindex, hash)) ∨
        l = s.flHash (node.ifindex, hash) ++ [node]) := by
  have hhash := hashIndex_lt node.da node.tid
  unfold insertNode
  split
  · next hsta =>
    split
    · exact ⟨_, _, hhash, rfl, .inr rfl⟩
    · next htdls =>
      refine ⟨_, _, node.tid.toNat_lt, rfl, .inl ⟨rfl, fun hi => ?_⟩⟩
      unfold find
      rw [if_neg (Nat.not_le.2 hi), if_pos hsta, if_neg htdls]
  · refine ⟨_, _, ?_, rfl, .inr rfl⟩
    split
    · decide
    · exact hhash

/-- What an allocation does: nothing that shows, or an id is taken for a node. -/
theorem alloc_cases (h : Inv cfg s tr) (env : Env) (ifindex : Nat) (prio : UInt8) (da : Ea)
    (mallocOk htputSta : Bool) :
    ∃ s' flowid, alloc (cfgAt cfg env) s ifindex prio da mallocOk htputSta = (s', flowid) ∧
      flowid = (if mallocOk then (mapAlloc (cfgAt cfg env) s ifindex prio da htputSta).2
        else flowidInvalid) ∧
      ((flowid = flowidInvalid ∧ s'.flHash = s.flHash ∧
          available s'.flowidAllocator = available s.flowidAllocator ∧
          available s'.htputFlowidAllocator = available s.htputFlowidAllocator) ∨
        (flowid ≠ flowidInvalid ∧ Taken s s' flowid ∧ ∃ hash l, hash < dhdFlowringHashSize ∧
          s'.flHash = Function.update s.flHash (ifindex, hash) l ∧
          (l = [⟨flowid, ifindex, prio, da⟩] ∧
              Replaces (cfgAt cfg env) s ⟨flowid, ifindex, prio, da⟩ (s.flHash (ifindex, hash)) ∨
            l = s.flHash (ifindex, hash) ++ [⟨flowid, ifindex, prio, da⟩]))) := by
  obtain ⟨s', flowid, hr, hid, hsame | ⟨hne, htaken, s₁, hflash, hins⟩⟩ :=
    @alloc_taken (cfgAt cfg env) s (fun _ hid => h.avail_lt hid) ifindex prio da mallocOk
      htputSta
  · exact ⟨s', flowid, hr, hid, .inl hsame⟩
  · obtain ⟨hash, l, hhash, hl, hcases⟩ :=
      insertNode_cases (cfgAt cfg env) s₁ ⟨flowid, ifindex, prio, da⟩
    unfold Replaces at hcases
    rw [hflash, find_congr hflash] at hcases
    rw [← hins, hflash] at hl
    exact ⟨s', flowid, hr, hid, .inr ⟨hne, htaken, hash, l, hhash, hl, hcases⟩⟩

/-- A chain that is replaced although a find has failed is empty. -/
theorem Replaces.empty {env : Env} {hash : Nat} (h : Inv cfg s tr) (hi : node.ifindex < dhdMaxIfs)
    (hhash : hash < dhdFlowringHashSize)
    (hreplaces : Replaces (cfgAt cfg env) s node (s.flHash (node.ifindex, hash)))
    (hfind : find (cfgAt cfg env) s node.ifindex node.tid node.da = flowidInvalid) :
    s.flHash (node.ifindex, hash) = [] := by
  have hfirst := (hreplaces hi).symm.trans hfind
  cases hchain : s.flHash (node.ifindex, hash) with
  | nil => rfl
  | cons cur l =>
    rw [hchain] at hfirst
    have hcur : cur ∈ s.flHash (node.ifindex, hash) := by
      rw [hchain]
      exact List.mem_cons_self
    have hlive := h.mem_live hi hhash hcur
    have hid : cur.flowid ∈ allIds cfg :=
      h.ids.mem_iff.1 (List.mem_append_left _ (List.mem_map_of_mem hlive))
    exact absurd hfirst (Nat.ne_of_lt (lt_of_mem_allIds hid).1)

theorem nodes_appended {s' : Dhd} {ifindex hash : Nat} (hi : ifindex < dhdMaxIfs)
    (hhash : hash < dhdFlowringHashSize)
    (hflash : s'.flHash = Function.update s.flHash (ifindex, hash)
      (s.flHash (ifindex, hash) ++ [node])) : (nodes s').Perm (node :: nodes s) := by
  unfold nodes
  rw [hflash]
  exact entries_insert slots_nodup (mem_slots.2 ⟨hi, hhash⟩) List.perm_append_comm

theorem nodes_replaced {s' : Dhd} {ifindex hash : Nat} (hi : ifindex < dhdMaxIfs)
    (hhash : hash < dhdFlowringHashSize)
    (hflash : s'.flHash = Function.update s.flHash (ifindex, hash) [node]) :
    (nodes s').Subperm (node :: nodes s) := by
  unfold nodes
  rw [hflash]
  refine (entries_update slots_nodup (mem_slots.2 ⟨hi, hhash⟩) _ _).subperm.trans ?_
  rw [List.singleton_append, List.subperm_cons]
  refine List.Subperm.trans ?_
    (entries_perm_split slots_nodup (mem_slots.2 ⟨hi, hhash⟩) s.flHash).symm.subperm
  exact (List.sublist_append_right _ _).subperm

theorem alloc_inv (h : Inv cfg s tr) (env : Env) {ifindex : Nat} (prio : UInt8) (da : Ea)
    (mallocOk htputSta : Bool) (hi : ifindex < dhdMaxIfs) :
    Inv cfg (alloc (cfgAt cfg env) s ifindex prio da mallocOk htputSta).1
      (tr ++ [(.alloc env ifindex prio da mallocOk htputSta,
        .flowid (alloc (cfgAt cfg env) s ifindex prio da mallocOk htputSta).2)]) := by
  obtain ⟨s', flowid, hr, -, hcases⟩ := alloc_cases h env ifindex prio da mallocOk htputSta
  rw [hr]
  have hlive := live_snoc tr (.alloc env ifindex prio da mallocOk htputSta, .flowid flowid)
  rcases hcases with ⟨hid, hflash, hn, hh⟩ | ⟨hid, htaken, hash, l, hhash, hflash, hl⟩
  · exact h.same hflash hn hh (hlive.trans (if_pos hid))
  · have hgrow : live (tr ++ [(.alloc env ifindex prio da mallocOk htputSta, .flowid flowid)]) =
        live tr ++ [⟨flowid, ifindex, prio, da⟩] := hlive.trans (if_neg hid)
    have hnodes : (nodes s').Subperm (⟨flowid, ifindex, prio, da⟩ :: nodes s) := by
      rcases hl with ⟨rfl, -⟩ | rfl
      · exact nodes_replaced hi hhash hflash
      · exact (nodes_appended hi hhash hflash).subperm
    refine ⟨?_, ?_, ?_, ?_, ?_⟩
    · intro i k cur hi' hk hcur
      rw [hflash] at hcur
      by_cases heq : (i, k) = (ifindex, hash)
      · rw [heq, Function.update_self] at hcur
        obtain ⟨rfl, rfl⟩ := Prod.mk.inj heq
        rcases hl with ⟨rfl, -⟩ | rfl
        · rw [List.mem_singleton.1 hcur]
        · rcases List.mem_append.1 hcur with hcur | hcur
          · exact h.own _ _ cur hi' hk hcur
          · rw [List.mem_singleton.1 hcur]
      · rw [Function.update_of_ne heq] at hcur
        exact h.own i k cur hi' hk hcur
    · rw [hgrow]
      refine hnodes.trans (List.Subperm.trans ?_ (List.perm_append_singleton _ _).symm.subperm)
      exact (List.subperm_cons _).2 h.sub
    · rw [hgrow, List.map_append, List.append_assoc]
      refine List.Perm.trans ?_ h.ids
      exact (htaken.perm.symm).append_left _
    · exact fun id hmem => h.normal_lt id (htaken.subset.1 hmem)
    · exact fun id hmem => h.htput_ge id (htaken.subset.2 hmem)

/-! ## Freeing -/

/-- What a free does: nothing where the table has no such flow, else the node is unlinked and
its id given back. -/
theorem free_cases (h : Inv cfg s tr) (env : Env) (ifindex flowid : Nat) :
    (found s ifindex flowid = false ∧ free (cfgAt cfg env) s ifindex flowid = s) ∨
    (found s ifindex flowid = true ∧ ifindex < dhdMaxIfs ∧ ∃ node hash l,
      node.ifindex = ifindex ∧ node.flowid = flowid ∧ hash < dhdFlowringHashSize ∧
      (s.flHash (ifindex, hash)).Perm (node :: l) ∧
      (free (cfgAt cfg env) s ifindex flowid).flHash =
        Function.update s.flHash (ifindex, hash) l ∧
      GivenBack cfg s (free (cfgAt cfg env) s ifindex flowid) flowid) := by
  unfold found
  by_cases hi : ifindex < dhdMaxIfs
  · rw [decide_eq_true hi, Bool.true_and]
    cases hslot : slotOf s ifindex flowid with
    | none =>
      refine .inl ⟨rfl, ?_⟩
      unfold free
      rw [if_neg (Nat.not_le.2 hi), hslot]
    | some hashix =>
      obtain ⟨node, l₁, l₂, hid, hchain, hflash, hback⟩ :=
        free_some (cfgAt cfg env) hi hslot
      have hin : node ∈ s.flHash (ifindex, hashix) := by
        rw [hchain]
        exact List.mem_append_right _ List.mem_cons_self
      have hk := (slotOf_some hslot).1
      refine .inr ⟨rfl, hi, node, hashix, l₁ ++ l₂, ?_, hid, hk, ?_, hflash, hback⟩
      · exact h.own ifindex hashix node hi hk hin
      · rw [hchain]
        exact List.perm_middle
  · rw [decide_eq_false hi, Bool.false_and]
    exact .inl ⟨rfl, if_pos (Nat.not_lt.1 hi)⟩

/-- One flow has the id. -/
theorem Inv.live_split (h : Inv cfg s tr) (hn : node ∈ live tr) :
    (live tr).Perm (node :: (live tr).filter fun flow =>
      !(flow.ifindex == node.ifindex && flow.flowid == node.flowid)) := by
  obtain ⟨l₁, l₂, hl⟩ := List.append_of_mem hn
  have hnd := h.nodup.of_append_left
  rw [hl, List.map_append, List.map_cons] at hnd
  have hne : ∀ flow ∈ l₁ ++ l₂, flow.flowid ≠ node.flowid := by
    intro flow hflow heq
    have hnd' := (List.perm_middle.nodup_iff.1 hnd)
    rw [List.nodup_cons, ← List.map_append] at hnd'
    exact hnd'.1 (heq ▸ List.mem_map_of_mem hflow)
  have hkeep : ∀ flow ∈ l₁ ++ l₂,
      (!(flow.ifindex == node.ifindex && flow.flowid == node.flowid)) = true := by
    intro flow hflow
    simp [hne flow hflow]
  rw [hl, List.filter_append, List.filter_cons_of_neg (by simp), ← List.filter_append,
    List.filter_eq_self.2 hkeep]
  exact List.perm_middle

/-- A free that is found: the flow and its node are gone. -/
theorem free_found (h : Inv cfg s tr) (env : Env) {ifindex flowid : Nat}
    (hyes : found s ifindex flowid = true) :
    ∃ node, node.flowid = flowid ∧
      (live tr).Perm (node :: live (tr ++ [(.free env ifindex flowid, .freed true)])) ∧
      (nodes s).Perm (node :: nodes (free (cfgAt cfg env) s ifindex flowid)) := by
  rcases free_cases h env ifindex flowid with ⟨hno, -⟩ |
    ⟨-, hi, node, hash, l, hif, hid, hhash, hl, hflash, -⟩
  · rw [hno] at hyes
    cases hyes
  · have hsplit := h.live_split (h.mem_live hi hhash (hl.mem_iff.2 List.mem_cons_self))
    rw [hif, hid] at hsplit
    have hlive : live (tr ++ [(.free env ifindex flowid, .freed true)]) =
        (live tr).filter fun flow => !(flow.ifindex == ifindex && flow.flowid == flowid) :=
      live_snoc tr _
    refine ⟨node, hid, hlive ▸ hsplit, ?_⟩
    unfold nodes
    rw [hflash]
    exact entries_erase slots_nodup (mem_slots.2 ⟨hi, hhash⟩) hl

theorem free_inv (h : Inv cfg s tr) (env : Env) (ifindex flowid : Nat) :
    Inv cfg (free (cfgAt cfg env) s ifindex flowid)
      (tr ++ [(.free env ifindex flowid, .freed (found s ifindex flowid))]) := by
  rcases free_cases h env ifindex flowid with ⟨hno, hs⟩ |
    ⟨hyes, hi, node, hash, l, hif, hid, hhash, hl, hflash, hback⟩
  · rw [hno, hs]
    exact h.same rfl rfl rfl (live_snoc tr _)
  · rw [hyes]
    obtain ⟨gone, hgone, hsplit, hnodes⟩ := free_found h env hyes
    have hids : (flowid :: ((live (tr ++ [(.free env ifindex flowid, .freed true)])).map
        Node.flowid ++ avail s)).Perm (allIds cfg) := by
      have hmap := hsplit.map Node.flowid
      rw [List.map_cons, hgone] at hmap
      exact (hmap.symm.append_right (avail s)).trans h.ids
    have hsides := hback.sides (hids.mem_iff.1 List.mem_cons_self) h.normal_lt h.htput_ge
    refine ⟨?_, ?_, ?_, ?_, ?_⟩
    · intro i k cur hi' hk hcur
      rw [hflash] at hcur
      by_cases heq : (i, k) = (ifindex, hash)
      · rw [heq, Function.update_self] at hcur
        obtain ⟨rfl, rfl⟩ := Prod.mk.inj heq
        exact h.own _ _ cur hi' hk (hl.mem_iff.2 (List.mem_cons_of_mem _ hcur))
      · rw [Function.update_of_ne heq] at hcur
        exact h.own i k cur hi' hk hcur
    · rw [← List.subperm_cons gone]
      exact (hnodes.symm.subperm.trans h.sub).trans hsplit.subperm
    · exact ((hback.perm.append_left _).trans List.perm_middle).trans hids
    · exact hsides.1
    · exact hsides.2

/-! ## Live flows in the table -/

/-- No flow has lost its node. -/
def Kept (s : Dhd) (tr : Trace) : Prop := (live tr).Subperm (nodes s)

theorem alloc_kept (h : Inv cfg s tr) (hkept : Kept s tr) (env : Env) {ifindex : Nat} (prio : UInt8)
    (da : Ea) (mallocOk htputSta : Bool) (hi : ifindex < dhdMaxIfs)
    (hfind : find (cfgAt cfg env) s ifindex prio da = flowidInvalid) :
    Kept (alloc (cfgAt cfg env) s ifindex prio da mallocOk htputSta).1
      (tr ++ [(.alloc env ifindex prio da mallocOk htputSta,
        .flowid (alloc (cfgAt cfg env) s ifindex prio da mallocOk htputSta).2)]) := by
  obtain ⟨s', flowid, hr, -, hcases⟩ := alloc_cases h env ifindex prio da mallocOk htputSta
  rw [hr]
  unfold Kept
  have hlive := live_snoc tr (.alloc env ifindex prio da mallocOk htputSta, .flowid flowid)
  rcases hcases with ⟨hid, hflash, -⟩ | ⟨hid, -, hash, l, hhash, hflash, hl⟩
  · have hnodes : nodes s' = nodes s := by
      unfold nodes
      rw [hflash]
    rw [hlive.trans (if_pos hid), hnodes]
    exact hkept
  · -- what is replaced was empty, so the node is appended in both cases
    have happ : l = s.flHash (ifindex, hash) ++ [⟨flowid, ifindex, prio, da⟩] := by
      rcases hl with ⟨rfl, hreplaces⟩ | hl
      · rw [hreplaces.empty h hi hhash hfind]
        rfl
      · exact hl
    rw [hlive.trans (if_neg hid)]
    refine (List.perm_append_singleton _ _).subperm.trans ?_
    refine List.Subperm.trans ?_ (nodes_appended hi hhash (happ ▸ hflash)).symm.subperm
    exact (List.subperm_cons _).2 hkept

theorem free_kept (h : Inv cfg s tr) (hkept : Kept s tr) (env : Env) (ifindex flowid : Nat) :
    Kept (free (cfgAt cfg env) s ifindex flowid)
      (tr ++ [(.free env ifindex flowid, .freed (found s ifindex flowid))]) := by
  unfold Kept
  rcases free_cases h env ifindex flowid with ⟨hno, hs⟩ | ⟨hyes, -⟩
  · rw [hno, hs, live_snoc]
    exact hkept
  · rw [hyes]
    obtain ⟨node, -, hsplit, hnodes⟩ := free_found h env hyes
    rw [← List.subperm_cons node]
    exact (hsplit.symm.subperm.trans hkept).trans hnodes.subperm

/-- A flow whose node is in the table can be freed. -/
theorem Kept.found (hkept : Kept s tr) (h : Inv cfg s tr) {flow : Node} (hflow : flow ∈ live tr) :
    found s flow.ifindex flow.flowid = true := by
  obtain ⟨⟨i, k⟩, hslot, hnode⟩ := mem_entries.1 (hkept.subset hflow)
  obtain ⟨hi, hk⟩ := mem_slots.1 hslot
  obtain rfl := h.own i k flow hi hk hnode
  unfold FlowIds.found
  rw [decide_eq_true hi, Bool.true_and]
  cases hof : slotOf s flow.ifindex flow.flowid with
  | none => exact absurd rfl (slotOf_none hof hk hnode)
  | some hashix => rfl

/-! ## When there is no id -/

/-- An allocation fails exactly if none of the allocators admitted has an id. -/
theorem mapAlloc_fails (h : Inv cfg s tr) (env : Env) (ifindex : Nat) (prio : UInt8) (da : Ea)
    (htputSta : Bool) :
    (mapAlloc (cfgAt cfg env) s ifindex prio da htputSta).2 = flowidInvalid ↔
      available s.flowidAllocator = [] ∧
        (admitsHtput (cfgAt cfg env) s ifindex prio da htputSta = true →
          available s.htputFlowidAllocator = []) := by
  have hn : (normalAlloc s).2 = flowidInvalid ↔ available s.flowidAllocator = [] :=
    id16MapAlloc_fails fun id hid => (h.avail_lt (List.mem_append_left _ hid)).1
  have hh : (htputAlloc s).2 = flowidInvalid ↔ available s.htputFlowidAllocator = [] :=
    id16MapAlloc_fails fun id hid => (h.avail_lt (List.mem_append_right _ hid)).1
  have hc : (htputClientAlloc s).2 = (htputAlloc s).2 := by
    unfold htputClientAlloc
    dsimp only
    split
    · rfl
    · rfl
  -- the normal allocator is as it was, where the other one had no id
  have hsame : ∀ r : Dhd × Nat, r = htputMapAlloc (cfgAt cfg env) s ifindex prio da htputSta →
      (normalAlloc r.1).2 = (normalAlloc s).2 := by
    rintro r rfl
    unfold htputMapAlloc htputClientAlloc
    dsimp only
    split
    · split
      · rfl
      · split
        · split
          · rfl
          · rfl
        · rfl
    · rfl
  have hr : ¬((cfgAt cfg env).role ifindex = .p2pClient ∨ (cfgAt cfg env).role ifindex = .p2pGo) →
      ((htputMapAlloc (cfgAt cfg env) s ifindex prio da htputSta).2 = flowidInvalid ↔
        (admitsHtput (cfgAt cfg env) s ifindex prio da htputSta = true →
          available s.htputFlowidAllocator = [])) := by
    intro hp
    rw [not_or] at hp
    unfold htputMapAlloc admitsHtput
    rw [bne_iff_ne.2 hp.1, bne_iff_ne.2 hp.2, Bool.true_and, Bool.true_and]
    by_cases h1 : ((cfgAt cfg env).htputSupport && prio == htputFlowRingPrio) = true
    · rw [if_pos h1, h1, Bool.true_and]
      by_cases h2 : genericSta ((cfgAt cfg env).role ifindex) = true
      · rw [if_pos h2, h2, hh]
        simp
      · rw [if_neg h2, Bool.eq_false_iff.2 h2, Bool.false_or]
        split
        · next h3 =>
          rw [hc, hh, h3]
          simp
        · next h3 => simp [h3]
    · rw [if_neg h1, Bool.eq_false_iff.2 h1]
      simp
  unfold mapAlloc
  by_cases hp : (cfgAt cfg env).role ifindex = .p2pClient ∨ (cfgAt cfg env).role ifindex = .p2pGo
  · rw [if_pos hp, hn]
    unfold admitsHtput
    rcases hp with hp | hp
    · simp [hp]
    · simp [hp]
  · rw [if_neg hp]
    dsimp only
    by_cases hnone : (htputMapAlloc (cfgAt cfg env) s ifindex prio da htputSta).2 = flowidInvalid
    · rw [if_pos hnone, hsame _ rfl, hn]
      exact (and_iff_left ((hr hp).1 hnone)).symm
    · rw [if_neg hnone]
      exact iff_of_false hnone fun hall => hnone ((hr hp).2 hall.2)

theorem step_inv {s' : Dhd} {e : Call} {r : Result} (h : Inv cfg s tr)
    (hs : step cfg s e = some (s', r)) : Inv cfg s' (tr ++ [(e, r)]) := by
  cases e with
  | alloc env ifindex prio da mallocOk htputSta =>
    unfold step at hs
    dsimp only at hs
    split at hs
    · next hi =>
      cases hs
      exact alloc_inv h env prio da mallocOk htputSta hi
    · cases hs
  | free env ifindex flowid =>
    cases hs
    exact free_inv h env ifindex flowid

end

theorem step_kept {cfg : Cfg} {s s' : Dhd} {tr : Trace} {e : Call} {r : Result} (h : Inv cfg s tr)
    (hkept : Kept s tr) (hok : notFound cfg s e = true) (hs : step cfg s e = some (s', r)) :
    Kept s' (tr ++ [(e, r)]) := by
  cases e with
  | alloc env ifindex prio da mallocOk htputSta =>
    unfold step at hs
    dsimp only at hs
    split at hs
    · next hi =>
      cases hs
      exact alloc_kept h hkept env prio da mallocOk htputSta hi (of_decide_eq_true hok)
    · cases hs
  | free env ifindex flowid =>
    cases hs
    exact free_kept h hkept env ifindex flowid

theorem runs_keep_inv {cfg : Cfg} {s : Dhd} {es : List Call} {tr : Trace}
    (h : runs (step cfg) (init cfg) es = some (s, tr)) : Inv cfg s tr :=
  runs_inv (step cfg) (Inv cfg) (fun _ _ _ _ _ hi hs => step_inv hi hs) _ _ es tr (inv_init cfg) h

theorem runs_keep_nodes {cfg : Cfg} {s : Dhd} {es : List Call} {tr : Trace}
    (hm : meets (step cfg) (notFound cfg) (init cfg) es = true)
    (h : runs (step cfg) (init cfg) es = some (s, tr)) : Kept s tr := by
  have hboth := runs_inv_of_meets (step cfg) (notFound cfg) (fun s tr => Inv cfg s tr ∧ Kept s tr)
    (fun _ _ _ _ _ hi hok hs => ⟨step_inv hi.1 hs, step_kept hi.1 hi.2 hok hs⟩) _ _ es tr
    ⟨inv_init cfg, List.nil_subperm⟩ hm h
  exact hboth.2

/-- **Ids are conserved.**  After every run, each id of the flow rings is once on the stack of the
allocator it came from, or with one live flow; there are no other ids; and an allocation whose
memory is there fails exactly if no allocator admitted for the flow has an id.  Where every
allocation follows a find that failed, a live flow is found when it is freed. -/
theorem flow_ids_conserved (cfg : Cfg) (es : List Call) (s : Dhd) (tr : Trace)
    (h : runs (step cfg) (init cfg) es = some (s, tr)) :
    (∀ id ∈ allIds cfg,
      (available s.flowidAllocator).count id + (available s.htputFlowidAllocator).count id +
        ((live tr).map Node.flowid).count id = 1 ∧
      (id ∈ available s.flowidAllocator → id < htputFlowRingStart cfg) ∧
      (id ∈ available s.htputFlowidAllocator → htputFlowRingStart cfg ≤ id)) ∧
    (∀ id, id ∈ available s.flowidAllocator ∨ id ∈ available s.htputFlowidAllocator ∨
      id ∈ (live tr).map Node.flowid → id ∈ allIds cfg) ∧
    (∀ env ifindex prio da htputSta,
      ((alloc (cfgAt cfg env) s ifindex prio da true htputSta).2 = flowidInvalid ↔
        available s.flowidAllocator = [] ∧
          (admitsHtput (cfgAt cfg env) s ifindex prio da htputSta = true →
            available s.htputFlowidAllocator = []))) ∧
    (meets (step cfg) (notFound cfg) (init cfg) es = true →
      ∀ flow ∈ live tr, found s flow.ifindex flow.flowid = true) := by
  have hinv := runs_keep_inv h
  refine ⟨?_, ?_, ?_, fun hm flow hflow => (runs_keep_nodes hm h).found hinv hflow⟩
  · intro id hid
    refine ⟨?_, hinv.normal_lt id, hinv.htput_ge id⟩
    have hcount := hinv.ids.count_eq id
    have hone : (allIds cfg).count id = 1 := List.count_eq_one_of_mem List.nodup_range' hid
    rw [hone] at hcount
    unfold avail at hcount
    rw [List.count_append, List.count_append] at hcount
    omega
  · intro id hid
    rw [← hinv.ids.mem_iff]
    unfold avail
    rw [List.mem_append, List.mem_append]
    tauto
  · intro env ifindex prio da htputSta
    obtain ⟨s', flowid, hr, hid, -⟩ := alloc_cases hinv env ifindex prio da true htputSta
    rw [if_pos rfl] at hid
    rw [hr, ← mapAlloc_fails hinv env ifindex prio da htputSta, hid]

/-- An interface that is first a station, then an access point, with ids 2 to 7. -/
def staThenAp : Cfg where
  role := fun _ => .sta
  tdlsPeers := []
  htputSupport := true
  maxNormalTxFlowRings := 2
  ids_lt := by decide

def staThenApCalls : List Call :=
  let sta : Env := { role := fun _ => .sta, tdlsPeers := [] }
  let ap : Env := { role := fun _ => .ap, tdlsPeers := [] }
  [.alloc sta 0 0 ⟨2, 0, 0, 0, 0, 1⟩ true false, .alloc ap 0 6 ⟨2, 0, 0, 0, 0, 2⟩ true true,
    .free ap 0 7, .alloc ap 0 0 ⟨2, 0, 0, 0, 0, 2⟩ true true]

theorem flow_ids_conserved_two : ∃ s tr,
    runs (step staThenAp) (init staThenAp) staThenApCalls = some (s, tr) ∧
    (∀ id ∈ allIds staThenAp,
      (available s.flowidAllocator).count id + (available s.htputFlowidAllocator).count id +
        ((live tr).map Node.flowid).count id = 1 ∧
      (id ∈ available s.flowidAllocator → id < htputFlowRingStart staThenAp) ∧
      (id ∈ available s.htputFlowidAllocator → htputFlowRingStart staThenAp ≤ id)) ∧
    (live tr).length = 2 ∧ ∀ flow ∈ live tr, found s flow.ifindex flow.flowid = true := by
  obtain ⟨hids, -, -, hfound⟩ := flow_ids_conserved staThenAp staThenApCalls _ _ rfl
  exact ⟨_, _, rfl, hids, rfl, hfound rfl⟩

end Bcmdhd.FlowIds
