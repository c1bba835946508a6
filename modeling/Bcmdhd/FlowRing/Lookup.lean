import Mathlib.Data.List.ProdSigma
import Bcmdhd.Lib.Runs
import Bcmdhd.Lib.Buckets
import Bcmdhd.FlowRing.Id16Map

/-!
# The flow lookup table (`dhd_flowring.c`)

Every interface has a hash table of the flows of its packets.  Where a flow goes
depends on the role of the interface: a station keeps one flow per priority in slot
`prio` and the flows of its TDLS peers in the slot of their address; the other roles
keep multicast in slot 0 and the rest in the slot of address and priority.

    runs (step cfg) (init cfg) es = some (s, tr) →
      (what find returns was allocated for that key ↔ it is not misled by a TDLS flow) ∧
      every live flow is in exactly one node, and can be freed     (lookup_iff_and_live)
-/

namespace Bcmdhd.FlowLookup

open Runs ArrayStack Buckets Id16

/-! ## Keys -/

def dhdMaxIfs : Nat := 16

/-- `FLOWID_RESERVED` -/
def flowidReserved : Nat := 2

/-- `FLOWID_INVALID` -/
def flowidInvalid : Nat := id16Invalid

def dhdFlowringHashSize : Nat := 256

/-- `HTPUT_FLOW_RING_PRIO` -/
def htputFlowRingPrio : UInt8 := 0

def htputNumClientFlowRings : Nat := 3

def htputTotalFlowRings : Nat := 4

/-- An ethernet address. -/
structure Ea where
  b0 : UInt8
  b1 : UInt8
  b2 : UInt8
  b3 : UInt8
  b4 : UInt8
  b5 : UInt8
deriving DecidableEq, Repr

/-- `ETHER_ISMULTI` -/
def isMulti (da : Ea) : Bool := da.b0 &&& 1 != 0

/-- `DHD_FLOWRING_HASHINDEX` -/
def hashIndex (da : Ea) (prio : UInt8) : Nat :=
  (da.b3 ^^^ da.b4 ^^^ da.b5 ^^^ prio).toNat % dhdFlowringHashSize

inductive Role
  | sta
  | ap
  | wds
  | p2pGo
  | p2pClient
  | ibss
  | nan
  | other
deriving DecidableEq, Repr

def genericSta : Role → Bool
  | .sta | .p2pClient | .wds => true
  | _ => false

def multiClient : Role → Bool
  | .ap | .p2pGo | .nan => true
  | _ => false

/-- What stays the same: the roles, the TDLS peers, and the ids to be managed. -/
structure Cfg where
  role : Nat → Role
  tdlsPeers : List Ea
  htputSupport : Bool
  maxNormalTxFlowRings : Nat
  /-- `id16_map_init` asserts that the ids stay below `ID16_INVALID` -/
  ids_lt : flowidReserved + maxNormalTxFlowRings + htputTotalFlowRings < id16Invalid

def htputRings (cfg : Cfg) : Nat := if cfg.htputSupport then htputTotalFlowRings else 0

/-- `dhdp->htput_flow_ring_start` -/
def htputFlowRingStart (cfg : Cfg) : Nat := cfg.maxNormalTxFlowRings + flowidReserved

/-- `dhdp->max_tx_flowid` -/
def maxTxFlowid (cfg : Cfg) : Nat :=
  cfg.maxNormalTxFlowRings + htputRings cfg + flowidReserved - 1

def isTdlsDestination (cfg : Cfg) (da : Ea) : Bool :=
  cfg.tdlsPeers.length != 0 && !isMulti da && cfg.tdlsPeers.contains da

/-! ## The table -/

/-- `flow_hash_info_t`; a chain is the list of its nodes. -/
structure Node where
  flowid : Nat
  ifindex : Nat
  tid : UInt8
  da : Ea
deriving DecidableEq, Repr

structure Dhd where
  /-- `if_flow_lkup[ifindex].fl_hash[hash]` -/
  flHash : Nat × Nat → List Node
  flowidAllocator : Id16Map
  /-- in use exactly when `htput_support` is set -/
  htputFlowidAllocator : Id16Map
  htputClientFlowRings : Nat
  multiClientFlowRings : Nat

def init (cfg : Cfg) : Dhd where
  flHash := fun _ => []
  flowidAllocator := id16MapInit cfg.maxNormalTxFlowRings flowidReserved
  htputFlowidAllocator := id16MapInit (htputRings cfg) (htputFlowRingStart cfg)
  htputClientFlowRings := 0
  multiClientFlowRings := 0

/-- The `flowid` of the first node of a chain that satisfies `p`. -/
def firstFlowid (chain : List Node) (p : Node → Bool) : Nat :=
  match chain.find? p with
  | some cur => cur.flowid
  | none => flowidInvalid

def find (cfg : Cfg) (s : Dhd) (ifindex : Nat) (prio : UInt8) (da : Ea) : Nat :=
  if ifindex ≥ dhdMaxIfs then flowidInvalid
  else if genericSta (cfg.role ifindex) then
    if isTdlsDestination cfg da then
      firstFlowid (s.flHash (ifindex, hashIndex da prio)) fun cur => cur.da == da
    else
      -- For STA non TDLS dest and WDS dest flow ring id is mapped based on prio only
      firstFlowid (s.flHash (ifindex, prio.toNat)) fun _ => true
  else
    let hash := if isMulti da then 0 else hashIndex da prio
    firstFlowid (s.flHash (ifindex, hash)) fun cur =>
      (isMulti da && isMulti cur.da) || (cur.da == da && cur.tid == prio)

/-- `id16_map_alloc(dhdp->flowid_allocator)` -/
def normalAlloc (s : Dhd) : Dhd × Nat :=
  ({ s with flowidAllocator := (id16MapAlloc s.flowidAllocator).1 },
    (id16MapAlloc s.flowidAllocator).2)

/-- `id16_map_alloc(dhdp->htput_flowid_allocator)` -/
def htputAlloc (s : Dhd) : Dhd × Nat :=
  ({ s with htputFlowidAllocator := (id16MapAlloc s.htputFlowidAllocator).1 },
    (id16MapAlloc s.htputFlowidAllocator).2)

/-- One of the `HTPUT_NUM_CLIENT_FLOW_RINGS` rings of the clients. -/
def htputClientAlloc (s : Dhd) : Dhd × Nat :=
  let r := htputAlloc s
  -- increment htput client counter
  if r.2 ≠ flowidInvalid then
    ({ r.1 with htputClientFlowRings := r.1.htputClientFlowRings + 1 }, r.2)
  else r

/-- The high throughput id of a flow, if it is to have one.  `htputSta` is the answer
of `dhd_is_sta_htput`. -/
def htputMapAlloc (cfg : Cfg) (s : Dhd) (ifindex : Nat) (prio : UInt8) (da : Ea)
    (htputSta : Bool) : Dhd × Nat :=
  if cfg.htputSupport && prio == htputFlowRingPrio then
    if genericSta (cfg.role ifindex) then htputAlloc s
    else if multiClient (cfg.role ifindex) && !isMulti da && htputSta &&
        decide (s.htputClientFlowRings < htputNumClientFlowRings) then htputClientAlloc s
    else (s, flowidInvalid)
  else (s, flowidInvalid)

def mapAlloc (cfg : Cfg) (s : Dhd) (ifindex : Nat) (prio : UInt8) (da : Ea) (htputSta : Bool) :
    Dhd × Nat :=
  -- P2P Connections are always 80Mhz
  if cfg.role ifindex = .p2pClient ∨ cfg.role ifindex = .p2pGo then normalAlloc s
  else
    let r := htputMapAlloc cfg s ifindex prio da htputSta
    if r.2 = flowidInvalid then normalAlloc r.1 else r

/-- The new node goes to the end of its chain; a station's flow for a priority
replaces what is in its slot. -/
def insertNode (cfg : Cfg) (s : Dhd) (node : Node) : Dhd :=
  let append (hash : Nat) : Dhd :=
    { s with
      flHash := Function.update s.flHash (node.ifindex, hash)
        (s.flHash (node.ifindex, hash) ++ [node]) }
  if genericSta (cfg.role node.ifindex) then
    if isTdlsDestination cfg node.da then append (hashIndex node.da node.tid)
    else { s with flHash := Function.update s.flHash (node.ifindex, node.tid.toNat) [node] }
  else append (if isMulti node.da then 0 else hashIndex node.da node.tid)

/-- `mallocOk`: the allocation of the node succeeds. -/
def alloc (cfg : Cfg) (s : Dhd) (ifindex : Nat) (prio : UInt8) (da : Ea)
    (mallocOk htputSta : Bool) : Dhd × Nat :=
  if !mallocOk then (s, flowidInvalid)
  else
    let r := mapAlloc cfg s ifindex prio da htputSta
    if r.2 = flowidInvalid then (r.1, flowidInvalid)
    else
      let s := insertNode cfg r.1 ⟨r.2, ifindex, prio, da⟩
      if r.2 > maxTxFlowid cfg then (s, flowidInvalid) else (s, r.2)

/-- `DHD_IS_FLOWID_HTPUT` -/
def isFlowidHtput (cfg : Cfg) (flowid : Nat) : Bool :=
  cfg.htputSupport && decide (flowid ≥ htputFlowRingStart cfg) &&
    decide (flowid < htputFlowRingStart cfg + htputTotalFlowRings)

def mapFree (cfg : Cfg) (s : Dhd) (ifindex flowid : Nat) : Dhd :=
  if cfg.htputSupport && isFlowidHtput cfg flowid then
    { s with
      htputFlowidAllocator := id16MapFree s.htputFlowidAllocator flowid
      -- a `uint16`
      htputClientFlowRings :=
        if multiClient (cfg.role ifindex) then (s.htputClientFlowRings + 0xffff) % 0x10000
        else s.htputClientFlowRings }
  else { s with flowidAllocator := id16MapFree s.flowidAllocator flowid }

/-- The first slot, from 0 on, whose chain has a node of this flow. -/
def slotOf (s : Dhd) (ifindex flowid : Nat) : Option Nat :=
  (List.range dhdFlowringHashSize).find? fun hashix =>
    (s.flHash (ifindex, hashix)).any fun cur => cur.flowid == flowid

def free (cfg : Cfg) (s : Dhd) (ifindex flowid : Nat) : Dhd :=
  if ifindex ≥ dhdMaxIfs then s
  else
    match slotOf s ifindex flowid with
    | none => s
    | some hashix =>
      let s :=
        { s with
          flHash := Function.update s.flHash (ifindex, hashix)
            ((s.flHash (ifindex, hashix)).eraseP fun cur => cur.flowid == flowid)
          multiClientFlowRings :=
            if multiClient (cfg.role ifindex) then s.multiClientFlowRings - 1
            else s.multiClientFlowRings }
      mapFree cfg s ifindex flowid

inductive Call
  | find (ifindex : Nat) (prio : UInt8) (da : Ea)
  | alloc (ifindex : Nat) (prio : UInt8) (da : Ea) (mallocOk htputSta : Bool)
  | free (ifindex flowid : Nat)
deriving DecidableEq, Repr

inductive Result
  | flowid (f : Nat)
  | done
deriving DecidableEq, Repr

/-- A flow is only allocated where `find` did not find it. -/
def step (cfg : Cfg) (s : Dhd) : Call → Option (Dhd × Result)
  | .find ifindex prio da => some (s, .flowid (find cfg s ifindex prio da))
  | .alloc ifindex prio da mallocOk htputSta =>
    if ifindex < dhdMaxIfs ∧ find cfg s ifindex prio da = flowidInvalid then
      let r := alloc cfg s ifindex prio da mallocOk htputSta
      some (r.1, .flowid r.2)
    else none
  | .free ifindex flowid => some (free cfg s ifindex flowid, .done)

/-! ## What callers know from the calls -/

abbrev Trace := List (Call × Result)

/-- The effect of a call on the flows that were allocated and not freed. -/
def liveStep (live : List Node) : Call × Result → List Node
  | (.alloc ifindex prio da _ _, .flowid f) =>
    if f = flowidInvalid then live else live ++ [⟨f, ifindex, prio, da⟩]
  | (.free ifindex f, _) => live.filter fun flow => !(flow.ifindex == ifindex && flow.flowid == f)
  | _ => live

def live (tr : Trace) : List Node := tr.foldl liveStep []

/-- The flow was allocated for this key of its interface. -/
def sameKey (cfg : Cfg) (flow : Node) (prio : UInt8) (da : Ea) : Bool :=
  if genericSta (cfg.role flow.ifindex) then
    if isTdlsDestination cfg da then flow.da == da && flow.tid == prio
    else !isTdlsDestination cfg flow.da && flow.tid == prio
  else (isMulti da && isMulti flow.da) || (flow.da == da && flow.tid == prio)

/-- A station looks up a priority, and a TDLS peer's flow heads the slot. -/
def misled (cfg : Cfg) (s : Dhd) (ifindex : Nat) (prio : UInt8) (da : Ea) : Bool :=
  genericSta (cfg.role ifindex) && !isTdlsDestination cfg da &&
    (s.flHash (ifindex, prio.toNat)).head?.any fun cur => isTdlsDestination cfg cur.da

/-! ## Lemmas -/

theorem hashIndex_lt (da : Ea) (prio : UInt8) : hashIndex da prio < dhdFlowringHashSize :=
  Nat.mod_lt _ (by decide)

/-- One address hashes different priorities to different slots. -/
theorem hashIndex_inj {da : Ea} {p q : UInt8} (h : hashIndex da p = hashIndex da q) : p = q := by
  unfold hashIndex dhdFlowringHashSize at h
  have hp := (da.b3 ^^^ da.b4 ^^^ da.b5 ^^^ p).toNat_lt
  have hq := (da.b3 ^^^ da.b4 ^^^ da.b5 ^^^ q).toNat_lt
  rw [Nat.mod_eq_of_lt hp, Nat.mod_eq_of_lt hq] at h
  have hx := UInt8.toNat_inj.1 h
  exact (UInt8.xor_right_inj _).1 hx

/-- The slot a flow belongs to. -/
def homeSlot (cfg : Cfg) (node : Node) : Nat :=
  if genericSta (cfg.role node.ifindex) then
    if isTdlsDestination cfg node.da then hashIndex node.da node.tid else node.tid.toNat
  else if isMulti node.da then 0 else hashIndex node.da node.tid

theorem homeSlot_lt (cfg : Cfg) (node : Node) : homeSlot cfg node < dhdFlowringHashSize := by
  have h1 := hashIndex_lt node.da node.tid
  have h2 := node.tid.toNat_lt
  unfold homeSlot
  split
  · split
    · exact h1
    · exact h2
  · split
    · decide
    · exact h1

/-- All slots of all interfaces. -/
def slots : List (Nat × Nat) :=
  List.product (List.range dhdMaxIfs) (List.range dhdFlowringHashSize)

theorem slots_nodup : slots.Nodup := List.nodup_range.product List.nodup_range

theorem mem_slots {i h : Nat} : (i, h) ∈ slots ↔ i < dhdMaxIfs ∧ h < dhdFlowringHashSize := by
  unfold slots
  rw [List.pair_mem_product, List.mem_range, List.mem_range]

def nodes (s : Dhd) : List Node := entries slots s.flHash

/-- The ids that are available. -/
def avail (s : Dhd) : List Nat :=
  available s.flowidAllocator ++ available s.htputFlowidAllocator

/-- All ids of the flow rings. -/
def allIds (cfg : Cfg) : List Nat :=
  List.range' flowidReserved (cfg.maxNormalTxFlowRings + htputRings cfg)

variable {cfg : Cfg} {s s' : Dhd} {tr : Trace} {node : Node} {id ifindex flowid : Nat}

theorem lt_of_mem_allIds (h : id ∈ allIds cfg) :
    id < flowidInvalid ∧ id ≤ maxTxFlowid cfg := by
  have hlt := cfg.ids_lt
  have hrings : htputRings cfg ≤ htputTotalFlowRings := by
    unfold htputRings
    split
    · exact Nat.le_refl _
    · exact Nat.zero_le _
  unfold allIds at h
  rw [List.mem_range'_1] at h
  unfold flowidInvalid maxTxFlowid
  omega

/-- **The invariant.**  Nodes are in their home slot, they are the live flows, and every
id is used by one node or available in its own allocator. -/
structure Inv (cfg : Cfg) (s : Dhd) (tr : Trace) : Prop where
  home : ∀ i h node, i < dhdMaxIfs → h < dhdFlowringHashSize → node ∈ s.flHash (i, h) →
    node.ifindex = i ∧ homeSlot cfg node = h
  perm : (nodes s).Perm (live tr)
  ids : ((nodes s).map Node.flowid ++ avail s).Perm (allIds cfg)
  normal_lt : ∀ id ∈ available s.flowidAllocator, id < htputFlowRingStart cfg
  htput_ge : ∀ id ∈ available s.htputFlowidAllocator, htputFlowRingStart cfg ≤ id

theorem live_snoc (tr : Trace) (e : Call × Result) : live (tr ++ [e]) = liveStep (live tr) e := by
  simp [live, List.foldl_append]

theorem nodes_init (cfg : Cfg) : nodes (init cfg) = [] := by
  unfold nodes entries
  rw [List.flatMap_eq_nil_iff]
  intro k _
  rfl

theorem inv_init (cfg : Cfg) : Inv cfg (init cfg) [] where
  home := by
    intro i h node _ _ hn
    cases hn
  perm := by
    rw [nodes_init]
    exact List.Perm.refl []
  ids := by
    have hn : available (init cfg).flowidAllocator =
        List.range' flowidReserved cfg.maxNormalTxFlowRings := available_init _ _
    have hh : available (init cfg).htputFlowidAllocator =
        List.range' (flowidReserved + cfg.maxNormalTxFlowRings) (htputRings cfg) := by
      rw [Nat.add_comm]
      exact available_init _ _
    unfold avail allIds
    rw [nodes_init, hn, hh, List.map_nil, List.nil_append, List.range'_append_1]
  normal_lt := by
    intro id hid
    unfold init at hid
    rw [available_init, List.mem_range'_1] at hid
    unfold htputFlowRingStart
    omega
  htput_ge := by
    intro id hid
    unfold init at hid
    rw [available_init, List.mem_range'_1] at hid
    exact hid.1

section
variable {cfg : Cfg} {s : Dhd} {tr : Trace}

theorem Inv.ids_nodup (h : Inv cfg s tr) : ((nodes s).map Node.flowid ++ avail s).Nodup :=
  (h.ids.nodup_iff).2 List.nodup_range'

theorem Inv.mem_nodes (h : Inv cfg s tr) :
    node ∈ nodes s ↔ node.ifindex < dhdMaxIfs ∧ node ∈ s.flHash (node.ifindex, homeSlot cfg node) := by
  unfold nodes
  rw [mem_entries]
  constructor
  · rintro ⟨⟨i, hh⟩, hk, hn⟩
    obtain ⟨hi, hlt⟩ := mem_slots.1 hk
    obtain ⟨rfl, rfl⟩ := h.home i hh node hi hlt hn
    exact ⟨hi, hn⟩
  · rintro ⟨hi, hn⟩
    exact ⟨_, mem_slots.2 ⟨hi, homeSlot_lt cfg node⟩, hn⟩

/-- A node is known by its id. -/
theorem Inv.eq_of_flowid (h : Inv cfg s tr) {a b : Node} (ha : a ∈ nodes s) (hb : b ∈ nodes s)
    (hab : a.flowid = b.flowid) : a = b :=
  List.inj_on_of_nodup_map h.ids_nodup.of_append_left ha hb hab

theorem Inv.flowid_lt (h : Inv cfg s tr) (hn : node ∈ nodes s) :
    node.flowid < flowidInvalid ∧ node.flowid ≤ maxTxFlowid cfg := by
  apply lt_of_mem_allIds
  rw [← h.ids.mem_iff, List.mem_append]
  exact .inl (List.mem_map_of_mem hn)

theorem Inv.avail_lt (h : Inv cfg s tr) (hid : id ∈ avail s) :
    id < flowidInvalid ∧ id ≤ maxTxFlowid cfg := by
  apply lt_of_mem_allIds
  rw [← h.ids.mem_iff, List.mem_append]
  exact .inr hid

/-- A chain of a valid slot has its nodes in the table. -/
theorem Inv.chain_mem (h : Inv cfg s tr) {i k : Nat} (hi : i < dhdMaxIfs)
    (hk : k < dhdFlowringHashSize) (hn : node ∈ s.flHash (i, k)) :
    node ∈ nodes s ∧ node.ifindex = i ∧ homeSlot cfg node = k :=
  ⟨mem_entries.2 ⟨_, mem_slots.2 ⟨hi, hk⟩, hn⟩, h.home i k node hi hk hn⟩

end

/-! ## Allocation -/

/-- The id was taken from one of the allocators. -/
def Taken (s s' : Dhd) (id : Nat) : Prop :=
  (available s.flowidAllocator = available s'.flowidAllocator ++ [id] ∧
      available s'.htputFlowidAllocator = available s.htputFlowidAllocator) ∨
    (available s'.flowidAllocator = available s.flowidAllocator ∧
      available s.htputFlowidAllocator = available s'.htputFlowidAllocator ++ [id])

theorem Taken.perm (h : Taken s s' id) :
    (avail s).Perm (id :: avail s') := by
  unfold avail
  rcases h with ⟨hn, hh⟩ | ⟨hn, hh⟩
  · rw [hn, hh, List.append_assoc]
    exact List.perm_middle
  · rw [hn, hh, ← List.append_assoc]
    exact List.perm_append_singleton _ _

/-- What is left was there before. -/
theorem Taken.subset (h : Taken s s' id) :
    available s'.flowidAllocator ⊆ available s.flowidAllocator ∧
      available s'.htputFlowidAllocator ⊆ available s.htputFlowidAllocator := by
  rcases h with ⟨hn, hh⟩ | ⟨hn, hh⟩
  · rw [hn, hh]
    exact ⟨List.subset_append_left _ _, List.Subset.refl _⟩
  · rw [hn, hh]
    exact ⟨List.Subset.refl _, List.subset_append_left _ _⟩

/-- No id is available in `r`, or the id comes from one of the allocators of `s`. -/
def Took (s : Dhd) (r : Dhd × Nat) : Prop :=
  r.1.flHash = s.flHash ∧
  ((r.2 = flowidInvalid ∧ available r.1.flowidAllocator = available s.flowidAllocator ∧
      available r.1.htputFlowidAllocator = available s.htputFlowidAllocator) ∨
    (available s.flowidAllocator = available r.1.flowidAllocator ++ [r.2] ∧
      available r.1.htputFlowidAllocator = available s.htputFlowidAllocator) ∨
    (available r.1.flowidAllocator = available s.flowidAllocator ∧
      available s.htputFlowidAllocator = available r.1.htputFlowidAllocator ++ [r.2]))

theorem took_normalAlloc (s : Dhd) : Took s (normalAlloc s) := by
  refine ⟨rfl, ?_⟩
  rcases id16MapAlloc_cases s.flowidAllocator with ⟨ha, hid⟩ | ha
  · exact .inl ⟨hid, ha, rfl⟩
  · exact .inr (.inl ⟨ha, rfl⟩)

theorem took_htputAlloc (s : Dhd) : Took s (htputAlloc s) := by
  refine ⟨rfl, ?_⟩
  rcases id16MapAlloc_cases s.htputFlowidAllocator with ⟨ha, hid⟩ | ha
  · exact .inl ⟨hid, rfl, ha⟩
  · exact .inr (.inr ⟨rfl, ha⟩)

/-- Where the first allocator had no id, the second one is asked. -/
theorem took_then {r : Dhd × Nat} (hlt : ∀ id ∈ avail s, id < flowidInvalid) (h : Took s r)
    (hr : r.2 = flowidInvalid) : Took s (normalAlloc r.1) := by
  have hsame : available r.1.flowidAllocator = available s.flowidAllocator ∧
      available r.1.htputFlowidAllocator = available s.htputFlowidAllocator := by
    rcases h.2 with ⟨-, hn, hh⟩ | ⟨hn, -⟩ | ⟨-, hh⟩
    · exact ⟨hn, hh⟩
    · have hid := hlt r.2 (by simp [avail, hn])
      omega
    · have hid := hlt r.2 (by simp [avail, hh])
      omega
  have hnext := took_normalAlloc r.1
  unfold Took at hnext ⊢
  rw [h.1, hsame.1, hsame.2] at hnext
  exact hnext

theorem took_htputMapAlloc (cfg : Cfg) (s : Dhd) (ifindex : Nat) (prio : UInt8) (da : Ea)
    (htputSta : Bool) : Took s (htputMapAlloc cfg s ifindex prio da htputSta) := by
  have hnone : Took s (s, flowidInvalid) := ⟨rfl, .inl ⟨rfl, rfl, rfl⟩⟩
  have hclient : Took s (htputClientAlloc s) := by
    unfold htputClientAlloc
    dsimp only
    split
    · exact took_htputAlloc s
    · exact took_htputAlloc s
  unfold htputMapAlloc
  split
  · split
    · exact took_htputAlloc s
    · split
      · exact hclient
      · exact hnone
  · exact hnone

theorem took_mapAlloc (hlt : ∀ id ∈ avail s, id < flowidInvalid) (ifindex : Nat) (prio : UInt8)
    (da : Ea) (htputSta : Bool) :
    Took s (mapAlloc cfg s ifindex prio da htputSta) := by
  have hr := took_htputMapAlloc cfg s ifindex prio da htputSta
  unfold mapAlloc
  split
  · exact took_normalAlloc s
  · dsimp only
    split
    · next hid => exact took_then hlt hr hid
    · exact hr

theorem find_congr (h : s'.flHash = s.flHash) (ifindex : Nat) (prio : UInt8) (da : Ea) :
    find cfg s' ifindex prio da = find cfg s ifindex prio da := by
  unfold find
  rw [h]

theorem firstFlowid_append {l l' : List Node} {p : Node → Bool} (h : firstFlowid l p = id)
    (hid : id ≠ flowidInvalid) : firstFlowid (l ++ l') p = id := by
  unfold firstFlowid at h ⊢
  rw [List.find?_append]
  cases hf : l.find? p with
  | none =>
    rw [hf] at h
    exact absurd h.symm hid
  | some cur =>
    rw [hf] at h
    exact h

theorem firstFlowid_snoc {l : List Node} {p : Node → Bool}
    (hvalid : ∀ cur ∈ l, cur.flowid < flowidInvalid) (h : firstFlowid l p = flowidInvalid)
    (hp : p node = true) : firstFlowid (l ++ [node]) p = node.flowid := by
  unfold firstFlowid at h ⊢
  rw [List.find?_append]
  cases hf : l.find? p with
  | none => simp [hp]
  | some cur =>
    rw [hf] at h
    have hlt := hvalid cur (List.mem_of_find?_eq_some hf)
    exact absurd h (Nat.ne_of_lt hlt)

/-- A node of another flow that is unlinked is not missed. -/
theorem firstFlowid_unlink {l₁ l₂ : List Node} {p : Node → Bool}
    (h : firstFlowid (l₁ ++ node :: l₂) p = id) (hid : node.flowid ≠ id) :
    firstFlowid (l₁ ++ l₂) p = id := by
  unfold firstFlowid at h ⊢
  rw [List.find?_append] at h ⊢
  cases hf : l₁.find? p with
  | some cur =>
    rw [hf] at h
    exact h
  | none =>
    rw [hf] at h
    rw [List.find?_cons] at h
    cases hp : p node with
    | true =>
      rw [hp] at h
      exact absurd h hid
    | false =>
      rw [hp] at h
      exact h

/-- Where `find` fails, the new node is appended to the chain of its home slot. -/
theorem insertNode_flHash (hi : node.ifindex < dhdMaxIfs)
    (hfind : find cfg s node.ifindex node.tid node.da = flowidInvalid)
    (hvalid : ∀ cur ∈ s.flHash (node.ifindex, homeSlot cfg node), cur.flowid < flowidInvalid) :
    (insertNode cfg s node).flHash =
      Function.update s.flHash (node.ifindex, homeSlot cfg node)
        (s.flHash (node.ifindex, homeSlot cfg node) ++ [node]) := by
  unfold insertNode
  unfold homeSlot at hvalid ⊢
  unfold find at hfind
  rw [if_neg (by omega)] at hfind
  split
  · next hsta =>
    rw [if_pos hsta] at hfind hvalid
    split
    · rfl
    · next htdls =>
      rw [if_neg htdls] at hfind hvalid
      -- `find` trusts the head of this slot, so the slot is empty
      have hnil : s.flHash (node.ifindex, node.tid.toNat) = [] := by
        cases hc : s.flHash (node.ifindex, node.tid.toNat) with
        | nil => rfl
        | cons cur rest =>
          rw [hc] at hfind hvalid
          have hlt := hvalid cur (List.mem_cons_self)
          have heq : cur.flowid = flowidInvalid := hfind
          omega
      rw [hnil]
      rfl
  · rfl

theorem insertNode_allocators (cfg : Cfg) (s : Dhd) (node : Node) :
    (insertNode cfg s node).flowidAllocator = s.flowidAllocator ∧
      (insertNode cfg s node).htputFlowidAllocator = s.htputFlowidAllocator := by
  unfold insertNode
  split
  · split
    · exact ⟨rfl, rfl⟩
    · exact ⟨rfl, rfl⟩
  · exact ⟨rfl, rfl⟩

/-- What an allocation does: nothing that shows, or an id is taken and its node inserted. -/
theorem alloc_taken (havail : ∀ id ∈ avail s, id < flowidInvalid ∧ id ≤ maxTxFlowid cfg)
    (ifindex : Nat) (prio : UInt8) (da : Ea) (mallocOk htputSta : Bool) :
    ∃ s' flowid, alloc cfg s ifindex prio da mallocOk htputSta = (s', flowid) ∧
      flowid = (if mallocOk then (mapAlloc cfg s ifindex prio da htputSta).2
        else flowidInvalid) ∧
      ((flowid = flowidInvalid ∧ s'.flHash = s.flHash ∧
          available s'.flowidAllocator = available s.flowidAllocator ∧
          available s'.htputFlowidAllocator = available s.htputFlowidAllocator) ∨
        (flowid ≠ flowidInvalid ∧ Taken s s' flowid ∧ ∃ s₁ : Dhd, s₁.flHash = s.flHash ∧
          s'.flHash = (insertNode cfg s₁ ⟨flowid, ifindex, prio, da⟩).flHash)) := by
  cases hm : mallocOk with
  | false =>
    refine ⟨s, flowidInvalid, ?_, rfl, .inl ⟨rfl, rfl, rfl, rfl⟩⟩
    simp [alloc]
  | true =>
    have htook : Took s (mapAlloc cfg s ifindex prio da htputSta) :=
      took_mapAlloc (fun id hid => (havail id hid).1) ifindex prio da htputSta
    obtain ⟨⟨s₁, flowid⟩, hr⟩ : ∃ r, mapAlloc cfg s ifindex prio da htputSta = r := ⟨_, rfl⟩
    rw [hr] at htook
    obtain ⟨hflash, htook⟩ := htook
    by_cases hid : flowid = flowidInvalid
    · refine ⟨s₁, flowidInvalid, ?_, ?_, .inl ⟨rfl, hflash, ?_⟩⟩
      · simp [alloc, hr, hid]
      · rw [if_pos rfl, hr]
        exact hid.symm
      · rcases htook with ⟨-, hn, hh⟩ | ⟨hn, -⟩ | ⟨-, hh⟩
        · exact ⟨hn, hh⟩
        · exact absurd hid (Nat.ne_of_lt (havail _ (by simp [avail, hn])).1)
        · exact absurd hid (Nat.ne_of_lt (havail _ (by simp [avail, hh])).1)
    · have htaken : Taken s s₁ flowid := htook.resolve_left fun hc => hid hc.1
      have hmax := (havail _ (htaken.perm.mem_iff.2 List.mem_cons_self)).2
      obtain ⟨hn', hh'⟩ := insertNode_allocators cfg s₁ ⟨flowid, ifindex, prio, da⟩
      refine ⟨insertNode cfg s₁ ⟨flowid, ifindex, prio, da⟩, flowid, ?_, ?_,
        .inr ⟨hid, ?_, s₁, hflash, rfl⟩⟩
      · simp [alloc, hr, hid, Nat.not_lt.2 hmax]
      · rw [if_pos rfl, hr]
      · unfold Taken
        rw [hn', hh']
        exact htaken

/-- Where `find` failed, the new node is appended to the chain of its home slot. -/
theorem alloc_cases (h : Inv cfg s tr) (prio : UInt8) (da : Ea) (mallocOk htputSta : Bool)
    (hi : ifindex < dhdMaxIfs) (hfind : find cfg s ifindex prio da = flowidInvalid) :
    ∃ s' flowid, alloc cfg s ifindex prio da mallocOk htputSta = (s', flowid) ∧
      ((flowid = flowidInvalid ∧ s'.flHash = s.flHash ∧
          available s'.flowidAllocator = available s.flowidAllocator ∧
          available s'.htputFlowidAllocator = available s.htputFlowidAllocator) ∨
        (flowid ≠ flowidInvalid ∧ ∃ node : Node, node = ⟨flowid, ifindex, prio, da⟩ ∧
          s'.flHash = Function.update s.flHash (ifindex, homeSlot cfg node)
            (s.flHash (ifindex, homeSlot cfg node) ++ [node]) ∧ Taken s s' flowid)) := by
  obtain ⟨s', flowid, hr, -, hsame | ⟨hid, htaken, s₁, hflash, hins⟩⟩ :=
    alloc_taken (fun _ hid => h.avail_lt hid) ifindex prio da mallocOk htputSta
  · exact ⟨s', flowid, hr, .inl hsame⟩
  · refine ⟨s', flowid, hr, .inr ⟨hid, _, rfl, ?_, htaken⟩⟩
    rw [hins, insertNode_flHash hi ((find_congr hflash _ _ _).trans hfind), hflash]
    intro cur hcur
    rw [hflash] at hcur
    exact (h.flowid_lt (h.chain_mem hi (homeSlot_lt _ _) hcur).1).1

theorem Inv.same {tr' : Trace} (h : Inv cfg s tr) (hflash : s'.flHash = s.flHash)
    (hn : available s'.flowidAllocator = available s.flowidAllocator)
    (hh : available s'.htputFlowidAllocator = available s.htputFlowidAllocator)
    (hlive : live tr' = live tr) : Inv cfg s' tr' := by
  have hnodes : nodes s' = nodes s := by
    unfold nodes
    rw [hflash]
  refine ⟨?_, ?_, ?_, ?_, ?_⟩
  · rw [hflash]
    exact h.home
  · rw [hlive, hnodes]
    exact h.perm
  · unfold avail
    rw [hnodes, hn, hh]
    exact h.ids
  · rw [hn]
    exact h.normal_lt
  · rw [hh]
    exact h.htput_ge

/-- A chain that changed keeps its nodes in their home slot. -/
theorem home_update {hash : Nat} {l : List Node}
    (h : ∀ i k node, i < dhdMaxIfs → k < dhdFlowringHashSize → node ∈ s.flHash (i, k) →
      node.ifindex = i ∧ homeSlot cfg node = k)
    (hl : ∀ node ∈ l, node.ifindex = ifindex ∧ homeSlot cfg node = hash) (i k : Nat) (node : Node)
    (hi : i < dhdMaxIfs) (hk : k < dhdFlowringHashSize)
    (hn : node ∈ Function.update s.flHash (ifindex, hash) l (i, k)) :
    node.ifindex = i ∧ homeSlot cfg node = k := by
  by_cases heq : (i, k) = (ifindex, hash)
  · rw [heq, Function.update_self] at hn
    obtain ⟨rfl, rfl⟩ := Prod.mk.inj heq
    exact hl node hn
  · rw [Function.update_of_ne heq] at hn
    exact h i k node hi hk hn

theorem alloc_inv (h : Inv cfg s tr) (prio : UInt8) (da : Ea) (mallocOk htputSta : Bool)
    (hi : ifindex < dhdMaxIfs) (hfind : find cfg s ifindex prio da = flowidInvalid) :
    Inv cfg (alloc cfg s ifindex prio da mallocOk htputSta).1
      (tr ++ [(.alloc ifindex prio da mallocOk htputSta,
        .flowid (alloc cfg s ifindex prio da mallocOk htputSta).2)]) := by
  obtain ⟨s', flowid, hr, hcases⟩ := alloc_cases h prio da mallocOk htputSta hi hfind
  rw [hr]
  have hlive := live_snoc tr (.alloc ifindex prio da mallocOk htputSta, .flowid flowid)
  rcases hcases with ⟨hid, hflash, hn, hh⟩ | ⟨hid, node, hnode, hflash, htaken⟩
  · exact h.same hflash hn hh (hlive.trans (if_pos hid))
  · have hgrow : live (tr ++ [(.alloc ifindex prio da mallocOk htputSta, .flowid flowid)]) =
        live tr ++ [node] := by
      rw [hlive, hnode]
      exact if_neg hid
    have hnif : node.ifindex = ifindex := by rw [hnode]
    have hnid : node.flowid = flowid := by rw [hnode]
    have hslot : homeSlot cfg node < dhdFlowringHashSize := homeSlot_lt cfg node
    have hnodes : (nodes s').Perm (node :: nodes s) := by
      unfold nodes
      rw [hflash]
      exact entries_insert slots_nodup (mem_slots.2 ⟨hi, hslot⟩) List.perm_append_comm
    refine ⟨?_, ?_, ?_, ?_, ?_⟩
    · rw [hflash]
      apply home_update h.home
      intro cur hcur
      rcases List.mem_append.1 hcur with hcur | hcur
      · exact h.home _ _ cur hi hslot hcur
      · rw [List.mem_singleton.1 hcur]
        exact ⟨hnif, rfl⟩
    · rw [hgrow]
      exact hnodes.trans ((h.perm.cons node).trans (List.perm_append_singleton _ _).symm)
    · have hmap := hnodes.map Node.flowid
      rw [List.map_cons, hnid] at hmap
      refine (hmap.append_right (avail s')).trans (List.Perm.trans ?_ h.ids)
      exact List.perm_middle.symm.trans (htaken.perm.symm.append_left _)
    · exact fun id hmem => h.normal_lt id (htaken.subset.1 hmem)
    · exact fun id hmem => h.htput_ge id (htaken.subset.2 hmem)

/-! ## Freeing -/

/-- The allocator that manages this id. -/
def allocatorOf (cfg : Cfg) (s : Dhd) (flowid : Nat) : Id16Map :=
  if isFlowidHtput cfg flowid then s.htputFlowidAllocator else s.flowidAllocator

theorem mapFree_flHash (cfg : Cfg) (s : Dhd) (ifindex flowid : Nat) :
    (mapFree cfg s ifindex flowid).flHash = s.flHash := by
  unfold mapFree
  split
  · rfl
  · rfl

theorem isFlowidHtput_support (h : isFlowidHtput cfg flowid = true) :
    cfg.htputSupport = true := by
  unfold isFlowidHtput at h
  rw [Bool.and_eq_true, Bool.and_eq_true] at h
  exact h.1.1

/-- The ids of the flow rings are split between the allocators at `htput_flow_ring_start`. -/
theorem isFlowidHtput_iff (h : flowid ∈ allIds cfg) :
    isFlowidHtput cfg flowid = true ↔ htputFlowRingStart cfg ≤ flowid := by
  unfold allIds htputRings at h
  rw [List.mem_range'_1] at h
  unfold isFlowidHtput
  cases hs : cfg.htputSupport with
  | false =>
    rw [hs, if_neg (by decide)] at h
    unfold htputFlowRingStart
    simp
    omega
  | true =>
    rw [hs, if_pos rfl] at h
    unfold htputFlowRingStart
    simp
    omega

/-- The id was given back to its allocator. -/
def GivenBack (cfg : Cfg) (s s' : Dhd) (id : Nat) : Prop :=
  (isFlowidHtput cfg id = true ∧
      available s'.flowidAllocator = available s.flowidAllocator ∧
      available s'.htputFlowidAllocator = available s.htputFlowidAllocator ++ [id]) ∨
    (isFlowidHtput cfg id = false ∧
      available s'.flowidAllocator = available s.flowidAllocator ++ [id] ∧
      available s'.htputFlowidAllocator = available s.htputFlowidAllocator)

theorem GivenBack.perm (h : GivenBack cfg s s' id) :
    (avail s').Perm (id :: avail s) := by
  unfold avail
  rcases h with ⟨-, hn, hh⟩ | ⟨-, hn, hh⟩
  · rw [hn, hh, ← List.append_assoc]
    exact List.perm_append_singleton _ _
  · rw [hn, hh, List.append_assoc]
    exact List.perm_middle

/-- The allocators stay on their sides of `htput_flow_ring_start`. -/
theorem GivenBack.sides (h : GivenBack cfg s s' id) (hid : id ∈ allIds cfg)
    (hlt : ∀ x ∈ available s.flowidAllocator, x < htputFlowRingStart cfg)
    (hge : ∀ x ∈ available s.htputFlowidAllocator, htputFlowRingStart cfg ≤ x) :
    (∀ x ∈ available s'.flowidAllocator, x < htputFlowRingStart cfg) ∧
      ∀ x ∈ available s'.htputFlowidAllocator, htputFlowRingStart cfg ≤ x := by
  rcases h with ⟨hf, hn, hh⟩ | ⟨hf, hn, hh⟩
  · rw [hn, hh]
    refine ⟨hlt, ?_⟩
    intro x hx
    rcases List.mem_append.1 hx with hx | hx
    · exact hge x hx
    · rw [List.mem_singleton.1 hx]
      exact (isFlowidHtput_iff hid).1 hf
  · rw [hn, hh]
    refine ⟨?_, hge⟩
    intro x hx
    rcases List.mem_append.1 hx with hx | hx
    · exact hlt x hx
    · rw [List.mem_singleton.1 hx]
      rw [← Bool.not_eq_true, isFlowidHtput_iff hid] at hf
      exact Nat.not_le.1 hf

/-- A freed id is available in its allocator, and nothing else changes. -/
theorem mapFree_available (cfg : Cfg) (s : Dhd) (ifindex flowid : Nat) :
    GivenBack cfg s (mapFree cfg s ifindex flowid) flowid := by
  unfold GivenBack
  unfold mapFree
  cases hf : isFlowidHtput cfg flowid with
  | true =>
    rw [isFlowidHtput_support hf]
    exact .inl ⟨rfl, rfl, available_free _ _⟩
  | false =>
    rw [Bool.and_false]
    exact .inr ⟨rfl, available_free _ _, rfl⟩

theorem slotOf_some {hashix : Nat} (h : slotOf s ifindex flowid = some hashix) :
    hashix < dhdFlowringHashSize ∧ ∃ cur ∈ s.flHash (ifindex, hashix), cur.flowid = flowid := by
  unfold slotOf at h
  have hmem := List.mem_of_find?_eq_some h
  have hany := List.find?_some h
  rw [List.any_eq_true] at hany
  obtain ⟨cur, hcur, heq⟩ := hany
  exact ⟨List.mem_range.1 hmem, cur, hcur, by simpa using heq⟩

theorem slotOf_none (h : slotOf s ifindex flowid = none) {hashix : Nat}
    (hk : hashix < dhdFlowringHashSize) {cur : Node} (hcur : cur ∈ s.flHash (ifindex, hashix)) :
    cur.flowid ≠ flowid := by
  intro heq
  unfold slotOf at h
  rw [List.find?_eq_none] at h
  have hno := h hashix (List.mem_range.2 hk)
  apply hno
  rw [List.any_eq_true]
  exact ⟨cur, hcur, by simpa using heq⟩

/-- A free of a flow that is in the table: its node is unlinked and its id given back. -/
theorem free_some (cfg : Cfg) {hashix : Nat} (hi : ifindex < dhdMaxIfs)
    (hslot : slotOf s ifindex flowid = some hashix) :
    ∃ node l₁ l₂, node.flowid = flowid ∧ s.flHash (ifindex, hashix) = l₁ ++ node :: l₂ ∧
      (free cfg s ifindex flowid).flHash =
        Function.update s.flHash (ifindex, hashix) (l₁ ++ l₂) ∧
      GivenBack cfg s (free cfg s ifindex flowid) flowid := by
  obtain ⟨hk, cur, hcur, hid⟩ := slotOf_some hslot
  obtain ⟨node, l₁, l₂, -, hnode, hchain, herase⟩ :=
    List.exists_of_eraseP hcur (p := fun cur => cur.flowid == flowid) (by simpa using hid)
  refine ⟨node, l₁, l₂, by simpa using hnode, hchain, ?_, ?_⟩
  · unfold free
    rw [if_neg (Nat.not_le.2 hi), hslot]
    dsimp only
    rw [mapFree_flHash, herase]
  · unfold free
    rw [if_neg (Nat.not_le.2 hi), hslot]
    exact mapFree_available cfg _ ifindex flowid

/-- What a free does: nothing where no flow has this interface and id, else the node of
the flow is unlinked and its id given back. -/
theorem free_cases (h : Inv cfg s tr) (ifindex flowid : Nat) :
    (free cfg s ifindex flowid = s ∧
      ∀ node ∈ nodes s, ¬(node.ifindex = ifindex ∧ node.flowid = flowid)) ∨
    ∃ node ∈ nodes s, node.ifindex = ifindex ∧ node.flowid = flowid ∧
      (∃ l, (s.flHash (ifindex, homeSlot cfg node)).Perm (node :: l) ∧
        (free cfg s ifindex flowid).flHash =
          Function.update s.flHash (ifindex, homeSlot cfg node) l) ∧
      GivenBack cfg s (free cfg s ifindex flowid) flowid := by
  by_cases hi : ifindex < dhdMaxIfs
  · cases hslot : slotOf s ifindex flowid with
    | none =>
      refine .inl ⟨?_, ?_⟩
      · unfold free
        rw [if_neg (Nat.not_le.2 hi), hslot]
      · rintro node hnode ⟨rfl, rfl⟩
        exact slotOf_none hslot (homeSlot_lt cfg node) (h.mem_nodes.1 hnode).2 rfl
    | some hashix =>
      obtain ⟨node, l₁, l₂, hid, hchain, hflash, hback⟩ := free_some cfg hi hslot
      have hin : node ∈ s.flHash (ifindex, hashix) := by
        rw [hchain]
        exact List.mem_append_right _ List.mem_cons_self
      obtain ⟨hmem, hif, rfl⟩ := h.chain_mem hi (slotOf_some hslot).1 hin
      refine .inr ⟨node, hmem, hif, hid, ⟨l₁ ++ l₂, ?_, hflash⟩, hback⟩
      rw [hchain]
      exact List.perm_middle
  · refine .inl ⟨if_pos (Nat.not_lt.1 hi), ?_⟩
    rintro node hnode ⟨rfl, -⟩
    exact absurd (h.mem_nodes.1 hnode).1 hi

theorem live_free (tr : Trace) (ifindex flowid : Nat) :
    live (tr ++ [(.free ifindex flowid, .done)]) =
      (live tr).filter fun flow => !(flow.ifindex == ifindex && flow.flowid == flowid) :=
  live_snoc tr _

theorem free_inv (h : Inv cfg s tr) (ifindex flowid : Nat) :
    Inv cfg (free cfg s ifindex flowid) (tr ++ [(.free ifindex flowid, .done)]) := by
  rcases free_cases h ifindex flowid with ⟨hs, hno⟩ | ⟨node, hnode, hif, hid, ⟨l, hl, hflash⟩, hback⟩
  · rw [hs]
    apply h.same rfl rfl rfl
    rw [live_free, List.filter_eq_self]
    intro flow hflow
    have hf := hno flow (h.perm.mem_iff.2 hflow)
    by_cases hif : flow.ifindex = ifindex
    · have hid : flow.flowid ≠ flowid := fun hid => hf ⟨hif, hid⟩
      simp [hid]
    · simp [hif]
  · have hi : ifindex < dhdMaxIfs := hif ▸ (h.mem_nodes.1 hnode).1
    have hk : homeSlot cfg node < dhdFlowringHashSize := homeSlot_lt cfg node
    have hnodes : (nodes s).Perm (node :: nodes (free cfg s ifindex flowid)) := by
      unfold nodes
      rw [hflash]
      exact entries_erase slots_nodup (mem_slots.2 ⟨hi, hk⟩) hl
    have hids : (flowid :: ((nodes (free cfg s ifindex flowid)).map Node.flowid ++ avail s)).Perm
        (allIds cfg) := by
      have hmap := hnodes.map Node.flowid
      rw [List.map_cons, hid] at hmap
      exact (hmap.symm.append_right (avail s)).trans h.ids
    have hsides := hback.sides (hids.mem_iff.1 List.mem_cons_self) h.normal_lt h.htput_ge
    refine ⟨?_, ?_, ?_, ?_, ?_⟩
    · rw [hflash]
      apply home_update h.home
      intro cur hcur
      exact h.home _ _ cur hi hk (hl.mem_iff.2 (List.mem_cons_of_mem _ hcur))
    · rw [live_free]
      refine List.Perm.trans ?_ (h.perm.filter _)
      refine List.Perm.trans ?_ (hnodes.symm.filter _)
      -- the freed flow is filtered out, and no other flow has its id
      rw [List.filter_cons_of_neg (by simp [hif, hid])]
      rw [List.filter_eq_self.2]
      intro cur hcur
      have hne : cur.flowid ≠ flowid := by
        have hnd := (hids.nodup_iff).2 List.nodup_range'
        rw [List.nodup_cons, List.mem_append, not_or] at hnd
        rintro rfl
        exact hnd.1.1 (List.mem_map_of_mem hcur)
      simp [hne]
    · exact ((hback.perm.append_left _).trans List.perm_middle).trans hids
    · exact hsides.1
    · exact hsides.2

theorem step_inv {e : Call} {r : Result} (h : Inv cfg s tr) (hs : step cfg s e = some (s', r)) :
    Inv cfg s' (tr ++ [(e, r)]) := by
  cases e with
  | find ifindex prio da =>
    cases hs
    exact h.same rfl rfl rfl (live_snoc tr _)
  | alloc ifindex prio da mallocOk htputSta =>
    unfold step at hs
    dsimp only at hs
    split at hs
    · next hpre =>
      cases hs
      exact alloc_inv h prio da mallocOk htputSta hpre.1 hpre.2
    · cases hs
  | free ifindex flowid =>
    cases hs
    exact free_inv h ifindex flowid

/-! ## Every run -/

theorem firstFlowid_cases (chain : List Node) (p : Node → Bool) :
    firstFlowid chain p = flowidInvalid ∨
      ∃ cur ∈ chain, p cur = true ∧ firstFlowid chain p = cur.flowid := by
  unfold firstFlowid
  cases hf : chain.find? p with
  | none => exact .inl rfl
  | some cur => exact .inr ⟨cur, List.mem_of_find?_eq_some hf, List.find?_some hf, rfl⟩

/-- What `find` returns was allocated for the key and not freed. -/
def Delivers (cfg : Cfg) (s : Dhd) (tr : Trace) (ifindex : Nat) (prio : UInt8) (da : Ea) : Prop :=
  find cfg s ifindex prio da = flowidInvalid ∨
    ∃ flow ∈ live tr, flow.flowid = find cfg s ifindex prio da ∧ flow.ifindex = ifindex ∧
      sameKey cfg flow prio da = true

theorem Inv.chain_live (h : Inv cfg s tr) {k : Nat} {cur : Node} (hi : ifindex < dhdMaxIfs)
    (hk : k < dhdFlowringHashSize) (hcur : cur ∈ s.flHash (ifindex, k)) :
    cur ∈ live tr ∧ cur.ifindex = ifindex ∧ homeSlot cfg cur = k := by
  obtain ⟨hmem, hrest⟩ := h.chain_mem hi hk hcur
  exact ⟨h.perm.mem_iff.1 hmem, hrest⟩

/-- A search of one slot for a test that only flows of the key pass. -/
theorem delivers_of_slot (h : Inv cfg s tr) {k : Nat} {prio : UInt8} {da : Ea}
    (hi : ifindex < dhdMaxIfs) (hk : k < dhdFlowringHashSize) (p : Node → Bool)
    (hfind : find cfg s ifindex prio da = firstFlowid (s.flHash (ifindex, k)) p)
    (hkey : ∀ cur, cur.ifindex = ifindex → homeSlot cfg cur = k → p cur = true →
      sameKey cfg cur prio da = true) : Delivers cfg s tr ifindex prio da := by
  unfold Delivers
  rw [hfind]
  rcases firstFlowid_cases (s.flHash (ifindex, k)) p with hnone | ⟨cur, hcur, hp, hid⟩
  · exact .inl hnone
  · obtain ⟨hmem, hif, hhome⟩ := h.chain_live hi hk hcur
    exact .inr ⟨cur, hmem, hid.symm, hif, hkey cur hif hhome hp⟩

/-- A station's search by priority returns the head of the slot, whoever its flow is for. -/
theorem delivers_sta_iff (h : Inv cfg s tr) (hi : ifindex < dhdMaxIfs) {prio : UInt8} {da : Ea}
    (hsta : genericSta (cfg.role ifindex) = true) (htdls : isTdlsDestination cfg da = false) :
    Delivers cfg s tr ifindex prio da ↔ misled cfg s ifindex prio da = false := by
  unfold Delivers misled find
  rw [if_neg (Nat.not_le.2 hi), if_pos hsta, htdls, hsta, if_neg Bool.false_ne_true]
  cases hc : s.flHash (ifindex, prio.toNat) with
  | nil => exact iff_of_true (.inl rfl) rfl
  | cons cur rest =>
    have hcur : cur ∈ s.flHash (ifindex, prio.toNat) := by
      rw [hc]
      exact List.mem_cons_self
    obtain ⟨hmem, hif, hhome⟩ := h.chain_live hi prio.toNat_lt hcur
    show (cur.flowid = flowidInvalid ∨ ∃ flow ∈ live tr, flow.flowid = cur.flowid ∧ _) ↔
      isTdlsDestination cfg cur.da = false
    constructor
    · rintro (hid | ⟨flow, hflow, hid, -, hkey⟩)
      · have hlt := (h.flowid_lt (h.perm.mem_iff.2 hmem)).1
        omega
      · have heq := h.eq_of_flowid (h.perm.mem_iff.2 hflow) (h.perm.mem_iff.2 hmem) hid
        subst heq
        unfold sameKey at hkey
        rw [hif, hsta, if_pos rfl, htdls] at hkey
        simp only [Bool.false_eq_true, if_false, Bool.and_eq_true, Bool.not_eq_true'] at hkey
        exact hkey.1
    · intro hnot
      refine .inr ⟨cur, hmem, rfl, hif, ?_⟩
      unfold homeSlot at hhome
      rw [hif, hsta, if_pos rfl, hnot] at hhome
      have htid : cur.tid = prio := UInt8.toNat_inj.1 hhome
      unfold sameKey
      rw [hif, hsta, if_pos rfl, htdls, hnot, htid]
      simp

theorem delivers_iff (h : Inv cfg s tr) (hi : ifindex < dhdMaxIfs) (prio : UInt8) (da : Ea) :
    Delivers cfg s tr ifindex prio da ↔ misled cfg s ifindex prio da = false := by
  cases hsta : genericSta (cfg.role ifindex) with
  | false =>
    have hk : (if isMulti da then 0 else hashIndex da prio) < dhdFlowringHashSize := by
      split
      · decide
      · exact hashIndex_lt da prio
    have hno : misled cfg s ifindex prio da = false := by
      unfold misled
      rw [hsta]
      rfl
    have hfind : find cfg s ifindex prio da =
        firstFlowid (s.flHash (ifindex, if isMulti da then 0 else hashIndex da prio)) fun cur =>
          (isMulti da && isMulti cur.da) || (cur.da == da && cur.tid == prio) := by
      unfold find
      rw [if_neg (Nat.not_le.2 hi), hsta, if_neg Bool.false_ne_true]
    refine iff_of_true (delivers_of_slot h hi hk _ hfind ?_) hno
    intro cur hif _ hp
    unfold sameKey
    rw [hif, hsta]
    exact hp
  | true =>
    cases htdls : isTdlsDestination cfg da with
    | true =>
      have hno : misled cfg s ifindex prio da = false := by
        unfold misled
        rw [hsta, htdls]
        rfl
      have hfind : find cfg s ifindex prio da =
          firstFlowid (s.flHash (ifindex, hashIndex da prio)) fun cur => cur.da == da := by
        unfold find
        rw [if_neg (Nat.not_le.2 hi), if_pos hsta, if_pos htdls]
      refine iff_of_true (delivers_of_slot h hi (hashIndex_lt da prio) _ hfind ?_) hno
      intro cur hif hhome hp
      have hda : cur.da = da := by simpa using hp
      unfold homeSlot at hhome
      rw [hif, hsta, if_pos rfl, hda, if_pos htdls] at hhome
      unfold sameKey
      rw [hif, hsta, if_pos rfl, if_pos htdls, hda, hashIndex_inj hhome]
      simp
    | false => exact delivers_sta_iff h hi hsta htdls

/-- The flow is in one node, of its own interface, and can be freed. -/
structure Filed (cfg : Cfg) (s : Dhd) (flow : Node) : Prop where
  ifindex_lt : flow.ifindex < dhdMaxIfs
  mem : flow ∈ s.flHash (flow.ifindex, homeSlot cfg flow)
  /-- no other node of any chain has the id -/
  once : ∀ i k, i < dhdMaxIfs → k < dhdFlowringHashSize →
    (s.flHash (i, k)).countP (fun cur => cur.flowid == flow.flowid) =
      if (i, k) = (flow.ifindex, homeSlot cfg flow) then 1 else 0
  notMem : flow.flowid ∉ avail s
  /-- a later free finds the node and gives the id back -/
  unlinked : ∀ i k, i < dhdMaxIfs → k < dhdFlowringHashSize →
    ∀ cur ∈ (free cfg s flow.ifindex flow.flowid).flHash (i, k), cur.flowid ≠ flow.flowid
  returned : available (allocatorOf cfg (free cfg s flow.ifindex flow.flowid) flow.flowid) =
    available (allocatorOf cfg s flow.flowid) ++ [flow.flowid]

/-- A node is in its home slot, and no other node has its id. -/
theorem Inv.once (h : Inv cfg s tr) {flow : Node} (hmem : flow ∈ nodes s) {i k : Nat}
    (hi : i < dhdMaxIfs) (hk : k < dhdFlowringHashSize) :
    (s.flHash (i, k)).countP (fun cur => cur.flowid == flow.flowid) =
      if (i, k) = (flow.ifindex, homeSlot cfg flow) then 1 else 0 := by
  split
  · next heq =>
    have hone : ((nodes s).map Node.flowid).count flow.flowid = 1 :=
      List.count_eq_one_of_mem h.ids_nodup.of_append_left (List.mem_map_of_mem hmem)
    have hsplit := ((entries_perm_split slots_nodup (mem_slots.2 ⟨hi, hk⟩) s.flHash).map
      Node.flowid).count_eq flow.flowid
    rw [List.map_append, List.count_append, show entries slots s.flHash = nodes s from rfl,
      hone] at hsplit
    have hpos : 0 < ((s.flHash (i, k)).map Node.flowid).count flow.flowid := by
      rw [List.count_pos_iff, heq]
      exact List.mem_map_of_mem (h.mem_nodes.1 hmem).2
    have hcount : (s.flHash (i, k)).countP (fun cur => cur.flowid == flow.flowid) =
        ((s.flHash (i, k)).map Node.flowid).count flow.flowid := by
      rw [List.count, List.countP_map]
      rfl
    omega
  · next hne =>
    rw [List.countP_eq_zero]
    intro cur hcur heq
    obtain ⟨hcmem, hif, hhome⟩ := h.chain_mem hi hk hcur
    have hsame := h.eq_of_flowid hcmem hmem (by simpa using heq)
    apply hne
    rw [← hif, ← hhome, hsame]

theorem filed (h : Inv cfg s tr) {flow : Node} (hflow : flow ∈ live tr) : Filed cfg s flow := by
  have hmem : flow ∈ nodes s := h.perm.mem_iff.2 hflow
  obtain ⟨hi, hchain⟩ := h.mem_nodes.1 hmem
  have hcase := free_cases h flow.ifindex flow.flowid
  have hback := hcase.resolve_left fun hno => hno.2 flow hmem ⟨rfl, rfl⟩
  have hreturned :
      available (allocatorOf cfg (free cfg s flow.ifindex flow.flowid) flow.flowid) =
        available (allocatorOf cfg s flow.flowid) ++ [flow.flowid] := by
    obtain ⟨-, -, -, -, -, havail⟩ := hback
    unfold allocatorOf
    rcases havail with ⟨hf, -, hh⟩ | ⟨hf, hn, -⟩
    · rw [if_pos hf, if_pos hf, hh]
    · rw [hf]
      exact hn
  refine ⟨hi, hchain, ?_, ?_, ?_, hreturned⟩
  · exact fun i k hi' hk => h.once hmem hi' hk
  · intro hin
    have hnd := (List.nodup_append.1 h.ids_nodup).2.2
    exact hnd flow.flowid (List.mem_map_of_mem hmem) flow.flowid hin rfl
  · intro i k hi' hk cur hcur heq
    have h' := free_inv h flow.ifindex flow.flowid
    have hnd := (List.nodup_append.1 h'.ids_nodup).2.2
    refine hnd cur.flowid (List.mem_map_of_mem (h'.chain_mem hi' hk hcur).1) flow.flowid ?_ heq
    have hin : flow.flowid ∈
        available (allocatorOf cfg (free cfg s flow.ifindex flow.flowid) flow.flowid) := by
      rw [hreturned]
      simp
    unfold avail
    unfold allocatorOf at hin
    rw [List.mem_append]
    split at hin
    · exact .inr hin
    · exact .inl hin

/-- The id of a new flow comes from the allocator a free gives it back to. -/
theorem alloc_takes (h : Inv cfg s tr) (prio : UInt8) (da : Ea) (mallocOk htputSta : Bool)
    (hi : ifindex < dhdMaxIfs) (hfind : find cfg s ifindex prio da = flowidInvalid)
    (hr : alloc cfg s ifindex prio da mallocOk htputSta = (s', flowid))
    (hid : flowid ≠ flowidInvalid) :
    available (allocatorOf cfg s flowid) = available (allocatorOf cfg s' flowid) ++ [flowid] := by
  obtain ⟨t, f, ht, hcases⟩ := alloc_cases h prio da mallocOk htputSta hi hfind
  rw [hr] at ht
  obtain ⟨rfl, rfl⟩ := Prod.mk.inj ht
  obtain ⟨-, -, -, -, htaken⟩ := hcases.resolve_left fun hc => hid hc.1
  have hids : ∀ id ∈ avail s, id ∈ allIds cfg := fun id hmem =>
    h.ids.mem_iff.1 (List.mem_append_right _ hmem)
  unfold allocatorOf
  rcases htaken with ⟨hn, -⟩ | ⟨-, hh⟩
  · have hmem : flowid ∈ available s.flowidAllocator := by simp [hn]
    have hin := hids flowid (List.mem_append_left _ hmem)
    have hf : ¬ isFlowidHtput cfg flowid = true := by
      rw [isFlowidHtput_iff hin]
      exact Nat.not_le.2 (h.normal_lt flowid hmem)
    rw [if_neg hf, if_neg hf]
    exact hn
  · have hmem : flowid ∈ available s.htputFlowidAllocator := by simp [hh]
    have hin := hids flowid (List.mem_append_right _ hmem)
    have hf := (isFlowidHtput_iff hin).2 (h.htput_ge flowid hmem)
    rw [if_pos hf, if_pos hf]
    exact hh

theorem runs_keep_inv {es : List Call} (h : runs (step cfg) (init cfg) es = some (s, tr)) :
    Inv cfg s tr :=
  runs_inv (step cfg) (Inv cfg) (fun _ _ _ _ _ hi hs => step_inv hi hs) _ _ _ _
    (inv_init cfg) h

/-- **Flow lookup.**  After every run, what `find` returns was allocated for the key and
not freed, if and only if no TDLS peer's flow heads the slot of the priority.  Every flow
allocated and not freed has an id of its own, is in one node and can be freed, and its id
goes back where the ids of new flows come from. -/
theorem lookup_iff_and_live (cfg : Cfg) (es : List Call) (s : Dhd) (tr : Trace)
    (h : runs (step cfg) (init cfg) es = some (s, tr)) :
    (∀ ifindex prio da, ifindex < dhdMaxIfs →
      (Delivers cfg s tr ifindex prio da ↔ misled cfg s ifindex prio da = false)) ∧
    ((live tr).map Node.flowid).Nodup ∧ (∀ flow ∈ live tr, Filed cfg s flow) ∧
    ∀ ifindex prio da mallocOk htputSta s' flowid, ifindex < dhdMaxIfs →
      find cfg s ifindex prio da = flowidInvalid →
      alloc cfg s ifindex prio da mallocOk htputSta = (s', flowid) → flowid ≠ flowidInvalid →
      available (allocatorOf cfg s flowid) =
        available (allocatorOf cfg s' flowid) ++ [flowid] := by
  have hinv := runs_keep_inv h
  refine ⟨?_, ?_, ?_, ?_⟩
  · intro ifindex prio da hi
    exact delivers_iff hinv hi prio da
  · exact ((hinv.perm.map Node.flowid).nodup_iff).1 hinv.ids_nodup.of_append_left
  · intro flow hflow
    exact filed hinv hflow
  · intro ifindex prio da mallocOk htputSta s' flowid hi hfind hr hid
    exact alloc_takes hinv prio da mallocOk htputSta hi hfind hr hid

/-- A station with one TDLS peer. -/
def staTdls : Cfg where
  role := fun _ => .sta
  tdlsPeers := [⟨2, 0, 0, 0, 0, 5⟩]
  htputSupport := true
  maxNormalTxFlowRings := 8
  ids_lt := by decide

/-- The flow of priority 0 to the peer, and of priority 6 to the access point. -/
def staTdlsCalls : List Call :=
  [.alloc 0 0 ⟨2, 0, 0, 0, 0, 5⟩ true false, .alloc 0 6 ⟨2, 0, 0, 0, 0, 1⟩ true false,
    .find 0 6 ⟨2, 0, 0, 0, 0, 9⟩]

theorem lookup_two : ∃ s tr, runs (step staTdls) (init staTdls) staTdlsCalls = some (s, tr) ∧
    (Delivers staTdls s tr 0 6 ⟨2, 0, 0, 0, 0, 9⟩ ↔
      misled staTdls s 0 6 ⟨2, 0, 0, 0, 0, 9⟩ = false) ∧
    ((live tr).map Node.flowid).Nodup ∧ ∀ flow ∈ live tr, Filed staTdls s flow := by
  obtain ⟨hfind, hnodup, hfiled, -⟩ := lookup_iff_and_live staTdls staTdlsCalls _ _ rfl
  exact ⟨_, _, rfl, hfind 0 6 _ (by decide), hnodup, hfiled⟩

instance (cfg : Cfg) (s : Dhd) (tr : Trace) (ifindex : Nat) (prio : UInt8) (da : Ea) :
    Decidable (Delivers cfg s tr ifindex prio da) :=
  inferInstanceAs (Decidable (_ ∨ ∃ flow ∈ live tr, _))

/-- The peer's flow is in slot 5, and a packet of priority 5 to anyone else is put on it. -/
theorem lookup_fails : ∃ s tr,
    runs (step staTdls) (init staTdls) [.alloc 0 0 ⟨2, 0, 0, 0, 0, 5⟩ true false] = some (s, tr) ∧
    ¬ Delivers staTdls s tr 0 5 ⟨2, 0, 0, 0, 0, 9⟩ :=
  ⟨_, _, rfl, by decide⟩

end Bcmdhd.FlowLookup
