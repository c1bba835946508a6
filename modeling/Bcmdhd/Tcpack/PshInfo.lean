import Bcmdhd.Lib.Lines
import Bcmdhd.Lib.Runs
import Bcmdhd.Tcpack.Frame
import Mathlib.Data.List.Perm.Subperm

/-!
# PSH data that waits for its ACK (`tdata_psh_info_pool`)

With `TCPACK_SUP_DELAYTX` the driver keeps, for each TCP flow it receives from, the ends of the
segments with a PSH flag that no ACK has covered.  `dhd_tcpdata_info_get` takes an element of a pool
for a segment, and drops the flows it has not seen for five seconds; `dhd_tcpdata_psh_acked` gives
elements back; `dhd_tcpack_suppress_set` makes and frees the pool.

    every state of a run is intact  ↔  no pool is missed where one has been before
                                                                     (psh_pool_intact_iff)

`_tdata_psh_info_pool_deinit` frees the pool and leaves the pointer to it.
-/

namespace Bcmdhd.Tcpack.Psh

open Links Runs

/-! ## Data -/

def TCPDATA_INFO_MAXNUM : Nat := 40
def TCPDATA_PSH_INFO_MAXNUM : Nat := 8 * TCPDATA_INFO_MAXNUM
def TCPDATA_INFO_TIMEOUT : BitVec 32 := 5000
def TCP_FLAG_PSH : Nat := 0x08

/-- A `tdata_psh_info_t`: where its pool is, and its index there. -/
abbrev Elt := Nat × Nat

/-- The addresses and the ports. -/
abbrev Flow := List UInt8 × List UInt8

/-- `tcpdata_info_t` -/
structure Info where
  flow : Flow
  head : Option Elt
  tail : Option Elt
  lastUsedTime : BitVec 32

def Info.zero : Info where
  flow := (List.replicate 8 0, List.replicate 4 0)
  head := none
  tail := none
  lastUsedTime := 0

/-- `tcpack_sup_module_t`, and the memory that its elements are in. -/
structure Module where
  tcpdataInfoCnt : Nat
  tcpdataInfoTbl : Nat → Info
  pool : Option Nat
  free : Option Elt
  next : Elt → Option Elt
  endSeq : Elt → Nat

def Module.zero : Module where
  tcpdataInfoCnt := 0
  tcpdataInfoTbl := fun _ => .zero
  pool := none
  free := none
  next := fun _ => none
  endSeq := fun _ => 0

structure Dhd where
  mode : Mode
  mod : Option Module

def Dhd.attached : Dhd := ⟨.off, none⟩

def Module.setInfo (m : Module) (i : Nat) (x : Info) : Module :=
  { m with tcpdataInfoTbl := Function.update m.tcpdataInfoTbl i x }

/-! ## The pool -/

/-- `_tdata_psh_info_pool_enq` -/
def poolEnq (m : Module) (e : Elt) : Module :=
  { m with next := Function.update m.next e m.free, free := some e }

/-- `_tdata_psh_info_pool_deq` -/
def poolDeq (m : Module) : Option (Elt × Module) :=
  match m.free with
  | none => none
  | some e => some (e, { m with free := m.next e, next := Function.update m.next e none })

/-- The first element of a flow goes back to the pool. -/
def release (m : Module) (i : Nat) (e : Elt) : Module :=
  let m := m.setInfo i { m.tcpdataInfoTbl i with head := m.next e }
  poolEnq { m with next := Function.update m.next e none } e

/-- `while ((e = head) && go(e))`; and whether there was one.  `none`: it goes on after as many
turns as there are elements. -/
def releaseWhile (go : Elt → Bool) (i : Nat) : Nat → Module → Option (Module × Bool)
  | 0, _ => none
  | fuel + 1, m =>
    match (m.tcpdataInfoTbl i).head with
    | none => some (m, false)
    | some e =>
      if go e then
        match releaseWhile go i fuel (release m i e) with
        | none => none
        | some (m, _) => some (m, true)
      else some (m, false)

def releaseAll (m : Module) (i : Nat) : Option Module :=
  (releaseWhile (fun _ => true) i (TCPDATA_PSH_INFO_MAXNUM + 1) m).map Prod.fst

/-- The elements of the pool at `a`. -/
def elts (a : Nat) : List Elt := (List.range TCPDATA_PSH_INFO_MAXNUM).map fun i => (a, i)

def bzero (m : Module) (es : List Elt) : Module :=
  { m with
    next := fun e => if e ∈ es then none else m.next e
    endSeq := fun e => if e ∈ es then 0 else m.endSeq e }

/-- `_tdata_psh_info_pool_init`; `malloc` is the memory that it gets. -/
def poolInit (m : Module) (malloc : Option Nat) : Module :=
  match malloc with
  | none => m
  | some a => { (elts a).foldl poolEnq (bzero m (elts a)) with pool := some a }

/-- The flows from `i` on, `k` of them. -/
def returnAll : Nat → Nat → Module → Option Module
  | 0, _, m => some m
  | k + 1, i, m =>
    match releaseAll m i with
    | none => none
    | some m => returnAll k (i + 1) (m.setInfo i { m.tcpdataInfoTbl i with tail := none })

def emptyFree : Nat → Module → Option Module
  | 0, _ => none
  | fuel + 1, m =>
    match m.free with
    | none => some m
    | some e =>
      emptyFree fuel { m with free := m.next e, next := Function.update m.next e none }

/-- `_tdata_psh_info_pool_deinit`: the pool is freed, `m.pool` stays. -/
def poolDeinit (m : Module) : Option Module :=
  match returnAll m.tcpdataInfoCnt 0 m with
  | none => none
  | some m => emptyFree (TCPDATA_PSH_INFO_MAXNUM + 1) m

/-! ## Received data -/

/-- `a - b` of 32 bits -/
def minus (a b : Nat) : Nat := (a + 0x100000000 - b) % 0x100000000

/-- The end of the data of a TCP segment with the PSH flag. -/
def pshEndSeq (f : Frame) : Option Nat :=
  let framelen := minus f.len ETHER_HDR_LEN
  if f.etherType ≠ ETHER_TYPE_IP then none
  else if framelen < IPV4_MIN_HEADER_LEN then none
  else if f.ipVer ≠ IP_VER_4 ∨ f.ipProt ≠ IP_PROT_TCP then none
  else if minus framelen f.ipHdrLen < TCP_MIN_HEADER_LEN then none
  else if f.ipTotalLen = f.ipHdrLen + f.tcpHdrLen then none
  else if f.tcpFlags / TCP_FLAG_PSH % 2 = 0 then none
  else
    let dataLen := (f.ipTotalLen + 0x10000 - f.ipHdrLen - f.tcpHdrLen) % 0x10000
    some ((f.ntoh32 (f.tcpHdr + 4) + dataLen) % 0x100000000)

/-- The last flow takes the place of flow `i`. -/
def erase (m : Module) (i : Nat) : Module :=
  let last := m.tcpdataInfoCnt - 1
  let m := if i < last then m.setInfo i (m.tcpdataInfoTbl last) else m
  { m.setInfo last .zero with tcpdataInfoCnt := last }

/-- `idx` is where the loop stops: at the flow if it is there; `turns` the readings of the clock. -/
structure Search where
  mod : Module
  idx : Nat
  found : Bool
  turns : Nat
  visited : List Flow

/-- The loop of `dhd_tcpdata_info_get` from flow `i` on, in its `k`th turn. -/
def search (clock : Nat → BitVec 32) (flow : Flow) : Nat → Nat → Nat → Module → Option Search
  | 0, _, _, _ => none
  | fuel + 1, k, i, m =>
    let x := m.tcpdataInfoTbl i
    if m.tcpdataInfoCnt ≤ i then some ⟨m, i, false, k, []⟩
    else if x.flow = flow then
      some ⟨m.setInfo i { x with lastUsedTime := clock k }, i, true, k + 1, [x.flow]⟩
    else
      let rest :=
        if TCPDATA_INFO_TIMEOUT < clock k - x.lastUsedTime then
          match releaseAll m i with
          | none => none
          | some m => search clock flow fuel (k + 1) i (erase m i)
        else search clock flow fuel (k + 1) (i + 1) m
      rest.map fun s => { s with visited := x.flow :: s.visited }

/-- `none`: a NULL tail is written through. -/
def addEnd (m : Module) (i : Nat) (endSeq : Nat) : Option Module :=
  match poolDeq m with
  | none => some m
  | some (e, m) =>
    let x := m.tcpdataInfoTbl i
    let m := { m with endSeq := Function.update m.endSeq e endSeq }
    match x.head, x.tail with
    | none, _ => some (m.setInfo i { x with head := some e, tail := some e })
    | some _, none => none
    | some _, some t =>
      some ({ m with next := Function.update m.next t (some e) }.setInfo i { x with tail := some e })

/-- A new flow is put at `i`. -/
def newInfo (m : Module) (i : Nat) (flow : Flow) (now : BitVec 32) : Module :=
  { m.setInfo i { m.tcpdataInfoTbl i with flow := flow, lastUsedTime := now } with
    tcpdataInfoCnt := m.tcpdataInfoCnt + 1 }

/-- `dhd_tcpdata_info_get` of a segment with its flow and its end. -/
def recordEnd (m : Module) (flow : Flow) (endSeq : Nat) (clock : Nat → BitVec 32) :
    Option (Module × List Flow) :=
  match search clock flow (m.tcpdataInfoCnt + 1) 0 0 m with
  | none => none
  | some s =>
    if s.found then (addEnd s.mod s.idx endSeq).map (·, s.visited)
    else if TCPDATA_INFO_MAXNUM ≤ s.idx then some (s.mod, s.visited)
    else (addEnd (newInfo s.mod s.idx flow (clock s.turns)) s.idx endSeq).map (·, s.visited)

/-- `dhd_tcpdata_info_get` -/
def infoGet (s : Dhd) (f : Frame) (clock : Nat → BitVec 32) : Option (Dhd × List Flow) :=
  match s.mode, pshEndSeq f, s.mod with
  | .delaytx, some endSeq, some m =>
    (recordEnd m f.flow endSeq clock).map fun (m, visited) => (⟨.delaytx, some m⟩, visited)
  | _, _, _ => some (s, [])

/-! ## Sent ACKs -/

/-- The ACK's flow is the flow the other way. -/
def acks (ack flow : Flow) : Bool :=
  ack.1.take 4 = flow.1.drop 4 ∧ ack.1.drop 4 = flow.1.take 4 ∧
    ack.2.take 2 = flow.2.drop 2 ∧ ack.2.drop 2 = flow.2.take 2

/-- `dhd_tcpdata_psh_acked` of a flow that is found. -/
def ackEnds (m : Module) (i : Nat) (ackNum : Nat) : Option (Module × Bool) :=
  match releaseWhile (fun e => tcpseqGe ackNum (m.endSeq e)) i (TCPDATA_PSH_INFO_MAXNUM + 1) m with
  | none => none
  | some (m, acked) =>
    let x := m.tcpdataInfoTbl i
    some (if x.head = none then m.setInfo i { x with tail := none } else m, acked)

/-- `dhd_tcpdata_psh_acked` -/
def pshAcked (m : Module) (ack : Flow) (ackNum : Nat) : Option (Module × Bool) :=
  match (List.range m.tcpdataInfoCnt).find? fun i => acks ack (m.tcpdataInfoTbl i).flow with
  | none => some (m, false)
  | some i => ackEnds m i ackNum

/-- What `dhd_tcpack_suppress` does here. -/
def suppress (s : Dhd) (f : Frame) : Option Dhd :=
  match s.mode, f.isTcpack, s.mod with
  | .delaytx, true, some m => (pshAcked m f.flow f.tcpAckNum).map fun (m, _) => ⟨.delaytx, some m⟩
  | _, _, _ => some s

/-! ## Modes -/

/-- What the old mode needs, and whether the change goes on. -/
def leaveMode (s : Dhd) (mallocModule : Bool) : Option (Dhd × Bool) :=
  match s.mode, s.mod with
  | .off, none =>
    some (if mallocModule then (⟨.off, some .zero⟩, true) else (⟨.off, none⟩, false))
  | .off, some _ => some (⟨.off, some .zero⟩, true)
  | .delaytx, none => some (⟨.off, none⟩, false)
  | .delaytx, some m =>
    match poolDeinit m with
    | none => none
    | some m =>
      let m := { m with tcpdataInfoCnt := 0, tcpdataInfoTbl := fun _ => .zero }
      some (⟨.delaytx, some m⟩, true)
  | _, _ => some (s, true)

def enterMode (s : Dhd) (mode : Mode) (mallocPool : Option Nat) : Dhd :=
  match mode with
  | .off => ⟨.off, none⟩
  | .delaytx => ⟨.delaytx, s.mod.map (poolInit · mallocPool)⟩
  | _ => ⟨mode, s.mod⟩

/-- `dhd_tcpack_suppress_set` for SDIO, where `TCPACK_SUP_HOLD` is invalid. -/
def suppressSet (s : Dhd) (mode : Mode) (mallocModule : Bool) (mallocPool : Option Nat) :
    Option Dhd :=
  if s.mode = mode ∨ mode = .hold then some s
  else
    match leaveMode s mallocModule with
    | none => none
    | some (t, false) => some t
    | some (t, true) => some (enterMode t mode mallocPool)

/-! ## Runs -/

inductive Call
  | infoGet (f : Frame) (clock : Nat → BitVec 32)
  | suppress (f : Frame)
  | setMode (mode : Mode) (mallocModule : Bool) (mallocPool : Option Nat)

/-- The result is the flows that the ageing loop comes to. -/
def step (s : Dhd) : Call → Option (Dhd × List Flow)
  | .infoGet f clock => infoGet s f clock
  | .suppress f => (suppress s f).map (·, [])
  | .setMode mode mallocModule mallocPool => (suppressSet s mode mallocModule mallocPool).map (·, [])

/-- A change from REPLACE to DELAYTX gets its pool, or there has not been one. -/
def getsPool (s : Dhd) : Call → Bool
  | .setMode .delaytx _ none => !(s.mode = .replace && s.mod.any fun m => m.pool.isSome)
  | _ => true

/-- Where an element can be. -/
inductive Place
  | free
  | info (i : Nat)
  deriving DecidableEq

/-- The head of a place's chain. -/
def Module.headOf (m : Module) : Place → Option Elt
  | .free => m.free
  | .info i => if i < m.tcpdataInfoCnt then (m.tcpdataInfoTbl i).head else none

def Module.inPool (m : Module) (e : Elt) : Prop := m.pool = some e.1 ∧ e.2 < TCPDATA_PSH_INFO_MAXNUM

structure Conserved (m : Module) : Prop where
  one_place : ∀ e, m.inPool e → ∃! p, Visits m.next (m.headOf p) e
  free_ends : ∃ l, Chain m.next m.free l
  ends : ∀ i < m.tcpdataInfoCnt, ∃ l, Chain m.next (m.tcpdataInfoTbl i).head l ∧
    (m.tcpdataInfoTbl i).tail = l.getLast?
  distinct : ∀ i < m.tcpdataInfoCnt, ∀ j < m.tcpdataInfoCnt,
    (m.tcpdataInfoTbl i).flow = (m.tcpdataInfoTbl j).flow → i = j
  count : m.tcpdataInfoCnt ≤ TCPDATA_INFO_MAXNUM

/-- The property, in the mode that it is about. -/
def Intact (s : Dhd) : Prop := s.mode = .delaytx → ∃ m, s.mod = some m ∧ Conserved m

/-! ## Where the elements are -/

/-- `own` is the place of an element, if it has one.  The tail of the flow `loose` may be left over
from before its chain was emptied. -/
structure Placed (m : Module) (own : Elt → Option Place) (loose : Option Nat) : Prop where
  free : ∃ l, Line m.next own (some .free) m.free l
  info : ∀ i, ∃ l, Line m.next own (some (.info i)) (m.tcpdataInfoTbl i).head l ∧
    (loose = some i ∧ l = [] ∨ (m.tcpdataInfoTbl i).tail = l.getLast?)
  lt : ∀ e i, own e = some (.info i) → i < m.tcpdataInfoCnt
  pool : ∀ e, own e ≠ none → m.inPool e

def Distinct (m : Module) : Prop :=
  ∀ i < m.tcpdataInfoCnt, ∀ j < m.tcpdataInfoCnt,
    (m.tcpdataInfoTbl i).flow = (m.tcpdataInfoTbl j).flow → i = j

/-- An element that has a place keeps one. -/
def Keeps (own own' : Elt → Option Place) : Prop := ∀ e, own e ≠ none → own' e ≠ none

theorem Keeps.refl (own : Elt → Option Place) : Keeps own own := fun _ h => h

theorem Keeps.trans {own₁ own₂ own₃ : Elt → Option Place} (h : Keeps own₁ own₂)
    (h' : Keeps own₂ own₃) : Keeps own₁ own₃ := fun e he => h' e (h e he)

theorem keeps_update (own : Elt → Option Place) (e : Elt) (p : Place) :
    Keeps own (Function.update own e (some p)) := by
  intro x hx
  by_cases h : x = e
  · subst h
    rw [Function.update_self]
    nofun
  · rw [Function.update_of_ne h]
    exact hx

/-- What stays when elements move. -/
structure Kept (m m' : Module) : Prop where
  count : m'.tcpdataInfoCnt = m.tcpdataInfoCnt
  pool : m'.pool = m.pool
  flow : ∀ i, (m'.tcpdataInfoTbl i).flow = (m.tcpdataInfoTbl i).flow

theorem Kept.trans {m₁ m₂ m₃ : Module} (h : Kept m₁ m₂) (h' : Kept m₂ m₃) : Kept m₁ m₃ where
  count := h'.count.trans h.count
  pool := h'.pool.trans h.pool
  flow := fun i => (h'.flow i).trans (h.flow i)

variable {m : Module} {i : Nat} {own : Elt → Option Place} {full : Prop} {s : Dhd}

theorem Kept.distinct {m' : Module} (h : Kept m m') (hd : Distinct m) : Distinct m' := by
  intro i hi j hj heq
  rw [h.count] at hi hj
  rw [h.flow i, h.flow j] at heq
  exact hd i hi j hj heq

/-- One flow's chain is written. -/
theorem kept_of_update {m' : Module} {x : Info} (hcount : m'.tcpdataInfoCnt = m.tcpdataInfoCnt)
    (hpool : m'.pool = m.pool) (htbl : m'.tcpdataInfoTbl = Function.update m.tcpdataInfoTbl i x)
    (hx : x.flow = (m.tcpdataInfoTbl i).flow) : Kept m m' where
  count := hcount
  pool := hpool
  flow := by
    intro j
    rw [htbl]
    by_cases hj : j = i
    · subst hj
      rw [Function.update_self, hx]
    · rw [Function.update_of_ne hj]

section
variable {m : Module} {own : Elt → Option Place} {loose : Option Nat} {i : Nat} {e : Elt}

theorem Placed.loosen (h : Placed m own none) (i : Nat) : Placed m own (some i) :=
  { h with
    info := by
      intro j
      obtain ⟨l, hl, ⟨hn, -⟩ | ht⟩ := h.info j
      · cases hn
      · exact ⟨l, hl, .inr ht⟩ }

/-- A flow whose chain is empty has no tail now. -/
theorem Placed.tighten (h : Placed m own (some i))
    (ht : (m.tcpdataInfoTbl i).head = none → (m.tcpdataInfoTbl i).tail = none) :
    Placed m own none :=
  { h with
    info := by
      intro j
      obtain ⟨l, hl, ⟨hj, rfl⟩ | htail⟩ := h.info j
      · cases hj
        exact ⟨[], hl, .inr (ht hl.chain)⟩
      · exact ⟨l, hl, .inr htail⟩ }

/-- The tail of a flow without elements is set to NULL. -/
theorem Placed.clearTail (h : Placed m own (some i)) (hhead : (m.tcpdataInfoTbl i).head = none) :
    Placed (m.setInfo i { m.tcpdataInfoTbl i with tail := none }) own none :=
  { h with
    info := by
      intro j
      show ∃ l, Line _ _ _ (Function.update m.tcpdataInfoTbl i _ j).head l ∧
        (_ ∨ (Function.update m.tcpdataInfoTbl i _ j).tail = _)
      obtain ⟨l, hl, ht⟩ := h.info j
      by_cases hj : j = i
      · subst hj
        rw [Function.update_self]
        rw [hhead] at hl
        rw [hhead]
        refine ⟨l, hl, .inr ?_⟩
        rw [hl.none]
        rfl
      · rw [Function.update_of_ne hj]
        refine ⟨l, hl, .inr ?_⟩
        rcases ht with ⟨heq, -⟩ | ht
        · cases heq
          exact absurd rfl hj
        · exact ht }

/-- Only heads, tails and links matter. -/
theorem Placed.congr {m' : Module} (h : Placed m own loose) (hfree : m'.free = m.free)
    (hnext : m'.next = m.next) (hpool : m'.pool = m.pool)
    (hcnt : m.tcpdataInfoCnt ≤ m'.tcpdataInfoCnt)
    (hhead : ∀ j, (m'.tcpdataInfoTbl j).head = (m.tcpdataInfoTbl j).head)
    (htail : ∀ j, (m'.tcpdataInfoTbl j).tail = (m.tcpdataInfoTbl j).tail) :
    Placed m' own loose where
  free := by
    rw [hfree, hnext]
    exact h.free
  info := by
    intro j
    rw [hnext, hhead, htail]
    exact h.info j
  lt := fun e j he => Nat.lt_of_lt_of_le (h.lt e j he) hcnt
  pool := by
    intro e he
    unfold Module.inPool
    rw [hpool]
    exact h.pool e he

/-- A chain is no longer than the pool. -/
theorem Placed.length_le (h : Placed m own loose) {p : Place} {x : Option Elt} {l : List Elt}
    (hl : Line m.next own (some p) x l) : l.length ≤ TCPDATA_PSH_INFO_MAXNUM := by
  have hin : ∀ e ∈ l, m.inPool e := by
    intro e he
    refine h.pool e ?_
    rw [(hl.mem e).mp he]
    nofun
  -- in one pool the elements differ in the index
  have hnd : (l.map Prod.snd).Nodup := by
    refine List.Nodup.map_on ?_ hl.chain.nodup
    intro e he e' he' heq
    refine Prod.ext ?_ heq
    exact Option.some.inj ((hin e he).1.symm.trans (hin e' he').1)
  have hsub : l.map Prod.snd ⊆ List.range TCPDATA_PSH_INFO_MAXNUM := by
    intro k hk
    obtain ⟨e, he, rfl⟩ := List.mem_map.mp hk
    exact List.mem_range.mpr (hin e he).2
  have hlen := (hnd.subperm hsub).length_le
  rw [List.length_map, List.length_range] at hlen
  exact hlen

/-! ## Elements go back -/

theorem kept_release (m : Module) (i : Nat) (e : Elt) : Kept m (release m i e) :=
  kept_of_update rfl rfl rfl rfl

theorem next_release (m : Module) (i : Nat) (e : Elt) :
    (release m i e).next = Function.update m.next e m.free := by
  show Function.update (Function.update m.next e none) e m.free = _
  rw [Function.update_idem]

theorem Placed.release (h : Placed m own (some i)) (he : (m.tcpdataInfoTbl i).head = some e) :
    Placed (release m i e) (Function.update own e (some .free)) (some i) := by
  obtain ⟨li, hli, htail⟩ := h.info i
  have hown : own e = some (.info i) := by
    rw [he] at hli
    exact hli.visits_iff.mp .here
  have hnext := next_release m i e
  refine ⟨?_, fun j => ?_, fun e' j he' => ?_, fun e' he' => ?_⟩
  · obtain ⟨l, hl⟩ := h.free
    refine ⟨e :: l, ?_⟩
    rw [hnext]
    exact hl.push (by rw [hown]; nofun)
  · rw [hnext]
    show ∃ l, Line _ _ _ (Function.update m.tcpdataInfoTbl i _ j).head l ∧
      (_ ∨ (Function.update m.tcpdataInfoTbl i _ j).tail = _)
    by_cases hj : j = i
    · subst hj
      rw [Function.update_self]
      rw [he] at hli
      obtain ⟨l', rfl, hl'⟩ := hli.pop (show some Place.free ≠ some (.info j) by nofun) m.free
      refine ⟨l', hl', ?_⟩
      rcases htail with ⟨-, hn⟩ | ht
      · cases hn
      · cases l' with
        | nil => exact .inl ⟨rfl, rfl⟩
        | cons y l' =>
          rw [List.getLast?_cons_cons] at ht
          exact .inr ht
    · rw [Function.update_of_ne hj]
      obtain ⟨l, hl, ht⟩ := h.info j
      refine ⟨l, hl.frame ?_ (by nofun) _, ht⟩
      rw [hown]
      intro heq
      cases heq
      exact hj rfl
  · by_cases hx : e' = e
    · subst hx
      rw [Function.update_self] at he'
      cases he'
    · rw [Function.update_of_ne hx] at he'
      exact h.lt e' j he'
  · by_cases hx : e' = e
    · subst hx
      exact h.pool e' (by rw [hown]; nofun)
    · rw [Function.update_of_ne hx] at he'
      exact h.pool e' he'

end

/-- After elements of flow `i` have gone back to the pool. -/
structure Released (i : Nat) (m m' : Module) (own own' : Elt → Option Place) : Prop where
  placed : Placed m' own' (some i)
  keeps : Keeps own own'
  kept : Kept m m'

theorem releaseWhile_spec (go : Elt → Bool) (i : Nat) {fuel : Nat} {l : List Elt}
    (h : Placed m own (some i)) (hl : Line m.next own (some (.info i)) (m.tcpdataInfoTbl i).head l)
    (hf : l.length < fuel) :
    ∃ m' b own', releaseWhile go i fuel m = some (m', b) ∧ Released i m m' own own' ∧
      ((∀ e, go e = true) → (m'.tcpdataInfoTbl i).head = none) := by
  have hhere : Released i m m own own := ⟨h, .refl own, ⟨rfl, rfl, fun _ => rfl⟩⟩
  induction fuel generalizing m own l with
  | zero => cases hf
  | succ fuel ih =>
    unfold releaseWhile
    cases he : (m.tcpdataInfoTbl i).head with
    | none => exact ⟨m, false, own, rfl, hhere, fun _ => he⟩
    | some e =>
      dsimp only
      by_cases hgo : go e = true
      · rw [if_pos hgo]
        have hr := h.release he
        obtain ⟨l', hl', -⟩ := hr.info i
        have hlen : l'.length < fuel := by
          rw [he] at hl
          obtain ⟨l₁, rfl, hl₁⟩ := hl.pop (show some Place.free ≠ some (.info i) by nofun) m.free
          have hnext := next_release m i e
          have hhead : ((release m i e).tcpdataInfoTbl i).head = m.next e := by
            show (Function.update m.tcpdataInfoTbl i _ i).head = _
            rw [Function.update_self]
          rw [hnext, hhead] at hl'
          rw [hl'.chain.unique hl₁.chain]
          simpa using hf
        obtain ⟨m', b, own', heq, hrel, hall⟩ := ih hr hl' hlen ⟨hr, .refl _, ⟨rfl, rfl, fun _ => rfl⟩⟩
        rw [heq]
        exact ⟨m', true, own', rfl, ⟨hrel.placed, (keeps_update own e .free).trans hrel.keeps,
          (kept_release m i e).trans hrel.kept⟩, hall⟩
      · rw [if_neg hgo]
        exact ⟨m, false, own, rfl, hhere, fun hall => absurd (hall e) hgo⟩

theorem releaseAll_spec (i : Nat) (h : Placed m own none) :
    ∃ m' own', releaseAll m i = some m' ∧ Released i m m' own own' ∧
      (m'.tcpdataInfoTbl i).head = none := by
  obtain ⟨l, hl, -⟩ := h.info i
  have hf := Nat.lt_succ_of_le (h.length_le hl)
  obtain ⟨m', b, own', heq, hr, hall⟩ := releaseWhile_spec (fun _ => true) i (h.loosen i) hl hf
  refine ⟨m', own', ?_, hr, hall fun _ => rfl⟩
  unfold releaseAll
  rw [heq]
  rfl

/-! ## The ageing loop -/

/-- Which flow is at `j` after flow `i` has been erased. -/
def moved (m : Module) (i j : Nat) : Nat := if j = i then m.tcpdataInfoCnt - 1 else j

/-- The place of the last flow becomes flow `i`. -/
def movedOwn (m : Module) (i : Nat) (own : Elt → Option Place) (e : Elt) : Option Place :=
  if own e = some (.info (m.tcpdataInfoCnt - 1)) then some (.info i) else own e

theorem erase_below {j : Nat} (hj : j < m.tcpdataInfoCnt - 1) :
    (erase m i).tcpdataInfoTbl j = m.tcpdataInfoTbl (moved m i j) := by
  have hne : j ≠ m.tcpdataInfoCnt - 1 := Nat.ne_of_lt hj
  unfold erase moved
  dsimp only
  split
  · next hi =>
    show Function.update (Function.update m.tcpdataInfoTbl i _) _ _ j = _
    rw [Function.update_of_ne hne]
    by_cases hji : j = i
    · subst hji
      rw [Function.update_self, if_pos rfl]
    · rw [Function.update_of_ne hji, if_neg hji]
  · show Function.update m.tcpdataInfoTbl _ _ j = _
    rw [Function.update_of_ne hne, if_neg (by omega)]

theorem erase_beyond {j : Nat} (hi : i < m.tcpdataInfoCnt) (hj : m.tcpdataInfoCnt ≤ j) :
    (erase m i).tcpdataInfoTbl j = m.tcpdataInfoTbl j := by
  have hne : j ≠ m.tcpdataInfoCnt - 1 := by omega
  unfold erase
  dsimp only
  split
  · show Function.update (Function.update m.tcpdataInfoTbl i _) _ _ j = _
    rw [Function.update_of_ne hne, Function.update_of_ne (by omega)]
  · show Function.update m.tcpdataInfoTbl _ _ j = _
    rw [Function.update_of_ne hne]

theorem erase_last (m : Module) (i : Nat) :
    (erase m i).tcpdataInfoTbl (m.tcpdataInfoCnt - 1) = .zero := by
  unfold erase
  dsimp only
  split
  · exact Function.update_self ..
  · exact Function.update_self ..

theorem erase_fields (m : Module) (i : Nat) :
    (erase m i).free = m.free ∧ (erase m i).next = m.next ∧ (erase m i).pool = m.pool ∧
      (erase m i).tcpdataInfoCnt = m.tcpdataInfoCnt - 1 := by
  unfold erase
  dsimp only
  split
  · exact ⟨rfl, rfl, rfl, rfl⟩
  · exact ⟨rfl, rfl, rfl, rfl⟩

section
variable {m : Module} {own : Elt → Option Place} {i : Nat}

theorem keeps_movedOwn (m : Module) (i : Nat) (own : Elt → Option Place) :
    Keeps own (movedOwn m i own) := by
  intro e he
  unfold movedOwn
  split
  · nofun
  · exact he

/-- A flow without elements is erased. -/
theorem Placed.erase (h : Placed m own (some i)) (hi : i < m.tcpdataInfoCnt)
    (hhead : (m.tcpdataInfoTbl i).head = none) : Placed (erase m i) (movedOwn m i own) none := by
  obtain ⟨hfree, hnext, hpool, hcnt⟩ := erase_fields m i
  have hempty : ∀ e, own e ≠ some (.info i) := by
    obtain ⟨l, hl, -⟩ := h.info i
    rw [hhead] at hl
    intro e he
    have hmem := (hl.mem e).mpr he
    rw [hl.none] at hmem
    cases hmem
  have hown : ∀ e j, movedOwn m i own e = some (.info j) →
      j < m.tcpdataInfoCnt - 1 ∧ own e = some (.info (moved m i j)) := by
    intro e j he
    unfold movedOwn at he
    split at he
    · next hlast =>
      cases he
      have hne : i ≠ m.tcpdataInfoCnt - 1 := by
        rintro heq
        rw [← heq] at hlast
        exact hempty e hlast
      refine ⟨by omega, ?_⟩
      unfold moved
      rw [if_pos rfl]
      exact hlast
    · next hlast =>
      have hlt := h.lt e j he
      have hne : j ≠ m.tcpdataInfoCnt - 1 := by
        rintro rfl
        exact hlast he
      refine ⟨by omega, ?_⟩
      unfold moved
      rw [if_neg ?_]
      · exact he
      · rintro rfl
        exact hempty e he
  refine ⟨?_, fun j => ?_, fun e j he => ?_, fun e he => ?_⟩
  · obtain ⟨l, hl⟩ := h.free
    rw [hfree, hnext]
    refine ⟨l, hl.rename fun e => ?_⟩
    unfold movedOwn
    split
    · next hlast =>
      rw [hlast]
      exact iff_of_false (by nofun) (by nofun)
    · exact Iff.rfl
  · rw [hnext]
    rcases Nat.lt_or_ge j (m.tcpdataInfoCnt - 1) with hj | hj
    · rw [erase_below hj]
      obtain ⟨l, hl, ht⟩ := h.info (moved m i j)
      refine ⟨l, hl.rename fun e => ?_, .inr ?_⟩
      · refine ⟨fun he => (hown e j he).2, fun he => ?_⟩
        unfold movedOwn moved at *
        by_cases hji : j = i
        · rw [if_pos hji] at he
          rw [if_pos he, hji]
        · rw [if_neg hji] at he
          rw [if_neg ?_, he]
          rw [he]
          intro heq
          cases heq
          exact Nat.lt_irrefl _ hj
      · rcases ht with ⟨heq, -⟩ | ht
        · unfold moved at heq
          split at heq
          · cases heq
            omega
          · next hji =>
            cases heq
            exact absurd rfl hji
        · exact ht
    · have hno : ∀ e, movedOwn m i own e ≠ some (.info j) := by
        intro e he
        have hlt := (hown e j he).1
        omega
      rcases Nat.eq_or_lt_of_le hj with rfl | hj'
      · rw [erase_last]
        exact ⟨[], line_nil hno, .inr rfl⟩
      · have hge : m.tcpdataInfoCnt ≤ j := by omega
        rw [erase_beyond hi hge]
        obtain ⟨l, hl, ht⟩ := h.info j
        have hl' : l = [] := by
          rw [List.eq_nil_iff_forall_not_mem]
          intro e he
          have hlt := h.lt e j ((hl.mem e).mp he)
          omega
        subst hl'
        rw [show (m.tcpdataInfoTbl j).head = none from hl.chain]
        refine ⟨[], line_nil hno, .inr ?_⟩
        rcases ht with ⟨heq, -⟩ | ht
        · cases heq
          omega
        · exact ht
  · rw [hcnt]
    exact (hown e j he).1
  · unfold Module.inPool
    rw [hpool]
    refine h.pool e ?_
    unfold movedOwn at he
    split at he
    · next hlast =>
      rw [hlast]
      nofun
    · exact he

theorem moved_lt (hi : i < m.tcpdataInfoCnt) {j : Nat} (hj : j < m.tcpdataInfoCnt - 1) :
    moved m i j < m.tcpdataInfoCnt ∧ moved m i j ≠ i := by
  unfold moved
  split
  · omega
  · omega

theorem moved_inj {j k : Nat} (hj : j < m.tcpdataInfoCnt - 1) (hk : k < m.tcpdataInfoCnt - 1)
    (h : moved m i j = moved m i k) : j = k := by
  unfold moved at h
  split at h
  · split at h
    · omega
    · omega
  · split at h
    · omega
    · omega

theorem Distinct.erase (hd : Distinct m) (hi : i < m.tcpdataInfoCnt) :
    Distinct (erase m i) := by
  intro j hj k hk heq
  rw [(erase_fields m i).2.2.2] at hj hk
  rw [erase_below hj, erase_below hk] at heq
  exact moved_inj hj hk (hd _ (moved_lt hi hj).1 _ (moved_lt hi hk).1 heq)

end

/-- What the loop from flow `i` on comes to. -/
structure Searched (flow : Flow) (i : Nat) (m : Module) (own : Elt → Option Place) (r : Search)
    (own' : Elt → Option Place) : Prop where
  placed : Placed r.mod own' none
  distinct : Distinct r.mod
  keeps : Keeps own own'
  count : r.mod.tcpdataInfoCnt ≤ m.tcpdataInfoCnt
  pool : r.mod.pool = m.pool
  nodup : r.visited.Nodup
  visited : ∀ x ∈ r.visited, ∃ j, i ≤ j ∧ j < m.tcpdataInfoCnt ∧ (m.tcpdataInfoTbl j).flow = x
  found : r.found = true → r.idx < r.mod.tcpdataInfoCnt
  missed : r.found = false → r.idx = r.mod.tcpdataInfoCnt ∧
    ∀ j < r.mod.tcpdataInfoCnt, (r.mod.tcpdataInfoTbl j).flow ≠ flow

section
variable {flow : Flow} {i : Nat} {m : Module} {own own' : Elt → Option Place} {r : Search}

/-- Flow `i` is passed. -/
theorem Searched.pass (hs : Searched flow (i + 1) m own r own') (hd : Distinct m)
    (hi : i < m.tcpdataInfoCnt) :
    Searched flow i m own { r with visited := (m.tcpdataInfoTbl i).flow :: r.visited } own' :=
  { hs with
    nodup := by
      rw [List.nodup_cons]
      refine ⟨fun hm => ?_, hs.nodup⟩
      obtain ⟨j, hij, hj, heq⟩ := hs.visited _ hm
      have := hd j hj i hi heq
      omega
    visited := by
      intro x hx
      rcases List.mem_cons.mp hx with rfl | hx
      · exact ⟨i, Nat.le_refl i, hi, rfl⟩
      · obtain ⟨j, hij, hj, heq⟩ := hs.visited x hx
        exact ⟨j, by omega, hj, heq⟩ }

/-- Flow `i` is dropped, and the one that takes its place comes next. -/
theorem Searched.drop {m₁ : Module} {own₁ : Elt → Option Place} (hr : Released i m m₁ own own₁)
    (hs : Searched flow i (Psh.erase m₁ i) (movedOwn m₁ i own₁) r own') (hd : Distinct m)
    (hi : i < m.tcpdataInfoCnt) :
    Searched flow i m own { r with visited := (m.tcpdataInfoTbl i).flow :: r.visited } own' := by
  obtain ⟨-, -, hpool, hcnt⟩ := erase_fields m₁ i
  have hvis : ∀ x ∈ r.visited, ∃ j, i ≤ j ∧ j < m.tcpdataInfoCnt ∧ j ≠ i ∧
      (m.tcpdataInfoTbl j).flow = x := by
    intro x hx
    obtain ⟨j, hij, hj, rfl⟩ := hs.visited x hx
    rw [hcnt] at hj
    obtain ⟨hlt, hne⟩ := moved_lt (by rw [hr.kept.count]; exact hi) hj
    refine ⟨moved m₁ i j, ?_, by rw [← hr.kept.count]; exact hlt, hne, ?_⟩
    · unfold moved
      split
      · omega
      · exact hij
    · rw [erase_below hj, hr.kept.flow]
  refine { hs with
    keeps := (hr.keeps.trans (keeps_movedOwn m₁ i own₁)).trans hs.keeps
    count := ?_
    pool := hs.pool.trans (hpool.trans hr.kept.pool)
    nodup := ?_
    visited := ?_ }
  · have hle := hs.count
    have hc := hr.kept.count
    dsimp only
    omega
  · rw [List.nodup_cons]
    refine ⟨fun hm => ?_, hs.nodup⟩
    obtain ⟨j, -, hj, hne, heq⟩ := hvis _ hm
    exact hne (hd j hj i hi heq)
  · intro x hx
    rcases List.mem_cons.mp hx with rfl | hx
    · exact ⟨i, Nat.le_refl i, hi, rfl⟩
    · obtain ⟨j, hij, hj, -, heq⟩ := hvis x hx
      exact ⟨j, hij, hj, heq⟩

end

theorem search_spec (clock : Nat → BitVec 32) (flow : Flow) {fuel k : Nat} (h : Placed m own none)
    (hd : Distinct m) (hf : m.tcpdataInfoCnt < fuel + i) (hi : i ≤ m.tcpdataInfoCnt)
    (hno : ∀ j < i, (m.tcpdataInfoTbl j).flow ≠ flow) :
    ∃ r own', search clock flow fuel k i m = some r ∧ Searched flow i m own r own' := by
  induction fuel generalizing k i m own with
  | zero => omega
  | succ fuel ih =>
    unfold search
    dsimp only
    by_cases hend : m.tcpdataInfoCnt ≤ i
    · obtain rfl : i = m.tcpdataInfoCnt := Nat.le_antisymm hi hend
      rw [if_pos hend]
      exact ⟨_, own, rfl, h, hd, .refl own, Nat.le_refl _, rfl, List.nodup_nil, nofun, nofun,
        fun _ => ⟨rfl, hno⟩⟩
    · have hlt : i < m.tcpdataInfoCnt := Nat.lt_of_not_le hend
      rw [if_neg hend]
      by_cases hflow : (m.tcpdataInfoTbl i).flow = flow
      · rw [if_pos hflow]
        have hk : Kept m (m.setInfo i { m.tcpdataInfoTbl i with lastUsedTime := clock k }) :=
          kept_of_update rfl rfl rfl rfl
        refine ⟨_, own, rfl, ?_, hk.distinct hd, .refl own, Nat.le_refl _, rfl,
          List.nodup_singleton _, ?_, fun _ => hlt, nofun⟩
        · refine h.congr rfl rfl rfl (Nat.le_refl _) (fun j => ?_) fun j => ?_
          · show (Function.update m.tcpdataInfoTbl i _ j).head = _
            rcases eq_or_ne j i with rfl | hj
            · rw [Function.update_self]
            · rw [Function.update_of_ne hj]
          · show (Function.update m.tcpdataInfoTbl i _ j).tail = _
            rcases eq_or_ne j i with rfl | hj
            · rw [Function.update_self]
            · rw [Function.update_of_ne hj]
        · intro x hx
          rw [List.mem_singleton] at hx
          exact ⟨i, Nat.le_refl i, hlt, hx.symm⟩
      · rw [if_neg hflow]
        by_cases hold : TCPDATA_INFO_TIMEOUT < clock k - (m.tcpdataInfoTbl i).lastUsedTime
        · rw [if_pos hold]
          obtain ⟨m₁, own₁, hm₁, hr, hhead⟩ := releaseAll_spec i h
          have hlt₁ : i < m₁.tcpdataInfoCnt := by rw [hr.kept.count]; exact hlt
          have hcnt := (erase_fields m₁ i).2.2.2
          have hc := hr.kept.count
          obtain ⟨r, own', heq, hs⟩ := ih (k := k + 1) (i := i) (hr.placed.erase hlt₁ hhead)
            ((hr.kept.distinct hd).erase hlt₁) (by omega) (by omega) (by
              intro j hj
              rw [erase_below (by omega), hr.kept.flow]
              unfold moved
              rw [if_neg (Nat.ne_of_lt hj)]
              exact hno j hj)
          rw [hm₁]
          dsimp only
          rw [heq]
          exact ⟨_, own', rfl, .drop hr hs hd hlt⟩
        · rw [if_neg hold]
          obtain ⟨r, own', heq, hs⟩ := ih (k := k + 1) (i := i + 1) h hd (by omega) hlt (by
            intro j hj
            rcases Nat.lt_succ_iff_lt_or_eq.mp hj with hj | rfl
            · exact hno j hj
            · exact hflow)
          rw [heq]
          exact ⟨_, own', rfl, hs.pass hd hlt⟩

/-! ## A new end -/

section
variable {m : Module} {own : Elt → Option Place} {i : Nat}

/-- An element of the pool comes to the end of flow `i`. -/
theorem addEnd_spec (h : Placed m own none) (hi : i < m.tcpdataInfoCnt) (endSeq : Nat) :
    ∃ m' own', addEnd m i endSeq = some m' ∧ Placed m' own' none ∧ Keeps own own' ∧ Kept m m' := by
  unfold addEnd poolDeq
  cases hfree : m.free with
  | none => exact ⟨m, own, rfl, h, .refl own, ⟨rfl, rfl, fun _ => rfl⟩⟩
  | some e =>
    dsimp only
    obtain ⟨lf, hlf⟩ := h.free
    rw [hfree] at hlf
    have hown : own e = some .free := hlf.visits_iff.mp .here
    obtain ⟨lf', -, hlf'⟩ := hlf.pop (show some (Place.info i) ≠ some .free by nofun) none
    have hother : ∀ j, j ≠ i → ∃ l,
        Line (Function.update m.next e none) (Function.update own e (some (.info i)))
          (some (.info j)) (m.tcpdataInfoTbl j).head l ∧
        (m.tcpdataInfoTbl j).tail = l.getLast? := by
      intro j hj
      obtain ⟨l, hl, ⟨hn, -⟩ | ht⟩ := h.info j
      · cases hn
      · refine ⟨l, hl.frame (by rw [hown]; nofun) ?_ none, ht⟩
        intro heq
        cases heq
        exact hj rfl
    have hlt : ∀ e' j, Function.update own e (some (.info i)) e' = some (.info j) →
        j < m.tcpdataInfoCnt := by
      intro e' j he'
      by_cases hx : e' = e
      · subst hx
        rw [Function.update_self] at he'
        cases he'
        exact hi
      · rw [Function.update_of_ne hx] at he'
        exact h.lt e' j he'
    have hpool : ∀ e', Function.update own e (some (.info i)) e' ≠ none → m.inPool e' := by
      intro e' he'
      by_cases hx : e' = e
      · subst hx
        exact h.pool e' (by rw [hown]; nofun)
      · rw [Function.update_of_ne hx] at he'
        exact h.pool e' he'
    obtain ⟨li, hli, ⟨hn, -⟩ | htail⟩ := h.info i
    · cases hn
    have hli' := hli.frame_link (x := e) (by rw [hown]; nofun) none
    have hne : own e ≠ some (.info i) := by rw [hown]; nofun
    cases hhead : (m.tcpdataInfoTbl i).head with
    | none =>
      rw [hhead] at hli'
      refine ⟨_, Function.update own e (some (.info i)), rfl,
        ⟨⟨lf', hlf'⟩, fun j => ?_, hlt, hpool⟩, keeps_update own e _,
        kept_of_update rfl rfl rfl rfl⟩
      show ∃ l, Line _ _ _ (Function.update m.tcpdataInfoTbl i _ j).head l ∧
        (_ ∨ (Function.update m.tcpdataInfoTbl i _ j).tail = _)
      by_cases hj : j = i
      · subst hj
        rw [Function.update_self]
        have hpush := hli'.push hne
        rw [Function.update_idem, hli'.none] at hpush
        exact ⟨[e], hpush, .inr rfl⟩
      · rw [Function.update_of_ne hj]
        obtain ⟨l, hl, ht⟩ := hother j hj
        exact ⟨l, hl, .inr ht⟩
    | some x =>
      obtain ⟨l, t, rfl⟩ : ∃ l t, li = l ++ [t] := by
        have hnil : li ≠ [] := by
          intro hnil
          have hc := hli.chain.eq_nil_iff.mpr hnil
          rw [hhead] at hc
          cases hc
        exact ⟨_, _, (List.dropLast_append_getLast hnil).symm⟩
      rw [List.getLast?_concat] at htail
      rw [hhead] at hli'
      rw [htail]
      have happ := hli'.append hne (Function.update_self ..)
      have hownt : Function.update own e (some (.info i)) t = some (.info i) :=
        (happ.mem t).mp (List.mem_append_left _ (List.mem_append_right _ List.mem_cons_self))
      refine ⟨_, Function.update own e (some (.info i)), rfl,
        ⟨⟨lf', hlf'.frame_link (by rw [hownt]; nofun) _⟩, fun j => ?_, hlt, hpool⟩,
        keeps_update own e _, kept_of_update rfl rfl rfl rfl⟩
      show ∃ l, Line _ _ _ (Function.update m.tcpdataInfoTbl i _ j).head l ∧
        (_ ∨ (Function.update m.tcpdataInfoTbl i _ j).tail = _)
      by_cases hj : j = i
      · subst hj
        rw [Function.update_self]
        refine ⟨_, happ, .inr ?_⟩
        rw [List.getLast?_concat]
      · rw [Function.update_of_ne hj]
        obtain ⟨l', hl', ht⟩ := hother j hj
        refine ⟨l', hl'.frame_link ?_ _, .inr ht⟩
        rw [hownt]
        intro heq
        cases heq
        exact hj rfl

theorem newInfo_tbl (m : Module) (flow : Flow) (now : BitVec 32) (j : Nat) :
    (newInfo m i flow now).tcpdataInfoTbl j =
      if j = i then { m.tcpdataInfoTbl i with flow := flow, lastUsedTime := now }
      else m.tcpdataInfoTbl j := by
  show Function.update m.tcpdataInfoTbl i _ j = _
  by_cases hj : j = i
  · subst hj
    rw [Function.update_self, if_pos rfl]
  · rw [Function.update_of_ne hj, if_neg hj]

theorem Placed.newInfo (h : Placed m own none) (i : Nat) (flow : Flow) (now : BitVec 32) :
    Placed (newInfo m i flow now) own none := by
  refine h.congr rfl rfl rfl (Nat.le_succ _) (fun j => ?_) fun j => ?_
  · rw [newInfo_tbl]
    split
    · next hj => rw [hj]
    · rfl
  · rw [newInfo_tbl]
    split
    · next hj => rw [hj]
    · rfl

theorem Distinct.newInfo (hd : Distinct m) {flow : Flow} (now : BitVec 32)
    (hno : ∀ j < m.tcpdataInfoCnt, (m.tcpdataInfoTbl j).flow ≠ flow) :
    Distinct (newInfo m m.tcpdataInfoCnt flow now) := by
  intro j hj k hk heq
  replace hj : j < m.tcpdataInfoCnt + 1 := hj
  replace hk : k < m.tcpdataInfoCnt + 1 := hk
  rw [newInfo_tbl, newInfo_tbl] at heq
  split at heq
  · next hjc =>
    split at heq
    · next hkc => rw [hjc, hkc]
    · next hkc => exact absurd heq.symm (hno k (by omega))
  · next hjc =>
    split at heq
    · next hkc => exact absurd heq (hno j (by omega))
    · next hkc => exact hd j (by omega) k (by omega) heq

end

/-- All that holds of the elements and the flows. -/
structure Sound (m : Module) (own : Elt → Option Place) : Prop where
  placed : Placed m own none
  distinct : Distinct m
  count : m.tcpdataInfoCnt ≤ TCPDATA_INFO_MAXNUM

theorem recordEnd_spec (h : Sound m own) (flow : Flow) (endSeq : Nat) (clock : Nat → BitVec 32) :
    ∃ m' own' visited, recordEnd m flow endSeq clock = some (m', visited) ∧ Sound m' own' ∧
      Keeps own own' ∧ m'.pool = m.pool ∧ visited.Nodup := by
  have hf : m.tcpdataInfoCnt < m.tcpdataInfoCnt + 1 + 0 := Nat.lt_succ_self _
  obtain ⟨r, own₁, heq, hs⟩ := search_spec clock flow (k := 0) h.placed h.distinct hf
    (Nat.zero_le _) nofun
  have hcount : r.mod.tcpdataInfoCnt ≤ TCPDATA_INFO_MAXNUM := Nat.le_trans hs.count h.count
  unfold recordEnd
  rw [heq]
  dsimp only
  cases hfound : r.found with
  | true =>
    obtain ⟨m', own', hadd, hp, hk, hkept⟩ := addEnd_spec hs.placed (hs.found hfound) endSeq
    rw [if_pos rfl, hadd]
    refine ⟨m', own', r.visited, rfl, ⟨hp, hkept.distinct hs.distinct, ?_⟩, hs.keeps.trans hk,
      hkept.pool.trans hs.pool, hs.nodup⟩
    rw [hkept.count]
    exact hcount
  | false =>
    obtain ⟨hidx, hno⟩ := hs.missed hfound
    rw [if_neg Bool.false_ne_true, hidx]
    by_cases hfull : TCPDATA_INFO_MAXNUM ≤ r.mod.tcpdataInfoCnt
    · rw [if_pos hfull]
      exact ⟨r.mod, own₁, r.visited, rfl, ⟨hs.placed, hs.distinct, hcount⟩, hs.keeps, hs.pool,
        hs.nodup⟩
    · rw [if_neg hfull]
      obtain ⟨m', own', hadd, hp, hk, hkept⟩ := addEnd_spec
        (hs.placed.newInfo r.mod.tcpdataInfoCnt flow (clock r.turns)) (Nat.lt_succ_self _) endSeq
      rw [hadd]
      refine ⟨m', own', r.visited, rfl,
        ⟨hp, hkept.distinct (hs.distinct.newInfo (clock r.turns) hno), ?_⟩, hs.keeps.trans hk,
        hkept.pool.trans hs.pool, hs.nodup⟩
      rw [hkept.count]
      exact Nat.lt_of_not_le hfull

/-! ## An ACK -/

theorem pshAcked_spec (h : Sound m own) (ack : Flow) (ackNum : Nat) :
    ∃ m' b own', pshAcked m ack ackNum = some (m', b) ∧ Sound m' own' ∧
      Keeps own own' ∧ m'.pool = m.pool := by
  unfold pshAcked
  split
  · exact ⟨m, false, own, rfl, h, .refl own, rfl⟩
  · next i _ =>
    unfold ackEnds
    obtain ⟨l, hl, -⟩ := h.placed.info i
    have hf := Nat.lt_succ_of_le (h.placed.length_le hl)
    obtain ⟨m₁, b, own₁, heq, hr, -⟩ := releaseWhile_spec (fun e => tcpseqGe ackNum (m.endSeq e)) i
      (h.placed.loosen i) hl hf
    rw [heq]
    have hd := hr.kept.distinct h.distinct
    have hc : m₁.tcpdataInfoCnt ≤ TCPDATA_INFO_MAXNUM := by
      rw [hr.kept.count]
      exact h.count
    dsimp only
    split
    · next hhead =>
      have hk : Kept m₁ (m₁.setInfo i { m₁.tcpdataInfoTbl i with tail := none }) :=
        kept_of_update rfl rfl rfl rfl
      exact ⟨_, b, own₁, rfl, ⟨hr.placed.clearTail hhead, hk.distinct hd, hc⟩, hr.keeps,
        hr.kept.pool⟩
    · next hhead =>
      exact ⟨_, b, own₁, rfl, ⟨hr.placed.tighten fun hn => absurd hn hhead, hd, hc⟩, hr.keeps,
        hr.kept.pool⟩

/-! ## The pool is made and freed -/

/-- There are no flows, and no element is free. -/
structure Idle (m : Module) : Prop where
  count : m.tcpdataInfoCnt = 0
  head : ∀ i, (m.tcpdataInfoTbl i).head = none
  tail : ∀ i, (m.tcpdataInfoTbl i).tail = none
  free : m.free = none

/-- No element of the pool is without a place. -/
def Full (m : Module) (own : Elt → Option Place) : Prop := ∀ e, m.inPool e → own e ≠ none

theorem Full.step {m' : Module} {own' : Elt → Option Place} (hf : Full m own) (hk : Keeps own own')
    (hpool : m'.pool = m.pool) : Full m' own' := by
  intro e he
  refine hk e (hf e ?_)
  unfold Module.inPool at he
  rw [hpool] at he
  exact he

theorem Idle.sound (h : Idle m) : Sound m fun _ => none where
  placed :=
    { free := by
        rw [h.free]
        exact ⟨[], line_nil nofun⟩
      info := by
        intro i
        rw [h.head i, h.tail i]
        exact ⟨[], line_nil nofun, .inr rfl⟩
      lt := nofun
      pool := fun e he => absurd rfl he }
  distinct := by
    intro i hi
    rw [h.count] at hi
    exact absurd hi (Nat.not_lt_zero i)
  count := by
    rw [h.count]
    exact Nat.zero_le _

theorem poolEnq_fields (es : List Elt) (m : Module) :
    (es.foldl poolEnq m).tcpdataInfoTbl = m.tcpdataInfoTbl ∧
      (es.foldl poolEnq m).tcpdataInfoCnt = m.tcpdataInfoCnt := by
  induction es generalizing m with
  | nil => exact ⟨rfl, rfl⟩
  | cons e es ih => exact ih (poolEnq m e)

/-- Elements are put before the free ones. -/
theorem line_poolEnq {es : List Elt} {l : List Elt} (hl : Line m.next own (some .free) m.free l)
    (hno : ∀ e ∈ es, own e = none) (hnd : es.Nodup) :
    ∃ l', Line (es.foldl poolEnq m).next (fun e => if e ∈ es then some Place.free else own e)
      (some .free) (es.foldl poolEnq m).free l' := by
  induction es generalizing m own l with
  | nil => exact ⟨l, hl.rename fun e => by rw [if_neg List.not_mem_nil]⟩
  | cons e es ih =>
    rw [List.nodup_cons] at hnd
    have hpush := hl.push (x := e) (by rw [hno e List.mem_cons_self]; nofun)
    obtain ⟨l', hl'⟩ := ih (m := poolEnq m e) hpush (by
      intro e' he'
      rw [Function.update_of_ne ?_]
      · exact hno e' (List.mem_cons_of_mem e he')
      · rintro rfl
        exact hnd.1 he') hnd.2
    refine ⟨l', hl'.rename fun e' => ?_⟩
    by_cases he : e' = e
    · subst he
      rw [if_pos List.mem_cons_self, if_neg hnd.1, Function.update_self]
    · rw [Function.update_of_ne he]
      by_cases hmem : e' ∈ es
      · rw [if_pos hmem, if_pos (List.mem_cons_of_mem e hmem)]
      · rw [if_neg hmem, if_neg]
        rw [List.mem_cons, not_or]
        exact ⟨he, hmem⟩

theorem mem_elts (a : Nat) (e : Elt) : e ∈ elts a ↔ a = e.1 ∧ e.2 < TCPDATA_PSH_INFO_MAXNUM := by
  unfold elts
  rw [List.mem_map]
  constructor
  · rintro ⟨i, hi, rfl⟩
    exact ⟨rfl, List.mem_range.mp hi⟩
  · rintro ⟨rfl, h⟩
    exact ⟨e.2, List.mem_range.mpr h, rfl⟩

theorem elts_nodup (a : Nat) : (elts a).Nodup :=
  List.nodup_range.map fun _ _ h => (Prod.mk.inj h).2

/-- A new pool is free, all of it. -/
theorem Idle.poolInit (h : Idle m) (a : Nat) :
    ∃ own, Sound (poolInit m (some a)) own ∧ Full (poolInit m (some a)) own := by
  have heq : Psh.poolInit m (some a) =
      { (elts a).foldl poolEnq (bzero m (elts a)) with pool := some a } := rfl
  obtain ⟨m₀, hm₀⟩ : ∃ m₀, m₀ = bzero m (elts a) := ⟨_, rfl⟩
  have hfree : m₀.free = none := by rw [hm₀]; exact h.free
  have htbl : m₀.tcpdataInfoTbl = m.tcpdataInfoTbl := by rw [hm₀]; rfl
  have hcnt : m₀.tcpdataInfoCnt = 0 := by rw [hm₀]; exact h.count
  rw [← hm₀] at heq
  have hin : ∀ e, (if e ∈ elts a then some Place.free else none) ≠ none ↔ e ∈ elts a := by
    intro e
    split
    · next he => exact iff_of_true nofun he
    · next he => exact iff_of_false (absurd rfl) he
  have hpool : ∀ e, (Psh.poolInit m (some a)).inPool e ↔ e ∈ elts a := by
    intro e
    rw [heq, mem_elts]
    unfold Module.inPool
    rw [Option.some.injEq]
  obtain ⟨htbl', hcnt'⟩ := poolEnq_fields (elts a) m₀
  have hline : Line m₀.next (fun _ => none) (some Place.free) m₀.free [] := by
    rw [hfree]
    exact line_nil nofun
  have hfull := line_poolEnq hline (fun _ _ => rfl) (elts_nodup a)
  generalize (elts a).foldl poolEnq m₀ = m₁ at heq htbl' hcnt' hfull
  refine ⟨fun e => if e ∈ elts a then some .free else none, ⟨⟨?_, fun i => ?_, fun e i he => ?_,
    fun e he => (hpool e).mpr ((hin e).mp he)⟩, fun i hi => ?_, ?_⟩,
    fun e he => (hin e).mpr ((hpool e).mp he)⟩
  · rw [heq]
    exact hfull
  · refine ⟨[], ?_, .inr ?_⟩
    · rw [heq]
      dsimp only
      rw [htbl', htbl, h.head i]
      refine line_nil fun e => ?_
      split
      · nofun
      · nofun
    · rw [heq]
      dsimp only
      rw [htbl', htbl, h.tail i]
      rfl
  · split at he
    · cases he
    · cases he
  · rw [heq] at hi
    dsimp only at hi
    rw [hcnt', hcnt] at hi
    exact absurd hi (Nat.not_lt_zero i)
  · rw [heq]
    dsimp only
    rw [hcnt', hcnt]
    exact Nat.zero_le _

theorem returnAll_spec {k : Nat} (h : Placed m own none) :
    ∃ m' own', returnAll k i m = some m' ∧ Placed m' own' none ∧ m'.pool = m.pool := by
  induction k generalizing i m own with
  | zero => exact ⟨m, own, rfl, h, rfl⟩
  | succ k ih =>
    obtain ⟨m₁, own₁, heq, hr, hhead⟩ := releaseAll_spec i h
    obtain ⟨m', own', heq', hp, hpool⟩ := ih (i := i + 1) (hr.placed.clearTail hhead)
    refine ⟨m', own', ?_, hp, hpool.trans hr.kept.pool⟩
    unfold returnAll
    rw [heq]
    exact heq'

theorem emptyFree_spec {fuel : Nat} {l : List Elt} (hl : Chain m.next m.free l)
    (hf : l.length < fuel) : ∃ m', emptyFree fuel m = some m' ∧ m'.free = none ∧
      m'.pool = m.pool := by
  induction fuel generalizing m l with
  | zero => cases hf
  | succ fuel ih =>
    unfold emptyFree
    cases l with
    | nil =>
      rw [show m.free = none from hl]
      exact ⟨m, rfl, hl, rfl⟩
    | cons e l =>
      have hnd := hl.nodup
      rw [List.nodup_cons] at hnd
      rw [hl.1]
      exact ih (m := { m with free := m.next e, next := Function.update m.next e none })
        (hl.2.frame hnd.1 none) (by simpa using hf)

/-- The pool is freed, and `m.pool` still leads to it. -/
theorem poolDeinit_spec (h : Placed m own none) :
    ∃ m', poolDeinit m = some m' ∧ m'.free = none ∧ m'.pool = m.pool := by
  obtain ⟨m₁, own₁, heq, hp, hpool⟩ := returnAll_spec (k := m.tcpdataInfoCnt) (i := 0) h
  obtain ⟨l, hl⟩ := hp.free
  obtain ⟨m', heq', hfree, hpool'⟩ :=
    emptyFree_spec hl.chain (Nat.lt_succ_of_le (hp.length_le hl))
  refine ⟨m', ?_, hfree, hpool'.trans hpool⟩
  unfold poolDeinit
  rw [heq]
  exact heq'

/-! ## Every run -/

/-- The states of runs; with `full`, of runs in which no pool is missed. -/
inductive Good (full : Prop) : Dhd → Prop
  | off : Good full ⟨.off, none⟩
  | replace {m : Module} (h : Idle m) : Good full ⟨.replace, some m⟩
  | delaytx {m : Module} {own : Elt → Option Place} (h : Sound m own) (hf : full → Full m own) :
      Good full ⟨.delaytx, some m⟩

theorem idle_zero : Idle .zero := ⟨rfl, fun _ => rfl, fun _ => rfl, rfl⟩

/-- Without a pool nothing is lost if there has been none. -/
theorem full_of_no_pool (h : m.pool = none) : Full m fun _ => none := by
  intro e he
  unfold Module.inPool at he
  rw [h] at he
  cases he.1

/-- A new mode is entered without flows and free elements. -/
theorem good_enterMode (hs : s.mod = some m) (h : Idle m) {mode : Mode} (hmode : mode ≠ .hold)
    (mallocPool : Option Nat) (hgets : full → mode = .delaytx → mallocPool = none → m.pool = none) :
    Good full (enterMode s mode mallocPool) := by
  unfold enterMode
  rw [hs]
  cases mode with
  | off => exact .off
  | hold => exact absurd rfl hmode
  | replace => exact .replace h
  | delaytx =>
    cases mallocPool with
    | none => exact .delaytx h.sound fun hfull => full_of_no_pool (hgets hfull rfl rfl)
    | some a =>
      obtain ⟨own, hsound, hfull⟩ := h.poolInit a
      exact .delaytx hsound fun _ => hfull

theorem good_suppressSet (h : Good full s) (mode : Mode) (mallocModule : Bool)
    (mallocPool : Option Nat)
    (hgets : full → getsPool s (.setMode mode mallocModule mallocPool) = true) :
    ∃ t, suppressSet s mode mallocModule mallocPool = some t ∧ Good full t := by
  unfold suppressSet
  split
  · exact ⟨s, rfl, h⟩
  · next hmode =>
    rw [not_or] at hmode
    cases h with
    | off =>
      unfold leaveMode
      cases mallocModule with
      | false => exact ⟨_, rfl, .off⟩
      | true => exact ⟨_, rfl, good_enterMode rfl idle_zero hmode.2 mallocPool fun _ _ _ => rfl⟩
    | replace hi =>
      refine ⟨_, rfl, good_enterMode rfl hi hmode.2 mallocPool ?_⟩
      rintro hfull rfl rfl
      simpa [getsPool] using hgets hfull
    | @delaytx m own hs hf =>
      obtain ⟨m', heq, hfree, -⟩ := poolDeinit_spec hs.placed
      unfold leaveMode
      dsimp only
      rw [heq]
      have hidle : Idle { m' with tcpdataInfoCnt := 0, tcpdataInfoTbl := fun _ => .zero } :=
        ⟨rfl, fun _ => rfl, fun _ => rfl, hfree⟩
      refine ⟨_, rfl, good_enterMode rfl hidle hmode.2 mallocPool ?_⟩
      rintro - rfl
      exact absurd rfl hmode.1

theorem good_infoGet (h : Good full s) (f : Frame) (clock : Nat → BitVec 32) :
    ∃ t visited, infoGet s f clock = some (t, visited) ∧ visited.Nodup ∧ Good full t := by
  cases h with
  | off => exact ⟨_, [], rfl, List.nodup_nil, .off⟩
  | replace hi => exact ⟨_, [], rfl, List.nodup_nil, .replace hi⟩
  | @delaytx m own hs hf =>
    unfold infoGet
    cases hend : pshEndSeq f with
    | none => exact ⟨_, [], rfl, List.nodup_nil, .delaytx hs hf⟩
    | some endSeq =>
      obtain ⟨m', own', visited, heq, hs', hk, hpool, hnd⟩ := recordEnd_spec hs f.flow endSeq clock
      dsimp only
      rw [heq]
      exact ⟨_, visited, rfl, hnd, .delaytx hs' fun hfull => (hf hfull).step hk hpool⟩

theorem good_suppress (h : Good full s) (f : Frame) :
    ∃ t, suppress s f = some t ∧ Good full t := by
  cases h with
  | off => exact ⟨_, rfl, .off⟩
  | replace hi => exact ⟨_, rfl, .replace hi⟩
  | @delaytx m own hs hf =>
    unfold suppress
    cases hack : f.isTcpack with
    | false => exact ⟨_, rfl, .delaytx hs hf⟩
    | true =>
      obtain ⟨m', b, own', heq, hs', hk, hpool⟩ := pshAcked_spec hs f.flow f.tcpAckNum
      dsimp only
      rw [heq]
      exact ⟨_, rfl, .delaytx hs' fun hfull => (hf hfull).step hk hpool⟩

/-- **A call ends**, with flows that it has come to once, and loses no element if it does not miss
a pool. -/
theorem good_step (h : Good full s) (c : Call) (hgets : full → getsPool s c = true) :
    ∃ t visited, step s c = some (t, visited) ∧ visited.Nodup ∧ Good full t := by
  cases c with
  | infoGet f clock => exact good_infoGet h f clock
  | suppress f =>
    obtain ⟨t, heq, ht⟩ := good_suppress h f
    refine ⟨t, [], ?_, List.nodup_nil, ht⟩
    show (Psh.suppress s f).map (·, []) = _
    rw [heq]
    rfl
  | setMode mode mallocModule mallocPool =>
    obtain ⟨t, heq, ht⟩ := good_suppressSet h mode mallocModule mallocPool hgets
    refine ⟨t, [], ?_, List.nodup_nil, ht⟩
    show (suppressSet s mode mallocModule mallocPool).map (·, []) = _
    rw [heq]
    rfl

theorem Sound.conserved (h : Sound m own) (hf : Full m own) : Conserved m where
  one_place := by
    have hvisits : ∀ p e, Visits m.next (m.headOf p) e ↔ own e = some p := by
      intro p e
      cases p with
      | free =>
        obtain ⟨l, hl⟩ := h.placed.free
        exact hl.visits_iff
      | info i =>
        obtain ⟨l, hl, -⟩ := h.placed.info i
        unfold Module.headOf
        dsimp only
        split
        · exact hl.visits_iff
        · next hi => exact iff_of_false nofun fun he => hi (h.placed.lt e i he)
    intro e he
    obtain ⟨p, hp⟩ := Option.ne_none_iff_exists'.mp (hf e he)
    refine ⟨p, (hvisits p e).mpr hp, fun q hq => ?_⟩
    rw [(hvisits q e).mp hq] at hp
    exact Option.some.inj hp
  free_ends := by
    obtain ⟨l, hl⟩ := h.placed.free
    exact ⟨l, hl.chain⟩
  ends := by
    intro i _
    obtain ⟨l, hl, ⟨hn, -⟩ | ht⟩ := h.placed.info i
    · cases hn
    · exact ⟨l, hl.chain, ht⟩
  distinct := h.distinct
  count := h.count

theorem Good.intact (h : Good True s) : Intact s := by
  intro hmode
  cases h with
  | off => cases hmode
  | replace hi => cases hmode
  | @delaytx m own hs hf => exact ⟨m, rfl, hs.conserved (hf trivial)⟩

/-- The elements of a pool that has been freed are in no chain. -/
theorem not_intact_missed {t : Dhd} {c : Call} {visited : List Flow} (h : Good full s)
    (hgets : getsPool s c = false) (hs : step s c = some (t, visited)) :
    ¬ Intact t := by
  intro hi
  unfold getsPool at hgets
  split at hgets
  · next mallocModule =>
    rw [Bool.not_eq_false', Bool.and_eq_true, decide_eq_true_iff] at hgets
    obtain ⟨hmode, hpool⟩ := hgets
    cases h with
    | off => cases hmode
    | delaytx hs hf => cases hmode
    | @replace m hidle =>
      cases hs
      obtain ⟨m', hm', hc⟩ := hi rfl
      cases hm'
      obtain ⟨a, ha⟩ := Option.isSome_iff_exists.mp hpool
      obtain ⟨p, hp, -⟩ := hc.one_place (a, 0) ⟨ha, show 0 < TCPDATA_PSH_INFO_MAXNUM by decide⟩
      have hhead : m.headOf p = none := by
        cases p with
        | free => exact hidle.free
        | info i =>
          unfold Module.headOf
          dsimp only
          rw [hidle.count, if_neg (Nat.not_lt_zero i)]
      replace hp : Visits m.next (m.headOf p) (a, 0) := hp
      rw [hhead] at hp
      cases hp
  · cases hgets

theorem runs_total (h : Good False s) (calls : List Call) :
    ∃ t tr, runs step s calls = some (t, tr) ∧ ∀ c ∈ tr, c.2.Nodup := by
  induction calls generalizing s with
  | nil => exact ⟨s, [], rfl, nofun⟩
  | cons c calls ih =>
    obtain ⟨s', visited, hs, hnd, hg⟩ := good_step h c False.elim
    obtain ⟨t, tr, hr, hall⟩ := ih hg
    refine ⟨t, _, (runs_cons_eq_some _ _ _ _ _ _).mpr ⟨s', visited, tr, hs, hr, rfl⟩, ?_⟩
    intro c' hc'
    rcases List.mem_cons.mp hc' with rfl | hc'
    · exact hnd
    · exact hall c' hc'

theorem Good.next {s' : Dhd} {c : Call} {visited : List Flow} (h : Good True s)
    (hg : getsPool s c = true) (hs : step s c = some (s', visited)) : Good True s' := by
  obtain ⟨t, visited', hs', -, ht⟩ := good_step h c fun _ => hg
  cases hs.symm.trans hs'
  exact ht

/-- **When the elements of the pool are conserved.**  Every call ends, and comes to a flow once. -/
theorem psh_pool_intact_iff (calls : List Call) :
    ∃ t tr, runs step .attached calls = some (t, tr) ∧ (∀ c ∈ tr, c.2.Nodup) ∧
      ((∀ before after u tr₁, before ++ after = calls →
          runs step .attached before = some (u, tr₁) → Intact u) ↔
        meets step getsPool .attached calls = true) := by
  obtain ⟨t, tr, hrun, hnd⟩ := runs_total .off calls
  refine ⟨t, tr, hrun, hnd, fun hall => ?_, fun hm before after u tr₁ happ hbefore => ?_⟩
  · refine meets_of_prefixes step (fun _ _ => true) getsPool (fun s _ => Good True s)
      (fun s _ => Intact s) ?_ ?_ .attached t calls tr .off (meets_true _ _ _) hrun hall
    · exact fun s tr c s' visited hi hg hs => hi.next hg hs
    · exact fun s tr c s' visited hi _ hg hs => not_intact_missed hi hg hs
  · rw [← happ] at hm
    refine Good.intact (runs_inv_of_meets step getsPool (fun s _ => Good True s)
      (fun s tr c s' visited hi hg hs => hi.next hg hs) .attached u before tr₁ .off
      (meets_of_append _ _ _ _ _ hm) hbefore)

/-- The first change to DELAYTX makes a pool. -/
theorem first_pool : ∃ m own, Sound m own ∧ m.pool = some 0x1000 ∧
    step .attached (.setMode .delaytx true (some 0x1000)) = some (⟨.delaytx, some m⟩, []) := by
  obtain ⟨own, hsound, -⟩ := idle_zero.poolInit 0x1000
  exact ⟨poolInit .zero (some 0x1000), own, hsound, rfl, rfl⟩

/-- The mode is DELAYTX, then REPLACE, and there is no memory when it is DELAYTX again. -/
theorem psh_pool_not_intact :
    ¬ ∀ calls t tr, runs step .attached calls = some (t, tr) → Intact t := by
  intro h
  obtain ⟨m₁, own, hsound, hpool₁, h₁⟩ := first_pool
  obtain ⟨m, hm, hfree, hpool⟩ := poolDeinit_spec hsound.placed
  obtain ⟨m₂, hm₂⟩ : ∃ m₂ : Module,
      m₂ = { m with tcpdataInfoCnt := 0, tcpdataInfoTbl := fun _ => .zero } := ⟨_, rfl⟩
  have hidle : Idle m₂ := by
    rw [hm₂]
    exact ⟨rfl, fun _ => rfl, fun _ => rfl, hfree⟩
  have h₂ : step ⟨.delaytx, some m₁⟩ (.setMode .replace true none) =
      some (⟨.replace, some m₂⟩, []) := by
    have hne : ¬(Mode.delaytx = .replace ∨ Mode.replace = .hold) := by decide
    show (suppressSet _ .replace true none).map (·, []) = _
    unfold suppressSet
    rw [if_neg hne]
    unfold leaveMode
    dsimp only
    rw [hm, hm₂]
    rfl
  have h₃ : step ⟨.replace, some m₂⟩ (.setMode .delaytx true none) =
      some (⟨.delaytx, some m₂⟩, []) := rfl
  have hgets : getsPool ⟨.replace, some m₂⟩ (.setMode .delaytx true none) = false := by
    have hpool₂ : m₂.pool = some 0x1000 := by
      rw [hm₂]
      exact hpool.trans hpool₁
    unfold getsPool
    dsimp only
    rw [Option.any_some, hpool₂]
    rfl
  have hrun := runs_snoc step (runs_snoc step (runs_snoc step (runs_nil step _) h₁) h₂) h₃
  have hgood : Good True ⟨.replace, some m₂⟩ := .replace hidle
  exact not_intact_missed hgood hgets h₃ (h _ _ _ hrun)

end Bcmdhd.Tcpack.Psh
