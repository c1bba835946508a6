import Bcmdhd.Lib.CircularList
import Bcmdhd.Lib.Runs
import Bcmdhd.Wlfc.Cleanup
import Bcmdhd.Wlfc.Credits
import Bcmdhd.Wlfc.Signals

/-!
# The ring of active entries (`active_entry_head`)

`_dhd_wlfc_deque_delayedq` goes round a ring of destination entries.  An entry comes into it with
`eWLFC_MAC_ENTRY_ACTION_ADD` and leaves it with `eWLFC_MAC_ENTRY_ACTION_DEL`, whereas `occupied` is
also set by `eWLFC_MAC_ENTRY_ACTION_UPDATE`, and also cleared by a clean-up of all packets.

    every state of a run is intact  ↔  every UPDATE is of an entry in the ring
                                                                    (active_ring_intact_iff)

The ring itself is intact in every run (`hasRing_call`).
-/

namespace Bcmdhd.Wlfc.ActiveRing

open CircularList Runs
open Credits (MacState)
open Signals (Node nodeDest lookupIndex removeRequested)

/-! ## Data -/

/-- Nodes and interfaces: all entries but `other`. -/
abbrev NodeOrIf := Fin 48

def other : Dest := Fin.last 48

/-- `eWLFC_MAC_ENTRY_ACTION_ADD`, `_DEL` and `_UPDATE` -/
inductive Action
  | add | del | update
  deriving DecidableEq

def WLC_E_IF_ROLE_P2P_GO : UInt8 := 3

/-- `maxcount` is `wl_ext_get_wlfc_maxcount`; `beyond` is what is read for the `iftype` of an
interface number that is too large. -/
structure RingCfg extends Cfg where
  maxcount : UInt8 → Int
  maxReleaseCount : Nat
  beyond : UInt8 → UInt8

/-- What `wlfc_mac_descriptor_t` has beside `Entry`. -/
structure Desc where
  state : MacState
  requestedCredit : BitVec 8
  requestedPacket : BitVec 8
  interfaceId : UInt8
  iftype : UInt8
  acBitmap : UInt8
  releaseCount : Ac → BitVec 16
  transitMaxcount : Int
  ea : List UInt8

structure Ctx where
  pkts : State
  desc : Dest → Desc
  links : Links Dest
  activeEntryHead : Option Dest
  activeEntryCount : Nat
  requestedEntry : List Node

def Ctx.setDesc (s : Ctx) (d : Dest) (e : Desc) : Ctx :=
  { s with desc := Function.update s.desc d e }

def Ctx.setEntry (s : Ctx) (d : Dest) (e : Entry) : Ctx := { s with pkts := s.pkts.setEntry d e }

def Ctx.occupied (s : Ctx) (d : Dest) : Bool := (s.pkts.entry d).occupied

/-! ## Entries -/

/-- `ADD` and `UPDATE` -/
def occupy (s : Ctx) (d : Dest) (ifid iftype : UInt8) (ea : Option (List UInt8)) : Ctx :=
  (s.setEntry d { s.pkts.entry d with occupied := true }).setDesc d { s.desc d with
    state := .opened
    requestedCredit := 0
    interfaceId := ifid
    iftype := iftype
    acBitmap := 0xff
    releaseCount := fun _ => 0
    ea := ea.getD (s.desc d).ea }

/-- `ADD` alone; the queues are new. -/
def reset (cfg : RingCfg) (s : Ctx) (d : Dest) (ifid : UInt8) : Ctx :=
  let s := s.setEntry d { s.pkts.entry d with
    suppressed := false
    transitCount := 0
    supprTransitCount := 0
    onbusPktsCount := 0 }
  let s := s.setDesc d { s.desc d with transitMaxcount := cfg.maxcount ifid }
  let pkts := { s.pkts with psq := Function.update s.pkts.psq d fun _ => [] }
  { s with pkts :=
    if cfg.afq then { pkts with afq := Function.update pkts.afq d fun _ => [] } else pkts }

/-- `none`: NULL is followed. -/
def link (s : Ctx) (d : Dest) : Option Ctx :=
  if s.links.next d = none then
    match s.activeEntryHead with
    | some h =>
      match s.links.addTail h d with
      | none => none
      | some links => some { s with links := links, activeEntryCount := s.activeEntryCount + 1 }
    | none =>
      some { s with
        links := s.links.alone d
        activeEntryHead := some d
        activeEntryCount := s.activeEntryCount + 1 }
  else some s

def vacate (s : Ctx) (d : Dest) : Ctx :=
  (s.setEntry d { s.pkts.entry d with occupied := false }).setDesc d { s.desc d with
    state := .closed
    ea := List.replicate 6 0 }

def unlink (s : Ctx) (d : Dest) : Option Ctx :=
  if s.links.next d = none then some s
  else if s.activeEntryCount ≤ 1 then
    some { s with links := s.links.clear d, activeEntryHead := none, activeEntryCount := 0 }
  else
    match s.links.bypass d with
    | none => none
    | some links =>
      some { s with
        links := links.clear d
        activeEntryHead := if s.activeEntryHead = some d then links.next d else s.activeEntryHead
        activeEntryCount := s.activeEntryCount - 1 }

/-- `_dhd_wlfc_mac_entry_update`; `fn` is `.all` for NULL. -/
def macEntryUpdate (cfg : RingCfg) (s : Ctx) (d : Dest) (action : Action) (ifid iftype : UInt8)
    (ea : Option (List UInt8)) (fn : PktFn) : Option Ctx :=
  match action with
  | .update => some (occupy s d ifid iftype ea)
  | .add => link (reset cfg (occupy s d ifid iftype ea) d ifid) d
  | .del => unlink (vacate { s with pkts := cleanup cfg.toCfg s.pkts fn } d) d

/-- `_dhd_wlfc_find_mac_desc_id_from_mac` -/
def findMacDescId (s : Ctx) (ea : List UInt8) : Option Node :=
  (List.finRange 32).find? fun i =>
    (s.desc (nodeDest i)).ea = ea && s.occupied (nodeDest i)

/-- `interfaces[ifid].iftype` -/
def ifaceType (cfg : RingCfg) (s : Ctx) (ifid : UInt8) : UInt8 :=
  if ifid.toNat < 16 then (s.desc (entryOf (32 + ifid.toNat))).iftype else cfg.beyond ifid

theorem lookupIndex_lt (handle : UInt8) : lookupIndex handle < 32 := Nat.mod_lt _ (by decide)

/-- `WLFC_CTL_TYPE_MACDESC_ADD`: an entry elsewhere with this address is deleted. -/
def macTableAdd (cfg : RingCfg) (s : Ctx) (i : Node) (ifid : UInt8) (ea : List UInt8) :
    Option Ctx :=
  let moved :=
    match findMacDescId s ea with
    | some j =>
      if j ≠ i then
        macEntryUpdate cfg s (nodeDest j) .del (s.desc (nodeDest j)).interfaceId
          (s.desc (nodeDest j)).iftype none (.entrypkt (nodeDest j))
      else some s
    | none => some s
  match moved with
  | none => none
  | some s =>
    if s.occupied (nodeDest i) then some s
    else macEntryUpdate cfg s (nodeDest i) .add ifid (ifaceType cfg s ifid) (some ea) .all

/-- `WLFC_CTL_TYPE_MACDESC_DEL` -/
def macTableDel (cfg : RingCfg) (s : Ctx) (i : Node) (ifid : UInt8) (ea : List UInt8) :
    Option Ctx :=
  if s.occupied (nodeDest i) then
    macEntryUpdate cfg s (nodeDest i) .del ifid (ifaceType cfg s ifid) (some ea)
      (.entrypkt (nodeDest i))
  else some s

def macTableUpdate (cfg : RingCfg) (s : Ctx) (add : Bool) (handle ifid : UInt8)
    (ea : List UInt8) : Option Ctx :=
  let i : Node := ⟨lookupIndex handle, lookupIndex_lt handle⟩
  let s := { s with requestedEntry := removeRequested s.requestedEntry i }
  if add then macTableAdd cfg s i ifid ea else macTableDel cfg s i ifid ea

/-! ## Dequeueing -/

def isDestinationOpen (s : Ctx) (d : Dest) (prec : Ac) : Bool :=
  let e := s.desc d
  if 16 ≤ e.interfaceId.toNat then true
  else
    let i := s.desc (entryOf (32 + e.interfaceId.toNat))
    if i.iftype = WLC_E_IF_ROLE_P2P_GO ∧ e.state = .closed ∧ e.requestedCredit = 0 ∧
        e.requestedPacket = 0 then false
    else if ((e.state = .closed ∨ i.state = .closed) ∧ e.requestedCredit = 0 ∧
        e.requestedPacket = 0) ∨ ¬ e.acBitmap.toBitVec.getLsbD prec then false
    else true

/-- The entry may give a packet. -/
def gate (s : Ctx) (d : Dest) (prec : Ac) : Bool :=
  let e := s.pkts.entry d
  e.occupied ∧ isDestinationOpen s d prec ∧ (e.transitCount : Int) < (s.desc d).transitMaxcount ∧
    e.transitCount < 0xff ∧ ¬ e.suppressed

/-- A packet is counted against a request of the station. -/
def Desc.take (e : Desc) : Desc :=
  if 0 < e.requestedCredit then { e with requestedCredit := e.requestedCredit - 1 }
  else if 0 < e.requestedPacket then { e with requestedPacket := e.requestedPacket - 1 }
  else e

/-- The release count, and whether the next entry has its turn. -/
def Desc.release (cfg : RingCfg) (e : Desc) (prec : Ac) (qlen : Nat) : Desc × Bool :=
  if e.state = .opened then
    let c := e.releaseCount prec + 1
    if c.toNat = cfg.maxReleaseCount ∨ qlen = 0 then
      ({ e with releaseCount := Function.update e.releaseCount prec 0 }, true)
    else ({ e with releaseCount := Function.update e.releaseCount prec c }, false)
  else (e, false)

/-- `active_entry_head = active_entry_head->next` -/
def moveHead (s : Ctx) : Option Ctx :=
  match s.activeEntryHead with
  | none => none
  | some h => some { s with activeEntryHead := s.links.next h }

/-- What is handed out. -/
structure Out where
  entry : Dest
  pkt : Id
  needsHdr : Bool

/-- A packet of entry `d`, with the state it is taken in and whether the head moves. -/
def takeFrom (cfg : RingCfg) (s : Ctx) (d : Dest) (prec : Ac) : Option (Ctx × Out × Bool) :=
  if gate s d prec then
    match Wlfc.dequeDelayedq cfg.toCfg s.pkts d prec with
    | none => none
    | some (pkts, p, needsHdr) =>
      let qlen := (pkts.psq d (sup prec)).length + (pkts.psq d (dly prec)).length
      let r := (s.desc d).take.release cfg prec qlen
      some ({ s with pkts := pkts }.setDesc d r.1, ⟨d, p, needsHdr⟩, r.2)
  else none

/-- The state behind a call, the entries visited, and what is handed out. -/
structure Dequeued where
  ctx : Ctx
  visited : List Dest
  out : Option Out

def handOut (s : Ctx) (d : Dest) (out : Out) (changeEntry : Bool) : Option Dequeued :=
  match if changeEntry then moveHead s else some s with
  | none => none
  | some s => some ⟨s, [d], some out⟩

/-- The loop over the active entries, from the head on. -/
def dequeActive (cfg : RingCfg) (prec : Ac) : Nat → Ctx → Option Dequeued
  | 0, s => some ⟨s, [], none⟩
  | n + 1, s =>
    match s.activeEntryHead with
    | none => none
    | some d =>
      match takeFrom cfg s d prec with
      | some (s, out, changeEntry) => handOut s d out changeEntry
      | none =>
        match dequeActive cfg prec n { s with activeEntryHead := s.links.next d } with
        | none => none
        | some r => some { r with visited := d :: r.visited }

/-- The loop over the entries with a request. -/
def dequeRequested (cfg : RingCfg) (prec : Ac) (s : Ctx) : List Node → Option Dequeued
  | [] => some ⟨s, [], none⟩
  | i :: is =>
    match takeFrom cfg s (nodeDest i) prec with
    | some (s, out, changeEntry) => handOut s (nodeDest i) out changeEntry
    | none =>
      match dequeRequested cfg prec s is with
      | none => none
      | some r => some { r with visited := nodeDest i :: r.visited }

def dequeDelayedq (cfg : RingCfg) (s : Ctx) (prec : Ac) (onlyNoCredit : Bool) : Option Dequeued :=
  if onlyNoCredit then dequeRequested cfg prec s s.requestedEntry
  else dequeActive cfg prec s.activeEntryCount s

/-! ## Runs -/

def Desc.zero : Desc where
  state := .opened
  requestedCredit := 0
  requestedPacket := 0
  interfaceId := 0
  iftype := 0
  acBitmap := 0
  releaseCount := fun _ => 0
  transitMaxcount := 0
  ea := List.replicate 6 0

/-- After the `memset`. -/
def Ctx.zero : Ctx where
  pkts := .init fun _ => false
  desc := fun _ => .zero
  links := ⟨fun _ => none, fun _ => none⟩
  activeEntryHead := none
  activeEntryCount := 0
  requestedEntry := []

/-- `dhd_wlfc_enable` -/
def enable (cfg : RingCfg) : Option Ctx :=
  macEntryUpdate cfg .zero other .add 0xff 0 none .all

/-- Other code works on packets and descriptors; it leaves `occupied` and the ring alone. -/
inductive Call
  | entryUpdate (d : NodeOrIf) (action : Action) (ifid iftype : UInt8) (ea : Option (List UInt8))
      (fn : PktFn)
  | tableUpdate (add : Bool) (handle ifid : UInt8) (ea : List UInt8)
  | cleanup (fn : PktFn)
  | deque (prec : Ac) (onlyNoCredit : Bool)
  | elsewhere (pkts : State) (desc : Dest → Desc) (requestedEntry : List Node)

def elsewhere (s : Ctx) (pkts : State) (desc : Dest → Desc) (requestedEntry : List Node) : Ctx :=
  { s with
    pkts := { pkts with entry := fun d => { pkts.entry d with occupied := s.occupied d } }
    desc := desc
    requestedEntry := requestedEntry }

/-- `none`: NULL is followed. -/
def call (cfg : RingCfg) (s : Ctx) : Call → Option Ctx
  | .entryUpdate d action ifid iftype ea fn =>
    macEntryUpdate cfg s d.castSucc action ifid iftype ea fn
  | .tableUpdate add handle ifid ea => macTableUpdate cfg s add handle ifid ea
  | .cleanup fn => some { s with pkts := Wlfc.cleanup cfg.toCfg s.pkts fn }
  | .deque prec onlyNoCredit => (dequeDelayedq cfg s prec onlyNoCredit).map Dequeued.ctx
  | .elsewhere pkts desc requestedEntry => some (elsewhere s pkts desc requestedEntry)

def step (cfg : RingCfg) (s : Ctx) (c : Call) : Option (Ctx × Unit) :=
  (call cfg s c).map fun t => (t, ())

/-! ## Intact rings -/

structure Intact (s : Ctx) : Prop where
  head_none : s.activeEntryHead = none ↔ s.activeEntryCount = 0
  ring : ∃ c, c.head? = s.activeEntryHead ∧ c.length = s.activeEntryCount ∧ Ring s.links c
  occupied : ∀ d, d ≠ other → s.occupied d = true → s.links.next d ≠ none

/-- A call of `_dhd_wlfc_deque_delayedq` goes on until it has been at every occupied entry, once,
or has found a packet. -/
def VisitsAll (cfg : RingCfg) (s : Ctx) : Prop :=
  ∀ prec, ∃ r, dequeDelayedq cfg s prec false = some r ∧ r.visited.Nodup ∧
    (r.out = none → ∀ d, d ≠ other → s.occupied d = true → d ∈ r.visited)

/-- The condition on a step. -/
def updatesLinked (s : Ctx) : Call → Bool
  | .entryUpdate d .update _ _ _ _ => (s.links.next d.castSucc).isSome
  | _ => true

/-! ## The ring -/

/-- The ring, from the head on. -/
structure HasRing (s : Ctx) (c : List Dest) : Prop where
  head : c.head? = s.activeEntryHead
  length : c.length = s.activeEntryCount
  ring : Ring s.links c
  other : other ∈ c

variable {s t : Ctx} {c : List Dest}

theorem hasRing_link (h : HasRing s c) (d : Dest) :
    ∃ t, link s d = some t ∧ t.pkts = s.pkts ∧ ∃ c', HasRing t c' ∧ d ∈ c' ∧ c ⊆ c' := by
  unfold link
  by_cases hd : s.links.next d = none
  · rw [if_pos hd]
    have hdc : d ∉ c := fun hm => (h.ring.next_ne d).mpr hm hd
    cases hc : c with
    | nil =>
      have ho := h.other
      rw [hc] at ho
      cases ho
    | cons a l =>
      subst hc
      rw [← h.head]
      obtain ⟨links, hl, hr⟩ := h.ring.addTail hdc
      simp only [List.head?_cons, hl]
      refine ⟨_, rfl, rfl, a :: l ++ [d], ⟨rfl, ?_, hr, ?_⟩, ?_, ?_⟩
      · rw [List.length_append, h.length]
        rfl
      · exact List.mem_append_left [d] h.other
      · exact List.mem_append_right _ (List.mem_singleton.mpr rfl)
      · exact List.subset_append_left _ _
  · rw [if_neg hd]
    exact ⟨s, rfl, rfl, c, h, (h.ring.next_ne d).mp hd, List.Subset.refl c⟩

theorem hasRing_unlink (h : HasRing s c) {d : Dest} (hd : d ≠ other) :
    ∃ t, unlink s d = some t ∧ t.pkts = s.pkts ∧
      ∃ c', HasRing t c' ∧ ∀ x ∈ c, x ≠ d → x ∈ c' := by
  unfold unlink
  by_cases hn : s.links.next d = none
  · rw [if_pos hn]
    exact ⟨s, rfl, rfl, c, h, fun x hx _ => hx⟩
  · rw [if_neg hn]
    obtain ⟨l, r, rfl⟩ := List.append_of_mem ((h.ring.next_ne d).mp hn)
    -- `other` stays
    have ho : other ∈ l ++ r := by
      have hm := h.other
      simp only [List.mem_append, List.mem_cons] at hm ⊢
      rcases hm with hm | hm | hm
      · exact Or.inl hm
      · exact absurd hm.symm hd
      · exact Or.inr hm
    have hlen := h.length
    rw [List.length_append, List.length_cons] at hlen
    have hpos : 0 < (l ++ r).length := List.length_pos_of_mem ho
    rw [List.length_append] at hpos
    obtain ⟨links, hl, hnext, hr⟩ := h.ring.unlink (List.ne_nil_of_mem ho)
    rw [if_neg (by omega), hl]
    refine ⟨_, rfl, rfl, l ++ r, ⟨?_, ?_, hr, ho⟩, ?_⟩
    · dsimp only
      rw [← h.head]
      cases l with
      | nil =>
        show r.head? = if some d = some d then _ else _
        rw [if_pos rfl, hnext, List.append_nil]
      | cons a l =>
        have hne : a ≠ d := by
          rintro rfl
          have hnd := h.ring.nodup
          rw [List.cons_append, List.nodup_cons] at hnd
          exact hnd.1 (List.mem_append_right l List.mem_cons_self)
        rw [if_neg (by simpa using hne)]
        rfl
    · dsimp only
      rw [List.length_append]
      omega
    · intro x hx hxd
      simp only [List.mem_append, List.mem_cons] at hx ⊢
      tauto

theorem HasRing.next {a : Dest} {l : List Dest} (h : HasRing s (a :: l)) :
    HasRing { s with activeEntryHead := s.links.next a } (l ++ [a]) where
  head := h.ring.next_head.symm
  length := by
    rw [List.length_append, ← h.length]
    rfl
  ring := Ring.swap (l := [a]) h.ring
  other := List.mem_append.mpr ((List.mem_cons.mp h.other).symm.imp_right List.mem_singleton.mpr)

theorem subset_rotated (a : Dest) (l : List Dest) : a :: l ⊆ l ++ [a] := fun _ hx =>
  List.mem_append.mpr ((List.mem_cons.mp hx).symm.imp_right List.mem_singleton.mpr)

theorem hasRing_moveHead (h : HasRing s c) :
    ∃ t, moveHead s = some t ∧ t.pkts = s.pkts ∧ ∃ c', HasRing t c' ∧ c ⊆ c' := by
  cases c with
  | nil => cases h.other
  | cons a l =>
    unfold moveHead
    rw [← h.head]
    exact ⟨_, rfl, rfl, l ++ [a], h.next, subset_rotated a l⟩

/-! ## Calls -/

/-- The entries in use are in the ring. -/
def Covers (s : Ctx) (c : List Dest) : Prop := ∀ d, d ≠ other → s.occupied d = true → d ∈ c

/-- The ring is kept, with the entries in use. -/
def Keeps (s : Ctx) (c : List Dest) (o : Option Ctx) : Prop :=
  ∃ t c', o = some t ∧ HasRing t c' ∧ (Covers s c → Covers t c')

theorem HasRing.congr (h : HasRing s c) (hl : t.links = s.links)
    (hh : t.activeEntryHead = s.activeEntryHead) (hc : t.activeEntryCount = s.activeEntryCount) :
    HasRing t c :=
  ⟨hh ▸ h.head, hc ▸ h.length, hl ▸ h.ring, h.other⟩

theorem Covers.anti (h : Covers s c) (ho : ∀ d, t.occupied d = true → s.occupied d = true) :
    Covers t c :=
  fun d hd hocc => h d hd (ho d hocc)

theorem Keeps.refl (h : HasRing s c) : Keeps s c (some s) :=
  ⟨s, c, rfl, h, id⟩

theorem occupied_setEntry (s : Ctx) (d x : Dest) (e : Entry) :
    (s.setEntry d e).occupied x = if x = d then e.occupied else s.occupied x := by
  show ((s.pkts.setEntry d e).entry x).occupied = _
  by_cases hx : x = d
  · subst hx
    rw [setEntry_self, if_pos rfl]
  · rw [setEntry_of_ne _ _ hx, if_neg hx]
    rfl

theorem occupied_occupy (s : Ctx) (d x : Dest) (ifid iftype : UInt8) (ea : Option (List UInt8)) :
    (occupy s d ifid iftype ea).occupied x = if x = d then true else s.occupied x :=
  occupied_setEntry s d x _

theorem occupied_vacate (s : Ctx) (d x : Dest) :
    (vacate s d).occupied x = if x = d then false else s.occupied x :=
  occupied_setEntry s d x _

theorem occupied_reset (cfg : RingCfg) (s : Ctx) (d x : Dest) (ifid : UInt8) :
    (reset cfg s d ifid).occupied x = s.occupied x := by
  have h : ∀ e : Entry, e.occupied = (s.pkts.entry d).occupied →
      (s.setEntry d e).occupied x = s.occupied x := by
    intro e he
    rw [occupied_setEntry, he]
    split
    · next hx =>
      rw [hx]
      rfl
    · rfl
  unfold reset
  dsimp only
  split
  · exact h _ rfl
  · exact h _ rfl

theorem occupied_cleanup (cfg : RingCfg) (s : Ctx) (fn : PktFn) (x : Dest)
    (h : ({ s with pkts := Wlfc.cleanup cfg.toCfg s.pkts fn } : Ctx).occupied x = true) :
    s.occupied x = true :=
  (swept_cleanup cfg.toCfg s.pkts fn).occupied x h

/-- `ADD`: what follows the writes to the entry. -/
theorem keeps_add (cfg : RingCfg) (h : HasRing s c) (d : Dest) (ifid iftype : UInt8)
    (ea : Option (List UInt8)) (fn : PktFn) :
    Keeps s c (macEntryUpdate cfg s d .add ifid iftype ea fn) := by
  have hreset : HasRing (reset cfg (occupy s d ifid iftype ea) d ifid) c := h.congr rfl rfl rfl
  obtain ⟨t, ht, hp, c', hc', hd, hsub⟩ := hasRing_link hreset d
  refine ⟨t, c', ht, hc', fun hcov x hx hocc => ?_⟩
  change (t.pkts.entry x).occupied = true at hocc
  rw [hp] at hocc
  have hocc' := (occupied_reset cfg (occupy s d ifid iftype ea) d x ifid).symm.trans hocc
  rw [occupied_occupy] at hocc'
  split at hocc'
  · next hxd => exact hxd ▸ hd
  · exact hsub (hcov x hx hocc')

theorem keeps_del (cfg : RingCfg) (h : HasRing s c) {d : Dest} (hd : d ≠ other)
    (ifid iftype : UInt8) (ea : Option (List UInt8)) (fn : PktFn) :
    Keeps s c (macEntryUpdate cfg s d .del ifid iftype ea fn) := by
  have hvac : HasRing (vacate { s with pkts := Wlfc.cleanup cfg.toCfg s.pkts fn } d) c :=
    h.congr rfl rfl rfl
  obtain ⟨t, ht, hp, c', hc', hsub⟩ := hasRing_unlink hvac hd
  refine ⟨t, c', ht, hc', fun hcov x hx hocc => ?_⟩
  change (t.pkts.entry x).occupied = true at hocc
  rw [hp] at hocc
  have hocc' := (occupied_vacate _ d x).symm.trans hocc
  split at hocc'
  · cases hocc'
  · next hxd => exact hsub x (hcov x hx (occupied_cleanup cfg s fn x hocc')) hxd

theorem hasRing_update (h : HasRing s c) (d : Dest) (ifid iftype : UInt8)
    (ea : Option (List UInt8)) :
    HasRing (occupy s d ifid iftype ea) c ∧
      (d ∈ c → Covers s c → Covers (occupy s d ifid iftype ea) c) := by
  refine ⟨h.congr rfl rfl rfl, fun hd hcov x hx hocc => ?_⟩
  rw [occupied_occupy] at hocc
  split at hocc
  · next hxd => exact hxd ▸ hd
  · exact hcov x hx hocc

theorem nodeDest_ne_other (i : Node) : nodeDest i ≠ other := by
  intro h
  have hv := congrArg Fin.val h
  have hi := i.isLt
  change i.val = 48 at hv
  omega

theorem Keeps.trans {c' : List Dest} {o : Option Ctx} (hcov : Covers s c → Covers t c')
    (h : Keeps t c' o) : Keeps s c o := by
  obtain ⟨u, c'', hu, hr, hu'⟩ := h
  exact ⟨u, c'', hu, hr, fun hs => hu' (hcov hs)⟩

theorem keeps_tableAdd (cfg : RingCfg) (h : HasRing s c) (i : Node) (ifid : UInt8)
    (ea : List UInt8) : Keeps s c (macTableAdd cfg s i ifid ea) := by
  have hmoved : Keeps s c
      (match findMacDescId s ea with
      | some j =>
        if j ≠ i then
          macEntryUpdate cfg s (nodeDest j) .del (s.desc (nodeDest j)).interfaceId
            (s.desc (nodeDest j)).iftype none (.entrypkt (nodeDest j))
        else some s
      | none => some s) := by
    split
    · next j _ =>
      split
      · exact keeps_del cfg h (nodeDest_ne_other j) _ _ _ _
      · exact .refl h
    · exact .refl h
  unfold macTableAdd
  obtain ⟨t, c', ht, hr, hcov⟩ := hmoved
  dsimp only
  rw [ht]
  dsimp only
  split
  · exact ⟨t, c', rfl, hr, hcov⟩
  · exact .trans hcov (keeps_add cfg hr _ _ _ _ _)

theorem keeps_tableUpdate (cfg : RingCfg) (h : HasRing s c) (add : Bool) (handle ifid : UInt8)
    (ea : List UInt8) :
    Keeps s c (macTableUpdate cfg s add handle ifid ea) := by
  unfold macTableUpdate
  dsimp only
  generalize hs : ({ s with requestedEntry := _ } : Ctx) = t
  have ht : HasRing t c := by
    rw [← hs]
    exact h.congr rfl rfl rfl
  have hcov : Covers s c → Covers t c := by
    rw [← hs]
    exact id
  split
  · exact .trans hcov (keeps_tableAdd cfg ht _ ifid ea)
  · unfold macTableDel
    split
    · exact .trans hcov (keeps_del cfg ht (nodeDest_ne_other _) _ _ _ _)
    · exact .trans hcov (.refl ht)

/-! ## Going round -/

/-- The entries, and the ring but for the head, are the same. -/
structure SameRing (s t : Ctx) : Prop where
  links : t.links = s.links
  head : t.activeEntryHead = s.activeEntryHead
  count : t.activeEntryCount = s.activeEntryCount
  occupied : t.occupied = s.occupied

theorem takeFrom_same {cfg : RingCfg} {d : Dest} {prec : Ac} {out : Out} {b : Bool}
    (h : takeFrom cfg s d prec = some (t, out, b)) : SameRing s t := by
  have hentry : ∀ {u : State} {p : Id} {hdr : Bool},
      Wlfc.dequeDelayedq cfg.toCfg s.pkts d prec = some (u, p, hdr) → u.entry = s.pkts.entry := by
    intro u p hdr hu
    unfold Wlfc.dequeDelayedq at hu
    split at hu
    · cases hu
      rfl
    · split at hu
      · cases hu
        rfl
      · cases hu
  unfold takeFrom at h
  split at h
  · split at h
    · cases h
    · next u p hdr hu =>
      cases h
      refine ⟨rfl, rfl, rfl, funext fun x => ?_⟩
      show (u.entry x).occupied = (s.pkts.entry x).occupied
      rw [hentry hu]
  · cases h

/-- What a call of `_dhd_wlfc_deque_delayedq` does to the ring. -/
structure Goes (s : Ctx) (c : List Dest) (r : Dequeued) : Prop where
  ring : ∃ c', HasRing r.ctx c' ∧ c ⊆ c'
  occupied : r.ctx.occupied = s.occupied

theorem goes_handOut {cfg : RingCfg} {d : Dest} {prec : Ac} {out : Out} {b : Bool} (h : HasRing s c)
    (ht : takeFrom cfg s d prec = some (t, out, b)) :
    ∃ u, handOut t d out b = some ⟨u, [d], some out⟩ ∧ Goes s c ⟨u, [d], some out⟩ := by
  have hs := takeFrom_same ht
  have hr : HasRing t c := h.congr hs.links hs.head hs.count
  unfold handOut
  cases b with
  | false => exact ⟨t, rfl, ⟨c, hr, List.Subset.refl c⟩, hs.occupied⟩
  | true =>
    obtain ⟨u, hu, hp, c', hc', hsub⟩ := hasRing_moveHead hr
    rw [if_pos rfl, hu]
    refine ⟨u, rfl, ⟨c', hc', hsub⟩, ?_⟩
    rw [← hs.occupied]
    exact funext fun x => congrArg (fun p : State => (p.entry x).occupied) hp

/-- The loop comes to the entries in the order of the ring, each once. -/
theorem dequeActive_spec (cfg : RingCfg) (prec : Ac) {n : Nat} (h : HasRing s c)
    (hn : n ≤ c.length) :
    ∃ r, dequeActive cfg prec n s = some r ∧ Goes s c r ∧
      ∃ k ≤ n, r.visited = c.take k ∧ (r.out = none → k = n) := by
  induction n generalizing s c with
  | zero => exact ⟨_, rfl, ⟨⟨c, h, List.Subset.refl c⟩, rfl⟩, 0, Nat.le_refl 0, rfl, fun _ => rfl⟩
  | succ n ih =>
    cases c with
    | nil => cases h.other
    | cons a l =>
      unfold dequeActive
      rw [← h.head]
      dsimp only [List.head?_cons]
      cases ht : takeFrom cfg s a prec with
      | some x =>
        obtain ⟨t, out, b⟩ := x
        obtain ⟨u, hu, hg⟩ := goes_handOut h ht
        exact ⟨_, hu, hg, 1, by omega, rfl, nofun⟩
      | none =>
        rw [List.length_cons] at hn
        obtain ⟨r, hr, hg, k, hk, hvis, hout⟩ := ih h.next
          (by rw [List.length_append]; omega)
        dsimp only
        rw [hr]
        refine ⟨_, rfl, ⟨?_, hg.occupied⟩, k + 1, by omega, ?_, fun ho => by rw [hout ho]⟩
        · obtain ⟨c', hc', hsub⟩ := hg.ring
          exact ⟨c', hc', fun x hx => hsub (subset_rotated a l hx)⟩
        · dsimp only
          rw [hvis, List.take_succ_cons, List.take_append_of_le_length (by omega)]

theorem dequeRequested_spec (cfg : RingCfg) (prec : Ac) (h : HasRing s c) (is : List Node) :
    ∃ r, dequeRequested cfg prec s is = some r ∧ Goes s c r := by
  induction is with
  | nil => exact ⟨_, rfl, ⟨c, h, List.Subset.refl c⟩, rfl⟩
  | cons i is ih =>
    unfold dequeRequested
    cases ht : takeFrom cfg s (nodeDest i) prec with
    | some x =>
      obtain ⟨t, out, b⟩ := x
      obtain ⟨u, hu, hg⟩ := goes_handOut h ht
      exact ⟨_, hu, hg⟩
    | none =>
      obtain ⟨r, hr, hg⟩ := ih
      dsimp only
      rw [hr]
      exact ⟨_, rfl, hg.ring, hg.occupied⟩

theorem deque_spec (cfg : RingCfg) (h : HasRing s c) (prec : Ac) (onlyNoCredit : Bool) :
    ∃ r, dequeDelayedq cfg s prec onlyNoCredit = some r ∧ Goes s c r := by
  unfold dequeDelayedq
  split
  · exact dequeRequested_spec cfg prec h s.requestedEntry
  · obtain ⟨r, hr, hg, -⟩ := dequeActive_spec cfg prec h (Nat.le_of_eq h.length.symm)
    exact ⟨r, hr, hg⟩

theorem visitsAll (cfg : RingCfg) (h : HasRing s c) (hc : Covers s c) :
    VisitsAll cfg s := by
  intro prec
  obtain ⟨r, hr, -, k, hk, hvis, hout⟩ :=
    dequeActive_spec cfg prec h (Nat.le_of_eq h.length.symm)
  refine ⟨r, hr, ?_, fun ho d hd hocc => ?_⟩
  · rw [hvis]
    exact h.ring.nodup.sublist (List.take_sublist k c)
  · rw [hvis, hout ho, ← h.length, List.take_length]
    exact hc d hd hocc

/-! ## Every run -/

theorem castSucc_ne_other (d : NodeOrIf) : d.castSucc ≠ other := Fin.castSucc_ne_last d

/-- **A call keeps the ring**, follows no NULL, and keeps the entries in use in the ring unless it
is an `UPDATE` of an entry that is not. -/
theorem hasRing_call (cfg : RingCfg) (h : HasRing s c) (cl : Call) :
    ∃ t c', call cfg s cl = some t ∧ HasRing t c' ∧
      (updatesLinked s cl = true → Covers s c → Covers t c') := by
  have hkeeps : ∀ {o}, Keeps s c o → ∃ t c', o = some t ∧ HasRing t c' ∧
      (updatesLinked s cl = true → Covers s c → Covers t c') :=
    fun ⟨t, c', ht, hr, hcov⟩ => ⟨t, c', ht, hr, fun _ => hcov⟩
  cases cl with
  | entryUpdate d action ifid iftype ea fn =>
    cases action with
    | add => exact hkeeps (keeps_add cfg h d.castSucc ifid iftype ea fn)
    | del => exact hkeeps (keeps_del cfg h (castSucc_ne_other d) ifid iftype ea fn)
    | update =>
      obtain ⟨hr, hcov⟩ := hasRing_update h d.castSucc ifid iftype ea
      refine ⟨_, c, rfl, hr, fun hl => hcov ((h.ring.next_ne _).mp ?_)⟩
      exact Option.isSome_iff_ne_none.mp hl
  | tableUpdate add handle ifid ea => exact hkeeps (keeps_tableUpdate cfg h add handle ifid ea)
  | cleanup fn =>
    exact ⟨_, c, rfl, h.congr rfl rfl rfl, fun _ hcov => hcov.anti (occupied_cleanup cfg s fn)⟩
  | deque prec onlyNoCredit =>
    obtain ⟨r, hr, ⟨c', hc', hsub⟩, hocc⟩ := deque_spec cfg h prec onlyNoCredit
    refine ⟨r.ctx, c', ?_, hc', fun _ hcov d hd ho => hsub (hcov d hd ?_)⟩
    · show (dequeDelayedq cfg s prec onlyNoCredit).map Dequeued.ctx = _
      rw [hr]
      rfl
    · rw [← hocc]
      exact ho
  | elsewhere pkts desc requestedEntry =>
    exact ⟨_, c, rfl, h.congr rfl rfl rfl, fun _ hcov => hcov⟩

theorem intact_iff (h : HasRing s c) : Intact s ↔ Covers s c := by
  constructor
  · exact fun hi d hd hocc => (h.ring.next_ne d).mp (hi.occupied d hd hocc)
  · refine fun hc => ⟨?_, ⟨c, h.head, h.length, h.ring⟩, fun d hd hocc =>
      (h.ring.next_ne d).mpr (hc d hd hocc)⟩
    rw [← h.head, ← h.length, List.head?_eq_none_iff, List.length_eq_zero_iff]

/-- An `UPDATE` of an entry that is not in the ring puts it in use. -/
theorem not_intact_update (cfg : RingCfg) {cl : Call} (hl : updatesLinked s cl = false)
    (ht : call cfg s cl = some t) : ¬ Intact t := by
  intro hi
  unfold updatesLinked at hl
  split at hl
  · next d ifid iftype ea fn =>
    cases ht
    have hn : s.links.next d.castSucc = none := by simpa using hl
    refine hi.occupied d.castSucc (castSucc_ne_other d) ?_ hn
    rw [occupied_occupy, if_pos rfl]
  · cases hl

/-- The ring of `other` alone. -/
theorem hasRing_enable (cfg : RingCfg) : ∃ s, enable cfg = some s ∧ HasRing s [other] ∧
    Covers s [other] := by
  have hzero : Ring Ctx.zero.links ([] : List Dest) :=
    ⟨trivial, List.nodup_nil, fun x => iff_of_false (fun h => h rfl) List.not_mem_nil⟩
  refine ⟨_, rfl, ⟨rfl, rfl, hzero.alone other, List.mem_singleton.mpr rfl⟩, ?_⟩
  intro d hd hocc
  have hocc' := (occupied_reset cfg (occupy .zero other 0xff 0 none) other d 0xff).symm.trans hocc
  rw [occupied_occupy, if_neg hd] at hocc'
  cases hocc'

theorem step_eq_some {cfg : RingCfg} {cl : Call} {r : Unit} (h : step cfg s cl = some (t, r)) :
    call cfg s cl = some t := by
  obtain ⟨u, hu, heq⟩ := Option.map_eq_some_iff.mp h
  cases heq
  exact hu

/-- No run follows NULL. -/
theorem runs_total (cfg : RingCfg) (h : HasRing s c) (calls : List Call) :
    ∃ t tr, runs (step cfg) s calls = some (t, tr) := by
  induction calls generalizing s c with
  | nil => exact ⟨s, [], rfl⟩
  | cons cl calls ih =>
    obtain ⟨t, c', ht, hr, -⟩ := hasRing_call cfg h cl
    obtain ⟨u, tr, hu⟩ := ih hr
    have hs : step cfg s cl = some (t, ()) := by
      unfold step
      rw [ht]
      rfl
    exact ⟨u, _, (runs_cons_eq_some _ _ _ _ _ _).mpr ⟨t, (), tr, hs, hu, rfl⟩⟩

/-- There is a ring, with the entries in use in it. -/
def Covered (s : Ctx) : Prop := ∃ c, HasRing s c ∧ Covers s c

theorem Covered.step {cfg : RingCfg} {cl : Call} {r : Unit} (h : Covered s)
    (hl : updatesLinked s cl = true) (hs : step cfg s cl = some (t, r)) : Covered t := by
  obtain ⟨c, hr, hcov⟩ := h
  obtain ⟨u, c', hu, hr', hcov'⟩ := hasRing_call cfg hr cl
  cases (step_eq_some hs).symm.trans hu
  exact ⟨c', hr', hcov' hl hcov⟩

/-- **When the ring of active entries is intact.** -/
theorem active_ring_intact_iff (cfg : RingCfg) :
    ∃ s, enable cfg = some s ∧ ∀ calls, ∃ t tr, runs (step cfg) s calls = some (t, tr) ∧
      ((∀ before after u tr₁, before ++ after = calls → runs (step cfg) s before = some (u, tr₁) →
          Intact u ∧ VisitsAll cfg u) ↔
        meets (step cfg) updatesLinked s calls = true) := by
  obtain ⟨s, hs, hring, hcov⟩ := hasRing_enable cfg
  have h0 : Covered s := ⟨[other], hring, hcov⟩
  refine ⟨s, hs, fun calls => ?_⟩
  obtain ⟨t, tr, hrun⟩ := runs_total cfg hring calls
  refine ⟨t, tr, hrun, fun hall => ?_, fun hm before after u tr₁ happ hbefore => ?_⟩
  · refine meets_of_prefixes (step cfg) (fun _ _ => true) updatesLinked (fun s _ => Covered s)
      (fun s _ => Intact s) ?_ ?_ s t calls tr h0 (meets_true _ _ _) hrun
      fun before after u tr₁ happ hbefore => (hall before after u tr₁ happ hbefore).1
    · exact fun s tr cl s' r hi hc hs => hi.step hc hs
    · exact fun s tr cl s' r _ _ hl hs => not_intact_update cfg hl (step_eq_some hs)
  · rw [← happ] at hm
    obtain ⟨c, hr, hc⟩ : Covered u :=
      runs_inv_of_meets (step cfg) updatesLinked (fun s _ => Covered s)
        (fun s tr cl s' r hi hl hs => hi.step hl hs) s u before tr₁ h0
        (meets_of_append _ _ _ _ _ hm) hbefore
    exact ⟨(intact_iff hr).mpr hc, visitsAll cfg hr hc⟩

def exampleRing : RingCfg where
  toCfg := plain
  maxcount := fun _ => 255
  maxReleaseCount := 16
  beyond := fun _ => 0

/-- The role of interface 1 is changed, and it has not been added. -/
theorem active_ring_not_intact :
    ¬ ∀ cfg s calls t tr, enable cfg = some s → runs (step cfg) s calls = some (t, tr) →
      Intact t := by
  intro h
  obtain ⟨s, hs, hring, -⟩ := hasRing_enable exampleRing
  have hd : (⟨33, by decide⟩ : NodeOrIf).castSucc ∉ [other] := by decide
  have hn : s.links.next (⟨33, by decide⟩ : NodeOrIf).castSucc = none := by
    by_contra hc
    exact hd ((hring.ring.next_ne _).mp hc)
  let c : Call := .entryUpdate ⟨33, by decide⟩ .update 1 0 none .all
  have hl : updatesLinked s c = false := by
    show (s.links.next _).isSome = false
    rw [hn]
    rfl
  exact not_intact_update exampleRing hl rfl
    (h exampleRing s [c] _ _ hs rfl)

end Bcmdhd.Wlfc.ActiveRing
