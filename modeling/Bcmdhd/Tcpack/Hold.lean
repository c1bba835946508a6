import Bcmdhd.Lib.Runs
import Bcmdhd.Lib.Slots
import Bcmdhd.Tcpack.Frame
import Mathlib.Data.List.Nodup

/-!
# TCP ACKs held back (`dhd_tcpack_hold`)

One ACK of a flow is kept in a slot of `tcpack_info_tbl` until a later one takes its place, the
ratio is reached, the timer of the slot sends it, or the table is cleaned.

    runs (step cfg) init es = some (s, tr) →  a slot is free for every new flow →
      each ACK passed in is returned, held, sent, superseded or cleaned, once
                                                                        (tcpack_hold_keeps)
-/

namespace Bcmdhd.Tcpack.Hold

open Runs Slots

/-! ## Algorithm -/

structure Pkt where
  id : Nat
  frame : Frame

/-- `tcpack_info_t` of a packet that is held. -/
structure Info where
  pkt : Pkt
  ifidx : Nat
  suppCnt : Nat

structure Cfg where
  mode : Mode
  ratio : Nat

/-- Outcome of the loop over the table: the first slot of the flow, or else the first free one. -/
inductive Scan
  | same (i : Nat) (old : Info)
  | absent (freeSlot : Option Nat)

def scan (new : Frame) : List (Option Info) → Nat → Option Nat → Scan
  | [], _, freeSlot => .absent freeSlot
  | none :: tbl, i, freeSlot => scan new tbl (i + 1) (freeSlot.or (some i))
  | some old :: tbl, i, freeSlot =>
    if old.pkt.frame.flow = new.flow then .same i old else scan new tbl (i + 1) freeSlot

/-- `tcpack_info_tbl` and `tcpack_info_cnt` -/
structure Module where
  tbl : List (Option Info)
  cnt : Int

/-- Whether `dhd_tcpack_hold` comes to the table. -/
def Cfg.holds (cfg : Cfg) (f : Frame) : Bool :=
  cfg.mode = .hold ∧ cfg.ratio ≠ 1 ∧ f.isTcpack

/-- The `uint8` counter of the slot, incremented, reaches the ratio. -/
def Cfg.reached (cfg : Cfg) (old : Info) : Bool := cfg.ratio ≤ (old.suppCnt + 1) % 0x100

/-- The module, whether the packet is held, and the packet freed with the one that stays
instead. -/
def tcpackHold (cfg : Cfg) (m : Module) (pkt : Pkt) (ifidx : Nat) :
    Module × Bool × Option (Pkt × Pkt) :=
  if cfg.holds pkt.frame then
    match scan pkt.frame m.tbl 0 none with
    | .same i old =>
      if tcpseqGe pkt.frame.tcpAckNum old.pkt.frame.tcpAckNum then
        if cfg.reached old then
          ({ m with tbl := m.tbl.set i none }, false, some (old.pkt, pkt))
        else
          ({ m with tbl := m.tbl.set i (some { pkt := pkt, ifidx := ifidx,
                                               suppCnt := (old.suppCnt + 1) % 0x100 }) },
            true, some (old.pkt, pkt))
      else
        (m, true, some (pkt, old.pkt))
    | .absent (some i) =>
      ({ tbl := m.tbl.set i (some { pkt := pkt, ifidx := ifidx, suppCnt := 1 }), cnt := m.cnt + 1 },
        true, none)
    | .absent none => (m, true, none)
  else (m, false, none)

/-- The timer of slot `i`, and the packet it sends. -/
def tcpackSend (cfg : Cfg) (m : Module) (i : Nat) : Module × Option (Nat × Pkt) :=
  if cfg.mode = .hold then
    match slot m.tbl i with
    | none => (m, none)
    | some old => ({ tbl := m.tbl.set i none, cnt := m.cnt - 1 }, some (old.ifidx, old.pkt))
  else (m, none)

/-- The packets freed come with the module. -/
def tcpackInfoTblClean (cfg : Cfg) (m : Module) : Module × List Pkt :=
  match cfg.mode with
  | .off => (m, [])
  | .hold => ({ m with tbl := m.tbl.map fun _ => none }, (held m.tbl).map Info.pkt)
  | _ => ({ tbl := m.tbl.map fun _ => none, cnt := 0 }, [])

/-! ## Runs -/

inductive Call
  | hold (pkt : Pkt) (ifidx : Nat)
  | send (slot : Nat)
  | clean

/-- The module, the packets passed in so far, and where they went. -/
structure State where
  mod : Module
  passed : List Nat
  returned : List Nat
  sent : List Nat
  freed : List (Pkt × Pkt)
  cleaned : List Nat

def init : State where
  mod := { tbl := List.replicate TCPACK_INFO_MAXNUM none, cnt := 0 }
  passed := []
  returned := []
  sent := []
  freed := []
  cleaned := []

/-- The state after a call for `pkt`. -/
def State.after (s : State) (pkt : Pkt) (m : Module) (hold : Bool) (freed : Option (Pkt × Pkt)) :
    State :=
  { s with mod := m, passed := pkt.id :: s.passed,
           returned := if hold then s.returned else pkt.id :: s.returned,
           freed := freed.toList ++ s.freed }

/-- A packet is passed in once.  The result is that of `dhd_tcpack_hold`. -/
def step (cfg : Cfg) (s : State) : Call → Option (State × Option Bool)
  | .hold pkt ifidx =>
    if pkt.id ∈ s.passed then none
    else
      let r := tcpackHold cfg s.mod pkt ifidx
      some (s.after pkt r.1 r.2.1 r.2.2, some r.2.1)
  | .send i =>
    let r := tcpackSend cfg s.mod i
    some ({ s with mod := r.1, sent := r.2.toList.map (fun x => x.2.id) ++ s.sent }, none)
  | .clean =>
    let r := tcpackInfoTblClean cfg s.mod
    some ({ s with mod := r.1, cleaned := r.2.map Pkt.id ++ s.cleaned }, none)

def heldIds (s : State) : List Nat := (held s.mod.tbl).map fun e => e.pkt.id

/-- Every packet, wherever it is. -/
def places (s : State) : List Nat :=
  s.returned ++ (s.sent ++ (s.freed.map (fun x => x.1.id) ++ (s.cleaned ++ heldIds s)))

/-- An ACK of a new flow finds a free slot. -/
def finds (cfg : Cfg) (s : State) : Call → Bool
  | .hold pkt _ =>
    !cfg.holds pkt.frame || s.mod.tbl.any fun e => match e with
      | none => true
      | some old => decide (old.pkt.frame.flow = pkt.frame.flow)
  | _ => true

/-- No slot is emptied but by its timer. -/
def counted (cfg : Cfg) (s : State) : Call → Bool
  | .hold pkt _ =>
    !cfg.holds pkt.frame || match scan pkt.frame s.mod.tbl 0 none with
    | .same _ old => !(tcpseqGe pkt.frame.tcpAckNum old.pkt.frame.tcpAckNum && cfg.reached old)
    | .absent _ => true
  | .send _ => true
  | .clean => (cfg.mode = .hold → (held s.mod.tbl).length = 0)

/-! ## The loop -/

section Loop

variable {new : Frame} {tbl : List (Option Info)} {k i : Nat} {freeSlot : Option Nat} {old : Info}

theorem scan_same (h : scan new tbl k freeSlot = .same i old) :
    ∃ j, i = k + j ∧ tbl[j]? = some (some old) ∧ old.pkt.frame.flow = new.flow := by
  induction tbl generalizing k freeSlot with
  | nil => cases h
  | cons e tbl ih =>
    cases e with
    | none =>
      obtain ⟨j, rfl, hj, hflow⟩ := ih h
      exact ⟨j + 1, by omega, hj, hflow⟩
    | some e =>
      unfold scan at h
      split at h
      · next hflow =>
        cases h
        exact ⟨0, rfl, rfl, hflow⟩
      · obtain ⟨j, rfl, hj, hflow⟩ := ih h
        exact ⟨j + 1, by omega, hj, hflow⟩

/-- The free slot that the loop remembers. -/
def FreeFrom (tbl : List (Option Info)) (k : Nat) : Option Nat → Option Nat → Prop
  | some a, r => r = some a
  | none, some i => ∃ j, i = k + j ∧ tbl[j]? = some none
  | none, none => none ∉ tbl

theorem scan_absent {r : Option Nat} (h : scan new tbl k freeSlot = .absent r) :
    (∀ old, some old ∈ tbl → old.pkt.frame.flow ≠ new.flow) ∧ FreeFrom tbl k freeSlot r := by
  induction tbl generalizing k freeSlot with
  | nil =>
    cases h
    refine ⟨nofun, ?_⟩
    cases r with
    | none => exact List.not_mem_nil
    | some a => rfl
  | cons e tbl ih =>
    cases e with
    | none =>
      obtain ⟨hflow, hr⟩ := ih h
      refine ⟨fun old hold => hflow old ((List.mem_cons.mp hold).resolve_left nofun), ?_⟩
      cases freeSlot with
      | none =>
        cases (show r = some k from hr)
        exact ⟨0, rfl, rfl⟩
      | some a => exact hr
    | some e =>
      unfold scan at h
      split at h
      · cases h
      · next hne =>
        obtain ⟨hflow, hr⟩ := ih h
        constructor
        · intro old hold
          rcases List.mem_cons.mp hold with he | hold
          · cases he
            exact hne
          · exact hflow old hold
        · cases freeSlot with
          | none =>
            cases r with
            | none => exact fun hn => hr ((List.mem_cons.mp hn).resolve_left nofun)
            | some i =>
              obtain ⟨j, rfl, hj⟩ := hr
              exact ⟨j + 1, by omega, hj⟩
          | some a => exact hr

theorem scan_start_same (h : scan new tbl 0 none = .same i old) :
    tbl[i]? = some (some old) ∧ old.pkt.frame.flow = new.flow := by
  obtain ⟨j, rfl, hj, hflow⟩ := scan_same h
  rw [Nat.zero_add]
  exact ⟨hj, hflow⟩

theorem scan_start_free (h : scan new tbl 0 none = .absent (some i)) : tbl[i]? = some none := by
  obtain ⟨j, rfl, hj⟩ := (scan_absent h).2
  rwa [Nat.zero_add]

end Loop

/-! ## What a step does -/

/-- `new` takes the place of `old`, or `old` that of `new`. -/
def Supersedes (kept freed : Frame) : Prop :=
  freed.flow = kept.flow ∧
    (tcpseqGe kept.tcpAckNum freed.tcpAckNum = true ∨
      tcpseqLt freed.tcpAckNum kept.tcpAckNum = true)

structure Inv (cfg : Cfg) (s : State) : Prop where
  length : s.mod.tbl.length = TCPACK_INFO_MAXNUM
  nodup : s.passed.Nodup
  perm : (places s).Perm s.passed
  freed : ∀ x ∈ s.freed, Supersedes x.2.frame x.1.frame
  empty : cfg.mode ≠ .hold → held s.mod.tbl = []

theorem inv_init (cfg : Cfg) : Inv cfg init := by
  have hnil : held init.mod.tbl = [] := held_replicate TCPACK_INFO_MAXNUM
  refine ⟨List.length_replicate, List.nodup_nil, ?_, nofun, fun _ => hnil⟩
  show ([] ++ ([] ++ ([] ++ ([] ++ heldIds init)))).Perm []
  unfold heldIds
  rw [hnil]
  exact List.Perm.refl _

/-- The packets of a table. -/
def ids (tbl : List (Option Info)) : List Nat := (held tbl).map fun e => e.pkt.id

variable {tbl : List (Option Info)} {i ifidx : Nat} {e : Info} {cfg : Cfg} {s : State} {pkt : Pkt}

theorem ids_fill (h : tbl[i]? = some none) :
    (ids (tbl.set i (some e))).Perm (e.pkt.id :: ids tbl) :=
  (held_fill (a := e) h).map fun x : Info => x.pkt.id

theorem ids_free (h : tbl[i]? = some (some e)) :
    (e.pkt.id :: ids (tbl.set i none)).Perm (ids tbl) :=
  (held_free (a := e) h).map fun x : Info => x.pkt.id

theorem ids_replace {e' : Info} (h : tbl[i]? = some (some e)) :
    (e.pkt.id :: ids (tbl.set i (some e'))).Perm (e'.pkt.id :: ids tbl) :=
  (held_replace (a := e') (b := e) h).map fun x : Info => x.pkt.id

theorem held_clear (tbl : List (Option Info)) :
    held (tbl.map fun _ => (none : Option Info)) = [] := by
  rw [List.map_const']
  exact held_replicate _

/-- What `dhd_tcpack_hold` can do. -/
inductive Moves (cfg : Cfg) (m : Module) (pkt : Pkt) (ifidx : Nat) :
    Module → Bool → Option (Pkt × Pkt) → Prop
  | passes (h : cfg.holds pkt.frame = false) : Moves cfg m pkt ifidx m false none
  | sends (i : Nat) (old : Info) (hs : scan pkt.frame m.tbl 0 none = .same i old)
      (hge : tcpseqGe pkt.frame.tcpAckNum old.pkt.frame.tcpAckNum = true)
      (hr : cfg.reached old = true) (hh : cfg.holds pkt.frame = true) :
      Moves cfg m pkt ifidx { m with tbl := m.tbl.set i none } false (some (old.pkt, pkt))
  | replaces (i : Nat) (old e : Info) (hs : scan pkt.frame m.tbl 0 none = .same i old)
      (hge : tcpseqGe pkt.frame.tcpAckNum old.pkt.frame.tcpAckNum = true) (he : e.pkt = pkt)
      (hh : cfg.holds pkt.frame = true) :
      Moves cfg m pkt ifidx { m with tbl := m.tbl.set i (some e) } true (some (old.pkt, pkt))
  | older (i : Nat) (old : Info) (hs : scan pkt.frame m.tbl 0 none = .same i old)
      (hge : tcpseqGe pkt.frame.tcpAckNum old.pkt.frame.tcpAckNum = false)
      (hh : cfg.holds pkt.frame = true) : Moves cfg m pkt ifidx m true (some (pkt, old.pkt))
  | fills (i : Nat) (e : Info) (hs : m.tbl[i]? = some none) (he : e.pkt = pkt)
      (hh : cfg.holds pkt.frame = true) :
      Moves cfg m pkt ifidx { tbl := m.tbl.set i (some e), cnt := m.cnt + 1 } true none
  | full (hs : scan pkt.frame m.tbl 0 none = .absent none) (hh : cfg.holds pkt.frame = true) :
      Moves cfg m pkt ifidx m true none

theorem tcpackHold_moves (cfg : Cfg) (m : Module) (pkt : Pkt) (ifidx : Nat) :
    Moves cfg m pkt ifidx (tcpackHold cfg m pkt ifidx).1 (tcpackHold cfg m pkt ifidx).2.1
      (tcpackHold cfg m pkt ifidx).2.2 := by
  unfold tcpackHold
  by_cases hh : cfg.holds pkt.frame = true
  · rw [if_pos hh]
    cases hs : scan pkt.frame m.tbl 0 none with
    | same i old =>
      dsimp only
      by_cases hge : tcpseqGe pkt.frame.tcpAckNum old.pkt.frame.tcpAckNum = true
      · rw [if_pos hge]
        by_cases hr : cfg.reached old = true
        · rw [if_pos hr]
          exact .sends i old hs hge hr hh
        · rw [if_neg hr]
          exact .replaces i old _ hs hge rfl hh
      · rw [if_neg hge]
        exact .older i old hs (by rwa [Bool.not_eq_true] at hge) hh
    | absent freeSlot =>
      cases freeSlot with
      | none => exact .full hs hh
      | some i => exact .fills i _ (scan_start_free hs) rfl hh
  · rw [if_neg hh]
    exact .passes (by rwa [Bool.not_eq_true] at hh)

/-- A table without a free slot has one of the flow. -/
theorem finds_full (hs : scan pkt.frame s.mod.tbl 0 none = .absent none)
    (hh : cfg.holds pkt.frame = true) :
    finds cfg s (.hold pkt ifidx) = false := by
  obtain ⟨hflow, hfree⟩ := scan_absent hs
  unfold finds
  dsimp only
  rw [hh, Bool.not_true, Bool.false_or, List.any_eq_false]
  intro e he
  cases e with
  | none => exact absurd he hfree
  | some old => exact fun h => hflow old he (of_decide_eq_true h)

/-- Where a packet is that took the place of another. -/
def Stays (s : State) (pkt : Pkt) : Prop := pkt.id ∈ heldIds s ∨ pkt.id ∈ s.returned

theorem mem_ids (h : tbl[i]? = some (some e)) :
    e.pkt.id ∈ ids tbl :=
  List.mem_map.mpr ⟨e, mem_held.mpr ⟨i, h⟩, rfl⟩

/-- **A packet passed in**: it goes to one place. -/
theorem after_inv (h : Inv cfg s) (hnew : pkt.id ∉ s.passed)
    (hfind : finds cfg s (.hold pkt ifidx) = true) {m : Module} {hold : Bool}
    {freed : Option (Pkt × Pkt)} (hm : Moves cfg s.mod pkt ifidx m hold freed) :
    Inv cfg (s.after pkt m hold freed) := by
  have hmode : cfg.holds pkt.frame = true → cfg.mode = .hold := fun hh => (of_decide_eq_true hh).1
  have hcount := List.perm_iff_count.mp h.perm
  have hnodup : (s.after pkt m hold freed).passed.Nodup := List.nodup_cons.mpr ⟨hnew, h.nodup⟩
  unfold places heldIds at hcount
  cases hm with
  | passes hh =>
    refine ⟨h.length, hnodup, ?_, h.freed, h.empty⟩
    exact h.perm.cons pkt.id
  | sends i old hs hge hr hh =>
    obtain ⟨hi, hflow⟩ := scan_start_same hs
    refine ⟨by rw [← h.length]; exact List.length_set, hnodup, ?_, ?_,
      fun hne => absurd (hmode hh) hne⟩
    · rw [List.perm_iff_count]
      intro q
      have h1 := hcount q
      have h2 := (ids_free hi).count_eq q
      unfold places heldIds State.after
      unfold ids at h2
      simp only [Bool.false_eq_true, if_false, Option.toList_some, List.cons_append, List.nil_append,
        List.map_cons, List.count_append, List.count_cons] at h1 h2 ⊢
      omega
    · intro x hx
      rcases List.mem_cons.mp hx with rfl | hx
      · exact ⟨hflow, Or.inl hge⟩
      · exact h.freed x hx
  | replaces i old e hs hge he hh =>
    obtain ⟨hi, hflow⟩ := scan_start_same hs
    refine ⟨by rw [← h.length]; exact List.length_set, hnodup, ?_, ?_,
      fun hne => absurd (hmode hh) hne⟩
    · rw [List.perm_iff_count]
      intro q
      have h1 := hcount q
      have h2 := (@ids_replace _ _ _ e hi).count_eq q
      unfold places heldIds State.after
      unfold ids at h2
      rw [he] at h2
      simp only [if_true, Option.toList_some, List.cons_append, List.nil_append,
        List.map_cons, List.count_append, List.count_cons] at h1 h2 ⊢
      omega
    · intro x hx
      rcases List.mem_cons.mp hx with rfl | hx
      · exact ⟨hflow, Or.inl hge⟩
      · exact h.freed x hx
  | older i old hs hge hh =>
    obtain ⟨hi, hflow⟩ := scan_start_same hs
    refine ⟨h.length, hnodup, ?_, ?_, h.empty⟩
    · rw [List.perm_iff_count]
      intro q
      have h1 := hcount q
      unfold places heldIds State.after
      simp only [if_true, Option.toList_some, List.cons_append, List.nil_append,
        List.map_cons, List.count_append, List.count_cons] at h1 ⊢
      omega
    · intro x hx
      rcases List.mem_cons.mp hx with rfl | hx
      · refine ⟨hflow.symm, Or.inr ?_⟩
        unfold tcpseqLt
        rw [hge]
        rfl
      · exact h.freed x hx
  | fills i e hs he hh =>
    refine ⟨by rw [← h.length]; exact List.length_set, hnodup, ?_, h.freed,
      fun hne => absurd (hmode hh) hne⟩
    rw [List.perm_iff_count]
    intro q
    have h1 := hcount q
    have h2 := (ids_fill (e := e) hs).count_eq q
    unfold places heldIds State.after
    unfold ids at h2
    rw [he] at h2
    simp only [if_true, Option.toList_none, List.nil_append, List.count_append,
      List.count_cons] at h1 h2 ⊢
    omega
  | full hs hh =>
    rw [finds_full hs hh] at hfind
    cases hfind

/-- Who takes a place stays. -/
theorem after_stays {m : Module} {hold : Bool} {freed : Option (Pkt × Pkt)}
    (hm : Moves cfg s.mod pkt ifidx m hold freed) :
    ∀ x ∈ freed, Stays (s.after pkt m hold freed) x.2 := by
  intro x hx
  cases hm with
  | passes hh => cases hx
  | sends i old hs hge hr hh =>
    cases hx
    exact Or.inr List.mem_cons_self
  | replaces i old e hs hge he hh =>
    cases hx
    have hlt := (List.getElem?_eq_some_iff.mp (scan_start_same hs).1).1
    have hmem := mem_ids (List.getElem?_set_self (a := some e) hlt)
    rw [he] at hmem
    exact Or.inl hmem
  | older i old hs hge hh =>
    cases hx
    exact Or.inl (mem_ids (scan_start_same hs).1)
  | fills i e hs he hh => cases hx
  | full hs hh => cases hx

/-- `tcpack_info_cnt` is the number of packets held. -/
def Exact (m : Module) : Prop := m.cnt = (held m.tbl).length

theorem moves_exact {m : Module} {hold : Bool} {freed : Option (Pkt × Pkt)}
    (hm : Moves cfg s.mod pkt ifidx m hold freed) (hc : counted cfg s (.hold pkt ifidx) = true)
    (he : Exact s.mod) : Exact m := by
  unfold Exact at he
  cases hm with
  | passes hh => exact he
  | sends i old hs hge hr hh =>
    unfold counted at hc
    dsimp only at hc
    rw [hh, hs] at hc
    dsimp only at hc
    rw [hge, hr] at hc
    cases hc
  | replaces i old e hs hge heq hh =>
    have hlen := (held_replace (a := e) (scan_start_same hs).1).length_eq
    rw [List.length_cons, List.length_cons] at hlen
    show s.mod.cnt = ((held (s.mod.tbl.set i (some e))).length : Int)
    omega
  | older i old hs hge hh => exact he
  | fills i e hs heq hh =>
    have hlen := (held_fill (a := e) hs).length_eq
    rw [List.length_cons] at hlen
    show s.mod.cnt + 1 = ((held (s.mod.tbl.set i (some e))).length : Int)
    omega
  | full hs hh => exact he

/-- **The timer** takes the packet out of its slot. -/
theorem send_spec (h : Inv cfg s) (i : Nat) {s' : State} {r : Option Bool}
    (hs : step cfg s (.send i) = some (s', r)) :
    Inv cfg s' ∧ s'.freed = s.freed ∧ (Exact s.mod → Exact s'.mod) := by
  cases hs
  unfold tcpackSend
  by_cases hmode : cfg.mode = .hold
  · rw [if_pos hmode]
    cases hslot : slot s.mod.tbl i with
    | none => exact ⟨⟨h.length, h.nodup, h.perm, h.freed, h.empty⟩, rfl, id⟩
    | some old =>
      have hi := slot_eq_some.mp hslot
      refine ⟨⟨by rw [← h.length]; exact List.length_set, h.nodup, ?_, h.freed,
        fun hne => absurd hmode hne⟩, rfl, ?_⟩
      · have hcount := List.perm_iff_count.mp h.perm
        unfold places heldIds at hcount
        rw [List.perm_iff_count]
        intro q
        have h1 := hcount q
        have h2 := (ids_free hi).count_eq q
        unfold places heldIds
        unfold ids at h2
        simp only [Option.toList_some, List.map_cons, List.map_nil, List.cons_append,
          List.nil_append, List.count_append, List.count_cons] at h1 h2 ⊢
        omega
      · intro he
        have hlen := (held_free hi).length_eq
        rw [List.length_cons] at hlen
        unfold Exact at he
        show s.mod.cnt - 1 = ((held (s.mod.tbl.set i none)).length : Int)
        omega
  · rw [if_neg hmode]
    exact ⟨⟨h.length, h.nodup, h.perm, h.freed, h.empty⟩, rfl, id⟩

/-- Clearing a table that holds nothing. -/
theorem clear_of_empty (h : Inv cfg s)
    (hlen : (s.mod.tbl.map fun _ => (none : Option Info)).length = TCPACK_INFO_MAXNUM)
    (hnil : held s.mod.tbl = []) {P Q : Prop} :
    Inv cfg { s with mod := { tbl := s.mod.tbl.map fun _ => none, cnt := 0 } } ∧
      s.freed = s.freed ∧
      (P → Q → Exact { tbl := s.mod.tbl.map fun _ => none, cnt := 0 }) := by
  have hclear := held_clear s.mod.tbl
  refine ⟨⟨hlen, h.nodup, ?_, h.freed, fun _ => hclear⟩, rfl, fun _ _ => ?_⟩
  · have hperm := h.perm
    unfold places heldIds at hperm ⊢
    dsimp only
    rw [hclear]
    rwa [hnil] at hperm
  · show (0 : Int) = ((held (s.mod.tbl.map fun _ => (none : Option Info))).length : Int)
    rw [hclear]
    rfl

/-- **The clean-up** frees what is held. -/
theorem clean_spec (h : Inv cfg s) {s' : State} {r : Option Bool}
    (hs : step cfg s .clean = some (s', r)) :
    Inv cfg s' ∧ s'.freed = s.freed ∧
    (counted cfg s .clean = true → Exact s.mod → Exact s'.mod) := by
  cases hs
  have hlen : (s.mod.tbl.map fun _ => (none : Option Info)).length = TCPACK_INFO_MAXNUM := by
    rw [List.length_map]
    exact h.length
  have hclear := held_clear s.mod.tbl
  unfold tcpackInfoTblClean
  cases hmode : cfg.mode with
  | off => exact ⟨⟨h.length, h.nodup, h.perm, h.freed, h.empty⟩, rfl, fun _ => id⟩
  | hold =>
    refine ⟨⟨hlen, h.nodup, ?_, h.freed, fun _ => hclear⟩, rfl, ?_⟩
    · have hcount := List.perm_iff_count.mp h.perm
      unfold places heldIds at hcount
      rw [List.perm_iff_count]
      intro q
      have h1 := hcount q
      unfold places heldIds
      dsimp only
      rw [hclear, List.map_map]
      simp only [List.map_nil, List.append_nil, List.count_append] at h1 ⊢
      show _ + (_ + (_ + (List.count q ((held s.mod.tbl).map fun e => e.pkt.id) + _))) = _
      omega
    · intro hc he
      have hzero : (held s.mod.tbl).length = 0 := of_decide_eq_true hc hmode
      unfold Exact at he ⊢
      show s.mod.cnt = ((held (s.mod.tbl.map fun _ => (none : Option Info))).length : Int)
      rw [hclear, he, hzero]
      rfl
  | replace => exact clear_of_empty h hlen (h.empty (by rw [hmode]; nofun))
  | delaytx => exact clear_of_empty h hlen (h.empty (by rw [hmode]; nofun))

theorem step_spec {s' : State} {c : Call} {r : Option Bool} (h : Inv cfg s)
    (hfind : finds cfg s c = true) (hs : step cfg s c = some (s', r)) :
    Inv cfg s' ∧ (∀ x ∈ s'.freed, x ∉ s.freed → Stays s' x.2) ∧
    (counted cfg s c = true → Exact s.mod → Exact s'.mod) := by
  cases c with
  | hold pkt ifidx =>
    by_cases hold : pkt.id ∈ s.passed
    · have hstep : step cfg s (.hold pkt ifidx) = none := if_pos hold
      rw [hstep] at hs
      cases hs
    · have hm := tcpackHold_moves cfg s.mod pkt ifidx
      have hstep : step cfg s (.hold pkt ifidx) = some _ := if_neg hold
      rw [hstep] at hs
      cases hs
      refine ⟨after_inv h hold hfind hm, ?_, moves_exact hm⟩
      intro x hx hnot
      rcases List.mem_append.mp hx with hx | hx
      · exact after_stays hm x (Option.mem_toList.mp hx)
      · exact absurd hx hnot
  | send i =>
    obtain ⟨hinv, hfreed, hexact⟩ := send_spec h i hs
    exact ⟨hinv, fun x hx hold => absurd (hfreed ▸ hx) hold, fun _ => hexact⟩
  | clean =>
    obtain ⟨hinv, hfreed, hexact⟩ := clean_spec h hs
    exact ⟨hinv, fun x hx hold => absurd (hfreed ▸ hx) hold, hexact⟩

theorem runs_keep (cfg : Cfg) (es : List Call) (s : State) (tr : List (Call × Option Bool))
    (hm : meets (step cfg) (finds cfg) init es = true)
    (h : runs (step cfg) init es = some (s, tr)) : Inv cfg s :=
  runs_inv_of_meets (step cfg) (finds cfg) (fun s _ => Inv cfg s)
    (fun _ _ _ _ _ hi hc hs => (step_spec hi hc hs).1) init s es tr (inv_init cfg) hm h

theorem runs_exact (cfg : Cfg) (es : List Call) (s : State) (tr : List (Call × Option Bool))
    (hm : meets (step cfg) (finds cfg) init es = true)
    (hc : meets (step cfg) (counted cfg) init es = true)
    (h : runs (step cfg) init es = some (s, tr)) : Exact s.mod := by
  have hboth := meets_and (step cfg) (finds cfg) (counted cfg) init es hm hc
  refine (runs_inv_of_meets (step cfg) (fun s c => finds cfg s c && counted cfg s c)
    (fun s _ => Inv cfg s ∧ Exact s.mod) ?_ init s es tr ⟨inv_init cfg, ?_⟩ hboth h).2
  · intro s _ c s' r ⟨hinv, hexact⟩ hcond hs
    obtain ⟨hfind, hcount⟩ := (Bool.and_eq_true _ _).mp hcond
    obtain ⟨hinv', -, hex⟩ := step_spec hinv hfind hs
    exact ⟨hinv', hex hcount hexact⟩
  · show (0 : Int) = ((held (List.replicate TCPACK_INFO_MAXNUM (none : Option Info))).length : Int)
    rw [held_replicate]
    rfl

/-! ## Top theorem -/

/-- **Held ACKs are not lost.**  In a run where every new flow finds a free slot, each packet
passed in is in one place: returned, held in a slot, sent by the timer, freed, or cleaned.  One
that is freed has an ACK number that is not above that of a packet of its flow, which is then held
or returned.  `tcpack_info_cnt` is the number of occupied slots if only timers empty slots. -/
theorem tcpack_hold_keeps (cfg : Cfg) (es : List Call) (s : State)
    (tr : List (Call × Option Bool)) (hm : meets (step cfg) (finds cfg) init es = true)
    (h : runs (step cfg) init es = some (s, tr)) :
    (∀ q ∈ s.passed, (places s).count q = 1) ∧
    (∀ x ∈ s.freed, Supersedes x.2.frame x.1.frame) ∧
    (∀ c s' r, finds cfg s c = true → step cfg s c = some (s', r) →
      ∀ x ∈ s'.freed, x ∉ s.freed → x.2.id ∈ heldIds s' ∨ x.2.id ∈ s'.returned) ∧
    (meets (step cfg) (counted cfg) init es = true →
      s.mod.cnt = ((held s.mod.tbl).length : Int)) := by
  have hinv := runs_keep cfg es s tr hm h
  refine ⟨?_, hinv.freed, ?_, fun hc => runs_exact cfg es s tr hm hc h⟩
  · intro q hq
    rw [hinv.perm.count_eq]
    exact List.count_eq_one_of_mem hinv.nodup hq
  · intro c s' r hfind hs
    exact (step_spec hinv hfind hs).2.1

/-- An ACK of port `port` with number `ack`. -/
def ack (id port ack : Nat) : Pkt where
  id := id
  frame := { len := 54, data := fun i =>
    if i = 12 then 0x08 else if i = 14 then 0x45 else if i = 17 then 40 else if i = 23 then 6
    else if i = 35 then UInt8.ofNat port else if i = 45 then UInt8.ofNat ack
    else if i = 46 then 0x50 else if i = 47 then 0x10 else 0 }

def cfg₀ : Cfg := { mode := .hold, ratio := 3 }

/-- The second ACK takes the place of the first, and the timer sends it. -/
theorem tcpack_hold_keeps_two :
    ∃ s tr, runs (step cfg₀) init [.hold (ack 1 7 10) 0, .hold (ack 2 7 20) 0, .send 0] =
        some (s, tr) ∧
      s.sent = [2] ∧ (∀ q ∈ s.passed, (places s).count q = 1) ∧
      s.mod.cnt = ((held s.mod.tbl).length : Int) := by
  have hm : meets (step cfg₀) (finds cfg₀) init
    [.hold (ack 1 7 10) 0, .hold (ack 2 7 20) 0, .send 0] = true := by decide +kernel
  have hc : meets (step cfg₀) (counted cfg₀) init
    [.hold (ack 1 7 10) 0, .hold (ack 2 7 20) 0, .send 0] = true := by decide +kernel
  obtain ⟨s, tr, h⟩ : ∃ s tr, runs (step cfg₀) init
    [.hold (ack 1 7 10) 0, .hold (ack 2 7 20) 0, .send 0] = some (s, tr) := ⟨_, _, rfl⟩
  have hall := tcpack_hold_keeps cfg₀ _ s tr hm h
  refine ⟨s, tr, h, ?_, hall.1, hall.2.2.2 hc⟩
  cases h
  rfl

/-- ACKs of 41 flows: the last finds no free slot, is announced as held, and is nowhere.  With the
third ACK of a flow the slot is empty and the count is 1.  After a clean-up it is 1 too. -/
theorem tcpack_hold_keeps_fails :
    ((runs (step cfg₀) init ((List.range 41).map fun i => .hold (ack i i 10) 0)).map
      fun x => (x.2.map Prod.snd, places x.1)) =
      some (List.replicate 41 (some true), List.range 40) ∧
    ((runs (step cfg₀) init [.hold (ack 1 7 10) 0, .hold (ack 2 7 20) 0, .hold (ack 3 7 30) 0]).map
      fun x => (x.1.returned, heldIds x.1, x.1.mod.cnt)) = some ([3], [], 1) ∧
    ((runs (step cfg₀) init [.hold (ack 1 7 10) 0, .clean]).map
      fun x => (x.1.cleaned, heldIds x.1, x.1.mod.cnt)) = some ([1], [], 1) := by
  refine ⟨?_, ?_, ?_⟩ <;> decide +kernel

end Bcmdhd.Tcpack.Hold
