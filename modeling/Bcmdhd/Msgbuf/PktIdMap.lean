import Mathlib.Data.List.Perm.Subperm
import Bcmdhd.Lib.Runs
import Bcmdhd.Lib.ArrayStack

/-!
# The packet-id map (`dhd_msgbuf.c`)

`keys[1..avail]` is a stack of free ids, and `lockers[id]` holds what is known of the
packet under an id.  Ids are handed out by `dhd_pktid_map_reserve` and
`dhd_pktid_map_alloc`, filled by `dhd_pktid_map_save` and given back by
`dhd_pktid_map_free`; the id and the type given to `free` come from the dongle.

    meets step saveOk (init items uninit) es → runs step (init items uninit) es = some (m, tr) →
      keys[1..avail] are the free lockers, without repetition ∧
      ids handed out are not outstanding ∧ a free returns what was recorded, or changes nothing
                                                             (pktid_map_safe)

Pointers and DMA addresses are opaque numbers; `NULL` packets are `none`.
-/

namespace Bcmdhd.PktIdMap

open Runs ArrayStack

/-! ## The map -/

/-- `DHD_PKTID_INVALID` -/
def pktidInvalid : Nat := 0

inductive PktType
  | dataTx
  | dataRx
  | ioctlRx
  | eventRx
  | infoRx
  /-- no check, if pktid reserved and no space avail case -/
  | noCheck
  | tsbufRx
deriving DecidableEq, Repr

inductive LockerState
  | free
  | busy
  | rsvd
deriving DecidableEq, Repr

/-- What a locker stores. -/
structure Contents where
  /-- dma map direction -/
  dir : Nat
  pkttype : PktType
  len : Nat
  pkt : Option Nat
  pa : Nat
  dmah : Nat
  secdma : Nat
deriving DecidableEq, Repr

structure Locker extends Contents where
  state : LockerState
deriving DecidableEq, Repr

structure PktidMap where
  items : Nat
  avail : Nat
  failures : Nat
  keys : Nat → Nat
  lockers : Nat → Locker

/-- The values of `dhd->dhd_induce_error` that the map looks at. -/
inductive InduceError
  | none
  | pktidInvalidSave
  | pktidInvalidFree
deriving DecidableEq, Repr

/-- `uninit` is what the lockers hold before their first use. -/
def init (items : Nat) (uninit : Contents) : PktidMap where
  items := items
  avail := items
  failures := 0
  keys := id
  lockers := fun nkey =>
    { uninit with
      pkt := none
      len := 0
      state := if nkey = pktidInvalid then .busy else .free }

/-- The map and the id, or `DHD_PKTID_INVALID`. -/
def reserve (m : PktidMap) (pkt : Option Nat) : PktidMap × Nat :=
  -- (int)(map->avail) <= 0
  if m.avail = 0 ∨ m.avail ≥ 0x80000000 then ({ m with failures := m.failures + 1 }, pktidInvalid)
  else
    let nkey := m.keys m.avail
    if m.avail > m.items ∨ nkey > m.items then
      ({ m with failures := m.failures + 1 }, pktidInvalid)
    else
      ({ m with
          avail := m.avail - 1
          lockers := Function.update m.lockers nkey
            { m.lockers nkey with pkt, len := 0, state := .busy } }, nkey)

/-- `nkey` is none of the map's ids. -/
def invalidKey (m : PktidMap) (nkey : Nat) : Bool := nkey == pktidInvalid || decide (nkey > m.items)

/-- The contents a save leaves: the length is kept in 16 bits. -/
def stored (c : Contents) : Contents := { c with len := c.len % 0x10000 }

def save (induce : InduceError) (m : PktidMap) (c : Contents) (nkey : Nat) : PktidMap :=
  if invalidKey m nkey || induce == .pktidInvalidSave then m
  else { m with lockers := Function.update m.lockers nkey { stored c with state := .busy } }

def alloc (induce : InduceError) (m : PktidMap) (c : Contents) : PktidMap × Nat :=
  let (m, nkey) := reserve m c.pkt
  if nkey ≠ pktidInvalid then (save induce m c nkey, nkey) else (m, nkey)

/-- What `free` gives back through its pointer arguments. -/
structure Retrieved where
  pa : Nat
  len : Nat
  dmah : Nat
  secdma : Nat
deriving DecidableEq, Repr

def retrieve (c : Contents) : Retrieved := ⟨c.pa, c.len, c.dmah, c.secdma⟩

/-- The type given to `free` is right for the locker. -/
def matchesType (c : Contents) (pkttype : PktType) : Bool :=
  pkttype == .noCheck || c.pkttype == pkttype

/-- The packet, and the arguments written; a rejected free writes none. -/
def free (induce : InduceError) (m : PktidMap) (nkey : Nat) (pkttype : PktType)
    (rsvLocker : Bool) : PktidMap × Option Nat × Option Retrieved :=
  if invalidKey m nkey || induce == .pktidInvalidFree then (m, none, none)
  else
    let locker := m.lockers nkey
    if locker.state = .free then (m, none, none)
    else if !matchesType locker.toContents pkttype then (m, none, none)
    else
      let m :=
        if rsvLocker then
          { m with lockers := Function.update m.lockers nkey { locker with state := .rsvd } }
        else
          { m with
            avail := m.avail + 1
            keys := Function.update m.keys (m.avail + 1) nkey
            lockers := Function.update m.lockers nkey { locker with state := .free } }
      ({ m with
          lockers := Function.update m.lockers nkey { m.lockers nkey with pkt := none, len := 0 } },
        locker.pkt, some (retrieve locker.toContents))

inductive Op
  | reserve (pkt : Option Nat)
  | save (c : Contents) (nkey : Nat)
  | alloc (c : Contents)
  | free (nkey : Nat) (pkttype : PktType) (rsvLocker : Bool)
deriving DecidableEq, Repr

inductive Result
  | nothing
  | key (nkey : Nat)
  | freed (pkt : Option Nat) (out : Option Retrieved)
deriving DecidableEq, Repr

/-- One call, with the value of `dhd->dhd_induce_error` at that time. -/
def step (m : PktidMap) : InduceError × Op → Option (PktidMap × Result)
  | (_, .reserve pkt) => let (m, nkey) := reserve m pkt; some (m, .key nkey)
  | (induce, .save c nkey) => some (save induce m c nkey, .nothing)
  | (induce, .alloc c) => let (m, nkey) := alloc induce m c; some (m, .key nkey)
  | (induce, .free nkey pkttype rsvLocker) =>
    let (m, pkt, out) := free induce m nkey pkttype rsvLocker
    some (m, .freed pkt out)

/-! ## What callers know from the calls -/

abbrev Trace := List ((InduceError × Op) × Result)

/-- A save of an id of the map is of one that is handed out (the code asserts it). -/
def saveOk (m : PktidMap) : InduceError × Op → Bool
  | (induce, .save _ nkey) =>
    invalidKey m nkey || induce == .pktidInvalidSave || (m.lockers nkey).state != .free
  | _ => true

/-- The effect of a call on the ids that are handed out. -/
def markOut (out : Nat → Bool) : (InduceError × Op) × Result → Nat → Bool
  | ((_, .reserve _), .key nkey) | ((_, .alloc _), .key nkey) =>
    if nkey = pktidInvalid then out else Function.update out nkey true
  | ((_, .free nkey _ false), .freed _ (some _)) => Function.update out nkey false
  | _ => out

def outstanding (tr : Trace) : Nat → Bool := tr.foldl markOut fun _ => false

/-- The effect of a call on what is stored under the ids `1..items`. -/
def record (items : Nat) (f : Nat → Contents) : (InduceError × Op) × Result → Nat → Contents
  | ((_, .reserve pkt), .key nkey) =>
    if nkey = pktidInvalid then f else Function.update f nkey { f nkey with pkt, len := 0 }
  | ((induce, .save c nkey), _) =>
    if nkey = pktidInvalid ∨ nkey > items ∨ induce = .pktidInvalidSave then f
    else Function.update f nkey (stored c)
  | ((induce, .alloc c), .key nkey) =>
    if nkey = pktidInvalid then f
    else if induce = .pktidInvalidSave then
      Function.update f nkey { f nkey with pkt := c.pkt, len := 0 }
    else Function.update f nkey (stored c)
  | ((_, .free nkey _ _), .freed _ (some _)) =>
    Function.update f nkey { f nkey with pkt := none, len := 0 }
  | _ => f

/-- What was last saved under each id, and is still there. -/
def recorded (items : Nat) (uninit : Contents) (tr : Trace) : Nat → Contents :=
  tr.foldl (record items) fun _ => { uninit with pkt := none, len := 0 }

/-- `keys[1..avail]` -/
def freeKeys (m : PktidMap) : List Nat := cells m.keys 1 m.avail

/-! ## Lemmas -/

variable {items : Nat} {uninit : Contents} {m m' : PktidMap} {tr : Trace}

theorem invalidKey_eq_false {nkey : Nat} :
    invalidKey m nkey = false ↔ 1 ≤ nkey ∧ nkey ≤ m.items := by
  unfold invalidKey pktidInvalid
  rw [Bool.or_eq_false_iff, beq_eq_false_iff_ne, decide_eq_false_iff_not]
  omega

theorem outstanding_snoc (tr : Trace) (e : (InduceError × Op) × Result) :
    outstanding (tr ++ [e]) = markOut (outstanding tr) e := by
  simp [outstanding, List.foldl_append]

theorem recorded_snoc (tr : Trace) (e : (InduceError × Op) × Result) :
    recorded items uninit (tr ++ [e]) = record items (recorded items uninit tr) e := by
  simp [recorded, List.foldl_append]

/-- **The invariant.** -/
structure Inv (items : Nat) (uninit : Contents) (m : PktidMap) (tr : Trace) : Prop where
  items_eq : m.items = items
  nodup : (freeKeys m).Nodup
  mem_iff : ∀ k, k ∈ freeKeys m ↔ 1 ≤ k ∧ k ≤ items ∧ (m.lockers k).state = .free
  contents : ∀ k, 1 ≤ k → k ≤ items → (m.lockers k).toContents = recorded items uninit tr k
  out_iff : ∀ k, 1 ≤ k → k ≤ items → (outstanding tr k = true ↔ (m.lockers k).state ≠ .free)

theorem inv_init (items : Nat) (uninit : Contents) : Inv items uninit (init items uninit) [] where
  items_eq := rfl
  nodup := by
    unfold freeKeys cells init
    rw [List.map_id]
    exact List.nodup_range'
  mem_iff := by
    intro k
    have hstate : ((init items uninit).lockers k).state =
        if k = pktidInvalid then .busy else .free := rfl
    unfold freeKeys cells
    rw [hstate, init, List.map_id, List.mem_range'_1]
    unfold pktidInvalid
    split
    · simp only [reduceCtorEq, and_false, iff_false]; omega
    · simp only [and_true]; omega
  contents := fun _ _ _ => rfl
  out_iff := by
    intro k h1 _
    have hstate : ((init items uninit).lockers k).state =
        if k = pktidInvalid then .busy else .free := rfl
    have hne : k ≠ pktidInvalid := by unfold pktidInvalid; omega
    rw [hstate, if_neg hne]
    simp [outstanding]

/-- There are no more free keys than ids. -/
theorem Inv.avail_le (h : Inv items uninit m tr) : m.avail ≤ items := by
  have hsub : freeKeys m ⊆ List.range' 1 items := by
    intro k hk
    obtain ⟨h1, h2, -⟩ := (h.mem_iff k).1 hk
    rw [List.mem_range'_1]
    omega
  have hlen := (List.subperm_of_subset h.nodup hsub).length_le
  simpa [freeKeys, cells] using hlen

/-- A call that touches no locker and no key. -/
theorem inv_of_same (h : Inv items uninit m tr) {e : (InduceError × Op) × Result}
    (hi : m'.items = m.items) (ha : m'.avail = m.avail) (hk : m'.keys = m.keys)
    (hl : m'.lockers = m.lockers) (hrec : ∀ f, record items f e = f)
    (hout : ∀ f, markOut f e = f) : Inv items uninit m' (tr ++ [e]) where
  items_eq := by rw [hi, h.items_eq]
  nodup := by unfold freeKeys; rw [ha, hk]; exact h.nodup
  mem_iff := by unfold freeKeys; rw [ha, hk, hl]; exact h.mem_iff
  contents := by rw [recorded_snoc, hrec, hl]; exact h.contents
  out_iff := by rw [outstanding_snoc, hout, hl]; exact h.out_iff

/-- A call that replaces one locker, with the keys to match. -/
theorem inv_of_update (h : Inv items uninit m tr) {e : (InduceError × Op) × Result} {nkey : Nat}
    {locker : Locker} (h1 : 1 ≤ nkey) (h2 : nkey ≤ items) (hi : m'.items = m.items)
    (hl : m'.lockers = Function.update m.lockers nkey locker) (hnodup : (freeKeys m').Nodup)
    (hmem : ∀ k, k ∈ freeKeys m' ↔ if k = nkey then locker.state = .free else k ∈ freeKeys m)
    (hrec : ∀ k, record items (recorded items uninit tr) e k =
      if k = nkey then locker.toContents else recorded items uninit tr k)
    (hout : ∀ k, markOut (outstanding tr) e k =
      if k = nkey then locker.state != .free else outstanding tr k) :
    Inv items uninit m' (tr ++ [e]) where
  items_eq := by rw [hi, h.items_eq]
  nodup := hnodup
  mem_iff := by
    intro k
    rw [hmem, hl, Function.update_apply]
    split
    · next hk => subst hk; exact ⟨fun hf => ⟨h1, h2, hf⟩, fun hf => hf.2.2⟩
    · exact h.mem_iff k
  contents := by
    intro k hk1 hk2
    rw [recorded_snoc, hrec, hl, Function.update_apply]
    split
    · rfl
    · exact h.contents k hk1 hk2
  out_iff := by
    intro k hk1 hk2
    rw [outstanding_snoc, hout, hl, Function.update_apply]
    split
    · simp
    · exact h.out_iff k hk1 hk2

/-- With a free key, a reservation pops the top one. -/
theorem reserve_of_avail (h : Inv items uninit m tr) (pkt : Option Nat)
    (hok : ¬ (m.avail = 0 ∨ m.avail ≥ 0x80000000)) :
    ∃ nkey, 1 ≤ nkey ∧ nkey ≤ items ∧ (m.lockers nkey).state = .free ∧
      freeKeys m = cells m.keys 1 (m.avail - 1) ++ [nkey] ∧
      reserve m pkt =
        ({ m with
            avail := m.avail - 1
            lockers := Function.update m.lockers nkey
              { m.lockers nkey with pkt, len := 0, state := .busy } }, nkey) := by
  unfold reserve
  have hpos : m.avail = m.avail - 1 + 1 := by omega
  have hpop : freeKeys m = cells m.keys 1 (m.avail - 1) ++ [m.keys m.avail] := by
    unfold freeKeys
    conv => lhs; rw [hpos]
    rw [cells_succ, show 1 + (m.avail - 1) = m.avail by omega]
  have hmem : m.keys m.avail ∈ freeKeys m := by rw [hpop]; simp
  obtain ⟨h1, h2, h3⟩ := (h.mem_iff _).1 hmem
  have hle := h.avail_le
  have hin : ¬ (m.avail > m.items ∨ m.keys m.avail > m.items) := by rw [h.items_eq]; omega
  refine ⟨m.keys m.avail, h1, h2, h3, hpop, ?_⟩
  rw [if_neg hok]
  simp only [if_neg hin]

/-- A reservation fails and only counts the failure, or pops the top key. -/
theorem reserve_cases (h : Inv items uninit m tr) (pkt : Option Nat) :
    reserve m pkt = ({ m with failures := m.failures + 1 }, pktidInvalid) ∨
    ∃ nkey, 1 ≤ nkey ∧ nkey ≤ items ∧ (m.lockers nkey).state = .free ∧
      freeKeys m = cells m.keys 1 (m.avail - 1) ++ [nkey] ∧
      reserve m pkt =
        ({ m with
            avail := m.avail - 1
            lockers := Function.update m.lockers nkey
              { m.lockers nkey with pkt, len := 0, state := .busy } }, nkey) := by
  by_cases hneg : m.avail = 0 ∨ m.avail ≥ 0x80000000
  · unfold reserve
    exact .inl (by rw [if_pos hneg])
  · exact .inr (reserve_of_avail h pkt hneg)

/-- The invariant when an id is handed out: its locker is busy with what was saved. -/
theorem inv_of_popped (h : Inv items uninit m tr) {e : (InduceError × Op) × Result} {nkey : Nat}
    {locker : Locker} (h1 : 1 ≤ nkey) (h2 : nkey ≤ items)
    (hpop : freeKeys m = cells m.keys 1 (m.avail - 1) ++ [nkey]) (hi : m'.items = m.items)
    (ha : m'.avail = m.avail - 1) (hkeys : m'.keys = m.keys)
    (hl : m'.lockers = Function.update m.lockers nkey locker) (hbusy : locker.state = .busy)
    (hrec : ∀ k, record items (recorded items uninit tr) e k =
      if k = nkey then locker.toContents else recorded items uninit tr k)
    (hout : markOut (outstanding tr) e = Function.update (outstanding tr) nkey true) :
    Inv items uninit m' (tr ++ [e]) := by
  have hkeys' : freeKeys m' = cells m.keys 1 (m.avail - 1) := by unfold freeKeys; rw [ha, hkeys]
  have hnd := h.nodup
  rw [hpop] at hnd
  obtain ⟨hnd', hnot⟩ := nodup_of_snoc hnd
  refine inv_of_update h h1 h2 hi hl (by rw [hkeys']; exact hnd') (fun k => ?_) hrec (fun k => ?_)
  · rw [hkeys', hpop, hbusy]
    split
    · next hk => subst hk; simp [hnot]
    · next hk => simp [hk]
  · rw [hout, Function.update_apply, hbusy]
    rfl

theorem reserve_inv (h : Inv items uninit m tr) (induce : InduceError) (pkt : Option Nat) :
    Inv items uninit (reserve m pkt).1
      (tr ++ [((induce, .reserve pkt), .key (reserve m pkt).2)]) := by
  rcases reserve_cases h pkt with hr | ⟨nkey, h1, h2, -, hpop, hr⟩
  · rw [hr]
    exact inv_of_same h rfl rfl rfl rfl (fun f => by simp [record]) (fun f => by simp [markOut])
  · have hne : nkey ≠ pktidInvalid := by unfold pktidInvalid; omega
    rw [hr]
    refine inv_of_popped h h1 h2 hpop rfl rfl rfl rfl rfl (fun k => ?_) (if_neg hne)
    simp only [record, if_neg hne, Function.update_apply, ← h.contents nkey h1 h2]

/-- A reservation followed by a save. -/
theorem alloc_cases (h : Inv items uninit m tr) (induce : InduceError) (c : Contents) :
    alloc induce m c = ({ m with failures := m.failures + 1 }, pktidInvalid) ∨
    ∃ nkey, 1 ≤ nkey ∧ nkey ≤ items ∧ (m.lockers nkey).state = .free ∧
      freeKeys m = cells m.keys 1 (m.avail - 1) ++ [nkey] ∧
      alloc induce m c =
        ({ m with
            avail := m.avail - 1
            lockers := Function.update m.lockers nkey
              (if induce = .pktidInvalidSave then
                { m.lockers nkey with pkt := c.pkt, len := 0, state := .busy }
              else { stored c with state := .busy }) }, nkey) := by
  unfold alloc
  rcases reserve_cases h c.pkt with hr | ⟨nkey, h1, h2, h3, hpop, hr⟩
  · exact .inl (by rw [hr]; rfl)
  · refine .inr ⟨nkey, h1, h2, h3, hpop, ?_⟩
    have hne : nkey ≠ pktidInvalid := by unfold pktidInvalid; omega
    rw [hr]
    simp only [if_pos hne, save]
    have hvalid : invalidKey { m with
        avail := m.avail - 1
        lockers := Function.update m.lockers nkey
          { m.lockers nkey with pkt := c.pkt, len := 0, state := .busy } } nkey = false :=
      invalidKey_eq_false.2 ⟨h1, by rw [h.items_eq]; exact h2⟩
    rw [hvalid, Bool.false_or]
    by_cases hi : induce = .pktidInvalidSave
    · simp only [hi, beq_self_eq_true, if_true]
    · rw [if_neg (by simp [hi]), if_neg hi]
      simp only [Function.update_idem]

theorem alloc_inv (h : Inv items uninit m tr) (induce : InduceError) (c : Contents) :
    Inv items uninit (alloc induce m c).1
      (tr ++ [((induce, .alloc c), .key (alloc induce m c).2)]) := by
  rcases alloc_cases h induce c with ha | ⟨nkey, h1, h2, -, hpop, ha⟩
  · rw [ha]
    exact inv_of_same h rfl rfl rfl rfl (fun f => by simp [record]) (fun f => by simp [markOut])
  · have hne : nkey ≠ pktidInvalid := by unfold pktidInvalid; omega
    rw [ha]
    refine inv_of_popped h h1 h2 hpop rfl rfl rfl rfl (by split <;> rfl) (fun k => ?_) (if_neg hne)
    simp only [record, if_neg hne, ← h.contents nkey h1 h2]
    by_cases hi : induce = .pktidInvalidSave
    · simp only [if_pos hi, Function.update_apply]
    · simp only [if_neg hi, Function.update_apply]

theorem save_inv (h : Inv items uninit m tr) (induce : InduceError) (c : Contents) (nkey : Nat)
    (hok : saveOk m (induce, .save c nkey) = true) :
    Inv items uninit (save induce m c nkey) (tr ++ [((induce, .save c nkey), .nothing)]) := by
  unfold save
  split
  · next hskip =>
    refine inv_of_same h rfl rfl rfl rfl (fun f => if_pos ?_) (fun f => rfl)
    rw [Bool.or_eq_true, beq_iff_eq] at hskip
    unfold invalidKey at hskip
    rw [Bool.or_eq_true, beq_iff_eq, decide_eq_true_eq, h.items_eq] at hskip
    rcases hskip with (h0 | hgt) | hind
    · exact .inl h0
    · exact .inr (.inl hgt)
    · exact .inr (.inr hind)
  · next hsave =>
    rw [Bool.or_eq_true, not_or, Bool.not_eq_true, beq_iff_eq] at hsave
    obtain ⟨hvalid, hind⟩ := hsave
    obtain ⟨h1, h2⟩ := invalidKey_eq_false.1 hvalid
    rw [h.items_eq] at h2
    have hout : (m.lockers nkey).state ≠ .free := by
      simpa [saveOk, hvalid, hind] using hok
    have hnot : ¬ (nkey = pktidInvalid ∨ nkey > items ∨ induce = .pktidInvalidSave) := by
      unfold pktidInvalid
      rintro (h0 | hgt | hi)
      · omega
      · omega
      · exact hind hi
    refine inv_of_update h h1 h2 rfl rfl h.nodup (fun k => ?_) (fun k => ?_) (fun k => ?_)
    · split
      · next hk =>
        subst hk
        show k ∈ freeKeys m ↔ LockerState.busy = .free
        simp [h.mem_iff, hout]
      · exact Iff.rfl
    · simp only [record, if_neg hnot, Function.update_apply]
    · split
      · next hk => subst hk; exact (h.out_iff k h1 h2).2 hout
      · rfl

/-- A free that is refused: the id is out of range or free already, or its type is wrong. -/
def rejected (induce : InduceError) (m : PktidMap) (nkey : Nat) (pkttype : PktType) : Bool :=
  invalidKey m nkey || induce == .pktidInvalidFree || (m.lockers nkey).state == .free ||
    !matchesType (m.lockers nkey).toContents pkttype

theorem free_of_rejected {induce : InduceError} {nkey : Nat} {pkttype : PktType} {rsv : Bool}
    (hr : rejected induce m nkey pkttype = true) :
    free induce m nkey pkttype rsv = (m, none, none) := by
  unfold rejected at hr
  unfold free
  by_cases h1 : (invalidKey m nkey || induce == .pktidInvalidFree) = true
  · rw [if_pos h1]
  · rw [if_neg h1]
    rw [Bool.not_eq_true] at h1
    rw [h1, Bool.false_or, Bool.or_eq_true, beq_iff_eq] at hr
    simp only
    split
    · rfl
    · next hs => rw [if_pos (hr.resolve_left hs)]

/-- An accepted free. -/
theorem free_of_accepted {induce : InduceError} {nkey : Nat} {pkttype : PktType} {rsv : Bool}
    (hr : rejected induce m nkey pkttype = false) :
    free induce m nkey pkttype rsv =
      ({ m with
          avail := if rsv then m.avail else m.avail + 1
          keys := if rsv then m.keys else Function.update m.keys (m.avail + 1) nkey
          lockers := Function.update m.lockers nkey
            { m.lockers nkey with
              pkt := none
              len := 0
              state := if rsv then .rsvd else .free } },
        (m.lockers nkey).pkt, some (retrieve (m.lockers nkey).toContents)) := by
  unfold rejected at hr
  rw [Bool.or_eq_false_iff, Bool.or_eq_false_iff, beq_eq_false_iff_ne] at hr
  obtain ⟨⟨h1, h2⟩, h3⟩ := hr
  unfold free
  rw [if_neg (by rw [h1]; decide)]
  simp only [if_neg h2]
  rw [if_neg (by rw [h3]; decide)]
  cases rsv <;> simp [Function.update_idem]

theorem free_inv (h : Inv items uninit m tr) (induce : InduceError) (nkey : Nat)
    (pkttype : PktType) (rsv : Bool) :
    Inv items uninit (free induce m nkey pkttype rsv).1
      (tr ++ [((induce, .free nkey pkttype rsv),
        .freed (free induce m nkey pkttype rsv).2.1 (free induce m nkey pkttype rsv).2.2)]) := by
  cases hr : rejected induce m nkey pkttype with
  | true =>
    rw [free_of_rejected hr]
    refine inv_of_same h rfl rfl rfl rfl (fun f => rfl) (fun f => ?_)
    cases rsv <;> rfl
  | false =>
    rw [free_of_accepted hr]
    unfold rejected at hr
    rw [Bool.or_eq_false_iff, Bool.or_eq_false_iff, Bool.or_eq_false_iff] at hr
    obtain ⟨⟨⟨hvalid, -⟩, hbeq⟩, -⟩ := hr
    have hstate : (m.lockers nkey).state ≠ .free := by simpa using hbeq
    obtain ⟨h1, h2⟩ := invalidKey_eq_false.1 hvalid
    rw [h.items_eq] at h2
    have hnot : nkey ∉ freeKeys m := fun hmem => hstate ((h.mem_iff nkey).1 hmem).2.2
    have hrec : ∀ k, record items (recorded items uninit tr)
        ((induce, .free nkey pkttype rsv),
          .freed (m.lockers nkey).pkt (some (retrieve (m.lockers nkey).toContents))) k =
        if k = nkey then { (m.lockers nkey).toContents with pkt := none, len := 0 }
        else recorded items uninit tr k := by
      intro k
      simp only [record, Function.update_apply, ← h.contents nkey h1 h2]
    cases rsv with
    | true =>
      refine inv_of_update h h1 h2 rfl rfl h.nodup (fun k => ?_) hrec (fun k => ?_)
      · show k ∈ freeKeys m ↔ if k = nkey then LockerState.rsvd = .free else k ∈ freeKeys m
        by_cases hk : k = nkey
        · subst hk; simp [hnot]
        · rw [if_neg hk]
      · show outstanding tr k = if k = nkey then true else outstanding tr k
        by_cases hk : k = nkey
        · subst hk; rw [if_pos rfl]; exact (h.out_iff k h1 h2).2 hstate
        · rw [if_neg hk]
    | false =>
      have hpush : cells (Function.update m.keys (m.avail + 1) nkey) 1 (m.avail + 1) =
          freeKeys m ++ [nkey] := by
        rw [Nat.add_comm m.avail 1]
        have hcells := cells_push m.keys 1 m.avail nkey
        rw [Nat.add_comm m.avail 1] at hcells
        exact hcells
      refine inv_of_update h h1 h2 rfl rfl ?_ (fun k => ?_) hrec (fun k => ?_)
      · show (cells (Function.update m.keys (m.avail + 1) nkey) 1 (m.avail + 1)).Nodup
        rw [hpush]
        exact nodup_snoc h.nodup hnot
      · show k ∈ cells (Function.update m.keys (m.avail + 1) nkey) 1 (m.avail + 1) ↔
          if k = nkey then LockerState.free = .free else k ∈ freeKeys m
        rw [hpush]
        by_cases hk : k = nkey
        · simp [hk]
        · simp [hk]
      · simp only [markOut, Function.update_apply]
        rfl

theorem step_inv (m : PktidMap) (tr : Trace) (e : InduceError × Op) (m' : PktidMap) (r : Result)
    (h : Inv items uninit m tr) (hok : saveOk m e = true) (hs : step m e = some (m', r)) :
    Inv items uninit m' (tr ++ [(e, r)]) := by
  obtain ⟨induce, op⟩ := e
  cases op with
  | reserve pkt =>
    cases hs
    exact reserve_inv h induce pkt
  | save c nkey =>
    cases hs
    exact save_inv h induce c nkey hok
  | alloc c =>
    cases hs
    exact alloc_inv h induce c
  | free nkey pkttype rsvLocker =>
    cases hs
    exact free_inv h induce nkey pkttype rsvLocker

theorem runs_keep_inv (items : Nat) (uninit : Contents) (es : List (InduceError × Op))
    (m : PktidMap) (tr : Trace) (hm : meets step saveOk (init items uninit) es = true)
    (h : runs step (init items uninit) es = some (m, tr)) : Inv items uninit m tr :=
  runs_inv_of_meets step saveOk (Inv items uninit) step_inv (init items uninit) m es tr
    (inv_init items uninit) hm h

/-- An id that is handed out was free. -/
theorem step_key (h : Inv items uninit m tr) {induce : InduceError} {op : Op} {nkey : Nat}
    (hs : step m (induce, op) = some (m', .key nkey)) (hne : nkey ≠ pktidInvalid) :
    1 ≤ nkey ∧ nkey ≤ items ∧ outstanding tr nkey = false := by
  have hfree : ∀ k, 1 ≤ k → k ≤ items → (m.lockers k).state = .free → outstanding tr k = false := by
    intro k h1 h2 hs
    rw [← Bool.not_eq_true, h.out_iff k h1 h2]
    exact fun hn => hn hs
  cases op with
  | reserve pkt =>
    simp only [step, Option.some.injEq, Prod.mk.injEq, Result.key.injEq] at hs
    rcases reserve_cases h pkt with hr | ⟨k, h1, h2, h3, -, hr⟩
    · rw [hr] at hs; exact absurd hs.2.symm hne
    · rw [hr] at hs; rw [← hs.2]; exact ⟨h1, h2, hfree k h1 h2 h3⟩
  | save c k => cases hs
  | alloc c =>
    simp only [step, Option.some.injEq, Prod.mk.injEq, Result.key.injEq] at hs
    rcases alloc_cases h induce c with ha | ⟨k, h1, h2, h3, -, ha⟩
    · rw [ha] at hs; exact absurd hs.2.symm hne
    · rw [ha] at hs; rw [← hs.2]; exact ⟨h1, h2, hfree k h1 h2 h3⟩
  | free k pkttype rsv => cases hs

/-- What makes a free be refused, in terms of the calls so far. -/
theorem rejected_iff (h : Inv items uninit m tr) (induce : InduceError) (nkey : Nat)
    (pkttype : PktType) :
    rejected induce m nkey pkttype = true ↔
      nkey = pktidInvalid ∨ nkey > items ∨ induce = .pktidInvalidFree ∨
        outstanding tr nkey = false ∨
        matchesType (recorded items uninit tr nkey) pkttype = false := by
  unfold rejected invalidKey
  rw [h.items_eq]
  by_cases h0 : nkey = pktidInvalid
  · simp [h0]
  by_cases hgt : nkey > items
  · simp [hgt]
  by_cases hi : induce = .pktidInvalidFree
  · simp [hi]
  have h1 : 1 ≤ nkey := by unfold pktidInvalid at h0; omega
  have h2 : nkey ≤ items := by omega
  have hout : (m.lockers nkey).state = .free ↔ outstanding tr nkey = false := by
    rw [← Bool.not_eq_true, h.out_iff nkey h1 h2, not_not]
  simp only [h.contents nkey h1 h2, Bool.or_eq_true, beq_iff_eq, h0, decide_eq_true_eq, hgt, hi,
    false_or, hout, Bool.not_eq_true']

/-! ## Top theorem -/

/-- **The packet-id map**, for every map size and every run whose saves are of ids that
are handed out.  An accepted free returns what is recorded under the id: the packet and
the length (in 16 bits) put there since it was handed out or emptied, with the address
and handles of its last save. -/
theorem pktid_map_safe (items : Nat) (uninit : Contents) (es : List (InduceError × Op))
    (m : PktidMap) (tr : Trace) (hm : meets step saveOk (init items uninit) es = true)
    (h : runs step (init items uninit) es = some (m, tr)) :
    (freeKeys m).Nodup ∧
    (∀ k, k ∈ freeKeys m ↔ 1 ≤ k ∧ k ≤ items ∧ (m.lockers k).state = .free) ∧
    (∀ induce op m' nkey, step m (induce, op) = some (m', .key nkey) → nkey ≠ pktidInvalid →
      1 ≤ nkey ∧ nkey ≤ items ∧ outstanding tr nkey = false) ∧
    (∀ induce nkey pkttype rsv,
      nkey = pktidInvalid ∨ nkey > items ∨ induce = .pktidInvalidFree ∨
        outstanding tr nkey = false ∨
        matchesType (recorded items uninit tr nkey) pkttype = false →
      step m (induce, .free nkey pkttype rsv) = some (m, .freed none none)) ∧
    (∀ induce nkey pkttype rsv, 1 ≤ nkey → nkey ≤ items → induce ≠ .pktidInvalidFree →
      outstanding tr nkey = true →
      matchesType (recorded items uninit tr nkey) pkttype = true →
      ∃ m', step m (induce, .free nkey pkttype rsv) =
          some (m', .freed (recorded items uninit tr nkey).pkt
            (some (retrieve (recorded items uninit tr nkey)))) ∧
        (m'.lockers nkey).state = (if rsv then .rsvd else .free) ∧
        freeKeys m' = if rsv then freeKeys m else freeKeys m ++ [nkey]) := by
  have hinv := runs_keep_inv items uninit es m tr hm h
  refine ⟨hinv.nodup, hinv.mem_iff, fun induce op m' nkey hs hne => step_key hinv hs hne, ?_, ?_⟩
  · intro induce nkey pkttype rsv hr
    simp only [step, free_of_rejected ((rejected_iff hinv induce nkey pkttype).2 hr)]
  · intro induce nkey pkttype rsv h1 h2 hi hout hty
    have hacc : rejected induce m nkey pkttype = false := by
      rw [← Bool.not_eq_true, rejected_iff hinv]
      rintro (h0 | hgt | hi' | hout' | hty')
      · unfold pktidInvalid at h0; omega
      · omega
      · exact hi hi'
      · rw [hout] at hout'; cases hout'
      · rw [hty] at hty'; cases hty'
    simp only [step, free_of_accepted hacc, ← hinv.contents nkey h1 h2]
    refine ⟨_, rfl, by simp, ?_⟩
    cases rsv with
    | true => rfl
    | false =>
      have hcells := cells_push m.keys 1 m.avail nkey
      rw [Nat.add_comm 1 m.avail] at hcells
      exact hcells

/-- A packet of 100 bytes at address 7. -/
def packet : Contents := ⟨0, .dataTx, 100, some 5, 7, 8, 9⟩

theorem pktid_map_safe_two :
    ∃ m tr, runs step (init 2 packet) [(.none, .alloc packet)] = some (m, tr) ∧
      ∃ m', step m (.none, .free 2 .dataTx false) =
        some (m', .freed (recorded 2 packet tr 2).pkt
          (some (retrieve (recorded 2 packet tr 2)))) ∧
        (m'.lockers 2).state = .free ∧ freeKeys m' = freeKeys m ++ [2] :=
  ⟨_, _, rfl, (pktid_map_safe 2 packet [(.none, .alloc packet)] _ _ (by decide) rfl).2.2.2.2
    .none 2 .dataTx false (by decide) (by decide) (by decide) (by decide) (by decide)⟩

/-- A length of 65536 comes back as 0; and a save of an id that nobody holds marks its
locker busy while its key stays available. -/
theorem pktid_map_safe_fails :
    (∃ m tr, runs step (init 1 packet)
        [(.none, .alloc { packet with len := 65536 }), (.none, .free 1 .dataTx false)] =
          some (m, tr) ∧
      tr.map Prod.snd = [.key 1, .freed (some 5) (some ⟨7, 0, 8, 9⟩)]) ∧
    (∃ m tr, runs step (init 1 packet) [(.none, .save packet 1)] = some (m, tr) ∧
      freeKeys m = [1] ∧ (m.lockers 1).state = .busy) :=
  ⟨⟨_, _, rfl, by decide⟩, ⟨_, _, rfl, by decide, by decide⟩⟩

end Bcmdhd.PktIdMap
