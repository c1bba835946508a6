import Bcmdhd.Wlfc.Places

/-!
# Search for a slot of the hanger (`_dhd_wlfc_hanger_get_free_slot`)

The search starts at the slot after the one given out last, and goes on until it is back at that
one, which it leaves out.

    a free slot is found, and WLFC_HANGER_MAXITEMS says that there is none
      ↔  no slot is free, or the nearest free one that is not `slotPos` has a number that can be
         told                                                                   (complete_iff)
-/

namespace Bcmdhd.Wlfc

/-! ## Algorithm -/

/-- `wlfc_hanger_t`: what the search uses of it. -/
structure Hanger where
  maxItems : Nat
  slotPos : Fin maxItems
  failedSlotfind : Nat
  items : Fin maxItems → ItemState

/-- `WLFC_HANGER_MAXITEMS` -/
def hangerMaxitems : Nat := 3072

section Scan

variable {n : Nat}

def nextItem (i : Fin n) : Fin n := if hi : i.val + 1 < n then ⟨i.val + 1, hi⟩ else ⟨0, i.pos⟩

/-- The loop: the item it stops at, or that there is none; nothing if it does not end. -/
def scan (items : Fin n → ItemState) (slotPos : Fin n) : Nat → Fin n → Option (Option (Fin n))
  | 0, _ => none
  | fuel + 1, i =>
    if i = slotPos then some none
    else if items i = .free then some (some i)
    else scan items slotPos fuel (nextItem i)

/-- How far the search from `slotPos` gets before it looks at `i`. -/
def ahead (slotPos i : Fin n) : Nat := (i.val + (n - slotPos.val)) % n

end Scan

namespace Hanger

variable (h : Hanger)

/-- The hanger, and what is returned: a `uint16`. -/
def report : Option (Fin h.maxItems) → Hanger × Nat
  | some i => ({ h with slotPos := i }, i.val % 2 ^ 16)
  | none => ({ h with failedSlotfind := h.failedSlotfind + 1 }, hangerMaxitems)

def getFreeSlot (fuel : Nat) : Option (Hanger × Nat) :=
  (scan h.items h.slotPos fuel (nextItem h.slotPos)).map h.report

/-! ## What is asked of the search -/

/-- `r` is the number of a free item. -/
def FreeAt (r : Nat) : Prop := ∃ hr : r < h.maxItems, h.items ⟨r, hr⟩ = .free

/-- The search ends; it returns the number of a free item whenever there is one, and
`WLFC_HANGER_MAXITEMS` just when there is none. -/
def Complete : Prop :=
  ∃ h' r, (∀ fuel, h.maxItems ≤ fuel → h.getFreeSlot fuel = some (h', r)) ∧
    ((∃ i, h.items i = .free) → h.FreeAt r) ∧
    (r = hangerMaxitems ↔ ∀ i, h.items i ≠ .free)

/-- The first free item from `slotPos` on, `slotPos` itself left out. -/
structure Nearest (i : Fin h.maxItems) : Prop where
  ne : i ≠ h.slotPos
  free : h.items i = .free
  first : ∀ j, j ≠ h.slotPos → h.items j = .free → ahead h.slotPos i ≤ ahead h.slotPos j

/-- As a `uint16` its number is still that of a free item, and not `WLFC_HANGER_MAXITEMS`. -/
def Told (i : Fin h.maxItems) : Prop :=
  h.FreeAt (i.val % 2 ^ 16) ∧ i.val % 2 ^ 16 ≠ hangerMaxitems

end Hanger

/-! ## Positions of the search -/

section Positions

variable {n : Nat} (p : Fin n)

/-- Item that is looked at after `k` steps from `p`. -/
def after (k : Nat) : Fin n := ⟨(p.val + k) % n, Nat.mod_lt _ p.pos⟩

theorem nextItem_val (i : Fin n) : (nextItem i).val = (i.val + 1) % n := by
  unfold nextItem
  by_cases hi : i.val + 1 < n
  · rw [dif_pos hi, Nat.mod_eq_of_lt hi]
  · have hend : i.val + 1 = n := by omega
    rw [dif_neg hi, hend, Nat.mod_self]

theorem nextItem_after (k : Nat) : nextItem (after p k) = after p (k + 1) := by
  apply Fin.ext
  rw [nextItem_val]
  show ((p.val + k) % n + 1) % n = (p.val + (k + 1)) % n
  rw [Nat.mod_add_mod, Nat.add_assoc]

theorem after_zero : after p 0 = p := Fin.ext (Nat.mod_eq_of_lt p.isLt)

theorem after_one : after p 1 = nextItem p := by
  rw [← nextItem_after, after_zero]

theorem after_all : after p n = p := by
  apply Fin.ext
  show (p.val + n) % n = p.val
  rw [Nat.add_mod_right, Nat.mod_eq_of_lt p.isLt]

theorem ahead_lt (i : Fin n) : ahead p i < n := Nat.mod_lt _ i.pos

theorem after_ahead (i : Fin n) : after p (ahead p i) = i := by
  apply Fin.ext
  show (p.val + (i.val + (n - p.val)) % n) % n = i.val
  have hp := p.isLt
  rw [Nat.add_mod_mod, show p.val + (i.val + (n - p.val)) = i.val + n by omega,
    Nat.add_mod_right, Nat.mod_eq_of_lt i.isLt]

theorem ahead_after {k : Nat} (hk : k < n) : ahead p (after p k) = k := by
  show ((p.val + k) % n + (n - p.val)) % n = k
  have hp := p.isLt
  rw [Nat.mod_add_mod, show p.val + k + (n - p.val) = k + n by omega, Nat.add_mod_right,
    Nat.mod_eq_of_lt hk]

theorem ahead_eq_zero {i : Fin n} : ahead p i = 0 ↔ i = p := by
  constructor
  · intro h0
    rw [← after_ahead p i, h0, after_zero]
  · rintro rfl
    have h0 := ahead_after i i.pos
    rwa [after_zero] at h0

theorem ahead_inj {i j : Fin n} (hij : ahead p i = ahead p j) : i = j := by
  rw [← after_ahead p i, hij, after_ahead]

theorem after_ne {k : Nat} (h1 : 1 ≤ k) (hk : k < n) : after p k ≠ p := by
  intro he
  have h0 := (ahead_eq_zero p).mpr he
  rw [ahead_after p hk] at h0
  omega

end Positions

namespace Hanger

variable {h : Hanger}

/-! ## The loop -/

/-- Nothing free before step `k`, and an end within `fuel`: the rest of the loop. -/
theorem scan_after (fuel : Nat) {k : Nat} (h1 : 1 ≤ k) (hk : k ≤ h.maxItems)
    (hfuel : h.maxItems - k < fuel)
    (hbusy : ∀ j, j ≠ h.slotPos → ahead h.slotPos j < k → h.items j ≠ .free) :
    (∃ i, h.Nearest i ∧ scan h.items h.slotPos fuel (after h.slotPos k) = some (some i)) ∨
      (∀ j, j ≠ h.slotPos → h.items j ≠ .free) ∧
        scan h.items h.slotPos fuel (after h.slotPos k) = some none := by
  induction fuel generalizing k with
  | zero => omega
  | succ fuel ih =>
    unfold scan
    by_cases hend : k = h.maxItems
    · right
      subst hend
      rw [if_pos (after_all h.slotPos)]
      exact ⟨fun j hj => hbusy j hj (ahead_lt h.slotPos j), rfl⟩
    · have hlt : k < h.maxItems := by omega
      have hne := after_ne h.slotPos h1 hlt
      rw [if_neg hne]
      by_cases hfree : h.items (after h.slotPos k) = .free
      · left
        rw [if_pos hfree]
        refine ⟨after h.slotPos k, ⟨hne, hfree, fun j hj hfj => ?_⟩, rfl⟩
        rw [ahead_after h.slotPos hlt]
        by_contra hlt'
        exact hbusy j hj (by omega) hfj
      · rw [if_neg hfree, nextItem_after]
        refine ih (by omega) (by omega) (by omega) fun j hj hjk => ?_
        by_cases hjk' : ahead h.slotPos j < k
        · exact hbusy j hj hjk'
        · have he : j = after h.slotPos k :=
            ahead_inj h.slotPos (by rw [ahead_after h.slotPos hlt]; omega)
          rw [he]
          exact hfree

theorem scan_ends (fuel : Nat) (hfuel : h.maxItems ≤ fuel) :
    (∃ i, h.Nearest i ∧ scan h.items h.slotPos fuel (nextItem h.slotPos) = some (some i)) ∨
      (∀ j, j ≠ h.slotPos → h.items j ≠ .free) ∧
        scan h.items h.slotPos fuel (nextItem h.slotPos) = some none := by
  have hpos := h.slotPos.pos
  rw [← after_one]
  refine scan_after fuel (by omega) hpos (by omega) fun j hj hj1 => ?_
  have h0 : ahead h.slotPos j = 0 := by omega
  exact absurd ((ahead_eq_zero h.slotPos).mp h0) hj

theorem Nearest.unique {i j : Fin h.maxItems} (hi : h.Nearest i) (hj : h.Nearest j) : i = j := by
  have h1 := hi.first j hj.ne hj.free
  have h2 := hj.first i hi.ne hi.free
  exact ahead_inj h.slotPos (by omega)

theorem getFreeSlot_nearest {i : Fin h.maxItems} (hi : h.Nearest i) {fuel : Nat}
    (hfuel : h.maxItems ≤ fuel) : h.getFreeSlot fuel = some (h.report (some i)) := by
  unfold getFreeSlot
  rcases scan_ends fuel hfuel with ⟨j, hj, hs⟩ | ⟨hbusy, _⟩
  · rw [hs, hj.unique hi]
    rfl
  · exact absurd hi.free (hbusy i hi.ne)

/-- Item `slotPos` may be free all the same. -/
theorem getFreeSlot_none (hbusy : ∀ j, j ≠ h.slotPos → h.items j ≠ .free) {fuel : Nat}
    (hfuel : h.maxItems ≤ fuel) : h.getFreeSlot fuel = some (h.report none) := by
  unfold getFreeSlot
  rcases scan_ends fuel hfuel with ⟨i, hi, _⟩ | ⟨_, hs⟩
  · exact absurd hi.free (hbusy i hi.ne)
  · rw [hs]
    rfl

theorem nearest_or : (∃ i, h.Nearest i) ∨ ∀ j, j ≠ h.slotPos → h.items j ≠ .free := by
  rcases scan_ends h.maxItems (Nat.le_refl _) with ⟨i, hi, _⟩ | ⟨hbusy, _⟩
  · exact .inl ⟨i, hi⟩
  · exact .inr hbusy

/-! ## When the search is complete -/

theorem complete_nearest {i : Fin h.maxItems} (hi : h.Nearest i) : h.Complete ↔ h.Told i := by
  have hrun : ∀ fuel, h.maxItems ≤ fuel → h.getFreeSlot fuel = some (h.report (some i)) :=
    fun _ => getFreeSlot_nearest hi
  have hex : ∃ i, h.items i = .free := ⟨i, hi.free⟩
  constructor
  · rintro ⟨h', r, hr, hfree, hmax⟩
    have he := (hr _ (Nat.le_refl _)).symm.trans (hrun _ (Nat.le_refl _))
    have hri : r = i.val % 2 ^ 16 := congrArg Prod.snd (Option.some.inj he)
    subst hri
    exact ⟨hfree hex, fun hm => hmax.mp hm i hi.free⟩
  · rintro ⟨hfree, hne⟩
    exact ⟨_, _, hrun, fun _ => hfree, iff_of_false hne fun hno => hno i hi.free⟩

theorem complete_busy (hbusy : ∀ j, j ≠ h.slotPos → h.items j ≠ .free) :
    h.Complete ↔ ∀ i, h.items i ≠ .free := by
  have hrun : ∀ fuel, h.maxItems ≤ fuel → h.getFreeSlot fuel = some (h.report none) :=
    fun _ => getFreeSlot_none hbusy
  constructor
  · rintro ⟨h', r, hr, -, hmax⟩
    have he := (hr _ (Nat.le_refl _)).symm.trans (hrun _ (Nat.le_refl _))
    exact hmax.mp (congrArg Prod.snd (Option.some.inj he))
  · intro hno
    exact ⟨_, _, hrun, fun ⟨i, hi⟩ => absurd hi (hno i), iff_of_true rfl hno⟩

/-- **The search is complete just when no item is free, or one other than `slotPos` is and the
nearest of these has a number that can be told.** -/
theorem complete_iff (h : Hanger) :
    h.Complete ↔ (∀ i, h.items i ≠ .free) ∨ ∃ i, h.Nearest i ∧ h.Told i := by
  rcases nearest_or (h := h) with ⟨i, hi⟩ | hbusy
  · rw [complete_nearest hi]
    constructor
    · exact fun ht => .inr ⟨i, hi, ht⟩
    · rintro (hno | ⟨j, hj, ht⟩)
      · exact absurd hi.free (hno i)
      · rwa [hi.unique hj]
  · rw [complete_busy hbusy]
    constructor
    · exact .inl
    · rintro (hno | ⟨j, hj, _⟩)
      · exact hno
      · exact absurd hj.free (hbusy j hj.ne)

/-- Every slot was given out, the last one is 0, and 0 has been returned since. -/
def onlyLastFree : Hanger where
  maxItems := 3072
  slotPos := ⟨0, by decide⟩
  failedSlotfind := 0
  items := fun i => if i.val = 0 then .free else .inuse

theorem onlyLastFree_not_complete : 2 ≤ onlyLastFree.maxItems ∧ ¬ onlyLastFree.Complete := by
  refine ⟨by decide, fun hc => ?_⟩
  have hbusy : ∀ j, j ≠ onlyLastFree.slotPos → onlyLastFree.items j ≠ .free := by
    intro j hj
    have hne : j.val ≠ 0 := fun h0 => hj (Fin.ext h0)
    show (if j.val = 0 then ItemState.free else .inuse) ≠ .free
    rw [if_neg hne]
    nofun
  exact (complete_busy hbusy).mp hc onlyLastFree.slotPos rfl

end Hanger

/-! ## The hanger of the driver -/

/-- The hanger in `wlfc_state`, with what its search uses. -/
def State.theHanger (s : State) (failedSlotfind : Nat) : Hanger where
  maxItems := 3072
  slotPos := s.slotPos
  failedSlotfind := failedSlotfind
  items := fun i => (s.hanger i).state

theorem nextItem_slot (i : Slot) : nextItem i = i + 1 := by
  apply Fin.ext
  rw [nextItem_val, Fin.val_add]
  rfl

/-- The search from step `k` on, in a hanger and in the states of the model. -/
theorem scan_eq_freeSlotFrom (s : State) (m : Nat) {k : Nat} (h1 : 1 ≤ k) (hk : k + m = 3072) :
    scan (fun i => (s.hanger i).state) s.slotPos (m + 1) (after s.slotPos k) =
      some (freeSlotFrom s.hanger m (after s.slotPos k)) := by
  induction m generalizing k with
  | zero =>
    have hend : k = 3072 := hk
    subst hend
    unfold scan freeSlotFrom
    rw [if_pos (after_all s.slotPos)]
  | succ m ih =>
    unfold scan freeSlotFrom
    rw [if_neg (after_ne s.slotPos h1 (by omega))]
    by_cases hfree : (s.hanger (after s.slotPos k)).state = .free
    · rw [if_pos hfree, if_pos hfree]
    · rw [if_neg hfree, if_neg hfree, ← nextItem_slot, nextItem_after]
      exact ih (by omega) (by omega)

/-- What `hangerGetFreeSlot` finds is what the loop finds. -/
theorem getFreeSlot_theHanger (s : State) (n : Nat) :
    (s.theHanger n).getFreeSlot 3072 = some ((s.theHanger n).report (hangerGetFreeSlot s)) := by
  have hscan := scan_eq_freeSlotFrom s 3071 (Nat.le_refl 1) rfl
  rw [after_one] at hscan
  unfold Hanger.getFreeSlot hangerGetFreeSlot
  rw [← nextItem_slot]
  exact congrArg (Option.map (s.theHanger n).report) hscan

end Bcmdhd.Wlfc
