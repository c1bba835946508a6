import Mathlib.Data.List.Nodup
import Mathlib.Logic.Function.Basic

/-!
# Circular lists, linked both ways

Each cell has a `next` and a `prev`, or `none` for NULL.  `Ring L c` says that the links go round
the cells of `c`, in this order and in the opposite one, and that all other cells have no `next`.

* `Seg.append_iff`, `Seg.congr`: stretches of a ring are joined, and do not depend on other links.
* `Ring.swap`: a ring can be read from each of its cells on.
* `Ring.alone`, `Ring.addTail`, `Ring.unlink`: the pointer writes that begin a ring, put a cell in
  front of its head, and take a cell out; none of them follows NULL.
-/

namespace CircularList

variable {α : Type*}

structure Links (α : Type*) where
  next : α → Option α
  prev : α → Option α

/-- From `a` over `l` to `b`. -/
def Seg (L : Links α) : α → List α → α → Prop
  | a, [], b => L.next a = some b ∧ L.prev b = some a
  | a, x :: l, b => L.next a = some x ∧ L.prev x = some a ∧ Seg L x l b

/-- Once round the cells. -/
def Closed (L : Links α) : List α → Prop
  | [] => True
  | h :: l => Seg L h l h

structure Ring (L : Links α) (c : List α) : Prop where
  closed : Closed L c
  nodup : c.Nodup
  next_ne : ∀ x, L.next x ≠ none ↔ x ∈ c

/-! ## Writes -/

section Writes
variable [DecidableEq α]

def Links.setNext (L : Links α) (x : α) (y : Option α) : Links α :=
  { L with next := Function.update L.next x y }

def Links.setPrev (L : Links α) (x : α) (y : Option α) : Links α :=
  { L with prev := Function.update L.prev x y }

/-- The only cell of its ring. -/
def Links.alone (L : Links α) (e : α) : Links α := (L.setNext e (some e)).setPrev e (some e)

/-- In front of `h`; `none` where NULL is followed. -/
def Links.addTail (L : Links α) (h e : α) : Option (Links α) :=
  match L.prev h with
  | none => none
  | some t =>
    some ((((L.setPrev e (some t)).setNext t (some e)).setPrev h (some e)).setNext e (some h))

/-- Its neighbours are linked with each other. -/
def Links.bypass (L : Links α) (e : α) : Option (Links α) :=
  match L.prev e, L.next e with
  | some p, some n => some ((L.setNext p (some n)).setPrev n (some p))
  | _, _ => none

def Links.clear (L : Links α) (e : α) : Links α := (L.setNext e none).setPrev e none

end Writes

/-! ## Stretches -/

variable {L L' : Links α} {a b e h x : α} {l r c : List α}

theorem Seg.append_iff : Seg L a (l ++ x :: r) b ↔ Seg L a l x ∧ Seg L x r b := by
  induction l generalizing a with
  | nil =>
    constructor
    · rintro ⟨hn, hp, hs⟩
      exact ⟨⟨hn, hp⟩, hs⟩
    · rintro ⟨⟨hn, hp⟩, hs⟩
      exact ⟨hn, hp, hs⟩
  | cons y l ih =>
    constructor
    · rintro ⟨hn, hp, hs⟩
      exact ⟨⟨hn, hp, (ih.mp hs).1⟩, (ih.mp hs).2⟩
    · rintro ⟨⟨hn, hp, hl⟩, hs⟩
      exact ⟨hn, hp, ih.mpr ⟨hl, hs⟩⟩

/-- Only the `next` of the cells before the end matters, and the `prev` of those behind the
beginning. -/
theorem Seg.congr (hs : Seg L a l b) (hnext : ∀ x ∈ a :: l, L'.next x = L.next x)
    (hprev : ∀ x ∈ l ++ [b], L'.prev x = L.prev x) : Seg L' a l b := by
  induction l generalizing a with
  | nil =>
    refine ⟨?_, ?_⟩
    · rw [hnext a List.mem_cons_self]
      exact hs.1
    · rw [hprev b List.mem_cons_self]
      exact hs.2
  | cons x l ih =>
    obtain ⟨hn, hp, hs⟩ := hs
    refine ⟨?_, ?_, ih hs (fun y hy => hnext y (List.mem_cons_of_mem a hy))
      fun y hy => hprev y (List.mem_cons_of_mem x hy)⟩
    · rw [hnext a List.mem_cons_self]
      exact hn
    · rw [hprev x List.mem_cons_self]
      exact hp

theorem Seg.next_eq (hs : Seg L a l b) : L.next a = (l ++ [b]).head? := by
  cases l with
  | nil => exact hs.1
  | cons x l => exact hs.1

/-! ## Rings -/

/-- A ring is read from another cell on. -/
theorem Ring.swap (hr : Ring L (l ++ r)) : Ring L (r ++ l) where
  closed := by
    have hc := hr.closed
    cases l with
    | nil =>
      rw [List.append_nil]
      exact hc
    | cons a l =>
      cases r with
      | nil =>
        rw [List.append_nil] at hc
        exact hc
      | cons b r =>
        have hs := Seg.append_iff.mp hc
        exact Seg.append_iff.mpr ⟨hs.2, hs.1⟩
  nodup := (List.perm_append_comm.nodup_iff).mp hr.nodup
  next_ne y := by rw [hr.next_ne y, List.mem_append, List.mem_append, or_comm]

theorem Ring.next_head (hr : Ring L (h :: l)) : L.next h = (l ++ [h]).head? :=
  Seg.next_eq hr.closed

/-- The cell in front of the head of a ring. -/
theorem Ring.prev_head (hr : Ring L (h :: l)) :
    L.prev h = some ((h :: l).getLast (List.cons_ne_nil h l)) := by
  have hc : Seg L h l h := hr.closed
  rcases List.eq_nil_or_concat l with rfl | ⟨m, t, rfl⟩
  · exact hc.2
  · rw [List.concat_eq_append] at hc ⊢
    rw [(Seg.append_iff.mp hc).2.2]
    simp

/-- What the writes of `addTail` come to. -/
structure Added (L L' : Links α) (h t e : α) : Prop where
  next_last : L'.next t = some e
  next_new : L'.next e = some h
  prev_new : L'.prev e = some t
  prev_head : L'.prev h = some e
  next : ∀ x, x ≠ t → x ≠ e → L'.next x = L.next x
  prev : ∀ x, x ≠ h → x ≠ e → L'.prev x = L.prev x

theorem Added.closed {t : α} (hA : Added L L' h t e) (hc : Seg L h l h) (hnd : (h :: l).Nodup)
    (ht : L.prev h = some t) (he : e ∉ h :: l) : Seg L' h (l ++ [e]) h := by
  rcases List.eq_nil_or_concat l with rfl | ⟨m, u, rfl⟩
  · cases hc.2.symm.trans ht
    exact ⟨hA.next_last, hA.prev_new, hA.next_new, hA.prev_head⟩
  · rw [List.concat_eq_append] at *
    obtain ⟨hm, -, hp⟩ := Seg.append_iff.mp hc
    cases hp.symm.trans ht
    rw [List.append_assoc]
    refine Seg.append_iff.mpr ⟨hm.congr ?_ ?_, hA.next_last, hA.prev_new, hA.next_new, hA.prev_head⟩
    · -- `t` is behind them
      intro x hx
      have hnd' : ((h :: m) ++ [t]).Nodup := hnd
      refine hA.next x ?_ ?_
      · rintro rfl
        exact (List.nodup_append.mp hnd').2.2 x hx x (List.mem_singleton.mpr rfl) rfl
      · rintro rfl
        exact he (List.mem_append_left [t] hx)
    · intro x hx
      refine hA.prev x ?_ ?_
      · rintro rfl
        exact (List.nodup_cons.mp hnd).1 hx
      · rintro rfl
        exact he (List.mem_cons_of_mem h hx)

/-- What the writes that take out `e` come to, between `t` and `x`. -/
structure Taken (L L' : Links α) (t e x : α) : Prop where
  next_out : L'.next e = none
  next_last : L'.next t = some x
  prev_head : L'.prev x = some t
  next : ∀ y, y ≠ t → y ≠ e → L'.next y = L.next y
  prev : ∀ y, y ≠ x → y ≠ e → L'.prev y = L.prev y

theorem Taken.closed {t : α} (hT : Taken L L' t e x) (hc : Seg L e (x :: l) e)
    (hnd : (e :: x :: l).Nodup) (ht : L.prev e = some t) : Seg L' x l x := by
  obtain ⟨hex, hxl⟩ := List.nodup_cons.mp hnd
  rcases List.eq_nil_or_concat l with rfl | ⟨m, u, rfl⟩
  · cases hc.2.2.2.symm.trans ht
    exact ⟨hT.next_last, hT.prev_head⟩
  · rw [List.concat_eq_append] at *
    obtain ⟨hm, -, hp⟩ := Seg.append_iff.mp hc.2.2
    cases hp.symm.trans ht
    refine Seg.append_iff.mpr ⟨hm.congr ?_ ?_, hT.next_last, hT.prev_head⟩
    · intro y hy
      have hnd' : ((x :: m) ++ [t]).Nodup := hxl
      refine hT.next y ?_ ?_
      · rintro rfl
        exact (List.nodup_append.mp hnd').2.2 y hy y (List.mem_singleton.mpr rfl) rfl
      · rintro rfl
        exact hex (List.mem_append_left [t] hy)
    · intro y hy
      refine hT.prev y ?_ ?_
      · rintro rfl
        exact (List.nodup_cons.mp hxl).1 hy
      · rintro rfl
        exact hex (List.mem_cons_of_mem x hy)

section Writes
variable [DecidableEq α]

theorem Ring.alone (hr : Ring L []) (e : α) : Ring (L.alone e) [e] where
  closed := ⟨Function.update_self _ _ _, Function.update_self _ _ _⟩
  nodup := List.nodup_singleton e
  next_ne y := by
    show Function.update L.next e (some e) y ≠ none ↔ _
    by_cases hy : y = e
    · subst hy
      simp
    · rw [Function.update_of_ne hy, hr.next_ne y]
      simp [hy]

theorem added {t : α} (ht : L.prev h = some t) (heh : e ≠ h) (het : e ≠ t) :
    ∃ L', L.addTail h e = some L' ∧ Added L L' h t e := by
  unfold Links.addTail
  rw [ht]
  refine ⟨_, rfl, ?_, ?_, ?_, ?_, ?_, ?_⟩
  · show Function.update (Function.update L.next t (some e)) e (some h) t = _
    rw [Function.update_of_ne het.symm, Function.update_self]
  · exact Function.update_self _ _ _
  · show Function.update (Function.update L.prev e (some t)) h (some e) e = _
    rw [Function.update_of_ne heh, Function.update_self]
  · exact Function.update_self _ _ _
  · intro x hxt hxe
    show Function.update (Function.update L.next t (some e)) e (some h) x = _
    rw [Function.update_of_ne hxe, Function.update_of_ne hxt]
  · intro x hxh hxe
    show Function.update (Function.update L.prev e (some t)) h (some e) x = _
    rw [Function.update_of_ne hxh, Function.update_of_ne hxe]

/-- **A cell is put in front of the head.** -/
theorem Ring.addTail (hr : Ring L (h :: l)) (he : e ∉ h :: l) :
    ∃ L', L.addTail h e = some L' ∧ Ring L' (h :: l ++ [e]) := by
  have hprev := hr.prev_head
  have hlast := List.getLast_mem (List.cons_ne_nil h l)
  generalize (h :: l).getLast (List.cons_ne_nil h l) = t at hprev hlast
  have heh : e ≠ h := fun heq => he (heq ▸ List.mem_cons_self)
  have het : e ≠ t := fun heq => he (heq ▸ hlast)
  obtain ⟨L', hL', hA⟩ := added hprev heh het
  refine ⟨L', hL', hA.closed hr.closed hr.nodup hprev he, ?_, fun x => ?_⟩
  · refine List.nodup_append.mpr ⟨hr.nodup, List.nodup_singleton e, fun x hx y hy => ?_⟩
    rw [List.mem_singleton.mp hy]
    rintro rfl
    exact he hx
  · rw [List.mem_append, List.mem_singleton, ← hr.next_ne x]
    by_cases hxt : x = t
    · subst hxt
      rw [hA.next_last]
      exact iff_of_true (Option.some_ne_none e) (Or.inl ((hr.next_ne x).mpr hlast))
    · by_cases hxe : x = e
      · subst hxe
        rw [hA.next_new]
        exact iff_of_true (Option.some_ne_none h) (Or.inr rfl)
      · rw [hA.next x hxt hxe]
        simp [hxe]

theorem taken {t : α} (ht : L.prev e = some t) (hx : L.next e = some x) (het : e ≠ t)
    (hex : e ≠ x) :
    ∃ L', L.bypass e = some L' ∧ L'.next e = some x ∧ Taken L (L'.clear e) t e x := by
  unfold Links.bypass
  rw [ht, hx]
  refine ⟨_, rfl, ?_, Function.update_self _ _ _, ?_, ?_, ?_, ?_⟩
  · show Function.update L.next t (some x) e = _
    rw [Function.update_of_ne het, hx]
  · show Function.update (Function.update L.next t (some x)) e none t = _
    rw [Function.update_of_ne het.symm, Function.update_self]
  · show Function.update (Function.update L.prev x (some t)) e none x = _
    rw [Function.update_of_ne hex.symm, Function.update_self]
  · intro y hyt hye
    show Function.update (Function.update L.next t (some x)) e none y = _
    rw [Function.update_of_ne hye, Function.update_of_ne hyt]
  · intro y hyx hye
    show Function.update (Function.update L.prev x (some t)) e none y = _
    rw [Function.update_of_ne hye, Function.update_of_ne hyx]

theorem Ring.unlink_head (hr : Ring L (e :: x :: l)) :
    ∃ L', L.bypass e = some L' ∧ L'.next e = some x ∧ Ring (L'.clear e) (x :: l) := by
  have hprev := hr.prev_head
  rw [List.getLast_cons_cons] at hprev
  have hlast := List.getLast_mem (List.cons_ne_nil x l)
  generalize (x :: l).getLast (List.cons_ne_nil x l) = t at hprev hlast
  obtain ⟨he, hnd⟩ := List.nodup_cons.mp hr.nodup
  have het : e ≠ t := fun heq => he (heq ▸ hlast)
  have hex : e ≠ x := fun heq => he (heq ▸ List.mem_cons_self)
  obtain ⟨L', hL', hnext, hT⟩ := taken hprev hr.next_head het hex
  refine ⟨L', hL', hnext, hT.closed hr.closed hr.nodup hprev, hnd, fun y => ?_⟩
  by_cases hye : y = e
  · subst hye
    rw [hT.next_out]
    exact iff_of_false (fun h => h rfl) he
  · by_cases hyt : y = t
    · subst hyt
      rw [hT.next_last]
      exact iff_of_true (Option.some_ne_none x) hlast
    · rw [hT.next y hyt hye, hr.next_ne y, List.mem_cons]
      exact or_iff_right hye

/-- **A cell is taken out** of a ring with others. -/
theorem Ring.unlink (hr : Ring L (l ++ e :: r)) (hne : l ++ r ≠ []) :
    ∃ L', L.bypass e = some L' ∧ L'.next e = (r ++ l).head? ∧ Ring (L'.clear e) (l ++ r) := by
  have hswap := hr.swap
  rw [List.cons_append] at hswap
  cases hc : r ++ l with
  | nil =>
    obtain ⟨rfl, rfl⟩ := List.append_eq_nil_iff.mp hc
    exact absurd rfl hne
  | cons x m =>
    rw [hc] at hswap
    obtain ⟨L', hL', hnext, hout⟩ := hswap.unlink_head
    rw [← hc] at hout
    exact ⟨L', hL', hnext, hout.swap⟩

end Writes

end CircularList
