import Bcmdhd.Lib.Links

/-!
# Lines of cells in one memory

Several chains of `Links` share a memory.  `own x` is the place of a cell, and `Line link own p h l`
says that the chain from `h` has exactly the cells of the place `p`.  A cell is in one place
because `own` is a function; a cell that moves is one update of `own`, and the lines of the other
places stand (`Line.frame`).
-/

namespace Links

variable {α κ : Type*}

/-- The chain from `h` is `l`, and has the cells of `p`. -/
structure Line (link : α → Option α) (own : α → κ) (p : κ) (h : Option α) (l : List α) : Prop where
  chain : Chain link h l
  mem : ∀ x, x ∈ l ↔ own x = p

section
variable {link : α → Option α} {own own' : α → κ} {p q : κ} {h : Option α} {l : List α} {x t : α}

/-- The places are renamed. -/
theorem Line.rename (hl : Line link own p h l) (hq : ∀ y, own' y = q ↔ own y = p) :
    Line link own' q h l :=
  ⟨hl.chain, fun y => (hl.mem y).trans (hq y).symm⟩

theorem Line.none (hl : Line link own p none l) : l = [] := hl.chain.eq_nil_iff.mp rfl

theorem line_nil (hp : ∀ y, own y ≠ p) : Line link own p none [] :=
  ⟨rfl, fun y => iff_of_false List.not_mem_nil (hp y)⟩

/-- A line is visited from its head. -/
theorem Line.visits_iff (hl : Line link own p h l) : Visits link h x ↔ own x = p :=
  hl.chain.visits_iff.trans (hl.mem x)

variable [DecidableEq α]

/-- A write to a cell of another place. -/
theorem Line.frame_link (hl : Line link own p h l) (hx : own x ≠ p) (v : Option α) :
    Line (Function.update link x v) own p h l :=
  ⟨hl.chain.frame (fun hm => hx ((hl.mem x).mp hm)) v, hl.mem⟩

/-- A cell moves between two other places. -/
theorem Line.frame_own (hl : Line link own p h l) (hx : own x ≠ p) (hq : q ≠ p) :
    Line link (Function.update own x q) p h l := by
  refine hl.rename fun y => ?_
  by_cases hy : y = x
  · subst hy
    rw [Function.update_self]
    exact iff_of_false hq hx
  · rw [Function.update_of_ne hy]

theorem Line.frame (hl : Line link own p h l) (hx : own x ≠ p) (hq : q ≠ p) (v : Option α) :
    Line (Function.update link x v) (Function.update own x q) p h l := by
  refine (hl.frame_own hx hq).frame_link ?_ v
  rw [Function.update_self]
  exact hq

theorem Line.pop (hl : Line link own p (some x) l) (hq : q ≠ p) (v : Option α) :
    ∃ l', l = x :: l' ∧ Line (Function.update link x v) (Function.update own x q) p (link x) l' := by
  obtain ⟨hc, hm⟩ := hl
  cases l with
  | nil => cases hc
  | cons y l =>
    have hnd := hc.nodup
    obtain ⟨heq, hc⟩ := hc
    cases heq
    rw [List.nodup_cons] at hnd
    refine ⟨l, rfl, hc.frame hnd.1 v, fun z => ?_⟩
    by_cases hz : z = x
    · subst hz
      rw [Function.update_self]
      exact iff_of_false hnd.1 hq
    · rw [Function.update_of_ne hz, ← hm z, List.mem_cons, or_iff_right hz]

theorem Line.push (hl : Line link own p h l) (hx : own x ≠ p) :
    Line (Function.update link x h) (Function.update own x p) p (some x) (x :: l) := by
  have hxl : x ∉ l := fun hm => hx ((hl.mem x).mp hm)
  refine ⟨⟨rfl, ?_⟩, fun z => ?_⟩
  · rw [Function.update_self]
    exact hl.chain.frame hxl h
  · by_cases hz : z = x
    · subst hz
      rw [Function.update_self]
      exact iff_of_true List.mem_cons_self rfl
    · rw [Function.update_of_ne hz, ← hl.mem z, List.mem_cons, or_iff_right hz]

/-- A cell without successor comes to the end. -/
theorem Line.append (hl : Line link own p h (l ++ [t])) (hx : own x ≠ p) (hn : link x = .none) :
    Line (Function.update link t (some x)) (Function.update own x p) p h (l ++ [t] ++ [x]) := by
  have hxt : x ≠ t := by
    rintro rfl
    exact hx ((hl.mem x).mp (List.mem_append_right _ List.mem_cons_self))
  have hone : Chain link (some x) [x] := ⟨rfl, hn⟩
  have hc := hl.chain.concat hone fun hm => hxt (List.mem_singleton.mp hm).symm
  refine ⟨?_, fun z => ?_⟩
  · rw [List.append_assoc]
    exact hc
  · rw [List.mem_append, hl.mem z, List.mem_singleton]
    by_cases hz : z = x
    · subst hz
      rw [Function.update_self]
      exact iff_of_true (.inr rfl) rfl
    · rw [Function.update_of_ne hz, or_iff_left hz]

end

end Links
