import Mathlib.Data.List.Nodup
import Mathlib.Logic.Function.Basic

/-!
# Chains of links

`link x` is the successor that a cell `x` stores, or `none`.  `Chain link h l` says that
following the links from `h` visits exactly `l` and ends: such a list is determined by
`h`, and its cells are distinct.

* `Chain.frame`: writing to a cell off the chain does not change it.
* `Chain.concat`, `Chain.insert`, `Chain.unlink`, `Chain.cut`: the pointer writes that append a
  chain, put a cell in, take one out, and drop the last cell.
* `Chain.visits_iff`: what can be reached from the head.
* `walk_spec`, `walk_past`, `walkTo_spec`: loops that follow the links, with enough fuel.
-/

namespace Links

variable {α : Type*}

/-- Following the links from `h` visits `l` and ends. -/
def Chain (link : α → Option α) : Option α → List α → Prop
  | h, [] => h = none
  | h, x :: xs => h = some x ∧ Chain link (link x) xs

/-- Following the links from a cell comes to `y`. -/
inductive Visits (link : α → Option α) : Option α → α → Prop
  | here {y : α} : Visits link (some y) y
  | next {x y : α} : Visits link (link x) y → Visits link (some x) y

instance decidableChain [DecidableEq α] (link : α → Option α) :
    (h : Option α) → (l : List α) → Decidable (Chain link h l)
  | h, [] => inferInstanceAs (Decidable (h = none))
  | h, x :: xs =>
    have := decidableChain link (link x) xs
    inferInstanceAs (Decidable (h = some x ∧ Chain link (link x) xs))

section
variable {link link' : α → Option α} {h h' : Option α} {l l' l₁ l₂ : List α} {x y : α}

theorem Chain.head (hc : Chain link h l) : h = l.head? := by
  cases l with
  | nil => exact hc
  | cons x xs => exact hc.1

theorem Chain.eq_nil_iff (hc : Chain link h l) : h = none ↔ l = [] := by
  rw [hc.head, List.head?_eq_none_iff]

/-- Following the links is deterministic. -/
theorem Chain.unique (hc : Chain link h l) (hc' : Chain link h l') : l = l' := by
  induction l generalizing h l' with
  | nil =>
    rw [show h = none from hc] at hc'
    exact (hc'.eq_nil_iff.1 rfl).symm
  | cons x xs ih =>
    rw [hc.1] at hc'
    cases l' with
    | nil => cases (show some x = none from hc')
    | cons y ys =>
      obtain ⟨heq, hrest⟩ := hc'
      cases heq
      rw [ih hc.2 hrest]

/-- The part of a chain from a cell on. -/
theorem Chain.suffix (hc : Chain link h (l₁ ++ l₂)) : Chain link l₂.head? l₂ := by
  induction l₁ generalizing h with
  | nil =>
    have heq := hc.head
    rw [List.nil_append] at hc heq
    rw [← heq]
    exact hc
  | cons x xs ih => exact ih hc.2

/-- What a cell of the chain stores. -/
theorem Chain.link_eq (hc : Chain link h (l₁ ++ x :: l₂)) : link x = l₂.head? := by
  have hs := hc.suffix
  exact hs.2.head

/-- A chain that ends has no cell twice. -/
theorem Chain.nodup (hc : Chain link h l) : l.Nodup := by
  induction l generalizing h with
  | nil => exact List.nodup_nil
  | cons x xs ih =>
    rw [List.nodup_cons]
    refine ⟨?_, ih hc.2⟩
    intro hx
    obtain ⟨l₁, l₂, rfl⟩ := List.append_of_mem hx
    -- the chain from `x` on would be shorter than itself
    have hs : Chain link (some x) (x :: l₂) := hc.2.suffix
    have hwhole : Chain link (some x) (x :: (l₁ ++ x :: l₂)) := ⟨rfl, hc.2⟩
    have heq := hs.unique hwhole
    have hlen := congrArg List.length heq
    simp only [List.length_cons, List.length_append] at hlen
    omega

theorem Chain.visits_iff (hc : Chain link h l) : Visits link h y ↔ y ∈ l := by
  induction l generalizing h with
  | nil =>
    rw [show h = none from hc]
    exact ⟨nofun, nofun⟩
  | cons x xs ih =>
    rw [hc.1, List.mem_cons, ← ih hc.2]
    constructor
    · rintro (_ | hv)
      · exact .inl rfl
      · exact .inr hv
    · rintro (rfl | hv)
      · exact .here
      · exact .next hv

theorem Chain.congr (hc : Chain link h l) (heq : ∀ x ∈ l, link' x = link x) :
    Chain link' h l := by
  induction l generalizing h with
  | nil => exact hc
  | cons x xs ih =>
    refine ⟨hc.1, ?_⟩
    rw [heq x List.mem_cons_self]
    exact ih hc.2 fun y hy => heq y (List.mem_cons_of_mem x hy)

variable [DecidableEq α]

/-- A write off the chain. -/
theorem Chain.frame (hc : Chain link h l) (hx : x ∉ l) (v : Option α) :
    Chain (Function.update link x v) h l := by
  apply hc.congr
  intro y hy
  apply Function.update_of_ne
  rintro rfl
  exact hx hy

/-- A last cell that is set to the head of another chain. -/
theorem Chain.concat (hc : Chain link h (l₁ ++ [x])) (hc' : Chain link h' l₂)
    (hx : x ∉ l₂) : Chain (Function.update link x h') h (l₁ ++ x :: l₂) := by
  induction l₁ generalizing h with
  | nil =>
    refine ⟨hc.1, ?_⟩
    rw [Function.update_self]
    exact hc'.frame hx h'
  | cons y ys ih =>
    have hne : y ≠ x := by
      rintro rfl
      have hnd := hc.nodup
      rw [List.cons_append, List.nodup_cons] at hnd
      exact hnd.1 (List.mem_append_right _ List.mem_cons_self)
    refine ⟨hc.1, ?_⟩
    rw [Function.update_of_ne hne]
    exact ih hc.2

/-- A cell that is set to the successor of its successor. -/
theorem Chain.unlink (hc : Chain link h (l₁ ++ x :: y :: l₂)) :
    Chain (Function.update link x (link y)) h (l₁ ++ x :: l₂) := by
  have hnd := hc.nodup
  have hx : x ∉ l₂ := by
    have hs := hnd.of_append_right
    rw [List.nodup_cons] at hs
    exact fun hm => hs.1 (List.mem_cons_of_mem y hm)
  have hl : Chain link (link y) l₂ := by
    have hs : Chain link (some x) (x :: y :: l₂) := hc.suffix
    exact hs.2.2
  induction l₁ generalizing h with
  | nil =>
    refine ⟨hc.1, ?_⟩
    rw [Function.update_self]
    exact hl.frame hx _
  | cons z zs ih =>
    have hne : z ≠ x := by
      rintro rfl
      rw [List.cons_append, List.nodup_cons] at hnd
      exact hnd.1 (List.mem_append_right _ List.mem_cons_self)
    refine ⟨hc.1, ?_⟩
    rw [Function.update_of_ne hne]
    exact ih hc.2 (List.nodup_cons.1 hnd).2

/-- A cell that is put behind another one. -/
theorem Chain.insert (hc : Chain link h (l₁ ++ x :: l₂)) (hy : y ∉ l₁ ++ x :: l₂) :
    Chain (Function.update (Function.update link y (link x)) x (some y)) h
      (l₁ ++ x :: y :: l₂) := by
  have hnd := hc.nodup
  induction l₁ generalizing h with
  | nil =>
    rw [List.nil_append] at hc hy hnd
    rw [List.mem_cons, not_or] at hy
    refine ⟨hc.1, ?_⟩
    rw [Function.update_self]
    refine ⟨rfl, ?_⟩
    rw [Function.update_of_ne hy.1, Function.update_self]
    exact (hc.2.frame hy.2 _).frame (List.nodup_cons.1 hnd).1 _
  | cons z zs ih =>
    rw [List.cons_append] at hnd hy
    rw [List.mem_cons, not_or] at hy
    have hne : z ≠ x := by
      rintro rfl
      exact (List.nodup_cons.1 hnd).1 (List.mem_append_right _ List.mem_cons_self)
    refine ⟨hc.1, ?_⟩
    rw [Function.update_of_ne hne, Function.update_of_ne (Ne.symm hy.1)]
    exact ih hc.2 hy.2 (List.nodup_cons.1 hnd).2

/-- A cell that becomes the last one. -/
theorem Chain.cut (hc : Chain link h (l₁ ++ x :: l₂)) :
    Chain (Function.update link x none) h (l₁ ++ [x]) := by
  have hnd := hc.nodup
  induction l₁ generalizing h with
  | nil =>
    refine ⟨hc.1, ?_⟩
    rw [Function.update_self]
    rfl
  | cons z zs ih =>
    have hne : z ≠ x := by
      rintro rfl
      rw [List.cons_append, List.nodup_cons] at hnd
      exact hnd.1 (List.mem_append_right _ List.mem_cons_self)
    refine ⟨hc.1, ?_⟩
    rw [Function.update_of_ne hne]
    exact ih hc.2 (List.nodup_cons.1 hnd).2

end

/-! ## Loops -/

/-- The cells visited from `p` on. -/
def visit (link : α → Option α) : Nat → Option α → List α
  | 0, _ => []
  | _ + 1, none => []
  | fuel + 1, some x => x :: visit link fuel (link x)

variable {link : α → Option α} {l : List α} {fuel : Nat}

theorem visit_eq {h : Option α} (hc : Chain link h l) (hf : l.length < fuel) :
    visit link fuel h = l := by
  induction l generalizing h fuel with
  | nil =>
    rw [show h = none from hc]
    cases fuel with
    | zero => rfl
    | succ n => rfl
  | cons x xs ih =>
    rw [hc.1]
    cases fuel with
    | zero => cases hf
    | succ n =>
      show x :: visit link n (link x) = x :: xs
      rw [ih hc.2 (by simpa using hf)]

/-- `while (p && !stop(p)) { prev = p; p = link(p); }` -/
def walk (link : α → Option α) (stop : α → Bool) :
    Nat → Option α → Option α → Option (Option α × Option α)
  | 0, _, _ => none
  | _ + 1, prev, none => some (prev, none)
  | fuel + 1, prev, some x =>
    if stop x then some (prev, some x) else walk link stop fuel (some x) (link x)

/-- The walk ends at the first cell it is to stop at, or past the end. -/
theorem walk_spec (stop : α → Bool) {h : Option α} (hc : Chain link h l) (hf : l.length < fuel)
    (prev : Option α) :
    ((∀ x ∈ l, stop x = false) ∧ ∃ last, walk link stop fuel prev h = some (last, none)) ∨
    ∃ l₁ x l₂, l = l₁ ++ x :: l₂ ∧ (∀ y ∈ l₁, stop y = false) ∧ stop x = true ∧
      walk link stop fuel prev h = some (l₁.getLast?.or prev, some x) := by
  induction l generalizing h fuel prev with
  | nil =>
    rw [show h = none from hc]
    cases fuel with
    | zero => cases hf
    | succ n => exact .inl ⟨nofun, prev, rfl⟩
  | cons x xs ih =>
    rw [hc.1]
    cases fuel with
    | zero => cases hf
    | succ n =>
      by_cases hs : stop x = true
      · refine .inr ⟨[], x, xs, rfl, nofun, hs, ?_⟩
        simp [walk, hs]
      · have hstep : walk link stop (n + 1) prev (some x) = walk link stop n (some x) (link x) := by
          simp [walk, hs]
        have hsf : stop x = false := by simpa using hs
        rw [hstep]
        rcases ih hc.2 (by simpa using hf) (some x) with ⟨hno, last, hw⟩ | ⟨l₁, y, l₂, rfl, hno, hy, hw⟩
        · refine .inl ⟨?_, last, hw⟩
          intro y hy
          rcases List.mem_cons.1 hy with rfl | hy
          · exact hsf
          · exact hno y hy
        · refine .inr ⟨x :: l₁, y, l₂, rfl, ?_, hy, ?_⟩
          · intro z hz
            rcases List.mem_cons.1 hz with rfl | hz
            · exact hsf
            · exact hno z hz
          · rw [hw, List.getLast?_cons]
            cases l₁.getLast? with
            | none => rfl
            | some z => rfl

/-- A walk that is not to stop comes to the end. -/
theorem walk_past {stop : α → Bool} {h : Option α} (hc : Chain link h l) (hf : l.length < fuel)
    (hno : ∀ x ∈ l, stop x = false) (prev : Option α) :
    walk link stop fuel prev h = some (l.getLast?.or prev, none) := by
  induction l generalizing h fuel prev with
  | nil =>
    rw [show h = none from hc]
    cases fuel with
    | zero => cases hf
    | succ n => rfl
  | cons x xs ih =>
    rw [hc.1]
    cases fuel with
    | zero => cases hf
    | succ n =>
      have hx := hno x List.mem_cons_self
      unfold walk
      rw [hx, if_neg Bool.false_ne_true, ih hc.2 (by simpa using hf)
        (fun y hy => hno y (List.mem_cons_of_mem x hy)), List.getLast?_cons]
      cases xs.getLast? with
      | none => rfl
      | some z => rfl

/-- `for (; p != tail; p = link(p)) prev = p;`, or `none` when the end is run past. -/
def walkTo [DecidableEq α] (link : α → Option α) (tail : Option α) :
    Nat → Option α → Option α → Option (Option α × Option α)
  | 0, _, _ => none
  | fuel + 1, prev, p =>
    if p = tail then some (prev, p)
    else
      match p with
      | none => none
      | some x => walkTo link tail fuel (some x) (link x)

theorem walkTo_spec [DecidableEq α] {h : Option α} {t : α} (hc : Chain link h (l ++ [t]))
    (hf : l.length < fuel) (prev : Option α) :
    walkTo link (some t) fuel prev h = some (l.getLast?.or prev, some t) := by
  induction l generalizing h fuel prev with
  | nil =>
    rw [show h = some t from hc.1]
    cases fuel with
    | zero => cases hf
    | succ n => simp [walkTo]
  | cons x xs ih =>
    rw [hc.1]
    have hne : x ≠ t := by
      rintro rfl
      have hnd := hc.nodup
      rw [List.cons_append, List.nodup_cons] at hnd
      exact hnd.1 (List.mem_append_right _ List.mem_cons_self)
    cases fuel with
    | zero => cases hf
    | succ n =>
      have hstep : walkTo link (some t) (n + 1) prev (some x) =
          walkTo link (some t) n (some x) (link x) := by
        simp [walkTo, hne]
      rw [hstep, ih hc.2 (by simpa using hf) (some x), List.getLast?_cons]
      cases xs.getLast? with
      | none => rfl
      | some z => rfl

end Links
