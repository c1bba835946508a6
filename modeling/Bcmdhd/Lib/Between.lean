import Mathlib.Data.List.Basic
import Mathlib.Data.List.Induction

/-!
# What comes between two events of a trace

`Pending a sep l` says that an `a` has occurred in `l` with no `sep` since, and
`Separated a b sep l` that between an `a` and a `b` behind it there always is a `sep`.

    Pending   of  l ++ [e]   ↔   a e  ∨  Pending of l  ∧  ¬ sep e                  (pending_concat)
    Separated of  l ++ [e]   ↔   Separated of l  ∧  (b e → ¬ Pending of l)       (separated_concat)

So a component whose state tells when an `a` is pending, and that does no `b` then, separates them.
-/

namespace Between

variable {ε : Type*} {a b sep : ε → Prop}

def Pending (a sep : ε → Prop) (l : List ε) : Prop :=
  ∃ l₁ x l₂, l = l₁ ++ x :: l₂ ∧ a x ∧ ∀ z ∈ l₂, ¬ sep z

def Separated (a b sep : ε → Prop) (l : List ε) : Prop :=
  ∀ l₁ x l₂ y l₃, l = l₁ ++ x :: (l₂ ++ y :: l₃) → a x → b y → ∃ z ∈ l₂, sep z

theorem not_pending_nil : ¬ Pending a sep ([] : List ε) := by
  rintro ⟨l₁, x, l₂, h, _⟩
  exact List.cons_ne_nil x l₂ (List.append_eq_nil_iff.mp h.symm).2

theorem pending_concat {l : List ε} {e : ε} :
    Pending a sep (l ++ [e]) ↔ a e ∨ Pending a sep l ∧ ¬ sep e := by
  constructor
  · rintro ⟨l₁, x, l₂, h, hx, hz⟩
    rcases List.eq_nil_or_concat' l₂ with rfl | ⟨l₂, y, rfl⟩
    · obtain ⟨_, rfl⟩ := List.append_singleton_inj.mp h
      exact Or.inl hx
    · rw [← List.cons_append, ← List.append_assoc] at h
      obtain ⟨rfl, rfl⟩ := List.append_singleton_inj.mp h
      refine Or.inr ⟨⟨l₁, x, l₂, rfl, hx, fun z hm => hz z (List.mem_append_left _ hm)⟩, ?_⟩
      exact hz e (List.mem_append_right _ List.mem_cons_self)
  · rintro (ha | ⟨⟨l₁, x, l₂, rfl, hx, hz⟩, hs⟩)
    · exact ⟨l, e, [], rfl, ha, nofun⟩
    · refine ⟨l₁, x, l₂ ++ [e], by rw [List.append_assoc, List.cons_append], hx, fun z hm => ?_⟩
      rcases List.mem_append.mp hm with hm | hm
      · exact hz z hm
      · rw [List.mem_singleton.mp hm]
        exact hs

/-- What is pending behind some more events. -/
theorem pending_append {l m : List ε} (h : Pending a sep (l ++ m)) :
    (∃ x ∈ m, a x) ∨ Pending a sep l ∧ ∀ z ∈ m, ¬ sep z := by
  induction m using List.reverseRecOn with
  | nil => exact Or.inr ⟨by rwa [List.append_nil] at h, nofun⟩
  | append_singleton m e ih =>
    rw [← List.append_assoc, pending_concat] at h
    rcases h with ha | ⟨hp, hs⟩
    · exact Or.inl ⟨e, List.mem_append_right _ List.mem_cons_self, ha⟩
    · rcases ih hp with ⟨x, hx, ha⟩ | ⟨hp, hz⟩
      · exact Or.inl ⟨x, List.mem_append_left _ hx, ha⟩
      · refine Or.inr ⟨hp, fun z hm => ?_⟩
        rcases List.mem_append.mp hm with hm | hm
        · exact hz z hm
        · rw [List.mem_singleton.mp hm]
          exact hs

theorem separated_nil : Separated a b sep ([] : List ε) := by
  intro l₁ x l₂ y l₃ h
  exact absurd (List.append_eq_nil_iff.mp h.symm).2 (List.cons_ne_nil _ _)

theorem separated_concat {l : List ε} {e : ε} :
    Separated a b sep (l ++ [e]) ↔ Separated a b sep l ∧ (b e → ¬ Pending a sep l) := by
  constructor
  · intro h
    refine ⟨fun l₁ x l₂ y l₃ hl hx hy => ?_, ?_⟩
    · refine h l₁ x l₂ y (l₃ ++ [e]) ?_ hx hy
      rw [hl]
      simp
    · rintro hb ⟨l₁, x, l₂, rfl, hx, hz⟩
      obtain ⟨z, hm, hs⟩ := h l₁ x l₂ e [] (by simp) hx hb
      exact hz z hm hs
  · rintro ⟨h, hp⟩ l₁ x l₂ y l₃ hl hx hy
    rcases List.eq_nil_or_concat' l₃ with rfl | ⟨l₃, w, rfl⟩
    · have hl' : l ++ [e] = (l₁ ++ x :: l₂) ++ [y] := by simp [hl]
      obtain ⟨rfl, rfl⟩ := List.append_singleton_inj.mp hl'
      by_contra hn
      exact hp hy ⟨l₁, x, l₂, rfl, hx, fun z hm hs => hn ⟨z, hm, hs⟩⟩
    · have hl' : l ++ [e] = (l₁ ++ x :: (l₂ ++ y :: l₃)) ++ [w] := by simp [hl]
      obtain ⟨rfl, rfl⟩ := List.append_singleton_inj.mp hl'
      exact h l₁ x l₂ y l₃ rfl hx hy

theorem Separated.append {l m : List ε} (h : Separated a b sep l) (hm : ∀ y ∈ m, ¬ b y) :
    Separated a b sep (l ++ m) := by
  induction m using List.reverseRecOn with
  | nil => rwa [List.append_nil]
  | append_singleton m e ih =>
    rw [← List.append_assoc, separated_concat]
    refine ⟨ih fun y hy => hm y (List.mem_append_left _ hy), fun hb => ?_⟩
    exact absurd hb (hm e (List.mem_append_right _ List.mem_cons_self))

end Between
