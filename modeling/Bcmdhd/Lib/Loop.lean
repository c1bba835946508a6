import Mathlib.Data.List.Basic

/-!
# Loops that may fault

`loop` makes steps until a state is `done`; a step may fault, and so does a loop without fuel.

    each step makes the measure smaller, and succeeds just when `C` holds of its state →
      the loop ends without a fault  ↔  every state it comes to is done or satisfies `C`
                                                                            (loop_ok_iff)
-/

namespace Loop

universe u

variable {σ ε : Type*} {α β : Type u}

/-- The computation ends without a fault. -/
def Succeeds (x : Except ε α) : Prop := ∃ a, x = .ok a

@[simp] theorem succeeds_ok (a : α) : Succeeds (.ok a : Except ε α) := ⟨a, rfl⟩

@[simp] theorem not_succeeds_error (e : ε) : ¬ Succeeds (.error e : Except ε α) := nofun

theorem ok_bind (a : α) (f : α → Except ε β) : ((.ok a : Except ε α) >>= f) = f a := rfl

theorem bind_eq_ok {x : Except ε α} {f : α → Except ε β} {b : β} :
    x >>= f = .ok b ↔ ∃ a, x = .ok a ∧ f a = .ok b := by
  cases x with
  | error e =>
    constructor
    · nofun
    · rintro ⟨a, h, _⟩
      cases h
  | ok a =>
    constructor
    · exact fun h => ⟨a, rfl, h⟩
    · rintro ⟨a, h, hb⟩
      cases h
      exact hb

theorem succeeds_bind {x : Except ε α} {f : α → Except ε β} :
    Succeeds (x >>= f) ↔ ∃ a, x = .ok a ∧ Succeeds (f a) := by
  constructor
  · rintro ⟨b, hb⟩
    obtain ⟨a, ha, hf⟩ := bind_eq_ok.mp hb
    exact ⟨a, ha, b, hf⟩
  · rintro ⟨a, ha, b, hf⟩
    exact ⟨b, bind_eq_ok.mpr ⟨a, ha, hf⟩⟩

theorem succeeds_bind_of {x : Except ε α} {f : α → Except ε β} {P : Prop}
    (h : ∀ a, x = .ok a → (Succeeds (f a) ↔ P)) : Succeeds (x >>= f) ↔ Succeeds x ∧ P := by
  rw [succeeds_bind]
  constructor
  · rintro ⟨a, rfl, ha⟩
    exact ⟨succeeds_ok a, (h a rfl).mp ha⟩
  · rintro ⟨⟨a, rfl⟩, hp⟩
    exact ⟨a, rfl, (h a rfl).mpr hp⟩

theorem succeeds_bind_pure {x : Except ε α} {f : α → β} :
    Succeeds (x >>= fun a => pure (f a)) ↔ Succeeds x :=
  (succeeds_bind_of fun a _ => iff_of_true (succeeds_ok (f a)) trivial).trans (iff_of_eq (and_true _))

variable (out : ε) (done : σ → Bool) (step : σ → Except ε σ)

def loop : Nat → σ → Except ε σ
  | 0, s => if done s then .ok s else .error out
  | n + 1, s =>
    if done s then .ok s
    else
      match step s with
      | .error e => .error e
      | .ok t => loop n t

/-- The loop comes from one state to the other. -/
inductive Reaches : σ → σ → Prop
  | refl (s : σ) : Reaches s s
  | next {s t u : σ} (hd : done s = false) (hs : step s = .ok t) (h : Reaches t u) : Reaches s u

variable {out done step}

/-- What is kept by a step holds wherever the loop comes to. -/
theorem Reaches.inv {P : σ → Prop}
    (hstep : ∀ s t, P s → done s = false → step s = .ok t → P t) {s t : σ}
    (h : Reaches done step s t) (hs : P s) : P t := by
  induction h with
  | refl s => exact hs
  | next hd hst _ ih => exact ih (hstep _ _ hs hd hst)

theorem Reaches.eq_of_done {s t : σ} (h : Reaches done step s t) (hd : done s = true) : t = s := by
  cases h with
  | refl => rfl
  | next hd' _ _ =>
    rw [hd] at hd'
    cases hd'

/-- **Loop rule.** -/
theorem loop_ok_iff (measure : σ → Nat) (C : σ → Prop) {n : Nat} {s : σ}
    (hdec : ∀ s t, done s = false → step s = .ok t → measure t < measure s)
    (hC : ∀ t, Reaches done step s t → done t = false → (Succeeds (step t) ↔ C t))
    (hn : measure s ≤ n) :
    Succeeds (loop out done step n s) ↔ ∀ t, Reaches done step s t → done t = false → C t := by
  induction n generalizing s with
  | zero =>
    unfold loop
    by_cases hd : done s = true
    · rw [if_pos hd]
      refine ⟨fun _ t ht hdt => ?_, fun _ => succeeds_ok s⟩
      rw [ht.eq_of_done hd, hd] at hdt
      cases hdt
    · have hd' : done s = false := by simpa using hd
      rw [if_neg hd]
      refine ⟨fun h => absurd h (not_succeeds_error out), fun h => ?_⟩
      -- a step would take the measure below zero
      obtain ⟨t, ht⟩ := (hC s (.refl s) hd').mpr (h s (.refl s) hd')
      have := hdec s t hd' ht
      omega
  | succ n ih =>
    unfold loop
    by_cases hd : done s = true
    · rw [if_pos hd]
      refine ⟨fun _ t ht hdt => ?_, fun _ => succeeds_ok s⟩
      rw [ht.eq_of_done hd, hd] at hdt
      cases hdt
    · have hd' : done s = false := by simpa using hd
      rw [if_neg hd]
      cases hs : step s with
      | error e =>
        refine ⟨fun h => absurd h (not_succeeds_error e), fun h => ?_⟩
        obtain ⟨t, ht⟩ := (hC s (.refl s) hd').mpr (h s (.refl s) hd')
        rw [hs] at ht
        cases ht
      | ok t =>
        have hlt := hdec s t hd' hs
        have hrec := ih (s := t) (fun u hu => hC u (.next hd' hs hu)) (by omega)
        refine hrec.trans ⟨fun h u hu hdu => ?_, fun h u hu => h u (.next hd' hs hu)⟩
        cases hu with
        | refl => exact (hC _ (.refl _) hd').mp ⟨t, hs⟩
        | next _ hst hu' =>
          rw [hs] at hst
          cases hst
          exact h u hu' hdu

end Loop
