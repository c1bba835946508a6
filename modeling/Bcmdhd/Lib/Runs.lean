import Mathlib.Data.List.Basic

/-!
# Runs of a step function

A component is a function `step : σ → ε → Option (σ × ρ)`: from a state and a call
it gives the next state and the result of the call, or `none` when the call is not
enabled there.  `runs` performs a list of calls and keeps the trace of calls and
results, oldest first.

* `runs_inv`: a property of state and trace that holds at the start and survives
  every step holds after every run.
* `runs_inv_of_meets`: the same, for runs whose steps all satisfy a condition on
  the state before the step and the call (`meets`).
* `meets_of_prefixes`: when a step against the condition spoils a property, runs that keep the
  property meet the condition.
* `runs_snoc`, `runs_replicate`: runs are extended by a call, and made of one call repeated.
* `Reaches`: some run leads to a state; call after call (`Reaches.snoc`), also with calls that all
  satisfy a condition (`ReachesBy`).
* `runs_simulates`: if every step is matched by a step of another component with the
  same call and result, every run is matched by a run with the same trace.
-/

namespace Runs

variable {σ τ ε ρ : Type*}

/-- The calls `es` in order from `s`: the last state and the trace. -/
def runs (step : σ → ε → Option (σ × ρ)) : σ → List ε → Option (σ × List (ε × ρ))
  | s, [] => some (s, [])
  | s, e :: es =>
    match step s e with
    | none => none
    | some (s', r) =>
      match runs step s' es with
      | none => none
      | some (t, tr) => some (t, (e, r) :: tr)

/-- Every call of the run satisfies `C` in the state it is made in. -/
def meets (step : σ → ε → Option (σ × ρ)) (C : σ → ε → Bool) : σ → List ε → Bool
  | _, [] => true
  | s, e :: es =>
    C s e &&
      match step s e with
      | none => true
      | some (s', _) => meets step C s' es

@[simp] theorem runs_nil (step : σ → ε → Option (σ × ρ)) (s : σ) :
    runs step s [] = some (s, []) := rfl

theorem runs_cons_eq_some (step : σ → ε → Option (σ × ρ)) (s t : σ) (e : ε) (es : List ε)
    (tr : List (ε × ρ)) :
    runs step s (e :: es) = some (t, tr) ↔
      ∃ s' r tr', step s e = some (s', r) ∧ runs step s' es = some (t, tr') ∧
        tr = (e, r) :: tr' := by
  constructor
  · intro h
    unfold runs at h
    split at h
    · cases h
    · next s' r hs =>
      split at h
      · cases h
      · next t' tr' hr =>
        simp only [Option.some.injEq, Prod.mk.injEq] at h
        obtain ⟨rfl, rfl⟩ := h
        exact ⟨s', r, tr', hs, hr, rfl⟩
  · rintro ⟨s', r, tr', hs, hr, rfl⟩
    simp [runs, hs, hr]

theorem runs_calls {step : σ → ε → Option (σ × ρ)} {s t : σ} {es : List ε} {tr : List (ε × ρ)}
    (h : runs step s es = some (t, tr)) : tr.map Prod.fst = es := by
  induction es generalizing s tr with
  | nil =>
    simp only [runs_nil, Option.some.injEq, Prod.mk.injEq] at h
    rw [← h.2]
    rfl
  | cons e es ih =>
    obtain ⟨s', r, tr', -, hr, rfl⟩ := (runs_cons_eq_some _ _ _ _ _ _).1 h
    exact congrArg (e :: ·) (ih hr)

theorem meets_cons (step : σ → ε → Option (σ × ρ)) (C : σ → ε → Bool) (s s' : σ) (e : ε)
    (es : List ε) (r : ρ) (hs : step s e = some (s', r)) :
    meets step C s (e :: es) = true ↔ C s e = true ∧ meets step C s' es = true := by
  simp [meets, hs]

/-- **Invariant rule under a condition.**  `Inv` holds of the state and the trace after
every run whose calls all satisfy `C`. -/
theorem runs_inv_of_meets (step : σ → ε → Option (σ × ρ)) (C : σ → ε → Bool)
    (Inv : σ → List (ε × ρ) → Prop)
    (hstep : ∀ s tr e s' r, Inv s tr → C s e = true → step s e = some (s', r) →
      Inv s' (tr ++ [(e, r)]))
    (s t : σ) (es : List ε) (tr : List (ε × ρ)) (h0 : Inv s [])
    (hm : meets step C s es = true) (h : runs step s es = some (t, tr)) : Inv t tr := by
  -- the trace so far is carried along as `pre`
  have key : ∀ (es : List ε) (s : σ) (pre tr : List (ε × ρ)), Inv s pre →
      meets step C s es = true → runs step s es = some (t, tr) → Inv t (pre ++ tr) := by
    intro es
    induction es with
    | nil =>
      intro s pre tr hi _ h
      simp only [runs_nil, Option.some.injEq, Prod.mk.injEq] at h
      obtain ⟨rfl, rfl⟩ := h
      simpa using hi
    | cons e es ih =>
      intro s pre tr hi hm h
      obtain ⟨s', r, tr', hs, hr, rfl⟩ := (runs_cons_eq_some _ _ _ _ _ _).1 h
      obtain ⟨hc, hm'⟩ := (meets_cons step C s s' e es r hs).1 hm
      have := ih s' (pre ++ [(e, r)]) tr' (hstep s pre e s' r hi hc hs) hm' hr
      simpa using this
  simpa using key es s [] tr h0 hm h

theorem meets_and (step : σ → ε → Option (σ × ρ)) (C D : σ → ε → Bool) (s : σ) (es : List ε)
    (hc : meets step C s es = true) (hd : meets step D s es = true) :
    meets step (fun s e => C s e && D s e) s es = true := by
  induction es generalizing s with
  | nil => rfl
  | cons e es ih =>
    unfold meets at hc hd ⊢
    rw [Bool.and_eq_true] at hc hd
    rw [hc.1, hd.1]
    cases hs : step s e with
    | none => rfl
    | some x =>
      rw [hs] at hc hd
      exact ih x.1 hc.2 hd.2

theorem meets_of_append (step : σ → ε → Option (σ × ρ)) (C : σ → ε → Bool) (s : σ) (es₁ es₂ : List ε)
    (h : meets step C s (es₁ ++ es₂) = true) : meets step C s es₁ = true := by
  induction es₁ generalizing s with
  | nil => rfl
  | cons e es₁ ih =>
    rw [List.cons_append] at h
    unfold meets at h ⊢
    rw [Bool.and_eq_true] at h ⊢
    refine ⟨h.1, ?_⟩
    cases hs : step s e with
    | none => rfl
    | some x =>
      rw [hs] at h
      exact ih x.1 h.2

theorem meets_true (step : σ → ε → Option (σ × ρ)) (s : σ) (es : List ε) :
    meets step (fun _ _ => true) s es = true := by
  induction es generalizing s with
  | nil => rfl
  | cons e es ih =>
    unfold meets
    split
    · rfl
    · simp [ih]

/-- **Invariant rule.**  What holds at the start and survives every step holds after
every run. -/
theorem runs_inv (step : σ → ε → Option (σ × ρ)) (Inv : σ → List (ε × ρ) → Prop)
    (hstep : ∀ s tr e s' r, Inv s tr → step s e = some (s', r) → Inv s' (tr ++ [(e, r)]))
    (s t : σ) (es : List ε) (tr : List (ε × ρ)) (h0 : Inv s [])
    (h : runs step s es = some (t, tr)) : Inv t tr :=
  runs_inv_of_meets step (fun _ _ => true) Inv (fun s tr e s' r hi _ hs => hstep s tr e s' r hi hs)
    s t es tr h0 (meets_true step s es) h

/-- **Converse rule.**  `D` and `C` together keep `Inv`, and a step that breaks `C` spoils `P`: a run
that keeps `D`, and `P` after each of its calls, keeps `C`. -/
theorem meets_of_prefixes (step : σ → ε → Option (σ × ρ)) (D C : σ → ε → Bool)
    (Inv P : σ → List (ε × ρ) → Prop)
    (hstep : ∀ s tr e s' r, Inv s tr → (D s e && C s e) = true → step s e = some (s', r) →
      Inv s' (tr ++ [(e, r)]))
    (hbad : ∀ s tr e s' r, Inv s tr → D s e = true → C s e = false → step s e = some (s', r) →
      ¬ P s' (tr ++ [(e, r)]))
    (s t : σ) (es : List ε) (tr : List (ε × ρ)) (h0 : Inv s []) (hD : meets step D s es = true)
    (h : runs step s es = some (t, tr))
    (hP : ∀ es₁ es₂ t₁ tr₁, es₁ ++ es₂ = es → runs step s es₁ = some (t₁, tr₁) → P t₁ tr₁) :
    meets step C s es = true := by
  -- the trace so far is carried along as `pre`
  have key : ∀ (es : List ε) (s : σ) (pre tr : List (ε × ρ)), Inv s pre →
      meets step D s es = true → runs step s es = some (t, tr) →
      (∀ es₁ es₂ t₁ tr₁, es₁ ++ es₂ = es → runs step s es₁ = some (t₁, tr₁) →
        P t₁ (pre ++ tr₁)) → meets step C s es = true := by
    intro es
    induction es with
    | nil => exact fun _ _ _ _ _ _ _ => rfl
    | cons e es ih =>
      intro s pre tr hi hD h hP
      obtain ⟨s', r, tr', hs, hr, rfl⟩ := (runs_cons_eq_some _ _ _ _ _ _).1 h
      obtain ⟨hd, hD'⟩ := (meets_cons step D s s' e es r hs).1 hD
      cases hc : C s e with
      | false =>
        have hone : runs step s [e] = some (s', [(e, r)]) :=
          (runs_cons_eq_some _ _ _ _ _ _).2 ⟨s', r, [], hs, rfl, rfl⟩
        exact absurd (hP [e] es s' _ rfl hone) (hbad s pre e s' r hi hd hc hs)
      | true =>
        have hi' := hstep s pre e s' r hi (by rw [hd, hc]; rfl) hs
        refine (meets_cons step C s s' e es r hs).2 ⟨hc, ih s' _ tr' hi' hD' hr ?_⟩
        intro es₁ es₂ t₁ tr₁ happ hr₁
        have hcons := hP (e :: es₁) es₂ t₁ ((e, r) :: tr₁) (by rw [← happ]; rfl)
          ((runs_cons_eq_some _ _ _ _ _ _).2 ⟨s', r, tr₁, hs, hr₁, rfl⟩)
        simpa using hcons
  exact key es s [] tr h0 hD h hP

theorem runs_snoc (step : σ → ε → Option (σ × ρ)) {s t t' : σ} {e : ε} {r : ρ} {es : List ε}
    {tr : List (ε × ρ)} (h : runs step s es = some (t, tr)) (hs : step t e = some (t', r)) :
    runs step s (es ++ [e]) = some (t', tr ++ [(e, r)]) := by
  induction es generalizing s tr with
  | nil =>
    simp only [runs_nil, Option.some.injEq, Prod.mk.injEq] at h
    obtain ⟨rfl, rfl⟩ := h
    exact (runs_cons_eq_some _ _ _ _ _ _).2 ⟨t', r, [], hs, rfl, rfl⟩
  | cons c es ih =>
    obtain ⟨s', q, tr', hc, hr, rfl⟩ := (runs_cons_eq_some _ _ _ _ _ _).1 h
    exact (runs_cons_eq_some _ _ _ _ _ _).2 ⟨s', q, _, hc, ih hr, rfl⟩

/-- **Repetition rule.**  A call that is enabled, and leads on, `K` times can be made `K` times. -/
theorem runs_replicate (step : σ → ε → Option (σ × ρ)) (P : Nat → σ → Prop) (s : σ) (e : ε)
    (K : Nat) (h0 : P 0 s)
    (hstep : ∀ k < K, ∀ s, P k s → ∃ s' r, step s e = some (s', r) ∧ P (k + 1) s') :
    ∃ t tr, runs step s (List.replicate K e) = some (t, tr) ∧ P K t := by
  induction K with
  | zero => exact ⟨s, [], rfl, h0⟩
  | succ K ih =>
    obtain ⟨t, tr, hr, hP⟩ := ih fun k hk => hstep k (Nat.lt_succ_of_lt hk)
    obtain ⟨t', r, hs, hP'⟩ := hstep K (Nat.lt_succ_self K) t hP
    refine ⟨t', tr ++ [(e, r)], ?_, hP'⟩
    rw [List.replicate_succ']
    exact runs_snoc step hr hs

/-- Some calls lead from `s` to `t` with the trace `tr`. -/
def Reaches (step : σ → ε → Option (σ × ρ)) (s t : σ) (tr : List (ε × ρ)) : Prop :=
  ∃ es, runs step s es = some (t, tr)

theorem Reaches.nil (step : σ → ε → Option (σ × ρ)) (s : σ) : Reaches step s s [] := ⟨[], rfl⟩

theorem Reaches.snoc {step : σ → ε → Option (σ × ρ)} {s t t' : σ} {tr : List (ε × ρ)}
    (h : Reaches step s t tr) {e : ε} {r : ρ} (hs : step t e = some (t', r)) :
    Reaches step s t' (tr ++ [(e, r)]) := by
  obtain ⟨es, hr⟩ := h
  exact ⟨es ++ [e], runs_snoc step hr hs⟩

theorem meets_snoc (step : σ → ε → Option (σ × ρ)) (C : σ → ε → Bool) {s t : σ} {e : ε}
    {es : List ε} {tr : List (ε × ρ)} (h : runs step s es = some (t, tr)) (hm : meets step C s es = true)
    (he : C t e = true) : meets step C s (es ++ [e]) = true := by
  induction es generalizing s tr with
  | nil =>
    simp only [runs_nil, Option.some.injEq, Prod.mk.injEq] at h
    obtain ⟨rfl, rfl⟩ := h
    rw [List.nil_append]
    unfold meets
    rw [he, Bool.true_and]
    split <;> rfl
  | cons c es ih =>
    obtain ⟨s', q, tr', hc, hr, rfl⟩ := (runs_cons_eq_some _ _ _ _ _ _).1 h
    obtain ⟨hok, hm'⟩ := (meets_cons step C s s' c es q hc).1 hm
    exact (meets_cons step C s s' c (es ++ [e]) q hc).2 ⟨hok, ih hr hm'⟩

/-- Some calls, which all satisfy `C`, lead from `s` to `t` with the trace `tr`. -/
def ReachesBy (step : σ → ε → Option (σ × ρ)) (C : σ → ε → Bool) (s t : σ) (tr : List (ε × ρ)) :
    Prop :=
  ∃ es, runs step s es = some (t, tr) ∧ meets step C s es = true

theorem ReachesBy.nil (step : σ → ε → Option (σ × ρ)) (C : σ → ε → Bool) (s : σ) :
    ReachesBy step C s s [] := ⟨[], rfl, rfl⟩

theorem ReachesBy.snoc {step : σ → ε → Option (σ × ρ)} {C : σ → ε → Bool} {s t t' : σ}
    {tr : List (ε × ρ)} (h : ReachesBy step C s t tr) {e : ε} {r : ρ} (he : C t e = true)
    (hs : step t e = some (t', r)) : ReachesBy step C s t' (tr ++ [(e, r)]) := by
  obtain ⟨es, hr, hm⟩ := h
  exact ⟨es ++ [e], runs_snoc step hr hs, meets_snoc step C hr hm he⟩

/-- **Simulation rule.**  A step-by-step match gives a match of runs, with the same calls
and the same results. -/
theorem runs_simulates (step : σ → ε → Option (σ × ρ)) (astep : τ → ε → Option (τ × ρ))
    (R : σ → τ → Prop)
    (hstep : ∀ s a e s' r, R s a → step s e = some (s', r) →
      ∃ a', astep a e = some (a', r) ∧ R s' a')
    (s t : σ) (a : τ) (es : List ε) (tr : List (ε × ρ)) (h0 : R s a)
    (h : runs step s es = some (t, tr)) :
    ∃ b, runs astep a es = some (b, tr) ∧ R t b := by
  induction es generalizing s a tr with
  | nil =>
    simp only [runs_nil, Option.some.injEq, Prod.mk.injEq] at h
    obtain ⟨rfl, rfl⟩ := h
    exact ⟨a, rfl, h0⟩
  | cons e es ih =>
    obtain ⟨s', r, tr', hs, hr, rfl⟩ := (runs_cons_eq_some _ _ _ _ _ _).1 h
    obtain ⟨a', ha, hR⟩ := hstep s a e s' r h0 hs
    obtain ⟨b, hb, hRt⟩ := ih s' a' tr' hR hr
    exact ⟨b, (runs_cons_eq_some _ _ _ _ _ _).2 ⟨a', r, tr', ha, hb, rfl⟩, hRt⟩

end Runs
