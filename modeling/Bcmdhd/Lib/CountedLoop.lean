import Mathlib.Data.List.Range

/-!
# Loops that count in a machine word

`for (i = first; cond i; i++)` with an index of 32 bits: the index behind the last one is 0.

* `forLoop_lt`, `forLoop_le`: the body is applied to the indices one after another.
* `forLoop_add`: more tests do not change the result.
* `forLoop_endless`: a condition that holds of every index never ends the loop.
-/

namespace CountedLoop

variable {σ : Type*}

def WORD : Nat := 0x100000000

/-- `none` if the loop has not ended after so many tests. -/
def forLoop (cond : Nat → Bool) (body : σ → Nat → σ) : Nat → Nat → σ → Option σ
  | 0, _, _ => none
  | fuel + 1, i, s => if cond i then forLoop cond body fuel ((i + 1) % WORD) (body s i) else some s

theorem forLoop_lt (body : σ → Nat → σ) {stop : Nat} (hstop : stop < WORD) (fuel first : Nat)
    (h : stop - first < fuel) (s : σ) :
    forLoop (fun i => i < stop) body fuel first s =
      some ((List.range' first (stop - first)).foldl body s) := by
  induction fuel generalizing first s with
  | zero => omega
  | succ fuel ih =>
    unfold forLoop
    by_cases hlt : first < stop
    · obtain ⟨n, hn⟩ : ∃ n, stop - first = n + 1 := ⟨stop - first - 1, by omega⟩
      have hnext : (first + 1) % WORD = first + 1 := Nat.mod_eq_of_lt (by omega)
      rw [if_pos (decide_eq_true hlt), hnext, ih (first + 1) (by omega), hn, List.range'_succ,
        List.foldl_cons, show stop - (first + 1) = n by omega]
    · rw [if_neg (by rw [decide_eq_true_eq]; exact hlt), Nat.sub_eq_zero_of_le (by omega)]
      rfl

theorem forLoop_le (body : σ → Nat → σ) {last : Nat} (hlast : last + 1 < WORD) (fuel first : Nat)
    (h : last + 1 - first < fuel) (s : σ) :
    forLoop (fun i => i ≤ last) body fuel first s =
      some ((List.range' first (last + 1 - first)).foldl body s) := by
  rw [← forLoop_lt body hlast fuel first h]
  congr 1
  funext i
  exact decide_eq_decide.mpr Nat.lt_succ_iff.symm

theorem forLoop_endless (body : σ → Nat → σ) {cond : Nat → Bool} (h : ∀ i < WORD, cond i = true)
    (fuel first : Nat) (hfirst : first < WORD) (s : σ) :
    forLoop cond body fuel first s = none := by
  induction fuel generalizing first s with
  | zero => rfl
  | succ fuel ih =>
    unfold forLoop
    rw [if_pos (h first hfirst)]
    exact ih _ (Nat.mod_lt _ (by decide)) _

/-- More tests do not change the result. -/
theorem forLoop_add {cond : Nat → Bool} {body : σ → Nat → σ} {fuel first : Nat} {s t : σ}
    (h : forLoop cond body fuel first s = some t) (n : Nat) :
    forLoop cond body (fuel + n) first s = some t := by
  induction fuel generalizing first s with
  | zero => cases h
  | succ fuel ih =>
    rw [Nat.succ_add]
    unfold forLoop at h ⊢
    split at h
    · next hc =>
      rw [if_pos hc]
      exact ih h
    · next hc =>
      rw [if_neg hc]
      exact h

end CountedLoop
