import Bcmdhd.Lib.Ledger
import Mathlib.Data.List.Nodup
import Mathlib.Data.List.Perm.Basic

/-!
# Lists counted by key

`tally key l x` is the number of elements of `l` with key `x`.  A counter that goes up with every
element that comes (`tally_cons`) and down with every one that goes is such a tally.
-/

namespace Tally

open Loans

variable {α ι : Type*} [DecidableEq ι]

def tally (key : α → ι) (l : List α) (x : ι) : Int := (l.countP fun a => key a = x : Nat)

theorem tally_nil (key : α → ι) : tally key [] = fun _ => 0 := rfl

theorem tally_nonneg (key : α → ι) (l : List α) (x : ι) : 0 ≤ tally key l x := Int.natCast_nonneg _

theorem tally_perm (key : α → ι) {l m : List α} (h : l.Perm m) : tally key l = tally key m := by
  funext x
  exact congrArg Nat.cast (h.countP_eq _)

theorem tally_append (key : α → ι) (l m : List α) (x : ι) :
    tally key (l ++ m) x = tally key l x + tally key m x := by
  unfold tally
  rw [List.countP_append, Int.natCast_add]

theorem tally_cons (key : α → ι) (a : α) (l : List α) :
    tally key (a :: l) = bump (tally key l) (key a) 1 := by
  funext x
  unfold tally bump
  rw [List.countP_cons]
  by_cases h : key a = x
  · simp [h]
  · simp [h, Ne.symm h]

theorem tally_concat (key : α → ι) (l : List α) (a : α) :
    tally key (l ++ [a]) = bump (tally key l) (key a) 1 :=
  (tally_perm key (List.perm_append_singleton a l)).trans (tally_cons key a l)

/-- An element that goes. -/
theorem tally_uncons (key : α → ι) (a : α) (l : List α) :
    bump (tally key (a :: l)) (key a) (-1) = tally key l := by
  rw [tally_cons, bump_bump, Int.add_right_neg, bump_zero]

/-- The elements of `l`, and what is left of `m` without them. -/
theorem perm_diff [DecidableEq α] {l m : List α} (hl : l.Nodup) (hm : m.Nodup) (h : l ⊆ m) :
    m.Perm (l ++ m.filter fun a => a ∉ l) := by
  have hin : (m.filter fun a => a ∈ l).Perm l := by
    refine (List.perm_ext_iff_of_nodup (hm.filter _) hl).mpr fun a => ?_
    rw [List.mem_filter, decide_eq_true_eq]
    exact and_iff_right_of_imp fun ha => h ha
  have hsplit := (List.filter_append_perm (fun a => decide (a ∈ l)) m).symm
  simp only [← decide_not] at hsplit
  exact hsplit.trans (hin.append_right _)

/-- What is left of `m` when the elements of `l` have gone. -/
theorem tally_diff [DecidableEq α] (key : α → ι) {l m : List α} (hl : l.Nodup) (hm : m.Nodup)
    (h : l ⊆ m) (x : ι) :
    tally key m x = tally key l x + tally key (m.filter fun a => a ∉ l) x := by
  rw [tally_perm key (perm_diff hl hm h), tally_append]

end Tally
