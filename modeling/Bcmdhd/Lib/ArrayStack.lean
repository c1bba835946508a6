import Mathlib.Data.List.Nodup
import Mathlib.Logic.Function.Basic

/-!
# A stack of free ids kept in an array

The cells `lo, …, lo + k - 1` of an array are a stack whose top is the last of them.
An allocator pops the top cell and pushes a freed id above it.

* `cells_succ`: popping gives the top cell and leaves the others.
* `cells_push`: pushing leaves the others and puts the id on top.
* `nodup_snoc`, `nodup_of_snoc`: distinct ids stay distinct.
-/

namespace ArrayStack

variable {α : Type*}

/-- The stack, bottom first. -/
def cells (f : Nat → α) (lo k : Nat) : List α := (List.range' lo k).map f

theorem cells_succ (f : Nat → α) (lo k : Nat) :
    cells f lo (k + 1) = cells f lo k ++ [f (lo + k)] := by
  unfold cells
  rw [List.range'_concat, List.map_append, Nat.one_mul]
  rfl

/-- Writing above the stack does not change it. -/
theorem cells_update (f : Nat → α) (lo k : Nat) (x : α) :
    cells (Function.update f (lo + k) x) lo k = cells f lo k := by
  apply List.map_congr_left
  intro i hi
  rw [List.mem_range'_1] at hi
  have hne : i ≠ lo + k := by omega
  exact Function.update_of_ne hne x f

theorem cells_push (f : Nat → α) (lo k : Nat) (x : α) :
    cells (Function.update f (lo + k) x) lo (k + 1) = cells f lo k ++ [x] := by
  rw [cells_succ, cells_update, Function.update_self]

theorem nodup_snoc {l : List α} {x : α} (hl : l.Nodup) (hx : x ∉ l) : (l ++ [x]).Nodup := by
  rw [List.nodup_append]
  refine ⟨hl, List.nodup_singleton x, ?_⟩
  intro a ha b hb hab
  rw [List.mem_singleton] at hb
  subst hb
  subst hab
  exact hx ha

theorem nodup_of_snoc {l : List α} {x : α} (h : (l ++ [x]).Nodup) : l.Nodup ∧ x ∉ l := by
  rw [List.nodup_append] at h
  exact ⟨h.1, fun hx => h.2.2 x hx x List.mem_cons_self rfl⟩

end ArrayStack
