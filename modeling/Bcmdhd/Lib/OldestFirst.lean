import Mathlib.Data.List.Basic

/-!
# Queues that drop their oldest entries

An entry that is put in a queue leaves it by being taken or by being dropped, always from
the front.  `DropOldest put taken queue` says that this is how `taken` and `queue` came
from `put`: each entry put was taken, dropped or is still there, in that order.
-/

namespace OldestFirst

variable {α : Type*}

/-- `fated` are the entries that left, with `true` for those taken. -/
def DropOldest (put taken queue : List α) : Prop :=
  ∃ fated : List (α × Bool), put = fated.map Prod.fst ++ queue ∧
    taken = (fated.filter Prod.snd).map Prod.fst

theorem empty : DropOldest ([] : List α) [] [] := ⟨[], rfl, rfl⟩

/-- An entry is put in, and the oldest ones are dropped. -/
theorem DropOldest.put {put taken dropped kept : List α} {x : α}
    (h : DropOldest put taken (dropped ++ kept)) :
    DropOldest (put ++ [x]) taken (kept ++ [x]) := by
  obtain ⟨fated, hput, htaken⟩ := h
  refine ⟨fated ++ dropped.map fun d => (d, false), ?_, ?_⟩
  · rw [hput, List.map_append, List.map_map]
    have hid : dropped.map (Prod.fst ∘ fun d => (d, false)) = dropped := by
      simp [Function.comp_def]
    rw [hid]
    simp
  · have hnone : (dropped.map fun d => (d, false)).filter Prod.snd = [] := by
      rw [List.filter_eq_nil_iff]
      intro x hx
      obtain ⟨d, -, rfl⟩ := List.mem_map.1 hx
      exact Bool.false_ne_true
    rw [List.filter_append, hnone, List.append_nil]
    exact htaken

/-- The oldest entry is taken. -/
theorem DropOldest.take {put taken queue : List α} {x : α} (h : DropOldest put taken (x :: queue)) :
    DropOldest put (taken ++ [x]) queue := by
  obtain ⟨fated, hput, htaken⟩ := h
  refine ⟨fated ++ [(x, true)], ?_, ?_⟩
  · rw [hput]
    simp
  · rw [List.filter_append, List.map_append, ← htaken]
    rfl

/-- What was taken, and what is left after it, is a subsequence of what was put. -/
theorem DropOldest.sublist {put taken queue : List α} (h : DropOldest put taken queue) :
    (taken ++ queue).Sublist put := by
  obtain ⟨fated, rfl, rfl⟩ := h
  exact ((List.filter_sublist).map Prod.fst).append_right queue

end OldestFirst
