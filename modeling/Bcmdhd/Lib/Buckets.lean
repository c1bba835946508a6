import Mathlib.Data.List.Nodup
import Mathlib.Logic.Function.Basic

/-!
# A table of chains

A hash table keeps a chain (a list) for each index of a list `is` of indices.
`entries is f` are all its entries.  Changing one chain changes the entries by that
chain only (`entries_perm_split`), so an insertion adds one entry and a removal takes
one away, up to the order (`entries_insert`, `entries_erase`).
-/

namespace Buckets

variable {ι α : Type*} [DecidableEq ι]

def entries (is : List ι) (f : ι → List α) : List α := is.flatMap f

omit [DecidableEq ι] in
theorem mem_entries {is : List ι} {f : ι → List α} {x : α} :
    x ∈ entries is f ↔ ∃ k ∈ is, x ∈ f k := List.mem_flatMap

/-- A chain outside the table does not matter. -/
theorem entries_update_of_notMem {is : List ι} {f : ι → List α} {k : ι} {l : List α}
    (hk : k ∉ is) : entries is (Function.update f k l) = entries is f := by
  unfold entries
  induction is with
  | nil => rfl
  | cons a is ih =>
    rw [List.mem_cons, not_or] at hk
    rw [List.flatMap_cons, List.flatMap_cons, ih hk.2, Function.update_of_ne (Ne.symm hk.1)]

/-- The entries are those of one chain and the others. -/
theorem entries_perm_split {is : List ι} (hnd : is.Nodup) {k : ι} (hk : k ∈ is)
    (f : ι → List α) :
    (entries is f).Perm (f k ++ entries is (Function.update f k [])) := by
  induction is with
  | nil => cases hk
  | cons a is ih =>
    rw [List.nodup_cons] at hnd
    unfold entries
    rw [List.flatMap_cons, List.flatMap_cons]
    rcases List.mem_cons.1 hk with rfl | hk
    · have hrest := entries_update_of_notMem (f := f) (l := []) hnd.1
      unfold entries at hrest
      rw [hrest, Function.update_self, List.nil_append]
    · have hne : a ≠ k := by rintro rfl; exact hnd.1 hk
      rw [Function.update_of_ne hne]
      have hperm := (ih hnd.2 hk).append_left (f a)
      refine hperm.trans ?_
      rw [← List.append_assoc, ← List.append_assoc]
      exact (List.perm_append_comm).append_right _

theorem entries_update {is : List ι} (hnd : is.Nodup) {k : ι} (hk : k ∈ is) (f : ι → List α)
    (l : List α) :
    (entries is (Function.update f k l)).Perm (l ++ entries is (Function.update f k [])) := by
  have h := entries_perm_split hnd hk (Function.update f k l)
  rwa [Function.update_self, Function.update_idem] at h

theorem entries_insert {is : List ι} (hnd : is.Nodup) {k : ι} (hk : k ∈ is) {f : ι → List α}
    {l : List α} {x : α} (hl : l.Perm (x :: f k)) :
    (entries is (Function.update f k l)).Perm (x :: entries is f) := by
  refine (entries_update hnd hk f l).trans ((hl.append_right _).trans ?_)
  exact ((entries_perm_split hnd hk f).cons x).symm

theorem entries_erase {is : List ι} (hnd : is.Nodup) {k : ι} (hk : k ∈ is) {f : ι → List α}
    {l : List α} {x : α} (hl : (f k).Perm (x :: l)) :
    (entries is f).Perm (x :: entries is (Function.update f k l)) := by
  refine (entries_perm_split hnd hk f).trans ((hl.append_right _).trans ?_)
  exact ((entries_update hnd hk f l).cons x).symm

end Buckets
