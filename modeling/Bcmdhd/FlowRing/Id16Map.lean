import Bcmdhd.Lib.ArrayStack

/-!
# The 16-bit id allocator (`bcmutils.c`)

`id16_map_alloc` pops an id from a stack of available ids and `id16_map_free` pushes one.
-/

namespace Bcmdhd.Id16

open ArrayStack

def id16Invalid : Nat := 0xFFFF

structure Id16Map where
  /-- count of failures -/
  failures : Nat
  /-- number of available ids, `stack_idx + 1` -/
  depth : Nat
  /-- stack of 16 bit ids -/
  stack : Nat → Nat

/-- Ids `[start .. start + total)`. -/
def id16MapInit (total start : Nat) : Id16Map := ⟨0, total, fun idx => start + idx⟩

def id16MapAlloc (m : Id16Map) : Id16Map × Nat :=
  if m.depth = 0 then ({ m with failures := m.failures + 1 }, id16Invalid)
  else ({ m with depth := m.depth - 1 }, m.stack (m.depth - 1))

def id16MapFree (m : Id16Map) (val16 : Nat) : Id16Map :=
  { m with depth := m.depth + 1, stack := Function.update m.stack m.depth val16 }

/-- The available ids. -/
def available (m : Id16Map) : List Nat := cells m.stack 0 m.depth

theorem available_init (total start : Nat) :
    available (id16MapInit total start) = List.range' start total := by
  unfold available cells id16MapInit
  rw [← List.range_eq_range', List.range'_eq_map_range]

/-- An allocation fails, or takes the id it returns from the available ones. -/
theorem id16MapAlloc_cases (m : Id16Map) :
    (available (id16MapAlloc m).1 = available m ∧ (id16MapAlloc m).2 = id16Invalid) ∨
      available m = available (id16MapAlloc m).1 ++ [(id16MapAlloc m).2] := by
  unfold id16MapAlloc
  split
  · exact .inl ⟨rfl, rfl⟩
  · next h =>
    refine .inr ?_
    have hd : m.depth = m.depth - 1 + 1 := by omega
    unfold available
    conv => lhs; rw [hd]
    rw [cells_succ, Nat.zero_add]

theorem depth_eq_zero {m : Id16Map} : m.depth = 0 ↔ available m = [] := by
  unfold available cells
  rw [List.map_eq_nil_iff, List.range'_eq_nil_iff]

theorem id16MapAlloc_fails {m : Id16Map} (hlt : ∀ id ∈ available m, id < id16Invalid) :
    (id16MapAlloc m).2 = id16Invalid ↔ available m = [] := by
  constructor
  · intro hfail
    by_contra hne
    rcases id16MapAlloc_cases m with ⟨ha, -⟩ | ha
    · unfold id16MapAlloc at ha
      rw [if_neg fun hd => hne (depth_eq_zero.1 hd)] at ha
      have hlen := congrArg List.length ha
      have hd : m.depth ≠ 0 := fun hd => hne (depth_eq_zero.1 hd)
      simp [available, cells] at hlen
      omega
    · have hid := hlt (id16MapAlloc m).2 (by rw [ha]; exact List.mem_append_right _ List.mem_cons_self)
      omega
  · intro hnil
    unfold id16MapAlloc
    rw [if_pos (depth_eq_zero.2 hnil)]

theorem available_free (m : Id16Map) (val16 : Nat) :
    available (id16MapFree m val16) = available m ++ [val16] := by
  have h := cells_push m.stack 0 m.depth val16
  rw [Nat.zero_add] at h
  exact h

end Bcmdhd.Id16
