import Mathlib.Logic.Function.Basic
import Mathlib.Data.List.Basic
import Mathlib.Data.Nat.ModEq

/-!
# Queues in a ring of slots

A slot holds an item or is free.  The writer and the reader of `n` slots each go round them: the
writer fills a slot that is free, the reader frees one that is not.  `Holds n buf r q` says that the
items from slot `r` on are those of `q`, and that all other slots are free.

    buf ((r + q.length) % n) = none ↔ q.length < n                  (Holds.free_iff)
    a slot filled behind the queue, one freed in front of it        (Holds.put, Holds.take)
-/

namespace RingQueue

variable {α : Type*} {n r : Nat} {buf : Nat → Option α} {q : List α}

structure Holds (n : Nat) (buf : Nat → Option α) (r : Nat) (q : List α) : Prop where
  length : q.length ≤ n
  slot : ∀ j < n, buf ((r + j) % n) = q[j]?

theorem holds_nil (h : ∀ i < n, buf i = none) (r : Nat) : Holds n buf r [] where
  length := Nat.zero_le n
  slot _ hj := h _ (Nat.mod_lt _ (Nat.zero_lt_of_lt hj))

theorem Holds.mod (h : Holds n buf r q) : Holds n buf (r % n) q where
  length := h.length
  slot j hj := by
    rw [Nat.mod_add_mod]
    exact h.slot j hj

/-- Two slots in a row of `n` are different. -/
theorem slot_eq_iff {j k : Nat} (hj : j < n) (hk : k < n) : (r + j) % n = (r + k) % n ↔ j = k := by
  constructor
  · intro h
    have hmod : j % n = k % n := Nat.ModEq.add_left_cancel' r h
    rwa [Nat.mod_eq_of_lt hj, Nat.mod_eq_of_lt hk] at hmod
  · rintro rfl
    rfl

theorem Holds.free_iff (h : Holds n buf r q) (hn : 0 < n) :
    buf ((r + q.length) % n) = none ↔ q.length < n := by
  rcases Nat.lt_or_ge q.length n with hlt | hge
  · refine ⟨fun _ => hlt, fun _ => ?_⟩
    rw [h.slot _ hlt, List.getElem?_eq_none_iff]
  · have hlen : q.length = n := Nat.le_antisymm h.length hge
    refine ⟨fun hnone => ?_, fun hlt => absurd hlt (Nat.not_lt.mpr hge)⟩
    have hfront := h.slot 0 hn
    rw [hlen, Nat.add_mod_right] at hnone
    rw [Nat.add_zero, hnone] at hfront
    have hnil : q.length ≤ 0 := List.getElem?_eq_none_iff.mp hfront.symm
    omega

/-- The slots, read from `r` on, give the queue. -/
theorem Holds.contents (h : Holds n buf r q) :
    ((List.range n).filterMap fun j => buf ((r + j) % n)) = q := by
  have hrange : ∀ (m : Nat) (q : List α), q.length ≤ m →
      ((List.range m).filterMap fun j => q[j]?) = q := by
    intro m
    induction m with
    | zero =>
      intro q hq
      rw [List.length_eq_zero_iff.mp (Nat.le_zero.mp hq)]
      rfl
    | succ m ih =>
      intro q hq
      rw [List.range_succ_eq_map, List.filterMap_cons]
      cases q with
      | nil => simp
      | cons a q =>
        simp only [List.getElem?_cons_zero, List.filterMap_map]
        exact congrArg (a :: ·) (ih q (Nat.le_of_succ_le_succ hq))
  calc (List.range n).filterMap (fun j => buf ((r + j) % n))
      = (List.range n).filterMap fun j => q[j]? :=
        List.filterMap_congr fun j hj => h.slot j (List.mem_range.mp hj)
    _ = q := hrange n q h.length

theorem Holds.unique {q' : List α} (h : Holds n buf r q) (h' : Holds n buf r q') : q = q' :=
  h.contents.symm.trans h'.contents

theorem Holds.put (h : Holds n buf r q) (hlt : q.length < n) (a : α) :
    Holds n (Function.update buf ((r + q.length) % n) (some a)) r (q ++ [a]) where
  length := by
    rw [List.length_append]
    exact hlt
  slot j hj := by
    rcases Nat.lt_trichotomy j q.length with hlt' | heq | hgt
    · have hne : (r + j) % n ≠ (r + q.length) % n := fun h' =>
        Nat.ne_of_lt hlt' ((slot_eq_iff hj hlt).mp h')
      rw [Function.update_of_ne hne, h.slot j hj, List.getElem?_append_left hlt']
    · subst heq
      rw [Function.update_self, List.getElem?_concat_length]
    · have hne : (r + j) % n ≠ (r + q.length) % n := fun h' =>
        Nat.ne_of_gt hgt ((slot_eq_iff hj hlt).mp h')
      rw [Function.update_of_ne hne, h.slot j hj, List.getElem?_eq_none_iff.mpr hgt.le]
      refine (List.getElem?_eq_none_iff.mpr ?_).symm
      rw [List.length_append]
      exact hgt

theorem Holds.take {a : α} (h : Holds n buf r (a :: q)) :
    buf (r % n) = some a ∧ Holds n (Function.update buf (r % n) none) (r + 1) q := by
  have hlen : q.length + 1 ≤ n := h.length
  refine ⟨?_, Nat.le_of_succ_le hlen, fun j hj => ?_⟩
  · have hfront := h.slot 0 (Nat.lt_of_lt_of_le (Nat.succ_pos _) hlen)
    rwa [Nat.add_zero] at hfront
  · rw [Nat.add_right_comm, Nat.add_assoc]
    rcases Nat.lt_or_ge (j + 1) n with hlt | hge
    · have hne : (r + (j + 1)) % n ≠ r % n := fun h' =>
        Nat.succ_ne_zero j ((slot_eq_iff hlt (Nat.zero_lt_of_lt hj)).mp h')
      rw [Function.update_of_ne hne, h.slot _ hlt, List.getElem?_cons_succ]
    · have hround : (r + (j + 1)) % n = r % n := by
        have hn : j + 1 = n := Nat.le_antisymm hj hge
        rw [hn, Nat.add_mod_right]
      rw [hround, Function.update_self]
      exact (List.getElem?_eq_none_iff.mpr (by omega)).symm

end RingQueue
