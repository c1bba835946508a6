import Bcmdhd.Lib.Records

/-!
# Writes over the start of one buffer

Some messages are received into one buffer, each over the one before.  What is behind the end of the
last of them is left from an earlier one, or from before.

    layers buf fs i = (top fs i).getD (buf i)                            (layers_eq)

`top fs i` is byte `i` of the last message that is long enough.
-/

namespace Overlay

open Records

variable {β : Type*}

/-- The buffer after `fs` were received, oldest first. -/
def layers (buf : Nat → β) (fs : List (List β)) : Nat → β :=
  fs.foldl (fun buf f => writeAt buf 0 f) buf

/-- Byte `i` of the last of `fs` that has one. -/
def top (fs : List (List β)) (i : Nat) : Option β := fs.foldl (fun o f => f[i]?.or o) none

theorem layers_snoc (buf : Nat → β) (fs : List (List β)) (f : List β) :
    layers buf (fs ++ [f]) = writeAt (layers buf fs) 0 f := by
  simp [layers]

theorem top_snoc (fs : List (List β)) (f : List β) (i : Nat) :
    top (fs ++ [f]) i = f[i]?.or (top fs i) := by
  simp [top]

theorem writeAt_zero (buf : Nat → β) (f : List β) (i : Nat) :
    writeAt buf 0 f i = f[i]?.getD (buf i) := by
  simp [writeAt]

theorem layers_eq (buf : Nat → β) (fs : List (List β)) (i : Nat) :
    layers buf fs i = (top fs i).getD (buf i) := by
  induction fs using List.reverseRecOn with
  | nil => rfl
  | append_singleton fs f ih =>
    rw [layers_snoc, top_snoc, writeAt_zero, ih]
    cases f[i]? <;> rfl

/-- A message that is long enough hides those before it. -/
theorem top_of_lt {fs : List (List β)} {f : List β} {i : Nat} (h : i < f.length) :
    top (fs ++ [f]) i = some f[i] := by
  rw [top_snoc, List.getElem?_eq_getElem h]
  rfl

theorem top_of_le {fs : List (List β)} {f : List β} {i : Nat} (h : f.length ≤ i) :
    top (fs ++ [f]) i = top fs i := by
  rw [top_snoc, List.getElem?_eq_none h]
  rfl

/-- Messages that are cut off behind `i`. -/
theorem top_map_take {fs : List (List β)} {i n : Nat} (h : i < n) :
    top (fs.map (List.take n)) i = top fs i := by
  induction fs using List.reverseRecOn with
  | nil => rfl
  | append_singleton fs f ih =>
    rw [List.map_append, List.map_singleton, top_snoc, top_snoc, ih, List.getElem?_take_of_lt h]

/-- Messages without their first `n` bytes. -/
theorem top_map_drop (fs : List (List β)) (i n : Nat) :
    top (fs.map (List.drop n)) i = top fs (n + i) := by
  induction fs using List.reverseRecOn with
  | nil => rfl
  | append_singleton fs f ih =>
    rw [List.map_append, List.map_singleton, top_snoc, top_snoc, ih, List.getElem?_drop]

end Overlay
