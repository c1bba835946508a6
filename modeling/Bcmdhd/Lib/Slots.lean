import Mathlib.Data.List.ReduceOption
import Mathlib.Data.List.Perm.Basic
import Mathlib.Data.List.Pairwise
import Mathlib.Data.List.Range

/-!
# Tables of slots

A slot holds one item or is free.  `held` are the items of a table; `takeAll is` empties the
slots `is`, in this order.

* `held_fill`, `held_free`, `held_replace`: what one slot does to the items held.
* `takeAll_perm`, `takeAll_get`, `takeAll_fst`, `takeAll_mem`: what is taken, what is left.

Of `n` slots in a circle, `circ n e k` are the `k` from `e` on, and `rank n e i` is how far `i` is
from `e`: `mem_circ`, `circ_pairwise`.
-/

namespace Slots

variable {α : Type*} {p : List (Option α)} {i : Nat} {a b : α}

def held (p : List (Option α)) : List α := p.reduceOption

@[simp] theorem held_cons_none : held (none :: p) = held p := List.reduceOption_cons_of_none p

@[simp] theorem held_cons_some : held (some a :: p) = a :: held p :=
  List.reduceOption_cons_of_some a p

@[simp] theorem held_replicate (n : Nat) : held (List.replicate n (none : Option α)) = [] :=
  List.reduceOption_replicate_none

theorem mem_held : a ∈ held p ↔ ∃ i : Nat, p[i]? = some (some a) := by
  rw [show a ∈ held p ↔ some a ∈ p from List.reduceOption_mem_iff, List.mem_iff_getElem?]

theorem held_fill (h : p[i]? = some none) : (held (p.set i (some a))).Perm (a :: held p) := by
  induction p generalizing i with
  | nil => cases h
  | cons x p ih =>
    cases i with
    | zero =>
      cases Option.some.inj h
      simp
    | succ i =>
      cases x with
      | none => simpa using ih h
      | some b =>
        simp only [List.set_cons_succ, held_cons_some]
        exact ((ih h).cons b).trans (List.Perm.swap a b _)

theorem held_free (h : p[i]? = some (some a)) : (a :: held (p.set i none)).Perm (held p) := by
  induction p generalizing i with
  | nil => cases h
  | cons x p ih =>
    cases i with
    | zero =>
      cases Option.some.inj h
      simp
    | succ i =>
      cases x with
      | none => simpa using ih h
      | some b =>
        simp only [List.set_cons_succ, held_cons_some]
        exact (List.Perm.swap b a _).trans ((ih h).cons b)

theorem held_replace (h : p[i]? = some (some b)) :
    (b :: held (p.set i (some a))).Perm (a :: held p) := by
  have hlt : i < p.length := (List.getElem?_eq_some_iff.mp h).1
  have hfill : (held (p.set i (some a))).Perm (a :: held (p.set i none)) := by
    have h' := @held_fill α (p.set i none) i a (List.getElem?_set_self hlt)
    rwa [List.set_set] at h'
  exact (hfill.cons b).trans ((List.Perm.swap a b _).trans ((held_free h).cons a))

theorem set_none_of_none (h : p[i]? = some none ∨ p.length ≤ i) : p.set i none = p := by
  rcases h with h | h
  · obtain ⟨hlt, he⟩ := List.getElem?_eq_some_iff.mp h
    rw [← he]
    exact List.set_getElem_self hlt
  · exact List.set_eq_of_length_le h

/-- What slot `i` holds. -/
def slot (p : List (Option α)) (i : Nat) : Option α := (p[i]?).join

theorem slot_eq_some : slot p i = some a ↔ p[i]? = some (some a) := by
  unfold slot
  rw [Option.join_eq_some_iff]

theorem slot_of_held_nil (h : held p = []) : slot p i = none := by
  cases hs : slot p i with
  | none => rfl
  | some a =>
    have hmem : a ∈ held p := mem_held.mpr ⟨i, slot_eq_some.mp hs⟩
    rw [h] at hmem
    cases hmem

/-- The slots `is` emptied one after the other, and what they held, each with its slot. -/
def takeAll : List Nat → List (Option α) → List (Option α) × List (Nat × α)
  | [], p => (p, [])
  | i :: is, p =>
    let rest := takeAll is (p.set i none)
    match slot p i with
    | none => rest
    | some a => (rest.1, (i, a) :: rest.2)

theorem takeAll_cons_none {is : List Nat} (h : slot p i = none) :
    takeAll (i :: is) p = takeAll is (p.set i none) := by
  rw [takeAll, h]

theorem takeAll_cons_some {is : List Nat} (h : slot p i = some a) :
    takeAll (i :: is) p =
      ((takeAll is (p.set i none)).1, (i, a) :: (takeAll is (p.set i none)).2) := by
  rw [takeAll, h]

theorem set_none_of_slot (h : slot p i = none) : p.set i none = p := by
  apply set_none_of_none
  cases hi : p[i]? with
  | none => exact Or.inr (List.getElem?_eq_none_iff.mp hi)
  | some x =>
    unfold slot at h
    rw [hi] at h
    exact Or.inl (congrArg some h)

theorem takeAll_perm (is : List Nat) (p : List (Option α)) :
    ((takeAll is p).2.map Prod.snd ++ held (takeAll is p).1).Perm (held p) := by
  induction is generalizing p with
  | nil => exact List.Perm.refl _
  | cons i is ih =>
    cases hs : slot p i with
    | none =>
      rw [takeAll_cons_none hs, set_none_of_slot hs]
      exact ih p
    | some a =>
      rw [takeAll_cons_some hs]
      exact ((ih _).cons a).trans (held_free (slot_eq_some.mp hs))

theorem takeAll_length (is : List Nat) (p : List (Option α)) :
    (takeAll is p).1.length = p.length := by
  induction is generalizing p with
  | nil => rfl
  | cons i is ih =>
    cases hs : slot p i with
    | none =>
      rw [takeAll_cons_none hs, ih, List.length_set]
    | some a =>
      rw [takeAll_cons_some hs]
      exact (ih _).trans List.length_set

theorem slot_set_none (p : List (Option α)) (i j : Nat) :
    slot (p.set i none) j = if j = i then none else slot p j := by
  unfold slot
  rw [List.getElem?_set]
  by_cases h : i = j
  · subst h
    rw [if_pos rfl, if_pos rfl]
    split <;> rfl
  · rw [if_neg h, if_neg fun he => h he.symm]

theorem slot_set_some {j : Nat} (h : i < p.length) :
    slot (p.set i (some a)) j = if j = i then some a else slot p j := by
  unfold slot
  rw [List.getElem?_set]
  by_cases hj : i = j
  · subst hj
    rw [if_pos rfl, if_pos h, if_pos rfl]
    rfl
  · rw [if_neg hj, if_neg fun he => hj he.symm]

theorem takeAll_get (is : List Nat) (p : List (Option α)) (j : Nat) :
    slot (takeAll is p).1 j = if j ∈ is then none else slot p j := by
  induction is generalizing p with
  | nil => rfl
  | cons i is ih =>
    have hrest : slot (takeAll is (p.set i none)).1 j =
        if j ∈ i :: is then none else slot p j := by
      rw [ih, slot_set_none]
      by_cases h1 : j ∈ is
      · rw [if_pos h1, if_pos (List.mem_cons_of_mem i h1)]
      · by_cases h2 : j = i
        · rw [if_neg h1, if_pos h2, if_pos (List.mem_cons.mpr (Or.inl h2))]
        · rw [if_neg h1, if_neg h2, if_neg fun hm => (List.mem_cons.mp hm).elim h2 h1]
    cases hs : slot p i with
    | none => rw [takeAll_cons_none hs, hrest]
    | some a => rw [takeAll_cons_some hs, hrest]

/-- What is taken comes in the order of the slots. -/
theorem takeAll_fst (is : List Nat) (p : List (Option α)) :
    ((takeAll is p).2.map Prod.fst).Sublist is := by
  induction is generalizing p with
  | nil => exact List.Sublist.refl _
  | cons i is ih =>
    cases hs : slot p i with
    | none =>
      rw [takeAll_cons_none hs]
      exact (ih _).cons i
    | some a =>
      rw [takeAll_cons_some hs]
      exact (ih _).cons_cons i

theorem takeAll_mem {is : List Nat} {p : List (Option α)} (h : (i, a) ∈ (takeAll is p).2) :
    slot p i = some a := by
  induction is generalizing p with
  | nil => cases h
  | cons j is ih =>
    have hrest : (i, a) ∈ (takeAll is (p.set j none)).2 → slot p i = some a := by
      intro hm
      have hs := ih hm
      rw [slot_set_none] at hs
      split at hs
      · cases hs
      · exact hs
    cases hs : slot p j with
    | none =>
      rw [takeAll_cons_none hs] at h
      exact hrest h
    | some b =>
      rw [takeAll_cons_some hs, List.mem_cons] at h
      rcases h with h | h
      · cases h
        exact hs
      · exact hrest h

theorem takeAll_of_mem {is : List Nat} {p : List (Option α)} (hi : i ∈ is)
    (h : slot p i = some a) : (i, a) ∈ (takeAll is p).2 := by
  induction is generalizing p with
  | nil => cases hi
  | cons j is ih =>
    by_cases hj : i = j
    · subst hj
      rw [takeAll_cons_some h]
      exact List.mem_cons_self
    · have hrest : (i, a) ∈ (takeAll is (p.set j none)).2 := by
        apply ih ((List.mem_cons.mp hi).resolve_left hj)
        rw [slot_set_none, if_neg hj, h]
      cases hs : slot p j with
      | none =>
        rw [takeAll_cons_none hs]
        exact hrest
      | some b =>
        rw [takeAll_cons_some hs]
        exact List.mem_cons_of_mem _ hrest

theorem takeAll_of_held_nil (is : List Nat) (h : held p = []) : takeAll is p = (p, []) := by
  induction is with
  | nil => rfl
  | cons i is ih =>
    have hs : slot p i = none := slot_of_held_nil h
    rw [takeAll_cons_none hs, set_none_of_slot hs, ih]

theorem takeAll_count {is : List Nat} (hnd : is.Nodup) (p : List (Option α)) :
    (takeAll is p).2.length = is.countP fun i => (slot p i).isSome := by
  induction is generalizing p with
  | nil => rfl
  | cons i is ih =>
    rw [List.nodup_cons] at hnd
    have hrest : (takeAll is (p.set i none)).2.length = is.countP fun i => (slot p i).isSome := by
      rw [ih hnd.2]
      apply List.countP_congr
      intro j hj
      have hne : j ≠ i := by
        rintro rfl
        exact hnd.1 hj
      rw [slot_set_none, if_neg hne]
    cases hs : slot p i with
    | none =>
      rw [takeAll_cons_none hs, hrest, List.countP_cons, hs]
      rfl
    | some a =>
      rw [takeAll_cons_some hs, List.length_cons, hrest, List.countP_cons, hs]
      rfl

/-! ## Slots in a circle -/

def wrap (n i : Nat) : Nat := if i < n then i else i - n

def rank (n e i : Nat) : Nat := if e ≤ i then i - e else i + n - e

def circ (n e k : Nat) : List Nat := (List.range k).map fun j => wrap n (e + j)

section Circle

variable {n e j k : Nat}

theorem rank_wrap (he : e < n) (hj : j < n) : rank n e (wrap n (e + j)) = j := by
  unfold rank wrap
  split <;> split <;> omega

theorem wrap_rank (he : e < n) (hi : i < n) : wrap n (e + rank n e i) = i := by
  unfold rank wrap
  split <;> split <;> omega

theorem rank_lt (he : e < n) (hi : i < n) : rank n e i < n := by
  unfold rank
  split <;> omega

theorem rank_self (n e : Nat) : rank n e e = 0 := by
  unfold rank
  rw [if_pos (Nat.le_refl e), Nat.sub_self]

theorem circ_succ (hk : k < n) (he : e < n) :
    circ n e (k + 1) = e :: circ n (wrap n (e + 1)) k := by
  unfold circ
  rw [List.range_succ_eq_map, List.map_cons, List.map_map]
  congr 1
  · exact if_pos he
  · apply List.map_congr_left
    intro j hj
    rw [List.mem_range] at hj
    show wrap n (e + (j + 1)) = wrap n (wrap n (e + 1) + j)
    unfold wrap
    split <;> split <;> split <;> omega

theorem circ_snoc (n e k : Nat) : circ n e (k + 1) = circ n e k ++ [wrap n (e + k)] := by
  unfold circ
  rw [List.range_succ, List.map_append]
  rfl

theorem mem_circ (he : e < n) (hk : k ≤ n) : i ∈ circ n e k ↔ i < n ∧ rank n e i < k := by
  unfold circ
  rw [List.mem_map]
  constructor
  · rintro ⟨j, hj, rfl⟩
    rw [List.mem_range] at hj
    refine ⟨?_, by rwa [rank_wrap he (by omega)]⟩
    unfold wrap
    split <;> omega
  · rintro ⟨hi, hr⟩
    exact ⟨rank n e i, List.mem_range.mpr hr, wrap_rank he hi⟩

theorem circ_pairwise (he : e < n) (hk : k ≤ n) :
    (circ n e k).Pairwise fun i j => rank n e i < rank n e j := by
  unfold circ
  rw [List.pairwise_map]
  apply List.Pairwise.imp_of_mem _ List.pairwise_lt_range
  intro a b ha hb hab
  rw [List.mem_range] at ha hb
  rwa [rank_wrap he (by omega), rank_wrap he (by omega)]

theorem circ_nodup (he : e < n) (hk : k ≤ n) : (circ n e k).Nodup := by
  apply List.Pairwise.imp _ (circ_pairwise he hk)
  rintro i j h rfl
  exact Nat.lt_irrefl _ h

end Circle

end Slots
