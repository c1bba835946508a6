import Mathlib.Data.List.Basic

/-!
# Chains of elements in a buffer

A `Format` says which element stands at the front of what is left of a buffer, and its size.
`elements` is the chain of them, up to the first place where there is none.

    loop k p r s  unrolls as  F.front  and  step  say →
      r < k → loop k p r s = .ok (outcome fin (foldlM step s (elements p r)))       (walk)

Code reads the buffer through `rd`, which faults outside of it; a loop that is out of fuel
faults too.  So `.ok` says that the code ends and reads nothing outside.
-/

namespace Chain

inductive Fault
  | outside
  | fuel
deriving DecidableEq, Repr

def rd {β : Type*} (mem : List β) (i : Nat) : Except Fault β :=
  match mem[i]? with
  | some b => .ok b
  | none => .error .outside

theorem rd_of_lt {β : Type*} {mem : List β} {i : Nat} (h : i < mem.length) :
    rd mem i = .ok mem[i] := by
  unfold rd
  rw [List.getElem?_eq_getElem h]

def rdN {β : Type*} (mem : List β) : Nat → Nat → Except Fault (List β)
  | _, 0 => .ok []
  | p, n + 1 => do
    let b ← rd mem p
    let bs ← rdN mem (p + 1) n
    return b :: bs

theorem rdN_of_le {β : Type*} {mem : List β} {p n : Nat} (h : p + n ≤ mem.length) :
    rdN mem p n = .ok ((mem.drop p).take n) := by
  induction n generalizing p with
  | zero =>
    rw [List.take_zero]
    rfl
  | succ n ih =>
    unfold rdN
    rw [rd_of_lt (by omega), ih (by omega), List.drop_eq_getElem_cons (by omega : p < mem.length),
      List.take_succ_cons]
    rfl

def byte (mem : List UInt8) (i : Nat) : Nat := ((mem[i]?).getD 0).toNat

theorem byte_lt (mem : List UInt8) (i : Nat) : byte mem i < 0x100 := UInt8.toNat_lt _

theorem rd_eq {mem : List UInt8} {i : Nat} (h : i < mem.length) :
    ∃ b, rd mem i = .ok b ∧ b.toNat = byte mem i := by
  refine ⟨mem[i], rd_of_lt h, ?_⟩
  unfold byte
  rw [List.getElem?_eq_getElem h]
  rfl

/-- `front p r`: the element at position `p`, where `r` bytes are left, and its size. -/
structure Format (α : Type*) where
  front : Nat → Nat → Option (α × Nat)
  pos : ∀ {p r a n}, front p r = some (a, n) → 0 < n
  le : ∀ {p r a n}, front p r = some (a, n) → n ≤ r

namespace Format

variable {α σ ρ : Type*} (F : Format α)

/-- How a fold with an early exit ends. -/
def outcome (fin : σ → ρ) : Except ρ σ → ρ
  | .error o => o
  | .ok s => fin s

def elementsN : Nat → Nat → Nat → List α
  | 0, _, _ => []
  | k + 1, p, r =>
    match F.front p r with
    | none => []
    | some (a, n) => a :: elementsN k (p + n) (r - n)

/-- The chain from `p`, with `r` bytes left. -/
def elements (p r : Nat) : List α := F.elementsN (r + 1) p r

variable {F} {p r n : Nat} {a : α}

theorem elementsN_eq {k l : Nat} (hk : r < k) (hl : r < l) :
    F.elementsN k p r = F.elementsN l p r := by
  induction k generalizing l p r with
  | zero => omega
  | succ k ih =>
    cases l with
    | zero => omega
    | succ l =>
      unfold elementsN
      split
      · rfl
      · rename_i a n hf
        have hn := F.pos hf
        have hle := F.le hf
        exact congrArg (a :: ·) (ih (by omega) (by omega))

theorem elements_of_none (h : F.front p r = none) : F.elements p r = [] := by
  unfold elements elementsN
  rw [h]

theorem elements_of_some (h : F.front p r = some (a, n)) :
    F.elements p r = a :: F.elements (p + n) (r - n) := by
  have hn := F.pos h
  have hle := F.le h
  unfold elements
  rw [elementsN, h]
  exact congrArg (a :: ·) (elementsN_eq (by omega) (by omega))

/-- The first element that `m` picks, where it stands, and the chain behind it. -/
theorem find_elements {m : α → Bool} (h : (F.elements p r).find? m = some a) :
    ∃ q s n pre, q + s = p + r ∧ F.front q s = some (a, n) ∧
      F.elements p r = pre ++ a :: F.elements (q + n) (s - n) ∧ (∀ b ∈ pre, m b = false) ∧
      m a = true ∧ p ≤ q := by
  induction hk : r using Nat.strongRecOn generalizing p r with
  | _ k ih =>
    subst hk
    cases hf : F.front p r with
    | none =>
      rw [elements_of_none hf] at h
      cases h
    | some x =>
      obtain ⟨b, n⟩ := x
      have hn := F.pos hf
      have hle := F.le hf
      rw [elements_of_some hf] at h ⊢
      cases hb : m b with
      | true =>
        rw [List.find?_cons_of_pos hb, Option.some.injEq] at h
        subst h
        exact ⟨p, r, n, [], rfl, hf, rfl, nofun, hb, Nat.le_refl p⟩
      | false =>
        rw [List.find?_cons_of_neg (by rw [hb]; exact Bool.false_ne_true)] at h
        obtain ⟨q, s, n', pre, h1, h2, h3, h4, h5, h6⟩ := ih (r - n) (by omega) h rfl
        refine ⟨q, s, n', b :: pre, by omega, h2, by rw [h3]; rfl, ?_, h5, by omega⟩
        intro c hc
        rcases List.mem_cons.mp hc with rfl | hc
        · exact hb
        · exact h4 c hc

/-- **Rule for a walker**: one round of its loop is one element of the chain. -/
theorem walk (F : Format α) (loop : Nat → Nat → Nat → σ → Except Fault ρ)
    (step : σ → α → Except ρ σ) (fin : σ → ρ) (e : Nat)
    (hstop : ∀ k p r s, p + r = e → F.front p r = none → loop (k + 1) p r s = .ok (fin s))
    (hstep : ∀ k p r s a n, p + r = e → F.front p r = some (a, n) →
      loop (k + 1) p r s = match step s a with
        | .error o => .ok o
        | .ok s' => loop k (p + n) (r - n) s')
    {k : Nat} (s : σ) (hk : r < k) (he : p + r = e) :
    loop k p r s = .ok (outcome fin ((F.elements p r).foldlM step s)) := by
  induction k generalizing p r s with
  | zero => omega
  | succ k ih =>
    cases hf : F.front p r with
    | none =>
      rw [hstop k p r s he hf, elements_of_none hf]
      rfl
    | some x =>
      obtain ⟨a, n⟩ := x
      have hn := F.pos hf
      have hle := F.le hf
      rw [hstep k p r s a n he hf, elements_of_some hf, List.foldlM_cons]
      cases step s a with
      | error o => rfl
      | ok s' => exact ih s' (by omega) (by omega)

end Format

end Chain
