import Mathlib.Algebra.BigOperators.Group.Finset.Piecewise
import Mathlib.Algebra.Order.BigOperators.Group.Finset
import Mathlib.Data.Fintype.Basic

/-!
# A ledger of credits with loans

Each account has credits of its own.  A charge is paid from the account charged, or from a
lender; what is given back goes to a lender first, or to the account if it has no debt.

    Accounted init charged a:  free l + lent l + (charged l - debt l) = init l

* `Accounted.spend`, `Accounted.lend`: a charge is accounted for.
* `Accounted.giveBack`, `Accounted.earn`: so is what comes back.
* `Accounted.free_le`: an account never holds more than it began with.
* `Accounted.settled`: without charges it holds just that, and nothing is lent.
* `Balanced`: no account is overdrawn.
-/

namespace Loans

open Finset

variable {ι : Type*}

section

variable [DecidableEq ι]

/-- `k` more at `i`. -/
def bump (f : ι → Int) (i : ι) (k : Int) : ι → Int := fun x => if x = i then f x + k else f x

@[simp] theorem bump_self (f : ι → Int) (i : ι) (k : Int) : bump f i k i = f i + k := if_pos rfl

theorem bump_ne (f : ι → Int) {i x : ι} (k : Int) (h : x ≠ i) : bump f i k x = f x := if_neg h

theorem bump_eq_update (f : ι → Int) (i : ι) (k : Int) :
    bump f i k = Function.update f i (f i + k) := by
  funext x
  unfold bump Function.update
  split
  · next h =>
    subst h
    rfl
  · rfl

theorem bump_bump (f : ι → Int) (i : ι) (j k : Int) : bump (bump f i j) i k = bump f i (j + k) := by
  funext x
  unfold bump
  split <;> omega

theorem bump_zero (f : ι → Int) (i : ι) : bump f i 0 = f := by
  funext x
  unfold bump
  split <;> omega

end

/-- Credits of each account, and loans: `borrowed b l` is what `b` owes `l`. -/
structure Ledger (ι : Type*) where
  free : ι → Int
  borrowed : ι → ι → Int

namespace Ledger

section

variable [DecidableEq ι]

def spend (a : Ledger ι) (f : ι) (k : Int) : Ledger ι := { a with free := bump a.free f (-k) }

/-- `b` takes `k` from `l`. -/
def lend (a : Ledger ι) (b l : ι) (k : Int) : Ledger ι where
  free := bump a.free l (-k)
  borrowed := Function.update a.borrowed b (bump (a.borrowed b) l k)

def giveBack (a : Ledger ι) (b l : ι) (k : Int) : Ledger ι := a.lend b l (-k)

theorem giveBack_lend (a : Ledger ι) (b l : ι) (k : Int) : (a.lend b l k).giveBack b l k = a := by
  unfold giveBack lend
  simp only [bump_bump, Function.update_self, Function.update_idem, Int.neg_neg,
    Int.add_left_neg, Int.add_right_neg, bump_zero, Function.update_eq_self]

end

variable [Fintype ι]

def lent (a : Ledger ι) (l : ι) : Int := ∑ b, a.borrowed b l

def debt (a : Ledger ι) (b : ι) : Int := ∑ l, a.borrowed b l

end Ledger

open Ledger

variable [Fintype ι]

section

variable [DecidableEq ι]

theorem sum_bump (f : ι → Int) (i : ι) (k : Int) : ∑ x, bump f i k x = (∑ x, f x) + k := by
  have h : ∀ x, bump f i k x = f x + if x = i then k else 0 := by
    intro x
    unfold bump
    split <;> simp
  simp only [h, sum_add_distrib, sum_ite_eq', mem_univ, if_true]

theorem debt_lend (a : Ledger ι) (b l c : ι) (k : Int) :
    (a.lend b l k).debt c = bump a.debt b k c := by
  unfold debt lend bump
  by_cases hc : c = b
  · subst hc
    simp only [Function.update_self, if_true]
    exact sum_bump _ _ _
  · simp only [Function.update_of_ne hc, if_neg hc]

theorem lent_lend (a : Ledger ι) (b l m : ι) (k : Int) :
    (a.lend b l k).lent m = bump a.lent l k m := by
  have h : ∀ c, (a.lend b l k).borrowed c m =
      bump (fun c => a.borrowed c m) b (if m = l then k else 0) c := by
    intro c
    unfold lend bump
    by_cases hc : c = b
    · subst hc
      simp only [Function.update_self, if_true]
      split <;> omega
    · simp only [Function.update_of_ne hc, if_neg hc]
  show ∑ c, (a.lend b l k).borrowed c m = _
  simp only [h]
  rw [sum_bump]
  unfold bump
  split
  · rfl
  · exact Int.add_zero _

end

/-- Credits are neither made nor lost, no loan is negative, and each has been charged. -/
structure Accounted (init charged : ι → Int) (a : Ledger ι) : Prop where
  total : ∀ l, a.free l + a.lent l + (charged l - a.debt l) = init l
  borrowed_nonneg : ∀ b l, 0 ≤ a.borrowed b l
  debt_le : ∀ b, a.debt b ≤ charged b

namespace Accounted

variable {init charged : ι → Int} {a : Ledger ι}

theorem lent_nonneg (h : Accounted init charged a) (l : ι) : 0 ≤ a.lent l :=
  sum_nonneg fun b _ => h.borrowed_nonneg b l

theorem free_le (h : Accounted init charged a) (l : ι) : a.free l ≤ init l := by
  have h1 := h.total l
  have h2 := h.debt_le l
  have h3 := h.lent_nonneg l
  omega

/-- An account that nothing is charged to owes nothing. -/
theorem debtless (h : Accounted init charged a) {b : ι} (hb : charged b = 0) (l : ι) :
    a.borrowed b l = 0 := by
  have hdebt : a.debt b ≤ 0 := hb ▸ h.debt_le b
  have hle : a.borrowed b l ≤ a.debt b :=
    single_le_sum (fun l _ => h.borrowed_nonneg b l) (mem_univ l)
  have hnonneg := h.borrowed_nonneg b l
  omega

theorem settled (h : Accounted init charged a) (hnone : ∀ b, charged b = 0) :
    a.free = init ∧ ∀ b l, a.borrowed b l = 0 := by
  have hborrowed : ∀ b l, a.borrowed b l = 0 := fun b l => h.debtless (hnone b) l
  refine ⟨funext fun l => ?_, hborrowed⟩
  have htotal := h.total l
  have hlent : a.lent l = 0 := sum_eq_zero fun b _ => hborrowed b l
  have hdebt : a.debt l = 0 := sum_eq_zero fun m _ => hborrowed l m
  rw [hlent, hdebt, hnone l] at htotal
  omega

variable [DecidableEq ι]

/-- `k` charges are paid by the account itself, or `-k` given back to it. -/
theorem spend (h : Accounted init charged a) (f : ι) (k : Int)
    (hd : a.debt f ≤ charged f + k) : Accounted init (bump charged f k) (a.spend f k) where
  total := by
    intro l
    have := h.total l
    show bump a.free f (-k) l + a.lent l + (bump charged f k l - a.debt l) = init l
    unfold bump
    split <;> omega
  borrowed_nonneg := h.borrowed_nonneg
  debt_le := by
    intro b
    have := h.debt_le b
    show a.debt b ≤ bump charged f k b
    unfold bump
    split
    · next hb =>
      subst hb
      exact hd
    · exact this

/-- Without debt, what comes back goes to the account itself. -/
theorem earn (h : Accounted init charged a) (f : ι) (k : Int) (hk : k ≤ charged f)
    (hd : ∀ l, a.borrowed f l = 0) : Accounted init (bump charged f (-k)) (a.spend f (-k)) := by
  have hdebt : a.debt f = 0 := sum_eq_zero fun l _ => hd l
  exact h.spend f (-k) (by omega)

/-- `k` charges are paid by a lender, or `-k` given back to it. -/
theorem lend (h : Accounted init charged a) (b l : ι) (k : Int)
    (hb : 0 ≤ a.borrowed b l + k) : Accounted init (bump charged b k) (a.lend b l k) where
  total := by
    intro m
    have := h.total m
    rw [debt_lend, lent_lend]
    show bump a.free l (-k) m + bump a.lent l k m + (bump charged b k m - bump a.debt b k m) = init m
    unfold bump
    split <;> split <;> omega
  borrowed_nonneg := by
    intro c m
    have := h.borrowed_nonneg c m
    show 0 ≤ Function.update a.borrowed b (bump (a.borrowed b) l k) c m
    by_cases hc : c = b
    · subst hc
      rw [Function.update_self]
      unfold bump
      split
      · next hm =>
        subst hm
        exact hb
      · exact this
    · rw [Function.update_of_ne hc]
      exact this
  debt_le := by
    intro c
    have := h.debt_le c
    rw [debt_lend]
    unfold bump
    split <;> omega

theorem giveBack (h : Accounted init charged a) (b l : ι) (k : Int) (hk : k ≤ a.borrowed b l) :
    Accounted init (bump charged b (-k)) (a.giveBack b l k) :=
  h.lend b l (-k) (by omega)

end Accounted

/-- Credits are neither made nor lost, and no term is negative. -/
structure Balanced (init charged : ι → Int) (a : Ledger ι) : Prop where
  total : ∀ l, a.free l + a.lent l + (charged l - a.debt l) = init l
  free_nonneg : ∀ l, 0 ≤ a.free l
  borrowed_nonneg : ∀ b l, 0 ≤ a.borrowed b l
  debt_le : ∀ b, a.debt b ≤ charged b

theorem balanced_iff {init charged : ι → Int} {a : Ledger ι} :
    Balanced init charged a ↔ Accounted init charged a ∧ ∀ l, 0 ≤ a.free l :=
  ⟨fun h => ⟨⟨h.total, h.borrowed_nonneg, h.debt_le⟩, h.free_nonneg⟩,
    fun h => ⟨h.1.total, h.2, h.1.borrowed_nonneg, h.1.debt_le⟩⟩

end Loans
