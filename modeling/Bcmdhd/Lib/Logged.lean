import Mathlib.Logic.Basic
import Mathlib.Data.List.Basic

/-!
# Computations that log what they touch

`Logged ε α` is a value with the events that came before it, oldest first.  `x.All P` says that
every event has `P`; it is computed along the program (`all_bind`, `all_ite`), with the values that
the program itself has got.
-/

structure Logged (ε α : Type) where
  val : α
  log : List ε

namespace Logged

variable {ε α β : Type}

instance : Monad (Logged ε) where
  pure a := ⟨a, []⟩
  bind x f := ⟨(f x.val).val, x.log ++ (f x.val).log⟩

@[simp] theorem val_pure (a : α) : (pure a : Logged ε α).val = a := rfl

@[simp] theorem val_bind (x : Logged ε α) (f : α → Logged ε β) :
    (x >>= f).val = (f x.val).val := rfl

@[simp] theorem val_ite (c : Prop) [Decidable c] (x y : Logged ε α) :
    (if c then x else y).val = if c then x.val else y.val := apply_ite val c x y

def All (P : ε → Prop) (x : Logged ε α) : Prop := ∀ e ∈ x.log, P e

variable {P : ε → Prop}

@[simp] theorem all_pure (a : α) : (pure a : Logged ε α).All P := fun _ he => absurd he List.not_mem_nil

@[simp] theorem all_bind (x : Logged ε α) (f : α → Logged ε β) :
    (x >>= f).All P ↔ x.All P ∧ (f x.val).All P := List.forall_mem_append

@[simp] theorem all_ite (c : Prop) [Decidable c] (x y : Logged ε α) :
    (if c then x else y).All P ↔ (c → x.All P) ∧ (¬c → y.All P) := by
  split
  · next hc => exact ⟨fun h => ⟨fun _ => h, fun hn => absurd hc hn⟩, fun h => h.1 hc⟩
  · next hc => exact ⟨fun h => ⟨fun hn => absurd hn hc, fun _ => h⟩, fun h => h.2 hc⟩

/-- The same computation, with other names for the events. -/
def relabel {ε' : Type} (f : ε → ε') (x : Logged ε α) : Logged ε' α := ⟨x.val, x.log.map f⟩

@[simp] theorem val_relabel {ε' : Type} (f : ε → ε') (x : Logged ε α) :
    (x.relabel f).val = x.val := rfl

@[simp] theorem all_relabel {ε' : Type} (f : ε → ε') (x : Logged ε α) {Q : ε' → Prop} :
    (x.relabel f).All Q ↔ x.All fun e => Q (f e) := List.forall_mem_map

end Logged
