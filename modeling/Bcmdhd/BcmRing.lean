import Bcmdhd.Lib.Runs
import Bcmdhd.Lib.RingIndex

/-!
# The `bcm_ring` producer/consumer ring (`include/bcm_ring.h`)

A producer and a consumer each hold their own `bcm_ring_t`, a pair of indices into
one circular buffer of `ring_size` elements, and refresh the other party's index in
it at times of their own choosing (`bcm_workq_t`).  `step` is one call of either
party; a run is any interleaving of such calls.

    runs (step N) bcmWorkqInit es = some (w, tr) →
      consumed tr <+: produced tr ∧ at most N - 1 outstanding ∧ …     (workq_protocol)

The indices are C `int`s that stay in `[0, ring_size)`; `BCM_RING_FULL` and
`BCM_RING_EMPTY` (both `-1`) are `none`.
-/

namespace Bcmdhd.WorkQueue

open Runs RingIndex

/-! ## The ring context -/

structure BcmRing where
  /-- WRITE index -/
  write : Nat
  /-- READ index -/
  read : Nat
deriving DecidableEq, Repr

def bcmRingInit : BcmRing := ⟨0, 0⟩

def bcmRingIsEmpty (ring : BcmRing) : Bool := ring.read == ring.write

def bcmRingNextWrite (ring : BcmRing) (ringSize : Nat) : Nat := (ring.write + 1) % ringSize

def bcmRingFull (ring : BcmRing) (nextWrite : Nat) : Bool := nextWrite == ring.read

def bcmRingProdDone (ring : BcmRing) (write : Nat) : BcmRing := { ring with write }

/-- The index to produce at and `*pend_write`, the index after it. -/
def bcmRingProdPend (ring : BcmRing) (ringSize : Nat) : Option (Nat × Nat) :=
  let pendWrite := bcmRingNextWrite ring ringSize
  if bcmRingFull ring pendWrite then none
  else some (ring.write, pendWrite)

def bcmRingProd (ring : BcmRing) (ringSize : Nat) : BcmRing × Option Nat :=
  let nextWrite := bcmRingNextWrite ring ringSize
  if bcmRingFull ring nextWrite then (ring, none)
  else (bcmRingProdDone ring nextWrite, some ring.write)

def bcmRingConsDone (ring : BcmRing) (read : Nat) : BcmRing := { ring with read }

/-- The index to consume from and `*pend_read`, the index after it. -/
def bcmRingConsPend (ring : BcmRing) (ringSize : Nat) : Option (Nat × Nat) :=
  if bcmRingIsEmpty ring then none
  else some (ring.read, (ring.read + 1) % ringSize)

def bcmRingCons (ring : BcmRing) (ringSize : Nat) : BcmRing × Option Nat :=
  if bcmRingIsEmpty ring then (ring, none)
  else ({ ring with read := (ring.read + 1) % ringSize }, some ring.read)

def bcmRingSyncRead (peer self : BcmRing) : BcmRing := { peer with read := self.read }

def bcmRingSyncWrite (peer self : BcmRing) : BcmRing := { peer with write := self.write }

def bcmRingProdAvail (ring : BcmRing) (ringSize : Nat) : Nat :=
  if ring.write ≥ ring.read then ringSize - (ring.write - ring.read) - 1
  else ring.read - (ring.write + 1)

def bcmRingConsAvail (ring : BcmRing) (ringSize : Nat) : Nat :=
  if ring.read = ring.write then 0
  else if ring.read > ring.write then (ringSize - ring.read) + ring.write
  else ring.write - ring.read

/-! ## The two work queues -/

/-- The producer's and the consumer's ring, and the fetch each party has pending:
the index it was given and the index to commit. -/
structure Workq where
  prod : BcmRing
  cons : BcmRing
  pendProd : Option (Nat × Nat)
  pendCons : Option (Nat × Nat)
deriving DecidableEq, Repr

def bcmWorkqInit : Workq := ⟨bcmRingInit, bcmRingInit, none, none⟩

/-- `cons::write <--- prod::write`, done by the producer. -/
def bcmWorkqProdSync (w : Workq) : Workq := { w with cons := bcmRingSyncWrite w.cons w.prod }

/-- `prod::read <--- cons::read`, done by the consumer. -/
def bcmWorkqConsSync (w : Workq) : Workq := { w with prod := bcmRingSyncRead w.prod w.cons }

/-- `prod::read <--- cons::read`, done by the producer. -/
def bcmWorkqProdRefresh (w : Workq) : Workq := { w with prod := bcmRingSyncRead w.prod w.cons }

/-- `cons::write <--- prod::write`, done by the consumer. -/
def bcmWorkqConsRefresh (w : Workq) : Workq := { w with cons := bcmRingSyncWrite w.cons w.prod }

inductive Call
  | prod
  | prodPend
  | prodDone
  | cons
  | consPend
  | consDone
  | prodSync
  | consSync
  | prodRefresh
  | consRefresh
deriving DecidableEq, Repr

/-- One call.  The result is the index handed to the caller or, for `prodDone` and
`consDone`, the index they commit.  A pending fetch is committed at most once; a
party that fetches again has given it up. -/
def step (ringSize : Nat) (w : Workq) : Call → Option (Workq × Option Nat)
  | .prod =>
    let (ring, i) := bcmRingProd w.prod ringSize
    some ({ w with prod := ring, pendProd := none }, i)
  | .prodPend =>
    let p := bcmRingProdPend w.prod ringSize
    some ({ w with pendProd := p }, p.map Prod.fst)
  | .prodDone =>
    match w.pendProd with
    | none => none
    | some (i, pendWrite) =>
      some ({ w with prod := bcmRingProdDone w.prod pendWrite, pendProd := none }, some i)
  | .cons =>
    let (ring, i) := bcmRingCons w.cons ringSize
    some ({ w with cons := ring, pendCons := none }, i)
  | .consPend =>
    let p := bcmRingConsPend w.cons ringSize
    some ({ w with pendCons := p }, p.map Prod.fst)
  | .consDone =>
    match w.pendCons with
    | none => none
    | some (i, pendRead) =>
      some ({ w with cons := bcmRingConsDone w.cons pendRead, pendCons := none }, some i)
  | .prodSync => some (bcmWorkqProdSync w, none)
  | .consSync => some (bcmWorkqConsSync w, none)
  | .prodRefresh => some (bcmWorkqProdRefresh w, none)
  | .consRefresh => some (bcmWorkqConsRefresh w, none)

/-- The index a call commits on the producer's side. -/
def producedBy : Call × Option Nat → Option Nat
  | (.prod, i) | (.prodDone, i) => i
  | _ => none

/-- The index a call commits on the consumer's side. -/
def consumedBy : Call × Option Nat → Option Nat
  | (.cons, i) | (.consDone, i) => i
  | _ => none

def produced (tr : List (Call × Option Nat)) : List Nat := tr.filterMap producedBy

def consumed (tr : List (Call × Option Nat)) : List Nat := tr.filterMap consumedBy

/-- Committed by the producer, not yet by the consumer. -/
def outstanding (tr : List (Call × Option Nat)) : List Nat :=
  (produced tr).drop (consumed tr).length

/-! ## Lemmas -/

variable {n W r v R : Nat} {w w' : Workq} {c : Call}

/-- With `W` items committed and `r` of them known to be consumed, the producer is
refused exactly when it knows of `ringSize - 1` outstanding items. -/
theorem bcmRingFull_iff (ring : BcmRing) (hw : ring.write = W % n) (hr : ring.read = r % n)
    (hrW : r ≤ W) (h : W - r < n) :
    bcmRingFull ring (bcmRingNextWrite ring n) = true ↔ W + 1 - r = n := by
  unfold bcmRingFull bcmRingNextWrite
  rw [hw, hr, beq_iff_eq]
  exact succ_mod_eq_iff hrW h

theorem bcmRingIsEmpty_iff (ring : BcmRing) (hw : ring.write = v % n) (hr : ring.read = R % n)
    (hRv : R ≤ v) (h : v - R < n) :
    bcmRingIsEmpty ring = true ↔ R = v := by
  unfold bcmRingIsEmpty
  rw [hw, hr, beq_iff_eq]
  exact mod_eq_iff hRv h

/-- The two availability counts of one ring add up to `ringSize - 1`. -/
theorem prodAvail_add_consAvail (ring : BcmRing) (n : Nat) (hw : ring.write < n)
    (hr : ring.read < n) : bcmRingProdAvail ring n + bcmRingConsAvail ring n = n - 1 := by
  unfold bcmRingProdAvail bcmRingConsAvail
  split <;> split <;> (try split) <;> omega

theorem bcmRingConsAvail_eq (ring : BcmRing) (hw : ring.write = v % n) (hr : ring.read = R % n)
    (hRv : R ≤ v) (h : v - R < n) :
    bcmRingConsAvail ring n = v - R := by
  have hs := sub_of_mod hRv h
  unfold bcmRingConsAvail
  rw [hw, hr]
  rw [hs]
  split <;> split <;> (try split) <;> omega

/-- `W` and `R` items were committed by the producer and the consumer; the producer
knows of `r` and the consumer of `v` of the other's.  Every index is a counter modulo
the ring size, and so is a pending fetch. -/
structure Counts (n : Nat) (w : Workq) (W R r v : Nat) : Prop where
  prod_write : w.prod.write = W % n
  prod_read : w.prod.read = r % n
  cons_write : w.cons.write = v % n
  cons_read : w.cons.read = R % n
  r_le : r ≤ R
  R_le : R ≤ v
  v_le : v ≤ W
  room : W - r < n
  pendProd : ∀ i k, w.pendProd = some (i, k) → i = W % n ∧ k = (W + 1) % n ∧ W + 1 - r < n
  pendCons : ∀ i k, w.pendCons = some (i, k) → i = R % n ∧ k = (R + 1) % n ∧ R < v

/-- The invariant of a run: the counters, and the trace they count. -/
def Inv (n : Nat) (w : Workq) (tr : List (Call × Option Nat)) : Prop :=
  ∃ W R r v, Counts n w W R r v ∧
    produced tr = (List.range W).map (· % n) ∧ consumed tr = (List.range R).map (· % n)

theorem produced_snoc (tr : List (Call × Option Nat)) (c : Call) (i : Option Nat) :
    produced (tr ++ [(c, i)]) = produced tr ++ (producedBy (c, i)).toList := by
  unfold produced
  rw [List.filterMap_append]
  cases h : producedBy (c, i) <;> simp [h]

theorem consumed_snoc (tr : List (Call × Option Nat)) (c : Call) (i : Option Nat) :
    consumed (tr ++ [(c, i)]) = consumed tr ++ (consumedBy (c, i)).toList := by
  unfold consumed
  rw [List.filterMap_append]
  cases h : consumedBy (c, i) <;> simp [h]

theorem range_map_succ (n k : Nat) :
    (List.range (k + 1)).map (· % n) = (List.range k).map (· % n) ++ [k % n] := by
  rw [List.range_succ, List.map_append]; rfl

/-- A call that commits nothing keeps the two logs. -/
theorem inv_of_counts {tr : List (Call × Option Nat)} {i : Option Nat}
    (hp : produced tr = (List.range W).map (· % n)) (hc : consumed tr = (List.range R).map (· % n))
    (hpi : producedBy (c, i) = none) (hci : consumedBy (c, i) = none) (h : Counts n w' W R r v) :
    Inv n w' (tr ++ [(c, i)]) :=
  ⟨W, R, r, v, h, by rw [produced_snoc, hpi, hp]; simp, by rw [consumed_snoc, hci, hc]; simp⟩

theorem inv_of_produced {tr : List (Call × Option Nat)}
    (hp : produced tr = (List.range W).map (· % n)) (hc : consumed tr = (List.range R).map (· % n))
    (hpi : producedBy (c, some (W % n)) = some (W % n)) (hci : consumedBy (c, some (W % n)) = none)
    (h : Counts n w' (W + 1) R r v) :
    Inv n w' (tr ++ [(c, some (W % n))]) := by
  refine ⟨W + 1, R, r, v, h, ?_, ?_⟩
  · rw [produced_snoc, hpi, hp, range_map_succ]; rfl
  · rw [consumed_snoc, hci, hc]; simp

theorem inv_of_consumed {tr : List (Call × Option Nat)}
    (hp : produced tr = (List.range W).map (· % n)) (hc : consumed tr = (List.range R).map (· % n))
    (hpi : producedBy (c, some (R % n)) = none) (hci : consumedBy (c, some (R % n)) = some (R % n))
    (h : Counts n w' W (R + 1) r v) :
    Inv n w' (tr ++ [(c, some (R % n))]) := by
  refine ⟨W, R + 1, r, v, h, ?_, ?_⟩
  · rw [produced_snoc, hpi, hp]; simp
  · rw [consumed_snoc, hci, hc, range_map_succ]; rfl

theorem bcmRingProdPend_eq (h : Counts n w W R r v) :
    bcmRingProdPend w.prod n = if W + 1 - r = n then none else some (W % n, (W + 1) % n) := by
  have hrW : r ≤ W := Nat.le_trans h.r_le (Nat.le_trans h.R_le h.v_le)
  have hf := bcmRingFull_iff w.prod h.prod_write h.prod_read hrW h.room
  unfold bcmRingProdPend
  by_cases hfull : W + 1 - r = n
  · simp [hf.2 hfull, hfull]
  · simp only [if_neg hfull, if_neg (fun e => hfull (hf.1 e))]
    rw [h.prod_write, bcmRingNextWrite, h.prod_write, ← succ_mod]

theorem bcmRingProd_eq (h : Counts n w W R r v) :
    bcmRingProd w.prod n =
      if W + 1 - r = n then (w.prod, none)
      else ({ w.prod with write := (W + 1) % n }, some (W % n)) := by
  have hrW : r ≤ W := Nat.le_trans h.r_le (Nat.le_trans h.R_le h.v_le)
  have hf := bcmRingFull_iff w.prod h.prod_write h.prod_read hrW h.room
  unfold bcmRingProd
  by_cases hfull : W + 1 - r = n
  · simp [hf.2 hfull, hfull]
  · simp only [if_neg hfull, if_neg (fun e => hfull (hf.1 e))]
    rw [bcmRingProdDone, h.prod_write, bcmRingNextWrite, h.prod_write, ← succ_mod]

theorem bcmRingConsPend_eq (h : Counts n w W R r v) :
    bcmRingConsPend w.cons n = if R = v then none else some (R % n, (R + 1) % n) := by
  have hv : v - R < n := by have := h.room; have := h.r_le; have := h.v_le; omega
  have he := bcmRingIsEmpty_iff w.cons h.cons_write h.cons_read h.R_le hv
  unfold bcmRingConsPend
  by_cases hempty : R = v
  · rw [if_pos (he.2 hempty), if_pos hempty]
  · rw [if_neg (fun e => hempty (he.1 e)), if_neg hempty, h.cons_read, ← succ_mod]

theorem bcmRingCons_eq (h : Counts n w W R r v) :
    bcmRingCons w.cons n =
      if R = v then (w.cons, none)
      else ({ w.cons with read := (R + 1) % n }, some (R % n)) := by
  have hv : v - R < n := by have := h.room; have := h.r_le; have := h.v_le; omega
  have he := bcmRingIsEmpty_iff w.cons h.cons_write h.cons_read h.R_le hv
  unfold bcmRingCons
  by_cases hempty : R = v
  · rw [if_pos (he.2 hempty), if_pos hempty]
  · rw [if_neg (fun e => hempty (he.1 e)), if_neg hempty, h.cons_read, ← succ_mod]

theorem Counts.dropProd (h : Counts n w W R r v) :
    Counts n { w with pendProd := none } W R r v :=
  { h with pendProd := nofun }

theorem Counts.dropCons (h : Counts n w W R r v) :
    Counts n { w with pendCons := none } W R r v :=
  { h with pendCons := nofun }

theorem Counts.offerProd (h : Counts n w W R r v) (hlt : W + 1 - r < n) :
    Counts n { w with pendProd := some (W % n, (W + 1) % n) } W R r v := by
  refine { h with pendProd := ?_ }
  intro i k he
  cases he
  exact ⟨rfl, rfl, hlt⟩

theorem Counts.offerCons (h : Counts n w W R r v) (hlt : R < v) :
    Counts n { w with pendCons := some (R % n, (R + 1) % n) } W R r v := by
  refine { h with pendCons := ?_ }
  intro i k he
  cases he
  exact ⟨rfl, rfl, hlt⟩

theorem Counts.commitProd (h : Counts n w W R r v) (hlt : W + 1 - r < n) :
    Counts n { w with prod := { w.prod with write := (W + 1) % n }, pendProd := none }
      (W + 1) R r v :=
  { h with
    prod_write := rfl
    v_le := Nat.le_succ_of_le h.v_le
    room := hlt
    pendProd := nofun }

theorem Counts.commitCons (h : Counts n w W R r v) (hlt : R < v) :
    Counts n { w with cons := { w.cons with read := (R + 1) % n }, pendCons := none }
      W (R + 1) r v :=
  { h with
    cons_read := rfl
    r_le := Nat.le_succ_of_le h.r_le
    R_le := hlt
    pendCons := nofun }

/-- The consumer learns of all `W` committed items. -/
theorem Counts.syncWrite (h : Counts n w W R r v) :
    Counts n { w with cons := bcmRingSyncWrite w.cons w.prod } W R r W := by
  have hv := h.v_le
  refine { h with
    cons_write := h.prod_write
    R_le := Nat.le_trans h.R_le hv
    v_le := Nat.le_refl W
    pendCons := ?_ }
  intro i k he
  obtain ⟨h1, h2, h3⟩ := h.pendCons i k he
  exact ⟨h1, h2, by omega⟩

/-- The producer learns of all `R` consumed items. -/
theorem Counts.syncRead (h : Counts n w W R r v) :
    Counts n { w with prod := bcmRingSyncRead w.prod w.cons } W R R v := by
  have hr := h.r_le
  have hroom := h.room
  refine { h with
    prod_read := h.cons_read
    r_le := Nat.le_refl R
    room := by omega
    pendProd := ?_ }
  intro i k he
  obtain ⟨h1, h2, h3⟩ := h.pendProd i k he
  exact ⟨h1, h2, by omega⟩

theorem step_inv (w : Workq) (tr : List (Call × Option Nat)) (c : Call) (w' : Workq)
    (i : Option Nat) (hi : Inv n w tr) (hs : step n w c = some (w', i)) :
    Inv n w' (tr ++ [(c, i)]) := by
  obtain ⟨W, R, r, v, h, hp, hc⟩ := hi
  have hroom := h.room
  have hR := h.R_le
  cases c with
  | prod =>
    simp only [step, bcmRingProd_eq h, Option.some.injEq, Prod.mk.injEq] at hs
    obtain ⟨rfl, rfl⟩ := hs
    split
    · exact inv_of_counts hp hc rfl rfl h.dropProd
    · exact inv_of_produced hp hc rfl rfl (h.commitProd (by omega))
  | prodPend =>
    simp only [step, bcmRingProdPend_eq h, Option.some.injEq, Prod.mk.injEq] at hs
    obtain ⟨rfl, rfl⟩ := hs
    by_cases hfull : W + 1 - r = n
    · rw [if_pos hfull]
      exact inv_of_counts hp hc rfl rfl h.dropProd
    · rw [if_neg hfull]
      exact inv_of_counts hp hc rfl rfl (h.offerProd (by omega))
  | prodDone =>
    simp only [step] at hs
    split at hs
    · cases hs
    · next i' k hpend =>
      obtain ⟨rfl, rfl, hlt⟩ := h.pendProd i' k hpend
      cases hs
      exact inv_of_produced hp hc rfl rfl (h.commitProd hlt)
  | cons =>
    simp only [step, bcmRingCons_eq h, Option.some.injEq, Prod.mk.injEq] at hs
    obtain ⟨rfl, rfl⟩ := hs
    split
    · exact inv_of_counts hp hc rfl rfl h.dropCons
    · exact inv_of_consumed hp hc rfl rfl (h.commitCons (by omega))
  | consPend =>
    simp only [step, bcmRingConsPend_eq h, Option.some.injEq, Prod.mk.injEq] at hs
    obtain ⟨rfl, rfl⟩ := hs
    by_cases hempty : R = v
    · rw [if_pos hempty]
      exact inv_of_counts hp hc rfl rfl h.dropCons
    · rw [if_neg hempty]
      exact inv_of_counts hp hc rfl rfl (h.offerCons (by omega))
  | consDone =>
    simp only [step] at hs
    split at hs
    · cases hs
    · next i' k hpend =>
      obtain ⟨rfl, rfl, hlt⟩ := h.pendCons i' k hpend
      cases hs
      exact inv_of_consumed hp hc rfl rfl (h.commitCons hlt)
  | prodSync | consRefresh =>
    cases hs
    exact inv_of_counts hp hc rfl rfl h.syncWrite
  | consSync | prodRefresh =>
    cases hs
    exact inv_of_counts hp hc rfl rfl h.syncRead

theorem inv_init (hn : 0 < n) : Inv n bcmWorkqInit [] :=
  ⟨0, 0, 0, 0,
    { prod_write := (Nat.zero_mod n).symm
      prod_read := (Nat.zero_mod n).symm
      cons_write := (Nat.zero_mod n).symm
      cons_read := (Nat.zero_mod n).symm
      r_le := Nat.le_refl 0
      R_le := Nat.le_refl 0
      v_le := Nat.le_refl 0
      room := by omega
      pendProd := nofun
      pendCons := nofun }, rfl, rfl⟩

theorem runs_keep_inv (hn : 0 < n) (es : List Call) (w : Workq) (tr : List (Call × Option Nat))
    (h : runs (step n) bcmWorkqInit es = some (w, tr)) :
    Inv n w tr :=
  runs_inv (step n) (Inv n) (fun s tr e s' r => step_inv s tr e s' r) bcmWorkqInit w es tr
    (inv_init hn) h

/-- The index the producer is offered, by `prod` or `prodPend`, is its counter's. -/
theorem step_prod_index {i : Nat} (h : Counts n w W R r v) (hc : c = .prod ∨ c = .prodPend)
    (hs : step n w c = some (w', some i)) :
    i = W % n ∧ W + 1 - r < n := by
  have hroom := h.room
  have hrW : r ≤ W := Nat.le_trans h.r_le (Nat.le_trans h.R_le h.v_le)
  rcases hc with rfl | rfl
  · simp only [step, bcmRingProd_eq h, Option.some.injEq, Prod.mk.injEq] at hs
    obtain ⟨-, hs⟩ := hs
    split at hs
    · cases hs
    · exact ⟨(Option.some.inj hs).symm, by omega⟩
  · simp only [step, bcmRingProdPend_eq h, Option.some.injEq, Prod.mk.injEq] at hs
    obtain ⟨-, hs⟩ := hs
    split at hs
    · cases hs
    · exact ⟨(Option.some.inj hs).symm, by omega⟩

/-- The index the consumer is offered, by `cons` or `consPend`, is its counter's. -/
theorem step_cons_index {i : Nat} (h : Counts n w W R r v) (hc : c = .cons ∨ c = .consPend)
    (hs : step n w c = some (w', some i)) :
    i = R % n ∧ R < W := by
  have hR := h.R_le
  have hv := h.v_le
  rcases hc with rfl | rfl
  · simp only [step, bcmRingCons_eq h, Option.some.injEq, Prod.mk.injEq] at hs
    obtain ⟨-, hs⟩ := hs
    split at hs
    · cases hs
    · exact ⟨(Option.some.inj hs).symm, by omega⟩
  · simp only [step, bcmRingConsPend_eq h, Option.some.injEq, Prod.mk.injEq] at hs
    obtain ⟨-, hs⟩ := hs
    split at hs
    · cases hs
    · exact ⟨(Option.some.inj hs).symm, by omega⟩

/-- The outstanding indices are those of the counters in `[R, W)`. -/
theorem outstanding_eq {tr : List (Call × Option Nat)}
    (hp : produced tr = (List.range W).map (· % n))
    (hc : consumed tr = (List.range R).map (· % n)) :
    outstanding tr = (List.range' R (W - R)).map (· % n) := by
  unfold outstanding
  rw [hp, hc, List.length_map, List.length_range, ← List.map_drop, List.range_eq_range',
    List.drop_range']
  simp

/-! ## Top theorem -/

/-- **The protocol**, for every ring depth and every interleaving.  The consumer's log
is a prefix of the producer's, whose `k`-th entry is `k % N`; the consumer is only ever
offered the oldest outstanding element; at most `N - 1` elements are outstanding; the
producer is never offered the index of one of them; and when both copies are up to date
the two availability counts add up to `N - 1`. -/
theorem workq_protocol (N : Nat) (hN : 2 ≤ N) (es : List Call) (w : Workq)
    (tr : List (Call × Option Nat)) (h : runs (step N) bcmWorkqInit es = some (w, tr)) :
    consumed tr <+: produced tr ∧
    produced tr = (List.range (produced tr).length).map (· % N) ∧
    (∀ c w' i, c = .cons ∨ c = .consPend → step N w c = some (w', some i) →
      (outstanding tr).head? = some i) ∧
    (outstanding tr).length ≤ N - 1 ∧
    (∀ c w' i, c = .prod ∨ c = .prodPend → step N w c = some (w', some i) →
      i ∉ outstanding tr) ∧
    (w.prod.read = w.cons.read → w.cons.write = w.prod.write →
      bcmRingProdAvail w.prod N + bcmRingConsAvail w.cons N = N - 1 ∧
      bcmRingConsAvail w.cons N = (outstanding tr).length) := by
  obtain ⟨W, R, r, v, hc, hp, hcons⟩ := runs_keep_inv (by omega) es w tr h
  have hroom := hc.room
  have hr := hc.r_le
  have hRW : R ≤ W := Nat.le_trans hc.R_le hc.v_le
  have hout := outstanding_eq hp hcons
  have hlen : (outstanding tr).length = W - R := by simp [hout]
  refine ⟨?_, ?_, ?_, ?_, ?_, ?_⟩
  · rw [hp, hcons]
    exact (List.prefix_iff_eq_take.2 (by
      rw [List.length_range, List.take_range, Nat.min_eq_left hRW])).map _
  · rw [hp]; simp
  · intro c w' i hcall hs
    obtain ⟨rfl, hlt⟩ := step_cons_index hc hcall hs
    rw [hout, List.head?_map, List.head?_range', if_neg (by omega)]; rfl
  · omega
  · intro c w' i hcall hs hmem
    obtain ⟨rfl, hlt⟩ := step_prod_index hc hcall hs
    rw [hout, List.mem_map] at hmem
    obtain ⟨k, hk, he⟩ := hmem
    rw [List.mem_range'_1] at hk
    exact mod_notMem (n := N) (r := R) (w := W) (k := k) (by omega) (by omega) (by omega) he
  · intro h1 h2
    have hpos : 0 < N := by omega
    have hsame : w.cons = w.prod := by
      have e1 : w.cons.read = w.prod.read := h1.symm
      cases hcc : w.cons; cases hpp : w.prod
      rw [hcc, hpp] at e1 h2
      simp_all
    have hread : w.prod.read = R % N := by rw [h1, hc.cons_read]
    rw [hsame, hlen]
    refine ⟨prodAvail_add_consAvail w.prod N ?_ ?_, ?_⟩
    · rw [hc.prod_write]; exact Nat.mod_lt W hpos
    · rw [hread]; exact Nat.mod_lt R hpos
    · exact bcmRingConsAvail_eq w.prod hc.prod_write hread hRW (by omega)

theorem workq_protocol_two :
    consumed [(.prodPend, some 0), (.prodDone, some 0), (.prodSync, none), (.cons, some 0)] <+:
      produced [(.prodPend, some 0), (.prodDone, some 0), (.prodSync, none), (.cons, some 0)] :=
  (workq_protocol 2 (by decide) [.prodPend, .prodDone, .prodSync, .cons]
    ⟨⟨1, 0⟩, ⟨1, 1⟩, none, none⟩
    [(.prodPend, some 0), (.prodDone, some 0), (.prodSync, none), (.cons, some 0)]
    (by decide)).1

end Bcmdhd.WorkQueue
