import Bcmdhd.Lib.Scan
import Bcmdhd.Pktq.Queue

/-!
# An array of lists

What a `struct pktq` is for: each precedence is a list of packets, first packet first.
`Refines` says that a queue holds such lists, and `Refines.enter`, `Refines.leave` that it
still does when packets enter or leave one of its chains.
-/

namespace Bcmdhd.HndPktq

open Buckets Links Scan

variable {Pkt : Type}

/-! ## The array of lists -/

section
variable [DecidableEq Pkt]


abbrev Queues (Pkt : Type) := Nat → List Pkt

def nonEmpty (a : Queues Pkt) (prec : Nat) : Bool := !(a prec).isEmpty

/-- The first packet of queue `prec` is taken, or none if it is empty. -/
def takeFirst (a : Queues Pkt) (prec : Nat) (precOut : Option Nat) : Queues Pkt × Result Pkt :=
  (Function.update a prec (a prec).tail, .pkt (a prec).head? precOut)

def takeLast (a : Queues Pkt) (prec : Nat) (precOut : Option Nat) : Queues Pkt × Result Pkt :=
  (Function.update a prec (a prec).dropLast, .pkt (a prec).getLast? precOut)

/-- The queue `prec` is used, if there is one. -/
def withPrec (a : Queues Pkt) (prec : Option Nat) (f : Nat → Queues Pkt × Result Pkt) :
    Queues Pkt × Result Pkt :=
  match prec with
  | none => (a, .pkt none none)
  | some prec => f prec

def deqFrom (a : Queues Pkt) (prec : Option Nat) : Queues Pkt × Result Pkt :=
  withPrec a prec fun prec => takeFirst a prec (some prec)

def deqTailFrom (a : Queues Pkt) (prec : Option Nat) : Queues Pkt × Result Pkt :=
  withPrec a prec fun prec => takeLast a prec (some prec)

def peekFrom (a : Queues Pkt) (prec : Option Nat) : Queues Pkt × Result Pkt :=
  withPrec a prec fun prec => (a, .pkt (a prec).head? (some prec))

def peekTailFrom (a : Queues Pkt) (prec : Option Nat) : Queues Pkt × Result Pkt :=
  withPrec a prec fun prec => (a, .pkt (a prec).getLast? (some prec))

/-- The highest precedence of the bitmap with a packet. -/
def highestIn (n : Nat) (a : Queues Pkt) (precBmp : Nat) : Option Nat :=
  highest (fun prec => precBmp.testBit prec && nonEmpty a prec) n

def matching (fn : Option (Pkt → Bool)) (p : Pkt) : Bool := fn.all fun f => f p

/-- What the calls do to the lists of `numPrec` queues. -/
def listExec (numPrec : Nat) (a : Queues Pkt) : Call Pkt → Queues Pkt × Result Pkt
  | .penq prec p => (Function.update a prec (a prec ++ [p]), .pkt (some p) none)
  | .penqHead prec p => (Function.update a prec (p :: a prec), .pkt (some p) none)
  | .pdeq prec => takeFirst a prec none
  | .pdeqTail prec => takeLast a prec none
  | .pdeqWithFn prec fn =>
    (Function.update a prec ((a prec).eraseP (matching fn)),
      .pkt ((a prec).find? (matching fn)) none)
  | .pdel none _ => (a, .bool false)
  | .pdel (some pktbuf) prec =>
    (Function.update a prec ((a prec).erase pktbuf), .bool ((a prec).contains pktbuf))
  | .append prec pkts =>
    (Function.update a prec (a prec ++ pkts), .list ⟨none, none, 0, pkts.length⟩)
  | .prepend prec pkts =>
    (Function.update a prec (pkts ++ a prec), .list ⟨none, none, 0, pkts.length⟩)
  | .deq => deqFrom a (highest (nonEmpty a) numPrec)
  | .deqTail => deqTailFrom a (lowest (nonEmpty a) numPrec)
  | .peek => peekFrom a (highest (nonEmpty a) numPrec)
  | .peekTail => peekTailFrom a (lowest (nonEmpty a) numPrec)
  | .mdeq precBmp => deqFrom a (highestIn numPrec a precBmp)
  | .mpeek precBmp => peekFrom a (highestIn numPrec a precBmp)
  | .mlen precBmp =>
    (a, .len ((((List.range numPrec).filter precBmp.testBit).map fun prec =>
      (a prec).length).sum))
  | .setLink _ _ => (a, .done)

def listStep (numPrec : Nat) (a : Queues Pkt) (c : Call Pkt) : Option (Queues Pkt × Result Pkt) :=
  some (listExec numPrec a c)

end

/-! ## The refinement -/

/-- **The queue holds the lists.**  Below `numPrec`, each chain visits the list of its
precedence, and ends at `tail`; the counters count; and above `hi_prec` the lists are
empty. -/
structure Refines (numPrec : Nat) (s : Pktq Pkt) (a : Queues Pkt) : Prop where
  numPrec_eq : s.numPrec = numPrec
  num_le : numPrec ≤ 16
  hi_lt : s.hiPrec < numPrec
  chain : ∀ prec < numPrec, Chain s.link (s.q prec).head (a prec)
  tail : ∀ prec < numPrec, (s.q prec).tail = (a prec).getLast?
  count : ∀ prec < numPrec, (s.q prec).nPkts = (a prec).length
  total : s.nPktsTot = (entries (List.range numPrec) a).length
  small : s.nPktsTot ≤ 0xFFFF
  nodup : (entries (List.range numPrec) a).Nodup
  above : ∀ prec < numPrec, s.hiPrec < prec → a prec = []

section
variable {n prec : Nat} {s s' : Pktq Pkt} {a : Queues Pkt}

theorem Refines.length_le (h : Refines n s a) (hp : prec < n) : (a prec).length ≤ s.nPktsTot := by
  have hsplit := entries_perm_split List.nodup_range (List.mem_range.2 hp) a
  have hlen := hsplit.length_eq
  rw [List.length_append, ← h.total] at hlen
  omega

theorem Refines.length_lt (h : Refines n s a) (hp : prec < n) : (a prec).length < fuel := by
  have hle := h.length_le hp
  have hsmall := h.small
  unfold fuel
  omega

theorem Refines.queued_eq (h : Refines n s a) : queued s = entries (List.range n) a := by
  unfold queued entries
  rw [h.numPrec_eq]
  apply List.flatMap_congr
  intro prec hp
  have hp := List.mem_range.1 hp
  exact visit_eq (h.chain prec hp) (h.length_lt hp)

/-- What holds of the changed queue, and of the others, holds of all of them. -/
theorem forall_update {P : Nat → PktqPrec Pkt → List Pkt → Prop} {q : Nat → PktqPrec Pkt}
    {q' : PktqPrec Pkt} {l : List Pkt} (hself : P prec q' l)
    (hother : ∀ i < n, i ≠ prec → P i (q i) (a i)) :
    ∀ i < n, P i (Function.update q prec q' i) (Function.update a prec l i) := by
  intro i hi
  by_cases heq : i = prec
  · subst heq
    rw [Function.update_self, Function.update_self]
    exact hself
  · rw [Function.update_of_ne heq, Function.update_of_ne heq]
    exact hother i hi heq

/-- One queue changed, by writes to the links of its own packets only. -/
theorem Refines.update (h : Refines n s a) (hp : prec < n) {q' : PktqPrec Pkt} {l : List Pkt}
    (hnum : s'.numPrec = s.numPrec) (hq : s'.q = Function.update s.q prec q')
    (hchain : Chain s'.link q'.head l) (htail : q'.tail = l.getLast?)
    (hcount : q'.nPkts = l.length)
    (hframe : ∀ x, x ∉ a prec → x ∉ l → s'.link x = s.link x)
    (hnew : ∀ x ∈ l, x ∈ a prec ∨ x ∉ entries (List.range n) a)
    (htot : s'.nPktsTot + (a prec).length = s.nPktsTot + l.length) (hsmall : s'.nPktsTot ≤ 0xFFFF)
    (hhi : s'.hiPrec < n)
    (habove : ∀ i < n, s'.hiPrec < i → i ≠ prec → a i = []) (hself : s'.hiPrec < prec → l = []) :
    Refines n s' (Function.update a prec l) := by
  have hmem := List.mem_range.2 hp
  have hsplit := entries_perm_split List.nodup_range hmem a
  have hsplit' := entries_update List.nodup_range hmem a l
  have hnd := (hsplit.nodup_iff).1 h.nodup
  obtain ⟨-, hrest, hdisj⟩ := List.nodup_append.1 hnd
  -- a packet of another queue is in neither list of this one
  have hother : ∀ i < n, i ≠ prec → ∀ x ∈ a i, x ∉ a prec ∧ x ∉ l := by
    intro i hi hne x hx
    have hxr : x ∈ entries (List.range n) (Function.update a prec []) := by
      rw [mem_entries]
      refine ⟨i, List.mem_range.2 hi, ?_⟩
      rw [Function.update_of_ne hne]
      exact hx
    have hxa : x ∉ a prec := fun hm => hdisj x hm x hxr rfl
    refine ⟨hxa, ?_⟩
    intro hxl
    rcases hnew x hxl with hm | hm
    · exact hxa hm
    · exact hm (mem_entries.2 ⟨i, List.mem_range.2 hi, hx⟩)
  refine ⟨hnum.trans h.numPrec_eq, h.num_le, hhi, ?_, ?_, ?_, ?_, hsmall, ?_, ?_⟩
  · rw [hq]
    refine forall_update (P := fun _ q l => Chain s'.link q.head l) hchain ?_
    intro i hi hne
    apply (h.chain i hi).congr
    intro x hx
    obtain ⟨hxa, hxl⟩ := hother i hi hne x hx
    exact hframe x hxa hxl
  · rw [hq]
    exact forall_update (P := fun _ q l => q.tail = l.getLast?) htail fun i hi _ => h.tail i hi
  · rw [hq]
    exact forall_update (P := fun _ q l => q.nPkts = l.length) hcount fun i hi _ => h.count i hi
  · have hl := hsplit.length_eq
    have hl' := hsplit'.length_eq
    rw [List.length_append] at hl hl'
    have ht := h.total
    omega
  · rw [hsplit'.nodup_iff, List.nodup_append]
    refine ⟨hchain.nodup, hrest, ?_⟩
    rintro x hx _ hxr rfl
    rcases hnew x hx with hm | hm
    · exact hdisj x hm x hxr rfl
    · apply hm
      rw [hsplit.mem_iff, List.mem_append]
      exact .inr hxr
  · intro i hi hlt
    by_cases heq : i = prec
    · subst heq
      rw [Function.update_self]
      exact hself hlt
    · rw [Function.update_of_ne heq]
      exact habove i hi hlt heq

theorem raiseHi_eq (s : Pktq Pkt) (hp : prec < 0x100) : raiseHi s prec = max s.hiPrec prec := by
  unfold raiseHi
  split
  · rw [Nat.mod_eq_of_lt hp]
    omega
  · omega

/-- Packets entered a queue. -/
theorem Refines.enter (h : Refines n s a) (hp : prec < n) {link : Pkt → Option Pkt}
    {head tail : Option Pkt} {l pkts : List Pkt} (hroom : s.nPktsTot + pkts.length ≤ 0xFFFF)
    (hnew : ∀ p ∈ pkts, p ∉ queued s) (hperm : l.Perm (pkts ++ a prec))
    (hchain : Chain link head l) (htail : tail = l.getLast?)
    (hframe : ∀ x, x ∉ a prec → x ∉ l → link x = s.link x) :
    Refines n (enter s prec link head tail pkts.length) (Function.update a prec l) := by
  have hnle := h.num_le
  have hlt := h.hi_lt
  have hle := h.length_le hp
  have hcount := h.count prec hp
  have hlen := hperm.length_eq
  rw [List.length_append] at hlen
  have hhi : (HndPktq.enter s prec link head tail pkts.length).hiPrec = max s.hiPrec prec :=
    raiseHi_eq s (by omega)
  have htot : (HndPktq.enter s prec link head tail pkts.length).nPktsTot =
      s.nPktsTot + pkts.length := Nat.mod_eq_of_lt (by omega)
  refine h.update hp rfl rfl hchain htail ?_ hframe ?_ ?_ ?_ ?_ ?_ ?_
  · show uint16 ((s.q prec).nPkts + pkts.length) = l.length
    unfold uint16
    omega
  · intro x hx
    rcases List.mem_append.1 (hperm.mem_iff.1 hx) with hx | hx
    · have hno := hnew x hx
      rw [h.queued_eq] at hno
      exact .inr hno
    · exact .inl hx
  · omega
  · omega
  · omega
  · intro i hi hlt _
    exact h.above i hi (by omega)
  · intro hlt
    omega

/-- A packet left a queue. -/
theorem Refines.leave (h : Refines n s a) (hp : prec < n) {link : Pkt → Option Pkt}
    {head tail : Option Pkt} {l : List Pkt} {p : Pkt} (hperm : (a prec).Perm (p :: l))
    (hchain : Chain link head l) (htail : tail = l.getLast?)
    (hframe : ∀ x, x ∉ a prec → link x = s.link x) :
    Refines n (leave s prec link head tail) (Function.update a prec l) := by
  have hlen := hperm.length_eq
  rw [List.length_cons] at hlen
  have hle := h.length_le hp
  have hsmall := h.small
  have hlt := h.hi_lt
  have hcount := h.count prec hp
  have htot : (HndPktq.leave s prec link head tail).nPktsTot = s.nPktsTot - 1 := by
    show uint16 (s.nPktsTot + 0xFFFF) = s.nPktsTot - 1
    unfold uint16
    omega
  refine h.update hp rfl rfl hchain htail ?_ (fun x hx _ => hframe x hx) ?_ ?_ ?_ hlt ?_ ?_
  · show uint16 ((s.q prec).nPkts + 0xFFFF) = l.length
    unfold uint16
    omega
  · intro x hx
    exact .inl (hperm.mem_iff.2 (List.mem_cons_of_mem p hx))
  · omega
  · omega
  · intro i hi hlt _
    exact h.above i hi hlt
  · intro hlt
    rw [h.above prec hp hlt] at hlen
    cases hlen

/-- The link of a packet that is not queued does not matter. -/
theorem Refines.frame [DecidableEq Pkt] (h : Refines n s a) {x : Pkt}
    (hx : x ∉ entries (List.range n) a)
    (v : Option Pkt) : Refines n { s with link := Function.update s.link x v } a where
  numPrec_eq := h.numPrec_eq
  num_le := h.num_le
  hi_lt := h.hi_lt
  chain := by
    intro i hi
    apply (h.chain i hi).frame
    intro hm
    exact hx (mem_entries.2 ⟨i, List.mem_range.2 hi, hm⟩)
  tail := h.tail
  count := h.count
  total := h.total
  small := h.small
  nodup := h.nodup
  above := h.above

theorem Refines.notMem_of_notMem_queued (h : Refines n s a) (hp : prec < n) {x : Pkt}
    (hx : x ∉ queued s) : x ∉ a prec := by
  intro hm
  rw [h.queued_eq] at hx
  exact hx (mem_entries.2 ⟨prec, List.mem_range.2 hp, hm⟩)

end

end Bcmdhd.HndPktq
