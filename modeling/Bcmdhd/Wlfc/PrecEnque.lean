import Mathlib.Data.List.Sort
import Bcmdhd.Pktq.Refinement
import Bcmdhd.Wlfc.Model

/-!
# Packets put in their place (`_dhd_wlfc_prec_enque`)

A suppressed packet goes back among the others by its free-running counter, which has 8 bits and is
read relative to the next number `currentSeq`: what is not less is from before the wrap.  Here
`num` is the number of a packet without the wrap, and `cur` the next one.

    num p < cur ≤ num p + 256  →  adjustedSeq p = num p + const         (adjustedSeq_window)
    after every call the queue holds the lists with one packet more, put at the requested end, or
      else by its number                                            (psq_in_order)
-/

namespace Bcmdhd.Wlfc.PrecEnque

open HndPktq Buckets Links Runs

variable {Pkt : Type}

/-! ## Algorithm -/

section
variable [DecidableEq Pkt]


/-- `_dhd_wlfc_adjusted_seq`; `ctr` is the counter in the tag of a packet. -/
def adjustedSeq (ctr : Pkt → BitVec 8) (currentSeq : BitVec 8) : Option Pkt → Nat
  | none => 0xffff
  | some p => if ctr p < currentSeq then (ctr p).toNat + 256 else (ctr p).toNat

/-- The links, the head and the tail of a queue. -/
structure Ends (Pkt : Type) where
  link : Pkt → Option Pkt
  head : Option Pkt
  tail : Option Pkt

def atHead (link : Pkt → Option Pkt) (q : PktqPrec Pkt) (p : Pkt) : Ends Pkt :=
  ⟨Function.update link p q.head, some p, q.tail⟩

/-- "need reorder" -/
def enqueReorder (link : Pkt → Option Pkt) (q : PktqPrec Pkt) (seq : Option Pkt → Nat) (p : Pkt) :
    Option (Ends Pkt) := do
  let (prev, p2) ← walk link (fun x => seq (some p) ≤ seq (some x)) fuel none q.head
  match prev, p2 with
  | none, _ => return atHead link q p
  | some prev, none => return ⟨Function.update link prev (some p), q.head, some p⟩
  | some prev, some _ =>
    return ⟨Function.update (Function.update link p (link prev)) prev (some p), q.head, q.tail⟩

def enqueEnd (link : Pkt → Option Pkt) (q : PktqPrec Pkt) (p : Pkt) (qHead : Bool) :
    Option (Ends Pkt) :=
  if qHead then some (atHead link q p)
  else do
    let link ← setLink link q.tail (some p)
    return ⟨link, q.head, some p⟩

/-- The packet is out of order at the requested end. -/
def needReorder (q : PktqPrec Pkt) (seq : Option Pkt → Nat) (p : Pkt) (qHead : Bool) : Bool :=
  if qHead then seq q.head < seq (some p) + 1 else seq (some p) < seq q.tail + 1

/-- The branches of `_dhd_wlfc_prec_enque`. -/
def enque (link : Pkt → Option Pkt) (q : PktqPrec Pkt) (seq : Option Pkt → Nat) (p : Pkt)
    (qHead reOrder : Bool) : Option (Ends Pkt) :=
  if q.head = none then some ⟨link, some p, some p⟩
  else if reOrder && needReorder q seq p qHead then enqueReorder link q seq p
  else enqueEnd link q p qHead

/-- `_dhd_wlfc_prec_enque`; the odd precedences are those of suppressed packets. -/
def precEnque (ctr : Pkt → BitVec 8) (s : Pktq Pkt) (prec : Nat) (p : Option Pkt) (qHead : Bool)
    (currentSeq : BitVec 8) (reOrder : Bool) : Option (Pktq Pkt) :=
  match p with
  | none => some s
  | some p =>
    (enque s.link (s.q prec) (adjustedSeq ctr currentSeq) p qHead (reOrder && prec % 2 = 1)).map
      fun e => enter s prec e.link e.head e.tail 1

end

/-! ## One call, on lists -/

/-- Before the first packet that is not older. -/
def inOrder (seq : Pkt → Nat) (p : Pkt) (l : List Pkt) : List Pkt :=
  l.orderedInsert (fun x y => seq x ≤ seq y) p

def atEnd (qHead : Bool) (p : Pkt) (l : List Pkt) : List Pkt := if qHead then p :: l else l ++ [p]

def outOfOrder (seq : Pkt → Nat) (qHead : Bool) (p : Pkt) (l : List Pkt) : Bool :=
  if qHead then l.head?.all fun x => seq x < seq p + 1 else l.getLast?.all fun x => seq p < seq x + 1

def placed (seq : Pkt → Nat) (reOrder qHead : Bool) (p : Pkt) (l : List Pkt) : List Pkt :=
  if reOrder && outOfOrder seq qHead p l then inOrder seq p l else atEnd qHead p l

theorem placed_nil (seq : Pkt → Nat) (reOrder qHead : Bool) (p : Pkt) :
    placed seq reOrder qHead p [] = [p] := by
  unfold placed atEnd
  split
  · rfl
  · cases qHead <;> rfl

theorem inOrder_perm (seq : Pkt → Nat) (p : Pkt) (l : List Pkt) : (inOrder seq p l).Perm (p :: l) :=
  List.perm_orderedInsert _ p l

theorem atEnd_perm (qHead : Bool) (p : Pkt) (l : List Pkt) : (atEnd qHead p l).Perm (p :: l) := by
  cases qHead with
  | true => exact List.Perm.refl _
  | false => exact List.perm_append_comm

theorem placed_perm (seq : Pkt → Nat) (reOrder qHead : Bool) (p : Pkt) (l : List Pkt) :
    (placed seq reOrder qHead p l).Perm (p :: l) := by
  unfold placed
  split
  · exact inOrder_perm seq p l
  · exact atEnd_perm qHead p l

variable {p : Pkt} {l : List Pkt} {num : Pkt → Nat}

theorem inOrder_past (seq : Pkt → Nat) {l₁ : List Pkt} (l₂ : List Pkt)
    (h : ∀ x ∈ l₁, seq x < seq p) : inOrder seq p (l₁ ++ l₂) = l₁ ++ inOrder seq p l₂ := by
  unfold inOrder
  induction l₁ with
  | nil => rfl
  | cons x xs ih =>
    have hx : ¬ seq p ≤ seq x := Nat.not_le.mpr (h x List.mem_cons_self)
    rw [List.cons_append, List.orderedInsert_cons, if_neg hx,
      ih fun y hy => h y (List.mem_cons_of_mem x hy)]
    rfl

theorem inOrder_here {seq : Pkt → Nat} {x : Pkt} (h : seq p ≤ seq x) :
    inOrder seq p (x :: l) = p :: x :: l := by
  unfold inOrder
  rw [List.orderedInsert_cons, if_pos h]

/-! ## One call, on links -/

section
variable {s : Pktq Pkt} {link : Pkt → Option Pkt} {q : PktqPrec Pkt} {l : List Pkt} {p : Pkt}

/-- The ends are those of `l'`, and only links of `l` and `p` were written. -/
structure Holds (link : Pkt → Option Pkt) (p : Pkt) (l : List Pkt) (e : Ends Pkt) (l' : List Pkt) :
    Prop where
  chain : Chain e.link e.head l'
  tail : e.tail = l'.getLast?
  frame : ∀ x, x ∉ p :: l → e.link x = link x

theorem atHead_holds [DecidableEq Pkt] (hc : Chain link q.head l) (ht : q.tail = l.getLast?)
    (hp : p ∉ l)
    (hne : l ≠ []) : Holds link p l (atHead link q p) (p :: l) where
  chain := by
    refine ⟨rfl, ?_⟩
    show Chain (Function.update link p q.head) (Function.update link p q.head p) l
    rw [Function.update_self]
    exact hc.frame hp _
  tail := by
    show q.tail = _
    rw [ht, List.getLast?_cons, List.getLast?_eq_some_getLast hne]
    rfl
  frame := by
    intro x hx
    exact Function.update_of_ne (List.ne_of_not_mem_cons hx) _ _

theorem behind_holds [DecidableEq Pkt] {prev : Pkt} {l₁ : List Pkt}
    (hc : Chain link q.head (l₁ ++ [prev]))
    (hnull : link p = none) (hp : p ∉ l₁ ++ [prev]) :
    Holds link p (l₁ ++ [prev]) ⟨Function.update link prev (some p), q.head, some p⟩
      (l₁ ++ [prev] ++ [p]) where
  chain := by
    have hone : Chain link (some p) [p] := ⟨rfl, hnull⟩
    have hpp : prev ∉ [p] := by
      intro hm
      rw [List.mem_singleton] at hm
      exact hp (by rw [hm]; simp)
    rw [List.append_assoc]
    exact hc.concat hone hpp
  tail := by simp
  frame := by
    intro x hx
    apply Function.update_of_ne
    rintro rfl
    exact hx (by simp)

theorem between_holds [DecidableEq Pkt] {prev y : Pkt} {l₁ l₂ : List Pkt}
    (hc : Chain link q.head (l₁ ++ prev :: y :: l₂))
    (ht : q.tail = (l₁ ++ prev :: y :: l₂).getLast?) (hp : p ∉ l₁ ++ prev :: y :: l₂) :
    Holds link p (l₁ ++ prev :: y :: l₂)
      ⟨Function.update (Function.update link p (link prev)) prev (some p), q.head, q.tail⟩
      (l₁ ++ prev :: p :: y :: l₂) where
  chain := hc.insert hp
  tail := by
    show q.tail = _
    rw [ht, List.getLast?_append, List.getLast?_append, List.getLast?_cons_cons,
      List.getLast?_cons_cons, List.getLast?_cons_cons]
  frame := by
    intro x hx
    show Function.update (Function.update link p (link prev)) prev (some p) x = link x
    rw [Function.update_of_ne, Function.update_of_ne]
    · rintro rfl
      exact hx List.mem_cons_self
    · rintro rfl
      exact hx (by simp)

/-- The walk goes past the older ones. -/
theorem enqueReorder_holds [DecidableEq Pkt] {seq : Option Pkt → Nat} (hc : Chain link q.head l)
    (ht : q.tail = l.getLast?) (hlen : l.length < fuel) (hnull : link p = none) (hp : p ∉ l)
    (hne : l ≠ []) :
    ∃ e, enqueReorder link q seq p = some e ∧
      Holds link p l e (inOrder (fun x => seq (some x)) p l) := by
  have hwalk := walk_spec (fun x => decide (seq (some p) ≤ seq (some x))) hc hlen none
  have hlt : ∀ x, decide (seq (some p) ≤ seq (some x)) = false → seq (some x) < seq (some p) :=
    fun x hx => Nat.not_le.mp (of_decide_eq_false hx)
  unfold enqueReorder
  rcases hwalk with ⟨hno, -⟩ | ⟨l₁, y, l₂, rfl, hno, hy, hw⟩
  · -- all of them are older
    have hpast := walk_past hc hlen hno none
    rw [Option.or_none] at hpast
    obtain ⟨l₁, prev, rfl⟩ : ∃ l₁ prev, l = l₁ ++ [prev] := by
      rcases List.eq_nil_or_concat l with hnil | ⟨l₁, t, hl⟩
      · exact absurd hnil hne
      · exact ⟨l₁, t, hl.trans List.concat_eq_append⟩
    rw [List.getLast?_append, List.getLast?_singleton, Option.some_or] at hpast
    rw [hpast]
    refine ⟨_, rfl, ?_⟩
    have hin : inOrder (fun x => seq (some x)) p (l₁ ++ [prev]) = l₁ ++ [prev] ++ [p] := by
      have hpre := inOrder_past (fun x => seq (some x)) [] fun x hx => hlt x (hno x hx)
      rwa [List.append_nil] at hpre
    rw [hin]
    exact behind_holds hc hnull hp
  · have hle : seq (some p) ≤ seq (some y) := of_decide_eq_true hy
    have hin : inOrder (fun x => seq (some x)) p (l₁ ++ y :: l₂) = l₁ ++ p :: y :: l₂ := by
      rw [inOrder_past (fun x => seq (some x)) _ fun x hx => hlt x (hno x hx)]
      exact congrArg (l₁ ++ ·) (inOrder_here hle)
    rw [hin]
    rw [Option.or_none] at hw
    rcases List.eq_nil_or_concat l₁ with rfl | ⟨l₀, prev, rfl⟩
    · rw [List.getLast?_nil] at hw
      rw [List.nil_append] at hc ht hp hne ⊢
      rw [hw]
      exact ⟨_, rfl, atHead_holds hc ht hp hne⟩
    · rw [List.concat_eq_append] at hc ht hp hw ⊢
      rw [List.getLast?_append, List.getLast?_singleton, Option.some_or] at hw
      rw [List.append_assoc, List.singleton_append] at hc ht hp ⊢
      rw [hw]
      refine ⟨_, rfl, ?_⟩
      rw [List.append_assoc, List.singleton_append]
      exact between_holds hc ht hp

theorem enqueEnd_holds [DecidableEq Pkt] (hc : Chain link q.head l) (ht : q.tail = l.getLast?)
    (hnull : link p = none) (hp : p ∉ l) (hne : l ≠ []) (qHead : Bool) :
    ∃ e, enqueEnd link q p qHead = some e ∧ Holds link p l e (atEnd qHead p l) := by
  cases qHead with
  | true => exact ⟨_, rfl, atHead_holds hc ht hp hne⟩
  | false =>
    rcases List.eq_nil_or_concat l with hnil | ⟨l₁, prev, rfl⟩
    · exact absurd hnil hne
    · rw [List.concat_eq_append] at hc ht hp ⊢
      refine ⟨⟨Function.update link prev (some p), q.head, some p⟩, ?_, behind_holds hc hnull hp⟩
      unfold enqueEnd
      rw [ht, List.getLast?_append, List.getLast?_singleton, Option.some_or]
      rfl

/-- The test of the code, on the list. -/
theorem needReorder_eq {seq : Option Pkt → Nat} (hc : Chain link q.head l) (ht : q.tail = l.getLast?)
    (hne : l ≠ []) (qHead : Bool) :
    needReorder q seq p qHead = outOfOrder (fun x => seq (some x)) qHead p l := by
  unfold needReorder outOfOrder
  rw [hc.head, ht, List.head?_eq_some_head hne, List.getLast?_eq_some_getLast hne]
  rfl

theorem enque_holds [DecidableEq Pkt] (seq : Option Pkt → Nat) (hc : Chain link q.head l)
    (ht : q.tail = l.getLast?)
    (hlen : l.length < fuel) (hnull : link p = none) (hp : p ∉ l) (qHead reOrder : Bool) :
    ∃ e, enque link q seq p qHead reOrder = some e ∧
      Holds link p l e (placed (fun x => seq (some x)) reOrder qHead p l) := by
  unfold enque
  by_cases hnil : l = []
  · subst hnil
    rw [if_pos (show q.head = none from hc), placed_nil]
    exact ⟨_, rfl, ⟨rfl, hnull⟩, rfl, fun _ _ => rfl⟩
  · have hhead : q.head ≠ none := fun hn => hnil (hc.eq_nil_iff.1 hn)
    rw [if_neg hhead, needReorder_eq hc ht hnil]
    unfold placed
    by_cases hre : (reOrder && outOfOrder (fun x => seq (some x)) qHead p l) = true
    · rw [if_pos hre, if_pos hre]
      exact enqueReorder_holds hc ht hlen hnull hp hnil
    · rw [if_neg hre, if_neg hre]
      exact enqueEnd_holds hc ht hnull hp hnil qHead

end

section
variable {n prec : Nat} {s : Pktq Pkt} {a : Queues Pkt}

/-- **One call**, when the packet is not queued and there is room for it. -/
theorem precEnque_refines [DecidableEq Pkt] (h : Refines n s a) (hc : asserts s (.penq prec p))
    (ctr : Pkt → BitVec 8) (qHead : Bool) (currentSeq : BitVec 8) (reOrder : Bool) :
    ∃ s', precEnque ctr s prec (some p) qHead currentSeq reOrder = some s' ∧
      Refines n s' (Function.update a prec
        (placed (fun x => adjustedSeq ctr currentSeq (some x)) (reOrder && prec % 2 = 1) qHead p
          (a prec))) := by
  obtain ⟨hp, hnull, ⟨-, -, hroom⟩, hnew⟩ := hc
  rw [h.numPrec_eq] at hp
  obtain ⟨e, he, hh⟩ := enque_holds (adjustedSeq ctr currentSeq) (h.chain prec hp)
    (h.tail prec hp) (h.length_lt hp) hnull (h.notMem_of_notMem_queued hp hnew) qHead
    (reOrder && prec % 2 = 1)
  refine ⟨enter s prec e.link e.head e.tail [p].length, ?_, ?_⟩
  · unfold precEnque
    dsimp only
    rw [he]
    rfl
  · refine h.enter hp hroom ?_ (placed_perm _ _ _ _ _) hh.chain hh.tail ?_
    · intro x hx
      rwa [List.mem_singleton.1 hx]
    · intro x hx hx'
      apply hh.frame
      intro hm
      exact hx' ((placed_perm _ _ _ _ _).mem_iff.mpr hm)

/-! ## Order -/

/-- Oldest first. -/
def Sorted (num : Pkt → Nat) (l : List Pkt) : Prop := l.Pairwise fun x y => num x < num y

/-- One of the 256 numbers before `cur`. -/
def InWindow (cur n : Nat) : Prop := n < cur ∧ cur ≤ n + 256

/-- The counter in the tag of packet number `num p`. -/
def ctrOf (num : Pkt → Nat) (p : Pkt) : BitVec 8 := BitVec.ofNat 8 (num p)

/-- In the window the wrap is undone. -/
theorem adjustedSeq_window {cur : Nat} (h : InWindow cur (num p)) :
    adjustedSeq (ctrOf num) (BitVec.ofNat 8 cur) (some p) + cur = num p + cur % 256 + 256 := by
  obtain ⟨hlt, hle⟩ := h
  have hiff : ctrOf num p < BitVec.ofNat 8 cur ↔ num p % 256 < cur % 256 := by
    rw [BitVec.lt_def]
    unfold ctrOf
    rw [BitVec.toNat_ofNat, BitVec.toNat_ofNat]
  have hnat : (ctrOf num p).toNat = num p % 256 := BitVec.toNat_ofNat _ _
  unfold adjustedSeq
  dsimp only
  rw [hnat]
  by_cases hwrap : num p % 256 < cur % 256
  · rw [if_pos (hiff.mpr hwrap)]
    omega
  · rw [if_neg (fun hc => hwrap (hiff.mp hc))]
    omega

theorem adjustedSeq_lt_iff {cur : Nat} {q : Pkt} (hp : InWindow cur (num p))
    (hq : InWindow cur (num q)) :
    adjustedSeq (ctrOf num) (BitVec.ofNat 8 cur) (some p) <
      adjustedSeq (ctrOf num) (BitVec.ofNat 8 cur) (some q) ↔ num p < num q := by
  have h1 := adjustedSeq_window hp
  have h2 := adjustedSeq_window hq
  omega

theorem inOrder_sorted (hl : Sorted num l) (hne : ∀ q ∈ l, num q ≠ num p) :
    Sorted num (inOrder num p l) := by
  induction l with
  | nil => exact List.pairwise_singleton _ _
  | cons q l ih =>
    unfold Sorted at hl
    rw [List.pairwise_cons] at hl
    have hq := hne q List.mem_cons_self
    by_cases hle : num p ≤ num q
    · rw [inOrder_here hle]
      refine List.pairwise_cons.mpr ⟨?_, List.pairwise_cons.mpr hl⟩
      intro x hx
      rcases List.mem_cons.1 hx with rfl | hx
      · omega
      · have := hl.1 x hx
        omega
    · have hrest := ih hl.2 fun x hx => hne x (List.mem_cons_of_mem q hx)
      have hpast : inOrder num p ([q] ++ l) = [q] ++ inOrder num p l := by
        refine inOrder_past num l fun x hx => ?_
        rw [List.mem_singleton.1 hx]
        omega
      rw [List.singleton_append] at hpast
      rw [hpast]
      refine List.pairwise_cons.mpr ⟨?_, hrest⟩
      intro x hx
      rcases List.mem_cons.1 ((inOrder_perm num p l).mem_iff.mp hx) with rfl | hx
      · omega
      · exact hl.1 x hx

/-- Where both numberings agree on the packets, they have the same place. -/
theorem inOrder_congr {seq : Pkt → Nat} (h : ∀ x ∈ l, seq p ≤ seq x ↔ num p ≤ num x) :
    inOrder seq p l = inOrder num p l := by
  induction l with
  | nil => rfl
  | cons x l ih =>
    have hrest := ih fun y hy => h y (List.mem_cons_of_mem x hy)
    unfold inOrder at hrest ⊢
    rw [List.orderedInsert_cons, List.orderedInsert_cons, hrest]
    simp only [h x List.mem_cons_self]

/-- A packet in order at the requested end has its place there. -/
theorem placed_eq_inOrder (hl : Sorted num l) (qHead : Bool)
    (hin : outOfOrder num qHead p l = false) : atEnd qHead p l = inOrder num p l := by
  cases qHead with
  | true =>
    cases l with
    | nil => rfl
    | cons x l =>
      have hlt : ¬ num x < num p + 1 := of_decide_eq_false hin
      exact (inOrder_here (by omega)).symm
  | false =>
    have hpast : inOrder num p (l ++ []) = l ++ [p] := by
      refine inOrder_past num [] fun x hx => ?_
      rcases List.eq_nil_or_concat l with rfl | ⟨l₀, t, rfl⟩
      · cases hx
      · rw [List.concat_eq_append] at hl hin hx
        unfold outOfOrder at hin
        rw [if_neg Bool.false_ne_true, List.getLast?_append, List.getLast?_singleton,
          Option.some_or] at hin
        have hlt : ¬ num p < num t + 1 := of_decide_eq_false hin
        rcases List.mem_append.1 hx with hx | hx
        · have := (List.pairwise_append.1 hl).2.2 x hx t (List.mem_singleton_self t)
          omega
        · rw [List.mem_singleton.1 hx]
          omega
    rw [List.append_nil] at hpast
    exact hpast.symm

theorem outOfOrder_congr {seq : Pkt → Nat} (qHead : Bool)
    (h : ∀ x ∈ l, (seq x < seq p ↔ num x < num p) ∧ (seq p < seq x ↔ num p < num x)) :
    outOfOrder seq qHead p l = outOfOrder num qHead p l := by
  have hopt : ∀ (o : Option Pkt) (f g : Pkt → Bool), (∀ x ∈ o, f x = g x) → o.all f = o.all g := by
    intro o f g hfg
    cases o with
    | none => rfl
    | some x => exact hfg x rfl
  unfold outOfOrder
  cases qHead with
  | true =>
    refine hopt _ _ _ fun x hx => decide_eq_decide.mpr ?_
    have := h x (List.mem_of_mem_head? hx)
    omega
  | false =>
    refine hopt _ _ _ fun x hx => decide_eq_decide.mpr ?_
    have := h x (List.mem_of_mem_getLast? hx)
    omega

/-- **In the window the place is the one by the number.** -/
theorem placed_window {cur : Nat} (hl : Sorted num l) (hw : ∀ x ∈ p :: l, InWindow cur (num x))
    (qHead : Bool) :
    placed (fun x => adjustedSeq (ctrOf num) (BitVec.ofNat 8 cur) (some x)) true qHead p l =
      inOrder num p l := by
  have hp := hw p List.mem_cons_self
  have hlt : ∀ x ∈ l, _ := fun x hx => (⟨adjustedSeq_lt_iff (hw x (List.mem_cons_of_mem p hx)) hp,
    adjustedSeq_lt_iff hp (hw x (List.mem_cons_of_mem p hx))⟩ : _ ∧ _)
  unfold placed
  rw [Bool.true_and, outOfOrder_congr qHead hlt]
  by_cases hout : outOfOrder num qHead p l = true
  · rw [if_pos hout]
    refine inOrder_congr fun x hx => ?_
    have := (hlt x hx).1
    omega
  · rw [if_neg hout]
    exact placed_eq_inOrder hl qHead (by simpa using hout)

end

/-! ## Runs -/

/-- A call, with the next number `cur` of which `currentSeq` is the last 8 bits. -/
structure Call (Pkt : Type) where
  prec : Nat
  p : Pkt
  qHead : Bool
  cur : Nat
  reOrder : Bool

/-- The call is to reorder. -/
def Call.sorts (c : Call Pkt) : Bool := c.reOrder && c.prec % 2 = 1

/-- The assertions of the call, and that a packet enters once; where it is to reorder, the numbers
are distinct and in the window. -/
def allowed (num : Pkt → Nat) (s : Pktq Pkt) (c : Call Pkt) : Prop :=
  asserts s (.penq c.prec c.p) ∧
    (c.sorts = true → InWindow c.cur (num c.p) ∧
      ∀ x ∈ visit s.link fuel (s.q c.prec).head, num x ≠ num c.p ∧ InWindow c.cur (num x))

def exec [DecidableEq Pkt] (num : Pkt → Nat) (s : Pktq Pkt) (c : Call Pkt) : Option (Pktq Pkt) :=
  precEnque (ctrOf num) s c.prec (some c.p) c.qHead (BitVec.ofNat 8 c.cur) c.reOrder

instance (cur n : Nat) : Decidable (InWindow cur n) := inferInstanceAs (Decidable (_ ∧ _))

instance [DecidableEq Pkt] (num : Pkt → Nat) (s : Pktq Pkt) (c : Call Pkt) :
    Decidable (allowed num s c) :=
  inferInstanceAs (Decidable (_ ∧ (_ → _ ∧ ∀ _ ∈ _, _ ∧ _)))

/-- The result says that the call went through without a fault. -/
def step [DecidableEq Pkt] (num : Pkt → Nat) (s : Pktq Pkt) (c : Call Pkt) : Option
    (Pktq Pkt × Bool) :=
  if allowed num s c then some ((exec num s c).getD s, (exec num s c).isSome) else none

/-- What the call did to the lists. -/
structure Enqueued (num : Pkt → Nat) (c : Call Pkt) (a a' : Queues Pkt) : Prop where
  others : ∀ i, i ≠ c.prec → a' i = a i
  perm : (a' c.prec).Perm (c.p :: a c.prec)
  /-- an even precedence, or `reOrder` FALSE -/
  end_ : c.sorts = false → a' c.prec = if c.qHead then c.p :: a c.prec else a c.prec ++ [c.p]
  sorted : c.sorts = true → Sorted num (a c.prec) → Sorted num (a' c.prec)

/-- The lists after each of the calls. -/
inductive Steps (num : Pkt → Nat) (a : Queues Pkt) : List (Call Pkt) → Queues Pkt → Prop
  | nil : Steps num a [] a
  | snoc {cs : List (Call Pkt)} {c : Call Pkt} {a' a'' : Queues Pkt} (h : Steps num a cs a')
      (hc : Enqueued num c a' a'') : Steps num a (cs ++ [c]) a''

/-- A queue that only reorders stays in order. -/
theorem Steps.sorted {a a' : Queues Pkt} {cs : List (Call Pkt)} (h : Steps num a cs a') {k : Nat}
    (hk : Sorted num (a k)) (hcs : ∀ c ∈ cs, c.prec = k → c.sorts = true) : Sorted num (a' k) := by
  induction h with
  | nil => exact hk
  | @snoc cs c a' a'' _ hc ih =>
    have hprev := ih fun d hd => hcs d (List.mem_append_left _ hd)
    by_cases heq : c.prec = k
    · subst heq
      exact hc.sorted (hcs c (by simp) rfl) hprev
    · rw [hc.others k (Ne.symm heq)]
      exact hprev

section
variable {n : Nat} {s s' : Pktq Pkt} {a : Queues Pkt} {num : Pkt → Nat}

theorem step_enqueued [DecidableEq Pkt] (h : Refines n s a) {c : Call Pkt} {ok : Bool}
    (hs : step num s c = some (s', ok)) :
    ok = true ∧ ∃ a', Refines n s' a' ∧ Enqueued num c a a' := by
  unfold step at hs
  split at hs
  · next hall =>
    obtain ⟨hassert, hwin⟩ := hall
    obtain ⟨t, ht, hr⟩ := precEnque_refines h hassert (ctrOf num) c.qHead (BitVec.ofNat 8 c.cur)
      c.reOrder
    have hexec : exec num s c = some t := ht
    rw [hexec] at hs
    cases hs
    refine ⟨rfl, _, hr, ?_⟩
    have hlen : c.prec < n := by
      have hlt := hassert.1
      rwa [h.numPrec_eq] at hlt
    have hvisit : visit s.link fuel (s.q c.prec).head = a c.prec :=
      visit_eq (h.chain c.prec hlen) (h.length_lt hlen)
    rw [hvisit] at hwin
    have hsorts : (c.reOrder && decide (c.prec % 2 = 1)) = c.sorts := rfl
    rw [hsorts]
    refine ⟨fun i hi => Function.update_of_ne hi _ _, ?_, ?_, ?_⟩
    · rw [Function.update_self]
      exact placed_perm _ _ _ _ _
    · intro hno
      rw [Function.update_self, hno]
      rfl
    · intro hyes hsort
      obtain ⟨hp, hq⟩ := hwin hyes
      rw [Function.update_self, hyes, placed_window hsort ?_]
      · exact inOrder_sorted hsort fun x hx => (hq x hx).1
      · intro x hx
        rcases List.mem_cons.1 hx with rfl | hx
        · exact hp
        · exact (hq x hx).2
  · cases hs

/-- **Suppressed packets stay in transmission order.**  After every call the queue holds the lists
with one packet more (`Enqueued`), and a queue of suppressed packets that was in order still is. -/
theorem psq_in_order [DecidableEq Pkt] (h : Refines n s a) {cs : List (Call Pkt)}
    {tr : List (Call Pkt × Bool)}
    (hrun : runs (step num) s cs = some (s', tr)) :
    (∀ e ∈ tr, e.2 = true) ∧ ∃ a', Refines n s' a' ∧ Steps num a cs a' ∧
      ∀ k, Sorted num (a k) → (∀ c ∈ cs, c.prec = k → c.sorts = true) → Sorted num (a' k) := by
  have hinv := runs_inv (step num)
    (fun t tr => (∀ e ∈ tr, e.2 = true) ∧
      ∃ a', Refines n t a' ∧ Steps num a (tr.map Prod.fst) a') ?_ s s' cs tr
    ⟨nofun, a, h, .nil⟩ hrun
  · obtain ⟨hok, a', hr, hsteps⟩ := hinv
    rw [runs_calls hrun] at hsteps
    exact ⟨hok, a', hr, hsteps, fun k => hsteps.sorted⟩
  · rintro t tr c t' ok ⟨hok, a', hr, hsteps⟩ hs
    obtain ⟨hone, a'', hr', henq⟩ := step_enqueued hr hs
    refine ⟨?_, a'', hr', ?_⟩
    · intro e he
      rcases List.mem_append.1 he with he | he
      · exact hok e he
      · rw [List.mem_singleton.1 he]
        exact hone
    · rw [List.map_append]
      exact hsteps.snoc henq

end

/-- Packets by their numbers, over the wrap at 256; the last one is not a suppressed one. -/
def overWrap : List (Call Nat) :=
  [⟨1, 257, false, 258, true⟩, ⟨1, 254, false, 259, true⟩, ⟨1, 256, true, 260, true⟩,
    ⟨0, 300, true, 0, true⟩]

theorem psq_in_order_over_wrap : ∃ s tr a,
    runs (step id) (init (fun _ => none) 10 8) overWrap = some (s, tr) ∧
      Refines 10 s a ∧ Sorted id (a 1) ∧ visit s.link fuel (s.q 1).head = [254, 256, 257] := by
  have h0 : Refines 10 (init (fun _ : Nat => none) 10 8) fun _ => [] :=
    init_refines _ 8 (by decide) (by decide)
  obtain ⟨-, a, hr, -, hsorted⟩ := psq_in_order h0
    (rfl : runs (step id) (init (fun _ => none) 10 8) overWrap = some (_, _))
  exact ⟨_, _, a, rfl, hr, hsorted 1 List.Pairwise.nil (by decide), rfl⟩

/-! ## The queues of a destination -/

/-- The queue of precedence `i` of a `psq`. -/
def precAt (i : Nat) : Option Prec := if h : i / 2 < 5 then some ⟨⟨i / 2, h⟩, i % 2 = 1⟩ else none

def psqOf (s : State) (d : Dest) : Queues Id := fun i => (precAt i).elim [] (s.psq d)

theorem precAt_num (k : Prec) : precAt k.num = some k := by
  obtain ⟨⟨ac, hac⟩, sup⟩ := k
  cases sup with
  | false =>
    have hdiv : (2 * ac + 0) / 2 = ac := by omega
    have hmod : ¬ (2 * ac + 0) % 2 = 1 := by omega
    simp [precAt, Prec.num, hac]
  | true =>
    have hdiv : (2 * ac + 1) / 2 = ac := by omega
    have hmod : (2 * ac + 1) % 2 = 1 := by omega
    simp [precAt, Prec.num, hdiv, hmod, hac]

theorem num_of_precAt {i : Nat} {k : Prec} (h : precAt i = some k) : i = k.num := by
  unfold precAt at h
  split at h
  · cases h
    show i = 2 * (i / 2) + (decide (i % 2 = 1)).toNat
    by_cases hodd : i % 2 = 1
    · rw [decide_eq_true hodd, Bool.toNat_true]
      omega
    · rw [decide_eq_false hodd, Bool.toNat_false]
      omega
  · cases h

theorem psqOf_num (s : State) (d : Dest) (k : Prec) : psqOf s d k.num = s.psq d k := by
  unfold psqOf
  rw [precAt_num]
  rfl

theorem psqOf_setPsq (s : State) (d : Dest) (k : Prec) (l : List Id) :
    psqOf (s.setPsq d k l) d = Function.update (psqOf s d) k.num l := by
  have hpsq : (s.setPsq d k l).psq d = Function.update (s.psq d) k l := Function.update_self _ _ _
  funext i
  by_cases hi : i = k.num
  · subst hi
    rw [psqOf_num, hpsq, Function.update_self, Function.update_self]
  · rw [Function.update_of_ne hi]
    unfold psqOf
    rw [hpsq]
    cases hk : precAt i with
    | none => rfl
    | some j =>
      have hne : j ≠ k := by
        rintro rfl
        exact hi (num_of_precAt hk)
      exact Function.update_of_ne hne _ _

theorem insertBySeq_eq (seq : Id → Nat) (p : Id) (l : List Id) :
    insertBySeq seq p l = inOrder seq p l := by
  induction l with
  | nil => rfl
  | cons q l ih =>
    unfold insertBySeq
    by_cases hlt : seq q < seq p
    · have hpast : inOrder seq p ([q] ++ l) = [q] ++ inOrder seq p l :=
        inOrder_past seq l fun x hx => by rwa [List.mem_singleton.1 hx]
      rw [if_pos hlt, ih]
      exact hpast.symm
    · rw [if_neg hlt, inOrder_here (Nat.not_lt.mp hlt)]

/-- What the model of the whole component does to a queue. -/
theorem precEnque_eq_placed (cfg : Cfg) (s : State) (d : Dest) (k : Prec) (p : Id) (qHead : Bool) :
    Wlfc.precEnque cfg s d k p qHead =
      s.setPsq d k (placed (fun x => adjustedSeq (fun x => (s.tag x).ctr)
        ((s.entry d).seq k.ac) (some x)) (cfg.reorderSupp && k.sup) qHead p (s.psq d k)) := by
  have hseq : Wlfc.adjustedSeq s ((s.entry d).seq k.ac) = fun x =>
      adjustedSeq (fun x => (s.tag x).ctr) ((s.entry d).seq k.ac) (some x) := rfl
  unfold Wlfc.precEnque
  dsimp only
  rw [hseq]
  generalize (fun x => adjustedSeq (fun x => (s.tag x).ctr) ((s.entry d).seq k.ac) (some x)) = seq
  congr 1
  generalize s.psq d k = l
  cases l with
  | nil =>
    rw [placed_nil]
    cases qHead with
    | true => exact ite_self [p]
    | false => exact ite_self [p]
  | cons q l =>
    unfold placed outOfOrder
    rw [List.getLast?_cons, List.getLastD_cons]
    cases cfg.reorderSupp <;> cases k.sup <;> cases qHead <;> simp [atEnd, insertBySeq_eq]

/-- **The queue of a destination goes on holding its packets.** -/
theorem precEnque_simulates {cfg : Cfg} {s : State} {d : Dest} {pq : Pktq Id}
    (h : Refines 10 pq (psqOf s d)) {k : Prec} {p : Id} (hc : asserts pq (.penq k.num p))
    (qHead : Bool) :
    ∃ pq', precEnque (fun x => (s.tag x).ctr) pq k.num (some p) qHead ((s.entry d).seq k.ac)
        cfg.reorderSupp = some pq' ∧
      Refines 10 pq' (psqOf (Wlfc.precEnque cfg s d k p qHead) d) := by
  obtain ⟨pq', hpq, hr⟩ := precEnque_refines h hc (fun x => (s.tag x).ctr) qHead
    ((s.entry d).seq k.ac) cfg.reorderSupp
  refine ⟨pq', hpq, ?_⟩
  have hodd : decide (k.num % 2 = 1) = k.sup := by
    obtain ⟨ac, sup⟩ := k
    cases sup with
    | false =>
      have hmod : ¬ (2 * ac.val + 0) % 2 = 1 := by omega
      exact decide_eq_false hmod
    | true =>
      have hmod : (2 * ac.val + 1) % 2 = 1 := by omega
      exact decide_eq_true hmod
  rw [precEnque_eq_placed, psqOf_setPsq, ← psqOf_num, ← hodd]
  exact hr

end Bcmdhd.Wlfc.PrecEnque
