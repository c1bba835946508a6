import Bcmdhd.Pktq.Refinement

/-!
# The simple packet queue (`struct spktq` of `hnd_pktq.c`)

One chain of packets without precedences.  `Behaves s l`: the queue holds the list `l`, and packets
put behind it, taken from its end or appended to it come and go as on the list.

    Holds s (l₁ ++ cur :: l₂) →
      (spktq_delete_node leaves a queue that behaves as l₁ ++ l₂ ↔ l₁ = [] ∨ l₂ ≠ [])
                                                                        (spktq_delete_node_iff)
    spktq_enq_chain moves the packets ↔ there are none                  (spktq_enq_chain_iff)
-/

namespace Bcmdhd.HndPktq

open Links

variable {Pkt : Type}

/-! ## Algorithm -/

section
variable [DecidableEq Pkt]

/-- `struct spktq`, and the `PKTLINK` of every packet. -/
structure Spktq (Pkt : Type) where
  link : Pkt → Option Pkt
  q : PktqPrec Pkt

def spktqEnq (s : Spktq Pkt) (p : Pkt) : Option (Spktq Pkt) := do
  let link ← setLinkIf (Function.update s.link p none) s.q.head s.q.tail (some p)
  return {
    link := link
    q := { s.q with
      head := if s.q.head.isSome then s.q.head else some p
      tail := some p
      nPkts := uint16 (s.q.nPkts + 1) } }

def spktqDeq (s : Spktq Pkt) : Spktq Pkt × Option Pkt :=
  match s.q.head with
  | none => (s, none)
  | some p =>
    ({ link := Function.update s.link p none
       q := { s.q with
         head := s.link p
         tail := if s.link p = none then none else s.q.tail
         nPkts := uint16 (s.q.nPkts + 0xFFFF) } }, some p)

def spktqDeqTail (s : Spktq Pkt) : Option (Spktq Pkt × Option Pkt) :=
  match s.q.head with
  | none => some (s, none)
  | some _ => do
    let (prev, p) ← walkTo s.link s.q.tail fuel none s.q.head
    let link ← setLinkIf s.link prev prev none
    return ({
      link := link
      q := { s.q with
        head := if prev.isSome then s.q.head else none
        tail := prev
        nPkts := uint16 (s.q.nPkts + 0xFFFF) } }, p)

/-- The chain of `list` behind that of `s`, as both `spktq_append` and `spktq_enq_chain` link it. -/
def linkBehind (s : Spktq Pkt) (list : PktqPrec Pkt) : Option (Spktq Pkt) := do
  let link ← setLinkIf s.link s.q.head s.q.tail list.head
  return {
    link := link
    q := { s.q with
      head := if s.q.head.isSome then s.q.head else list.head
      tail := list.tail
      nPkts := uint16 (s.q.nPkts + list.nPkts) } }

def spktqAppend (s : Spktq Pkt) (list : PktqPrec Pkt) : Option (Spktq Pkt × PktqPrec Pkt) :=
  if list.head = none then some (s, list)
  else do
    let s ← linkBehind s list
    return (s, { list with head := none, tail := none, nPkts := 0 })

/-- Nothing is written to the queue `sspq`. -/
def spktqEnqChain (dspq : Spktq Pkt) (sspq : PktqPrec Pkt) : Option (Spktq Pkt × PktqPrec Pkt) := do
  let s ← linkBehind dspq sspq
  return (s, sspq)

/-- The queue, and the packet behind the one that was deleted. -/
def spktqDeleteNode (s : Spktq Pkt) (prev cur : Option Pkt) : Spktq Pkt × Option Pkt :=
  if cur = s.q.head then ((spktqDeq s).1, (spktqDeq s).1.q.head)
  else
    match prev, cur with
    | some prev, some cur =>
      ({ link := Function.update (Function.update s.link prev (s.link cur)) cur none
         q := { s.q with nPkts := uint16 (s.q.nPkts + 0xFFFF) } }, s.link cur)
    | _, _ => (s, none)

end

/-! ## What a queue holds -/

/-- `head`, `tail` and `n_pkts` describe the chain of these packets. -/
structure PrecHolds (link : Pkt → Option Pkt) (q : PktqPrec Pkt) (l : List Pkt) : Prop where
  chain : Chain link q.head l
  tail : q.tail = l.getLast?
  count : q.nPkts = l.length
  small : l.length ≤ 0xFFFF

def Holds (s : Spktq Pkt) (l : List Pkt) : Prop := PrecHolds s.link s.q l

/-- The queue holds `l`, and is used as `l`. -/
structure Behaves [DecidableEq Pkt] (s : Spktq Pkt) (l : List Pkt) : Prop where
  holds : Holds s l
  enq : ∀ p, p ∉ l → l.length + 1 ≤ 0xFFFF → ∃ t, spktqEnq s p = some t ∧ Holds t (l ++ [p])
  deqTail : ∃ t, spktqDeqTail s = some (t, l.getLast?) ∧ Holds t l.dropLast
  append : ∀ list m, PrecHolds s.link list m → (∀ x ∈ m, x ∉ l) → l.length + m.length ≤ 0xFFFF →
    ∃ t list', spktqAppend s list = some (t, list') ∧ Holds t (l ++ m) ∧ PrecHolds t.link list' []

section
variable {s s' : Spktq Pkt} {l l₁ l₂ m : List Pkt} {p : Pkt} {list : PktqPrec Pkt}

theorem spktqEnq_holds [DecidableEq Pkt] (h : Holds s l) (hp : p ∉ l)
    (hroom : l.length + 1 ≤ 0xFFFF) :
    ∃ t, spktqEnq s p = some t ∧ Holds t (l ++ [p]) ∧
      ∀ x, x ∉ l → x ≠ p → t.link x = s.link x := by
  have hone : Chain (Function.update s.link p none) (some p) [p] := by
    refine ⟨rfl, ?_⟩
    rw [Function.update_self]
    rfl
  obtain ⟨link, hlink, hchain, hframe⟩ := join_tail (h.chain.frame hp none) h.tail hone
    fun x hx => by rwa [List.mem_singleton.mp hx]
  refine ⟨⟨link, { s.q with
    head := if s.q.head.isSome then s.q.head else some p, tail := some p,
    nPkts := uint16 (s.q.nPkts + 1) }⟩, ?_, ⟨hchain, ?_, ?_, ?_⟩, ?_⟩
  · unfold spktqEnq
    rw [hlink]
    rfl
  · exact List.getLast?_concat.symm
  · show uint16 (s.q.nPkts + 1) = _
    rw [h.count, List.length_append]
    exact Nat.mod_eq_of_lt (Nat.lt_succ_of_le hroom)
  · rwa [List.length_append]
  · intro x hx hne
    show link x = s.link x
    rw [hframe x hx, Function.update_of_ne hne]

/-- The packet's place is at the end, for a list that is not empty. -/
theorem spktqDeqTail_holds [DecidableEq Pkt] (h : Holds s l) :
    ∃ t, spktqDeqTail s = some (t, l.getLast?) ∧ Holds t l.dropLast := by
  unfold spktqDeqTail
  rcases List.eq_nil_or_concat l with rfl | ⟨l, p, rfl⟩
  · have hhead : s.q.head = none := h.chain
    rw [hhead]
    exact ⟨s, rfl, h⟩
  · rw [List.concat_eq_append] at h ⊢
    have hchain := h.chain
    have hcount := h.count
    have hsmall := h.small
    have htail := h.tail
    rw [List.getLast?_concat] at htail ⊢
    rw [List.dropLast_concat]
    rw [List.length_append, List.length_singleton] at hcount hsmall
    have hwalk := walkTo_spec hchain (show l.length < fuel by unfold fuel; omega) none
    rw [Option.or_none] at hwalk
    have hcount' : uint16 (s.q.nPkts + 0xFFFF) = l.length := by
      unfold uint16
      omega
    obtain ⟨x, hx⟩ : ∃ x, s.q.head = some x := by
      rw [hchain.head]
      exact Option.isSome_iff_exists.mp (by simp)
    rw [hx]
    dsimp only
    rw [htail, ← hx, hwalk]
    rcases List.eq_nil_or_concat l with rfl | ⟨l, prev, rfl⟩
    · exact ⟨_, rfl, rfl, rfl, hcount', Nat.zero_le _⟩
    · rw [List.concat_eq_append, List.append_assoc] at hchain
      rw [List.concat_eq_append] at hcount' hsmall ⊢
      rw [List.getLast?_concat]
      refine ⟨_, rfl, hchain.cut, ?_, hcount', ?_⟩
      · exact List.getLast?_concat.symm
      · show (l ++ [prev]).length ≤ 0xFFFF
        omega

/-- One chain behind the other; the tail is that of the second one, empty or not. -/
theorem linkBehind_chain [DecidableEq Pkt] (h : Holds s l) (hlist : PrecHolds s.link list m)
    (hdisj : ∀ x ∈ m, x ∉ l) :
    ∃ t, linkBehind s list = some t ∧ Chain t.link t.q.head (l ++ m) ∧ t.q.tail = m.getLast? ∧
      t.q.nPkts = uint16 (l.length + m.length) ∧ ∀ x, x ∉ l → t.link x = s.link x := by
  obtain ⟨link, hlink, hchain, hframe⟩ := join_tail h.chain h.tail hlist.chain hdisj
  refine ⟨⟨link, { s.q with
    head := if s.q.head.isSome then s.q.head else list.head, tail := list.tail,
    nPkts := uint16 (s.q.nPkts + list.nPkts) }⟩, ?_, hchain, hlist.tail, ?_, hframe⟩
  · unfold linkBehind
    rw [hlink]
    rfl
  · show uint16 (s.q.nPkts + list.nPkts) = _
    rw [h.count, hlist.count]

theorem spktqAppend_holds [DecidableEq Pkt] (h : Holds s l) (hlist : PrecHolds s.link list m)
    (hdisj : ∀ x ∈ m, x ∉ l) (hroom : l.length + m.length ≤ 0xFFFF) :
    ∃ t list', spktqAppend s list = some (t, list') ∧ Holds t (l ++ m) ∧
      PrecHolds t.link list' [] := by
  unfold spktqAppend
  by_cases hnil : m = []
  · subst hnil
    have hhead : list.head = none := hlist.chain
    rw [if_pos hhead, List.append_nil]
    exact ⟨s, list, rfl, h, hlist⟩
  · have hhead : list.head ≠ none := fun hn => hnil (hlist.chain.eq_nil_iff.mp hn)
    obtain ⟨t, ht, hchain, htail, hcount, -⟩ := linkBehind_chain h hlist hdisj
    rw [if_neg hhead, ht]
    refine ⟨t, _, rfl, ⟨hchain, ?_, ?_, ?_⟩, rfl, rfl, rfl, Nat.zero_le _⟩
    · rw [htail, List.getLast?_append, List.getLast?_eq_some_getLast hnil]
      rfl
    · rw [hcount, List.length_append]
      exact Nat.mod_eq_of_lt (Nat.lt_succ_of_le hroom)
    · rwa [List.length_append]

theorem Holds.behaves [DecidableEq Pkt] (h : Holds s l) : Behaves s l where
  holds := h
  enq p hp hroom := by
    obtain ⟨t, ht, hl, -⟩ := spktqEnq_holds h hp hroom
    exact ⟨t, ht, hl⟩
  deqTail := spktqDeqTail_holds h
  append _ _ hlist hdisj hroom := spktqAppend_holds h hlist hdisj hroom

/-! ## `spktq_delete_node` -/

theorem spktqDeq_holds [DecidableEq Pkt] (h : Holds s (p :: l)) :
    (spktqDeq s).2 = some p ∧ Holds (spktqDeq s).1 l := by
  have hhead := h.chain.1
  have hrest : Chain s.link (s.link p) l := h.chain.2
  have hp : p ∉ l := (List.nodup_cons.mp h.chain.nodup).1
  have hcount := h.count
  have hsmall := h.small
  rw [List.length_cons] at hcount hsmall
  unfold spktqDeq
  rw [hhead]
  refine ⟨rfl, hrest.frame hp none, ?_, ?_, Nat.le_of_succ_le hsmall⟩
  · show (if s.link p = none then none else s.q.tail) = l.getLast?
    by_cases hnil : l = []
    · subst hnil
      rw [if_pos (show s.link p = none from hrest)]
      rfl
    · rw [if_neg fun hn => hnil (hrest.eq_nil_iff.mp hn), h.tail, List.getLast?_cons,
        List.getLast?_eq_some_getLast hnil]
      rfl
  · show uint16 (s.q.nPkts + 0xFFFF) = l.length
    unfold uint16
    omega

/-- Behind the head the chain and the count are repaired, and the tail stays as it is. -/
theorem spktqDeleteNode_inner [DecidableEq Pkt] {prev cur : Pkt}
    (h : Holds s (l₁ ++ prev :: cur :: l₂)) :
    ∃ t, spktqDeleteNode s (some prev) (some cur) = (t, l₂.head?) ∧
      Chain t.link t.q.head (l₁ ++ prev :: l₂) ∧ t.q.tail = (cur :: l₂).getLast? ∧
      t.q.nPkts = (l₁ ++ prev :: l₂).length := by
  have hchain := h.chain
  have hnd := hchain.nodup
  have hcount := h.count
  have hsmall := h.small
  have hperm := perm_after l₁ l₂ prev cur
  have hcur : cur ∉ l₁ ++ prev :: l₂ := (List.nodup_cons.mp (hperm.nodup_iff.mp hnd)).1
  have hlen := hperm.length_eq
  rw [List.length_cons] at hlen
  have hnext : s.link cur = l₂.head? := by
    have hmid : Chain s.link s.q.head ((l₁ ++ [prev]) ++ cur :: l₂) := by
      rw [List.append_assoc]
      exact hchain
    exact hmid.link_eq
  have hne : some cur ≠ s.q.head := by
    intro heq
    rw [hchain.head] at heq
    apply hcur
    rw [List.head?_append, List.head?_cons] at heq
    cases l₁ with
    | nil =>
      cases heq
      exact List.mem_cons_self
    | cons y l₁ =>
      cases heq
      exact List.mem_cons_self
  obtain ⟨n, hn⟩ : ∃ n, n = uint16 (s.q.nPkts + 0xFFFF) := ⟨_, rfl⟩
  refine ⟨⟨Function.update (Function.update s.link prev (s.link cur)) cur none,
    { s.q with nPkts := n }⟩, ?_, hchain.unlink.frame hcur none, ?_, ?_⟩
  · unfold spktqDeleteNode
    rw [if_neg hne, ← hnext, hn]
  · show s.q.tail = _
    rw [h.tail, List.getLast?_append, List.getLast?_cons_cons,
      List.getLast?_eq_some_getLast (List.cons_ne_nil cur l₂)]
    rfl
  · show n = _
    rw [hn]
    unfold uint16
    omega

/-- **Deleting a node.**  The queue is in order afterwards if and only if the packet was the first
one or was not the last one. -/
theorem spktq_delete_node_iff [DecidableEq Pkt] (s : Spktq Pkt) (l₁ l₂ : List Pkt)
    (prev : Option Pkt) (cur : Pkt)
    (h : Holds s (l₁ ++ cur :: l₂)) (hprev : l₁ ≠ [] → prev = l₁.getLast?) :
    ((spktqDeleteNode s prev (some cur)).2 = l₂.head? ∧
        Behaves (spktqDeleteNode s prev (some cur)).1 (l₁ ++ l₂)) ↔
      l₁ = [] ∨ l₂ ≠ [] := by
  rcases List.eq_nil_or_concat l₁ with rfl | ⟨l, x, rfl⟩
  · refine iff_of_true ?_ (.inl rfl)
    obtain ⟨-, hdeq⟩ := spktqDeq_holds h
    unfold spktqDeleteNode
    rw [if_pos h.chain.1.symm]
    exact ⟨hdeq.chain.head, hdeq.behaves⟩
  · rw [List.concat_eq_append] at h hprev ⊢
    obtain rfl : prev = some x := by
      rw [hprev (by simp), List.getLast?_concat]
    rw [List.append_assoc, List.singleton_append] at h
    obtain ⟨t, ht, hchain, htail, hcount⟩ := spktqDeleteNode_inner h
    have hsmall := h.small
    rw [ht, List.append_assoc, List.singleton_append]
    have hperm := (perm_after l l₂ x cur).length_eq
    rw [List.length_cons] at hperm
    cases l₂ with
    | nil =>
      refine iff_of_false ?_ (by simp)
      rintro ⟨-, hb⟩
      have heq := hb.holds.tail
      rw [htail, List.getLast?_concat] at heq
      obtain rfl : cur = x := Option.some.inj heq
      have hnd := h.chain.nodup
      exact absurd (List.nodup_append.mp hnd).2.1 (by simp)
    | cons y l₂ =>
      refine iff_of_true ⟨rfl, Holds.behaves ⟨hchain, ?_, hcount, by omega⟩⟩ (.inr (by simp))
      rw [htail, List.getLast?_cons_cons, List.getLast?_append, List.getLast?_cons_cons,
        List.getLast?_eq_some_getLast (List.cons_ne_nil y l₂)]
      rfl

end

/-- A queue of these packets. -/
def queueOf (link : Nat → Option Nat) (l : List Nat) : Spktq Nat := ⟨link, spktqOf l⟩

/-- Packets 1 to 3, each linked to the next one. -/
def threeLinks : Nat → Option Nat
  | 1 => some 2
  | 2 => some 3
  | _ => none

theorem queueOf_holds : Holds (queueOf threeLinks [1, 2, 3]) [1, 2, 3] :=
  ⟨⟨rfl, rfl, rfl, rfl⟩, rfl, rfl, by decide⟩

/-- The packet in the middle. -/
theorem spktq_delete_node_iff_middle :
    ((spktqDeleteNode (queueOf threeLinks [1, 2, 3]) (some 1) (some 2)).2 = some 3 ∧
      Behaves (spktqDeleteNode (queueOf threeLinks [1, 2, 3]) (some 1) (some 2)).1 [1, 3]) ↔
      [1] = [] ∨ [3] ≠ [] :=
  spktq_delete_node_iff (queueOf threeLinks [1, 2, 3]) [1] [3] (some 1) 2 queueOf_holds
    fun _ => rfl

/-- When the last packet is deleted, `tail` still points to it. -/
theorem spktq_delete_node_fails :
    ¬ ∀ (s : Spktq Nat) l₁ l₂ prev cur, Holds s (l₁ ++ cur :: l₂) →
      (l₁ ≠ [] → prev = l₁.getLast?) →
      Behaves (spktqDeleteNode s prev (some cur)).1 (l₁ ++ l₂) := by
  intro h
  have hb := h (queueOf threeLinks [1, 2, 3]) [1, 2] [] (some 2) 3 queueOf_holds fun _ => rfl
  exact absurd hb.holds.tail (by decide)

/-! ## `spktq_enq_chain` -/

section
variable {l m : List Pkt}

/-- The packets are in the one queue, in order, and out of the other one. -/
def Moved (res : Option (Spktq Pkt × PktqPrec Pkt)) (l m : List Pkt) : Prop :=
  ∃ d sspq, res = some (d, sspq) ∧ Holds d (l ++ m) ∧
    ∀ x, ¬ (Visits d.link d.q.head x ∧ Visits d.link sspq.head x)

/-- **Chaining.**  The source keeps its packets, and an empty one leaves the destination without
a tail: the call does what it is for when both queues are empty. -/
theorem spktq_enq_chain_iff [DecidableEq Pkt] (dspq : Spktq Pkt) (sspq : PktqPrec Pkt)
    (l m : List Pkt)
    (hd : Holds dspq l) (hs : PrecHolds dspq.link sspq m) (hdisj : ∀ x ∈ m, x ∉ l) :
    Moved (spktqEnqChain dspq sspq) l m ↔ l = [] ∧ m = [] := by
  obtain ⟨t, ht, hchain, htail, hcount, hframe⟩ := linkBehind_chain hd hs hdisj
  have hres : spktqEnqChain dspq sspq = some (t, sspq) := by
    unfold spktqEnqChain
    rw [ht]
    rfl
  constructor
  · rintro ⟨d, sq, heq, hholds, hno⟩
    rw [hres] at heq
    cases heq
    have hm : m = [] := by
      cases m with
      | nil => rfl
      | cons x m =>
        -- the first packet of the source is the source's head still
        refine absurd ⟨?_, ?_⟩ (hno x)
        · rw [hchain.visits_iff]
          exact List.mem_append_right l List.mem_cons_self
        · rw [hs.chain.head]
          exact .here
    subst hm
    have hlast := hholds.tail
    rw [htail, List.append_nil] at hlast
    exact ⟨List.getLast?_eq_none_iff.mp hlast.symm, rfl⟩
  · rintro ⟨rfl, rfl⟩
    refine ⟨t, sspq, hres, ⟨hchain, htail, hcount, Nat.zero_le _⟩, ?_⟩
    rintro x ⟨hx, -⟩
    rw [hchain.visits_iff] at hx
    cases hx

end

/-- Two empty queues, and two packets chained onto one. -/
theorem spktq_enq_chain_iff_two :
    (Moved (spktqEnqChain (queueOf (fun _ => none) []) (spktqOf [])) [] [] ↔
      ([] : List Nat) = [] ∧ ([] : List Nat) = []) ∧
    (Moved (spktqEnqChain (queueOf (fun p => if p = 2 then some 3 else none) [1]) (spktqOf [2, 3]))
      [1] [2, 3] ↔ ([1] : List Nat) = [] ∧ ([2, 3] : List Nat) = []) :=
  ⟨spktq_enq_chain_iff (queueOf (fun _ => none) []) (spktqOf []) [] []
      ⟨rfl, rfl, rfl, Nat.zero_le _⟩ ⟨rfl, rfl, rfl, Nat.zero_le _⟩ nofun,
    spktq_enq_chain_iff (queueOf (fun p => if p = 2 then some 3 else none) [1]) (spktqOf [2, 3])
      [1] [2, 3] ⟨⟨rfl, rfl⟩, rfl, rfl, by decide⟩ ⟨⟨rfl, rfl, rfl⟩, rfl, rfl, by decide⟩
      (by decide)⟩

/-- A packet chained onto another one is in both queues; nothing chained onto a packet takes the
tail away. -/
theorem spktq_enq_chain_fails :
    ¬ ∀ (dspq : Spktq Nat) sspq l m, Holds dspq l → PrecHolds dspq.link sspq m →
      (∀ x ∈ m, x ∉ l) → Moved (spktqEnqChain dspq sspq) l m := by
  intro h
  obtain ⟨d, sq, heq, hholds, -⟩ := h (queueOf (fun _ => none) [1]) (spktqOf []) [1] []
    ⟨⟨rfl, rfl⟩, rfl, rfl, by decide⟩ ⟨rfl, rfl, rfl, by decide⟩ nofun
  cases heq
  exact absurd hholds.tail (by decide)

end Bcmdhd.HndPktq
