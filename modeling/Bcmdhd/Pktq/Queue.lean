import Mathlib.Algebra.GroupWithZero.Nat
import Bcmdhd.Lib.Buckets
import Bcmdhd.Lib.Links

/-!
# The multi-precedence packet queue (`hnd_pktq.c`)

A `struct pktq` keeps a chain of packets for each precedence, linked by `PKTLINK`, two
counters and the hint `hi_prec`.  The mutex, the stall counters and the callers' marks
are left out.

An operation is `none` where `NULL` is dereferenced or a loop over a chain does not end;
a step then gives `Result.fault`.
-/

namespace Bcmdhd.HndPktq

open Buckets Links

variable {Pkt : Type} [DecidableEq Pkt]

/-! ## The queue -/

/-- Queue for a single precedence level. -/
structure PktqPrec (Pkt : Type) where
  head : Option Pkt
  tail : Option Pkt
  nPkts : Nat
  maxPkts : Nat

/-- `struct pktq`, and the `PKTLINK` of every packet. -/
structure Pktq (Pkt : Type) where
  link : Pkt → Option Pkt
  numPrec : Nat
  /-- rapid dequeue hint (>= highest non-empty prec) -/
  hiPrec : Nat
  maxPkts : Nat
  nPktsTot : Nat
  q : Nat → PktqPrec Pkt

inductive Result (Pkt : Type)
  /-- the packet, and the precedence if it is written to `prec_out` -/
  | pkt (p : Option Pkt) (precOut : Option Nat)
  | bool (ret : Bool)
  | len (len : Nat)
  /-- what is left of a list -/
  | list (list : PktqPrec Pkt)
  | done
  /-- `NULL` was dereferenced or a loop does not end -/
  | fault

/-- The counters are `uint16`. -/
def uint16 (n : Nat) : Nat := n % 0x10000

/-- A bound for the loops over chains; they must not need it. -/
def fuel : Nat := 0x10000

/-- `PKTSETLINK` -/
def setLink (link : Pkt → Option Pkt) (p next : Option Pkt) : Option (Pkt → Option Pkt) :=
  p.map fun p => Function.update link p next

/-- `if (cond) PKTSETLINK(p, next);` -/
def setLinkIf (link : Pkt → Option Pkt) (cond p next : Option Pkt) :
    Option (Pkt → Option Pkt) :=
  if cond.isSome then setLink link p next else some link

def init (link : Pkt → Option Pkt) (numPrec maxPkts : Nat) : Pktq Pkt where
  link := link
  numPrec := uint16 numPrec
  hiPrec := 0
  maxPkts := uint16 maxPkts
  nPktsTot := 0
  q := fun _ => ⟨none, none, 0, uint16 maxPkts⟩

def raiseHi (s : Pktq Pkt) (prec : Nat) : Nat :=
  if s.hiPrec < prec then prec % 0x100 else s.hiPrec

/-- `n` packets entered the chain of `prec`, which now goes from `head` to `tail`. -/
def enter (s : Pktq Pkt) (prec : Nat) (link : Pkt → Option Pkt) (head tail : Option Pkt)
    (n : Nat) : Pktq Pkt :=
  { s with
    link := link
    hiPrec := raiseHi s prec
    nPktsTot := uint16 (s.nPktsTot + n)
    q := Function.update s.q prec
      { s.q prec with head := head, tail := tail, nPkts := uint16 ((s.q prec).nPkts + n) } }

/-- One packet left the chain of `prec`. -/
def leave (s : Pktq Pkt) (prec : Nat) (link : Pkt → Option Pkt) (head tail : Option Pkt) :
    Pktq Pkt :=
  { s with
    link := link
    nPktsTot := uint16 (s.nPktsTot + 0xFFFF)
    q := Function.update s.q prec
      { s.q prec with head := head, tail := tail, nPkts := uint16 ((s.q prec).nPkts + 0xFFFF) } }

def pktqPenq (s : Pktq Pkt) (prec : Nat) (p : Pkt) : Option (Pktq Pkt × Result Pkt) := do
  let q := s.q prec
  let link ← setLinkIf s.link q.head q.tail (some p)
  return (enter s prec link (if q.head.isSome then q.head else some p) (some p) 1,
    .pkt (some p) none)

def pktqPenqHead (s : Pktq Pkt) (prec : Nat) (p : Pkt) : Option (Pktq Pkt × Result Pkt) := do
  let q := s.q prec
  let link ← setLink s.link (some p) q.head
  return (enter s prec link (some p) (if q.head = none then some p else q.tail) 1,
    .pkt (some p) none)

/-- Unlinks `p`, the head of its queue. -/
def takeHead (s : Pktq Pkt) (prec : Nat) (p : Pkt) : Pktq Pkt :=
  leave s prec (Function.update s.link p none) (s.link p)
    (if s.link p = none then none else (s.q prec).tail)

/-- Unlinks `p`, the successor of `prev`. -/
def takeAfter (s : Pktq Pkt) (prec : Nat) (prev p : Pkt) : Pktq Pkt :=
  let q := s.q prec
  leave s prec (Function.update (Function.update s.link prev (s.link p)) p none) q.head
    (if q.tail = some p then some prev else q.tail)

/-- Unlinks the tail. -/
def takeTail (s : Pktq Pkt) (prec : Nat) : Option (Pktq Pkt × Option Pkt) := do
  let q := s.q prec
  let (prev, p) ← walkTo s.link q.tail fuel none q.head
  let link ← setLinkIf s.link prev prev none
  return (leave s prec link (if prev.isSome then q.head else none) prev, p)

def pktqPdeq (s : Pktq Pkt) (prec : Nat) : Pktq Pkt × Result Pkt :=
  match (s.q prec).head with
  | none => (s, .pkt none none)
  | some p => (takeHead s prec p, .pkt (some p) none)

def pktqPdeqTail (s : Pktq Pkt) (prec : Nat) : Option (Pktq Pkt × Result Pkt) :=
  match (s.q prec).head with
  | none => some (s, .pkt none none)
  | some _ => do
    let (s, p) ← takeTail s prec
    return (s, .pkt p none)

/-- Without a function every packet matches. -/
def pktqPdeqWithFn (s : Pktq Pkt) (prec : Nat) (fn : Option (Pkt → Bool)) :
    Option (Pktq Pkt × Result Pkt) := do
  let (prev, p) ← walk s.link (fun p => fn.all fun f => f p) fuel none (s.q prec).head
  match p, prev with
  | none, _ => return (s, .pkt none none)
  | some p, none => return (takeHead s prec p, .pkt (some p) none)
  | some p, some prev => return (takeAfter s prec prev p, .pkt (some p) none)

def pktqPdel (s : Pktq Pkt) (pktbuf : Option Pkt) (prec : Nat) :
    Option (Pktq Pkt × Result Pkt) :=
  match pktbuf with
  | none => some (s, .bool false)
  | some pktbuf =>
    if (s.q prec).head = some pktbuf then some (takeHead s prec pktbuf, .bool true)
    else do
      let (_, p) ← walk s.link (fun p => s.link p == some pktbuf) fuel none (s.q prec).head
      match p with
      | none => return (s, .bool false)
      | some p => return (takeAfter s prec p pktbuf, .bool true)

/-- The list is a `struct spktq`. -/
def pktqAppend (s : Pktq Pkt) (prec : Nat) (list : PktqPrec Pkt) :
    Option (Pktq Pkt × Result Pkt) :=
  if list.head = none then some (s, .list list)
  else do
    let q := s.q prec
    let link ← setLinkIf s.link q.head q.tail list.head
    return (enter s prec link (if q.head.isSome then q.head else list.head) list.tail list.nPkts,
      .list { list with head := none, tail := none, nPkts := 0 })

def pktqPrepend (s : Pktq Pkt) (prec : Nat) (list : PktqPrec Pkt) :
    Option (Pktq Pkt × Result Pkt) :=
  if list.head = none then some (s, .list list)
  else do
    let q := s.q prec
    let link ← setLink s.link list.tail q.head
    return (enter s prec link list.head (if q.tail = none then list.tail else q.tail) list.nPkts,
      .list { list with head := none, tail := none, nPkts := 0 })

/-! ## Over all precedences -/

/-- `while ((prec = hi_prec) > 0 && q[prec].head == NULL) hi_prec--;` -/
def lowerHi (q : Nat → PktqPrec Pkt) : Nat → Nat
  | 0 => 0
  | prec + 1 => if (q (prec + 1)).head = none then lowerHi q prec else prec + 1

/-- `for (prec = 0; prec < hi_prec; prec++) if (q[prec].head) break;` -/
def lowestPrec (s : Pktq Pkt) : Nat :=
  ((List.range s.hiPrec).find? fun prec => (s.q prec).head.isSome).getD s.hiPrec

/-- The first precedence from `prec` down in the bitmap and with a packet. -/
def maskedPrec (q : Nat → PktqPrec Pkt) (precBmp : Nat) : Nat → Option Nat
  | 0 => if precBmp.testBit 0 && (q 0).head.isSome then some 0 else none
  | prec + 1 =>
    if precBmp.testBit (prec + 1) && (q (prec + 1)).head.isSome then some (prec + 1)
    else maskedPrec q precBmp prec

def pktqDeq (s : Pktq Pkt) : Pktq Pkt × Result Pkt :=
  if s.nPktsTot = 0 then (s, .pkt none none)
  else
    let prec := lowerHi s.q s.hiPrec
    let s := { s with hiPrec := prec }
    match (s.q prec).head with
    | none => (s, .pkt none none)
    | some p => (takeHead s prec p, .pkt (some p) (some prec))

def pktqDeqTail (s : Pktq Pkt) : Option (Pktq Pkt × Result Pkt) :=
  if s.nPktsTot = 0 then some (s, .pkt none none)
  else
    let prec := lowestPrec s
    match (s.q prec).head with
    | none => some (s, .pkt none none)
    | some _ => do
      let (s, p) ← takeTail s prec
      let link ← setLink s.link p none
      return ({ s with link := link }, .pkt p (some prec))

def pktqPeek (s : Pktq Pkt) : Pktq Pkt × Result Pkt :=
  if s.nPktsTot = 0 then (s, .pkt none none)
  else
    let prec := lowerHi s.q s.hiPrec
    ({ s with hiPrec := prec }, .pkt (s.q prec).head (some prec))

def pktqPeekTail (s : Pktq Pkt) : Pktq Pkt × Result Pkt :=
  if s.nPktsTot = 0 then (s, .pkt none none)
  else (s, .pkt (s.q (lowestPrec s)).tail (some (lowestPrec s)))

/-- Return sum of lengths of a specific set of precedences. -/
def pktqMlen (s : Pktq Pkt) (precBmp : Nat) : Nat :=
  (((List.range (s.hiPrec + 1)).filter precBmp.testBit).map fun prec => (s.q prec).nPkts).sum

/-- Priority peek from a specific set of precedences. -/
def pktqMpeek (s : Pktq Pkt) (precBmp : Nat) : Pktq Pkt × Result Pkt :=
  if s.nPktsTot = 0 then (s, .pkt none none)
  else
    let s := { s with hiPrec := lowerHi s.q s.hiPrec }
    match maskedPrec s.q precBmp s.hiPrec with
    | none => (s, .pkt none none)
    | some prec =>
      match (s.q prec).head with
      | none => (s, .pkt none none)
      | some p => (s, .pkt (some p) (some prec))

/-- Priority dequeue from a specific set of precedences. -/
def pktqMdeq (s : Pktq Pkt) (precBmp : Nat) : Pktq Pkt × Result Pkt :=
  if s.nPktsTot = 0 then (s, .pkt none none)
  else
    let s := { s with hiPrec := lowerHi s.q s.hiPrec }
    match maskedPrec s.q precBmp s.hiPrec with
    | none => (s, .pkt none none)
    | some prec =>
      match (s.q prec).head with
      | none => (s, .pkt none none)
      | some p =>
        let s := takeHead s prec p
        let q := s.q prec
        -- fix for non-null pointer of skb->prev sent from ndo_start_xmit
        let q := if q.nPkts = 0 then { q with head := none, tail := none } else q
        ({ s with q := Function.update s.q prec q }, .pkt (some p) (some prec))

/-! ## Steps -/

inductive Call (Pkt : Type)
  | penq (prec : Nat) (p : Pkt)
  | penqHead (prec : Nat) (p : Pkt)
  | pdeq (prec : Nat)
  | pdeqTail (prec : Nat)
  | pdeqWithFn (prec : Nat) (fn : Option (Pkt → Bool))
  | pdel (pktbuf : Option Pkt) (prec : Nat)
  /-- the list of these packets -/
  | append (prec : Nat) (pkts : List Pkt)
  | prepend (prec : Nat) (pkts : List Pkt)
  | deq
  | deqTail
  | peek
  | peekTail
  | mdeq (precBmp : Nat)
  | mpeek (precBmp : Nat)
  | mlen (precBmp : Nat)
  /-- `PKTSETLINK` of a packet that is not queued -/
  | setLink (p : Pkt) (next : Option Pkt)

/-- A `struct spktq` that holds these packets. -/
def spktqOf (pkts : List Pkt) : PktqPrec Pkt :=
  ⟨pkts.head?, pkts.getLast?, pkts.length, pkts.length⟩

def exec (s : Pktq Pkt) : Call Pkt → Option (Pktq Pkt × Result Pkt)
  | .penq prec p => pktqPenq s prec p
  | .penqHead prec p => pktqPenqHead s prec p
  | .pdeq prec => some (pktqPdeq s prec)
  | .pdeqTail prec => pktqPdeqTail s prec
  | .pdeqWithFn prec fn => pktqPdeqWithFn s prec fn
  | .pdel pktbuf prec => pktqPdel s pktbuf prec
  | .append prec pkts => pktqAppend s prec (spktqOf pkts)
  | .prepend prec pkts => pktqPrepend s prec (spktqOf pkts)
  | .deq => some (pktqDeq s)
  | .deqTail => pktqDeqTail s
  | .peek => some (pktqPeek s)
  | .peekTail => some (pktqPeekTail s)
  | .mdeq precBmp => some (pktqMdeq s precBmp)
  | .mpeek precBmp => some (pktqMpeek s precBmp)
  | .mlen precBmp => some (s, .len (pktqMlen s precBmp))
  | .setLink p next => some ({ s with link := Function.update s.link p next }, .done)

/-- The packets of all chains. -/
def queued (s : Pktq Pkt) : List Pkt :=
  entries (List.range s.numPrec) fun prec => visit s.link fuel (s.q prec).head

/-- `!pktq_full && !pktqprec_full`, and there is room in the `uint16` counters. -/
def hasRoom (s : Pktq Pkt) (prec n : Nat) : Prop :=
  s.nPktsTot < s.maxPkts ∧ (s.q prec).nPkts < (s.q prec).maxPkts ∧ s.nPktsTot + n ≤ 0xFFFF

/-- The assertions of the call, and that a packet enters once. -/
def asserts (s : Pktq Pkt) : Call Pkt → Prop
  | .penq prec p | .penqHead prec p =>
    prec < s.numPrec ∧ s.link p = none ∧ hasRoom s prec 1 ∧ p ∉ queued s
  | .pdeq prec | .pdeqTail prec | .pdeqWithFn prec _ | .pdel _ prec => prec < s.numPrec
  | .append prec pkts | .prepend prec pkts =>
    pkts = [] ∨ (prec < s.numPrec ∧ Chain s.link pkts.head? pkts ∧ hasRoom s prec pkts.length ∧
      ∀ p ∈ pkts, p ∉ queued s)
  | .setLink p _ => p ∉ queued s
  | .deq | .deqTail | .peek | .peekTail | .mdeq _ | .mpeek _ | .mlen _ => True

instance (s : Pktq Pkt) (prec n : Nat) : Decidable (hasRoom s prec n) :=
  inferInstanceAs (Decidable (_ ∧ _ ∧ _))

instance (s : Pktq Pkt) : (c : Call Pkt) → Decidable (asserts s c)
  | .penq _ _ | .penqHead _ _ => inferInstanceAs (Decidable (_ ∧ _ ∧ _ ∧ _))
  | .pdeq _ | .pdeqTail _ | .pdeqWithFn _ _ | .pdel _ _ => inferInstanceAs (Decidable (_ < _))
  | .append _ _ | .prepend _ _ => inferInstanceAs (Decidable (_ ∨ (_ ∧ _ ∧ _ ∧ ∀ _ ∈ _, _)))
  | .setLink _ _ => inferInstanceAs (Decidable (_ ∉ _))
  | .deq | .deqTail | .peek | .peekTail | .mdeq _ | .mpeek _ | .mlen _ =>
    inferInstanceAs (Decidable True)

def step (s : Pktq Pkt) (c : Call Pkt) : Option (Pktq Pkt × Result Pkt) :=
  if asserts s c then some ((exec s c).getD (s, .fault)) else none

end Bcmdhd.HndPktq
