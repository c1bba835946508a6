import Bcmdhd.Lib.Links

/-!
# The queue behind a flow ring (`dhd_flowring.c`)

Packets wait on a chain linked by `PKTLINK` until there is room on the flow ring.  A packet enters
at the tail or at the head, unless the queue is full, and leaves at the head; one that could not
be posted is put back at the head.

`Holds q l` says that the queue holds exactly the packets `l`, in that order.
-/

namespace Bcmdhd.FlowQueues

open Links

variable {Pkt : Type}

/-! ## The queue -/

inductive Bcme
  | ok
  | error
  | noResource
  | notReady
deriving DecidableEq, Repr

/-- `flow_queue_t`, and the `PKTLINK` of every packet. -/
structure FlowQueue (Pkt : Type) where
  link : Pkt → Option Pkt
  head : Option Pkt
  tail : Option Pkt
  /-- number of packets in the queue, a `uint16` -/
  len : Nat
  /-- a `uint16` -/
  max : Nat
  /-- enqueue failures due to queue overflow, a `uint32` -/
  failures : Nat
  /-- what `clen_ptr` points to -/
  clen : Nat
  /-- what `l2clen_ptr` points to -/
  l2clen : Nat

/-- `dhd_flow_queue_reinit`; the budget is stored less one. -/
def reinit (link : Pkt → Option Pkt) (max clen l2clen : Nat) : FlowQueue Pkt where
  link := link
  head := none
  tail := none
  len := 0
  max := (max + 0xffff) % 0x10000
  failures := 0
  clen := clen
  l2clen := l2clen

/-- `DHD_CUMM_CTR_INCR`: cumulative length not supported. -/
def cummCtrIncr (clen : Nat) : Nat := clen

/-- `DHD_CUMM_CTR_DECR` -/
def cummCtrDecr (clen : Nat) : Nat := clen

def throttle (q : FlowQueue Pkt) : Bool := q.len ≥ q.max

/-- The callback `dhd_flow_queue_overflow` answers a throttled packet. -/
def overflow (q : FlowQueue Pkt) : FlowQueue Pkt × Bcme :=
  ({ q with failures := (q.failures + 1) % 0x100000000 }, .noResource)

/-- One packet more; the chain now goes from `head` to `tail`. -/
def enter (q : FlowQueue Pkt) (link : Pkt → Option Pkt) (head tail : Option Pkt) :
    FlowQueue Pkt :=
  { q with
    link := link
    head := head
    tail := tail
    len := (q.len + 1) % 0x10000
    clen := cummCtrIncr q.clen
    l2clen := cummCtrIncr q.l2clen }

section
variable [DecidableEq Pkt]

/-- `none` where the tail is followed and is `NULL`. -/
def enqueue (q : FlowQueue Pkt) (pkt : Pkt) : Option (FlowQueue Pkt × Bcme) :=
  if throttle q then some (overflow q)
  else
    match q.head with
    | some h =>
      match q.tail with
      | some t =>
        let link := Function.update (Function.update q.link t (some pkt)) pkt none
        some (enter q link (some h) (some pkt), .ok)
      | none => none
    | none => some (enter q (Function.update q.link pkt none) (some pkt) (some pkt), .ok)

def enqueueHead (q : FlowQueue Pkt) (pkt : Pkt) : FlowQueue Pkt × Bcme :=
  if throttle q then overflow q
  else
    match q.head with
    | some h => (enter q (Function.update q.link pkt (some h)) (some pkt) q.tail, .ok)
    | none => (enter q (Function.update q.link pkt none) (some pkt) (some pkt), .ok)

def dequeue (q : FlowQueue Pkt) : FlowQueue Pkt × Option Pkt :=
  match q.head with
  | none => (q, none)
  | some pkt =>
    ({ q with
        link := Function.update q.link pkt none
        head := q.link pkt
        tail := if q.link pkt = none then none else q.tail
        len := (q.len + 0xffff) % 0x10000
        clen := cummCtrDecr q.clen
        l2clen := cummCtrDecr q.l2clen }, some pkt)

/-- A dequeued packet goes back to the head, whether the queue is full or not. -/
def reinsert (q : FlowQueue Pkt) (pkt : Pkt) : FlowQueue Pkt :=
  enter q (Function.update q.link pkt q.head) (some pkt)
    (if q.head = none then some pkt else q.tail)

end

/-! ## What the queue holds -/

/-- The queue holds the packets `l`, head first. -/
structure Holds (q : FlowQueue Pkt) (l : List Pkt) : Prop where
  chain : Chain q.link q.head l
  tail_eq : q.tail = l.getLast?
  len_eq : q.len = l.length
  length_le : l.length ≤ q.max
  max_lt : q.max < 0x10000

theorem holds_reinit (link : Pkt → Option Pkt) (max clen l2clen : Nat) :
    Holds (reinit link max clen l2clen) [] where
  chain := rfl
  tail_eq := rfl
  len_eq := rfl
  length_le := Nat.zero_le _
  max_lt := Nat.mod_lt _ (by decide)

/-- Nothing about the counters that are shared changes. -/
def SameCounters (q q' : FlowQueue Pkt) : Prop :=
  q'.max = q.max ∧ q'.clen = q.clen ∧ q'.l2clen = q.l2clen

variable {q : FlowQueue Pkt} {l : List Pkt} {pkt : Pkt}

theorem SameCounters.rfl' (q : FlowQueue Pkt) : SameCounters q q := ⟨rfl, rfl, rfl⟩

theorem SameCounters.trans {q₁ q₂ q₃ : FlowQueue Pkt} (h : SameCounters q₁ q₂)
    (h' : SameCounters q₂ q₃) : SameCounters q₁ q₃ :=
  ⟨h'.1.trans h.1, h'.2.1.trans h.2.1, h'.2.2.trans h.2.2⟩

theorem Holds.not_full (h : Holds q l) (ht : throttle q = false) : l.length < q.max := by
  unfold throttle at ht
  rw [decide_eq_false_iff_not, h.len_eq] at ht
  omega

/-- A longer chain of which there is room. -/
theorem Holds.enter (h : Holds q l) {link : Pkt → Option Pkt} {head tail : Option Pkt}
    {l' : List Pkt} (hc : Chain link head l') (ht : tail = l'.getLast?)
    (hlen : l'.length = l.length + 1) (hle : l.length < q.max) :
    Holds (enter q link head tail) l' where
  chain := hc
  tail_eq := ht
  len_eq := by
    have hmax := h.max_lt
    show (q.len + 1) % 0x10000 = l'.length
    rw [h.len_eq, hlen]
    omega
  length_le := by
    show l'.length ≤ q.max
    omega
  max_lt := h.max_lt

variable [DecidableEq Pkt]

/-- A packet that is not refused is last. -/
theorem enqueue_spec (h : Holds q l) (hp : pkt ∉ l) :
    ∃ q' ret, enqueue q pkt = some (q', ret) ∧ SameCounters q q' ∧
      ((ret = .noResource ∧ Holds q' l) ∨ (ret = .ok ∧ Holds q' (l ++ [pkt]))) := by
  unfold enqueue
  cases ht : throttle q with
  | true =>
    refine ⟨_, _, rfl, ⟨rfl, rfl, rfl⟩, .inl ⟨rfl, ?_⟩⟩
    exact ⟨h.chain, h.tail_eq, h.len_eq, h.length_le, h.max_lt⟩
  | false =>
    have hroom := h.not_full ht
    have hlen : (l ++ [pkt]).length = l.length + 1 := by simp
    have hlast : some pkt = (l ++ [pkt]).getLast? := by simp
    have hnew : Chain (Function.update q.link pkt none) (some pkt) [pkt] :=
      ⟨rfl, Function.update_self ..⟩
    have hchain := h.chain
    have htail := h.tail_eq
    rw [if_neg nofun]
    rcases List.eq_nil_or_concat l with rfl | ⟨l₁, t, rfl⟩
    · rw [show q.head = none from hchain]
      exact ⟨_, _, rfl, ⟨rfl, rfl, rfl⟩, .inr ⟨rfl, h.enter hnew hlast hlen hroom⟩⟩
    · rw [List.concat_eq_append] at hp hchain htail hlen hlast h hroom ⊢
      obtain ⟨first, hfirst⟩ : ∃ first, q.head = some first := by
        rw [hchain.head]
        exact Option.isSome_iff_exists.1 (by simp)
      have hne : t ≠ pkt := by
        rintro rfl
        exact hp (by simp)
      rw [List.getLast?_append, List.getLast?_singleton, Option.some_or] at htail
      rw [hfirst, htail]
      refine ⟨_, _, rfl, ⟨rfl, rfl, rfl⟩, .inr ⟨rfl, h.enter ?_ hlast hlen hroom⟩⟩
      rw [Function.update_comm hne, List.append_assoc, List.singleton_append, ← hfirst]
      apply (hchain.frame hp none).concat hnew
      rw [List.mem_singleton]
      exact hne

/-- A packet that is not refused is first. -/
theorem enqueueHead_spec (h : Holds q l) (hp : pkt ∉ l) :
    ∃ q' ret, enqueueHead q pkt = (q', ret) ∧ SameCounters q q' ∧
      ((ret = .noResource ∧ Holds q' l) ∨ (ret = .ok ∧ Holds q' (pkt :: l))) := by
  unfold enqueueHead
  cases ht : throttle q with
  | true =>
    refine ⟨_, _, rfl, ⟨rfl, rfl, rfl⟩, .inl ⟨rfl, ?_⟩⟩
    exact ⟨h.chain, h.tail_eq, h.len_eq, h.length_le, h.max_lt⟩
  | false =>
    have hroom := h.not_full ht
    have hchain := h.chain
    have htail := h.tail_eq
    rw [if_neg nofun]
    cases l with
    | nil =>
      rw [show q.head = none from hchain]
      refine ⟨_, _, rfl, ⟨rfl, rfl, rfl⟩, .inr ⟨rfl, h.enter ?_ rfl rfl hroom⟩⟩
      exact ⟨rfl, Function.update_self ..⟩
    | cons x xs =>
      rw [hchain.1]
      refine ⟨_, _, rfl, ⟨rfl, rfl, rfl⟩, .inr ⟨rfl, h.enter ?_ htail rfl hroom⟩⟩
      refine ⟨rfl, ?_⟩
      rw [Function.update_self, ← hchain.1]
      exact hchain.frame hp _

/-- The queue less its first packet. -/
theorem dequeue_cons (h : Holds q (pkt :: l)) :
    ∃ q', dequeue q = (q', some pkt) ∧ SameCounters q q' ∧ Holds q' l ∧ pkt ∉ l := by
  have hchain := h.chain
  have hnd := hchain.nodup
  rw [List.nodup_cons] at hnd
  have hmax := h.max_lt
  have hle := h.length_le
  have hlen := h.len_eq
  rw [List.length_cons] at hle hlen
  unfold dequeue
  rw [hchain.1]
  refine ⟨_, rfl, ⟨rfl, rfl, rfl⟩, ?_, hnd.1⟩
  constructor
  · exact hchain.2.frame hnd.1 none
  · show (if q.link pkt = none then none else q.tail) = l.getLast?
    rw [hchain.2.head, h.tail_eq]
    cases l with
    | nil => rfl
    | cons y ys => rfl
  · show (q.len + 0xffff) % 0x10000 = l.length
    omega
  · show l.length ≤ q.max
    omega
  · exact hmax

theorem dequeue_nil (h : Holds q []) : dequeue q = (q, none) := by
  unfold dequeue
  rw [show q.head = none from h.chain]

/-- A packet put back is first, and there is room for it since it was just taken. -/
theorem reinsert_spec (h : Holds q l) (hp : pkt ∉ l) (hroom : l.length < q.max) :
    SameCounters q (reinsert q pkt) ∧ Holds (reinsert q pkt) (pkt :: l) := by
  refine ⟨⟨rfl, rfl, rfl⟩, h.enter ⟨rfl, ?_⟩ ?_ rfl hroom⟩
  · rw [Function.update_self]
    exact h.chain.frame hp _
  · rw [h.chain.head, h.tail_eq]
    cases l with
    | nil => rfl
    | cons y ys => rfl

end Bcmdhd.FlowQueues
