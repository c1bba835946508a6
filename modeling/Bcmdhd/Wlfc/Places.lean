import Bcmdhd.Wlfc.Model
import Mathlib.Data.List.Nodup
import Mathlib.Data.List.Perm.Basic

/-!
# Where a packet is

At any time a packet is in one place, and the place says in which queues and lists it is found,
who has it, and what its item of the hanger looks like.  Each function of the model moves the
packets it deals with from place to place and leaves the other ones where they are.

    Rel cfg s pl →  Rel cfg (f cfg s) pl'
-/

namespace Bcmdhd.Wlfc

open Loans (bump)

/-! ## Places -/

inductive Place
  | fresh
  /-- taken out of its queue, with a slot or without one -/
  | hand (slot : Bool)
  | delayed
  | suppressed (onBus : Bool)
  | flying (onBus atFw : Bool)
  /-- found by a status -/
  | reported (onBus : Bool)
  /-- taken back from `bus->txq` -/
  | taken
  /-- with an item left in the hanger or without one -/
  | freed (left : Bool)
  deriving DecidableEq

namespace Place

/-- In a queue of delayed packets, of suppressed ones, or in none. -/
def queue : Place → Option Bool
  | delayed => some false
  | suppressed _ => some true
  | _ => none

def onBus : Place → Bool
  | suppressed b | flying b _ | reported b => b
  | _ => false

def atFw : Place → Bool
  | flying _ f => f
  | taken => true
  | _ => false

/-- The packet has a slot. -/
def hung : Place → Bool
  | hand b | freed b => b
  | suppressed _ | flying _ _ | reported _ | taken => true
  | _ => false

def done : Place → Bool
  | freed _ => true
  | _ => false

/-- In nobody's hands but those of the function that has taken it: the kind of queue for it. -/
def handed : Place → Option Bool
  | hand b => some b
  | reported _ => some true
  | _ => none

def enque : Place → Place
  | hand false => delayed
  | hand true => suppressed false
  | reported b => suppressed b
  | x => x

/-- The bits of the item of a packet in this place. -/
def Bits (x : Place) (it : Item) : Prop :=
  match x with
  | hand _ | suppressed _ | taken => it.txstatus = false
  | flying b f => it.txstatus = !f ∧ it.busreturned = !b
  | reported b => it.txstatus = false ∧ it.busreturned = !b
  | _ => True

/-- What is in hand is in no queue and not at the firmware. -/
structure Handed (x : Place) (b : Bool) : Prop where
  queue : x.queue = none
  atFw : x.atFw = false
  hung : x.hung = b
  fresh : x ≠ .fresh
  done : x.done = false
  enqueQueue : x.enque.queue = some b
  enqueOnBus : x.enque.onBus = x.onBus
  enqueAtFw : x.enque.atFw = false
  enqueHung : x.enque.hung = b
  enqueFresh : x.enque ≠ .fresh
  enqueDone : x.enque.done = false
  enqueFlying : ∀ b f, x.enque ≠ .flying b f
  notFlying : ∀ b f, x ≠ .flying b f
  bits : ∀ it, x.Bits it → x.enque.Bits it

theorem handed_iff {x : Place} {b : Bool} : x.handed = some b ↔ x = .hand b ∨ b = true ∧ ∃ c, x = .reported c := by
  cases x <;> simp [handed, eq_comm]

theorem handed_spec {x : Place} {b : Bool} (h : x.handed = some b) : Handed x b := by
  rcases handed_iff.mp h with rfl | ⟨rfl, c, rfl⟩
  · cases b
    · exact ⟨rfl, rfl, rfl, nofun, rfl, rfl, rfl, rfl, rfl, nofun, rfl, nofun, nofun,
        fun _ _ => trivial⟩
    · exact ⟨rfl, rfl, rfl, nofun, rfl, rfl, rfl, rfl, rfl, nofun, rfl, nofun, nofun,
        fun _ h => h⟩
  · exact ⟨rfl, rfl, rfl, nofun, rfl, rfl, rfl, rfl, rfl, nofun, rfl, nofun, nofun,
      fun _ h => h.1⟩

end Place

/-- The state puts packet `p` in place `x`. -/
structure At (cfg : Cfg) (s : State) (p : Id) (x : Place) : Prop where
  passed : p ∈ s.passed ↔ x ≠ .fresh
  freed : p ∈ s.freed ↔ x.done = true
  psq : ∀ d k, p ∈ s.psq d k ↔
    (cfg.pkt p).entry = d ∧ (cfg.pkt p).fifo = k.ac ∧ x.queue = some k.sup
  bus : p ∈ s.bus ↔ x.onBus = true
  air : p ∈ s.air ↔ x.atFw = true
  afq : ∀ d ac, p ∈ s.afq d ac ↔
    cfg.afq = true ∧ (cfg.pkt p).entry = d ∧ (cfg.pkt p).fifo = ac ∧ x = .flying false true
  onBus : cfg.afq = true → x.onBus = true → x = .flying true true
  undone : x ≠ .flying false false
  slot : cfg.afq = true → x.hung = true → (s.tag p).hslot = slotOf (cfg.pkt p).entry
  item : cfg.afq = false → x.hung = true →
    (s.hanger (s.tag p).hslot).pkt = some p ∧ x.Bits (s.hanger (s.tag p).hslot)

/-- Nothing happens to packet `q`. -/
structure Same (cfg : Cfg) (s s' : State) (q : Id) : Prop where
  passed : q ∈ s'.passed ↔ q ∈ s.passed
  freed : q ∈ s'.freed ↔ q ∈ s.freed
  psq : ∀ d k, q ∈ s'.psq d k ↔ q ∈ s.psq d k
  bus : q ∈ s'.bus ↔ q ∈ s.bus
  air : q ∈ s'.air ↔ q ∈ s.air
  afq : ∀ d ac, q ∈ s'.afq d ac ↔ q ∈ s.afq d ac
  tag : (s'.tag q).hslot = (s.tag q).hslot
  item : cfg.afq = false → (s.hanger (s.tag q).hslot).pkt = some q →
    (s'.hanger (s.tag q).hslot).pkt = some q ∧
      (s'.hanger (s.tag q).hslot).txstatus = (s.hanger (s.tag q).hslot).txstatus ∧
      (s'.hanger (s.tag q).hslot).busreturned = (s.hanger (s.tag q).hslot).busreturned

theorem Place.Bits.congr {x : Place} {it it' : Item} (h : x.Bits it)
    (ht : it'.txstatus = it.txstatus) (hb : it'.busreturned = it.busreturned) : x.Bits it' := by
  unfold Place.Bits at *
  cases x <;> simp_all

variable {cfg : Cfg} {s : State} {pl : Id → Place} {p : Id}

theorem At.congr {s' : State} {q : Id} {x : Place} (h : At cfg s q x) (hs : Same cfg s s' q) :
    At cfg s' q x where
  passed := hs.passed.trans h.passed
  freed := hs.freed.trans h.freed
  psq d k := (hs.psq d k).trans (h.psq d k)
  bus := hs.bus.trans h.bus
  air := hs.air.trans h.air
  afq d ac := (hs.afq d ac).trans (h.afq d ac)
  onBus := h.onBus
  undone := h.undone
  slot ha hx := hs.tag.trans (h.slot ha hx)
  item ha hx := by
    obtain ⟨hp, hb⟩ := h.item ha hx
    obtain ⟨hp', ht, hr⟩ := hs.item ha hp
    rw [hs.tag]
    exact ⟨hp', hb.congr ht hr⟩

/-- No list has a packet twice, and the hanger has only packets that know their slot. -/
structure Shape (cfg : Cfg) (s : State) (pl : Id → Place) : Prop where
  psq : ∀ d k, (s.psq d k).Nodup
  bus : s.bus.Nodup
  air : s.air.Nodup
  freed : s.freed.Nodup
  afq : ∀ d ac, (s.afq d ac).Nodup
  owner : cfg.afq = false → ∀ i q, (s.hanger i).pkt = some q →
    (s.tag q).hslot = i ∧ (pl q).hung = true
  free : ∀ i, (s.hanger i).state = .free ↔ (s.hanger i).pkt = none

structure Rel (cfg : Cfg) (s : State) (pl : Id → Place) : Prop extends Shape cfg s pl where
  places : ∀ p, At cfg s p (pl p)

theorem rel_init (cfg : Cfg) (occupied : Dest → Bool) :
    Rel cfg (.init occupied) fun _ => .fresh where
  psq _ _ := List.nodup_nil
  bus := List.nodup_nil
  air := List.nodup_nil
  freed := List.nodup_nil
  afq _ _ := List.nodup_nil
  owner _ _ _ h := nomatch h
  free _ := iff_of_true rfl rfl
  places p := {
    passed := by simp [State.init]
    freed := by simp [State.init, Place.done]
    psq := by simp [State.init, Place.queue]
    bus := by simp [State.init, Place.onBus]
    air := by simp [State.init, Place.atFw]
    afq := by simp [State.init]
    onBus := nofun
    undone := nofun
    slot := nofun
    item := nofun }

/-- A packet moves, the other ones stay. -/
theorem Rel.move {s' : State} (h : Rel cfg s pl) {y : Place}
    (hshape : Shape cfg s' (Function.update pl p y)) (hp : At cfg s' p y)
    (hsame : ∀ q, q ≠ p → Same cfg s s' q) : Rel cfg s' (Function.update pl p y) where
  toShape := hshape
  places q := by
    by_cases hq : q = p
    · subst hq
      rw [Function.update_self]
      exact hp
    · rw [Function.update_of_ne hq]
      exact (h.places q).congr (hsame q hq)

structure SameLists (s s' : State) : Prop where
  passed : s'.passed = s.passed
  freed : s'.freed = s.freed
  psq : s'.psq = s.psq
  bus : s'.bus = s.bus
  air : s'.air = s.air
  afq : s'.afq = s.afq

/-- Nothing that concerns places is changed. -/
structure SamePlaces (s s' : State) : Prop extends SameLists s s' where
  tag : ∀ q, (s'.tag q).hslot = (s.tag q).hslot
  pkt : ∀ i, (s'.hanger i).pkt = (s.hanger i).pkt
  txstatus : ∀ i, (s'.hanger i).txstatus = (s.hanger i).txstatus
  busreturned : ∀ i, (s'.hanger i).busreturned = (s.hanger i).busreturned
  free : ∀ i, (s'.hanger i).state = .free ↔ (s.hanger i).state = .free

theorem Rel.congr {s' : State} (h : Rel cfg s pl) (hs : SamePlaces s s') : Rel cfg s' pl where
  psq d k := hs.psq ▸ h.psq d k
  bus := hs.bus ▸ h.bus
  air := hs.air ▸ h.air
  freed := hs.freed ▸ h.freed
  afq d ac := hs.afq ▸ h.afq d ac
  owner ha i q hi := by
    rw [hs.tag q]
    exact h.owner ha i q (hs.pkt i ▸ hi)
  free i := (hs.free i).trans (hs.pkt i ▸ h.free i)
  places p := (h.places p).congr {
    passed := by rw [hs.passed]
    freed := by rw [hs.freed]
    psq := fun d k => by rw [hs.psq]
    bus := by rw [hs.bus]
    air := by rw [hs.air]
    afq := fun d ac => by rw [hs.afq]
    tag := hs.tag p
    item := fun _ hp => ⟨(hs.pkt _).trans hp, hs.txstatus _, hs.busreturned _⟩ }

/-! ## Queues -/

theorem psq_setPsq (s : State) (d d' : Dest) (k k' : Prec) (l : List Id) :
    (s.setPsq d k l).psq d' k' = if d' = d ∧ k' = k then l else s.psq d' k' := by
  show Function.update s.psq d (Function.update (s.psq d) k l) d' k' = _
  by_cases hd : d' = d
  · subst hd
    rw [Function.update_self]
    by_cases hk : k' = k
    · subst hk
      rw [Function.update_self, if_pos ⟨rfl, rfl⟩]
    · rw [Function.update_of_ne hk, if_neg fun h => hk h.2]
  · rw [Function.update_of_ne hd, if_neg fun h => hd h.1]

theorem afq_setAfq (s : State) (d d' : Dest) (ac ac' : Ac) (l : List Id) :
    (s.setAfq d ac l).afq d' ac' = if d' = d ∧ ac' = ac then l else s.afq d' ac' := by
  show Function.update s.afq d (Function.update (s.afq d) ac l) d' ac' = _
  by_cases hd : d' = d
  · subst hd
    rw [Function.update_self]
    by_cases hk : ac' = ac
    · subst hk
      rw [Function.update_self, if_pos ⟨rfl, rfl⟩]
    · rw [Function.update_of_ne hk, if_neg fun h => hk h.2]
  · rw [Function.update_of_ne hd, if_neg fun h => hd h.1]

variable {d : Dest} {k : Prec} {l : List Id}

/-- Only the queue has changed, and not for packet `q`. -/
theorem same_setPsq {q : Id} (h : q ∈ l ↔ q ∈ s.psq d k) :
    Same cfg s (s.setPsq d k l) q where
  passed := Iff.rfl
  freed := Iff.rfl
  psq d' k' := by
    rw [psq_setPsq]
    split
    · next hdk =>
      obtain ⟨rfl, rfl⟩ := hdk
      exact h
    · exact Iff.rfl
  bus := Iff.rfl
  air := Iff.rfl
  afq _ _ := Iff.rfl
  tag := rfl
  item _ hp := ⟨hp, rfl, rfl⟩

theorem Rel.notMem_psq (h : Rel cfg s pl) (hp : (pl p).queue = none) (d : Dest) (k : Prec) :
    p ∉ s.psq d k := by
  rw [(h.places p).psq d k, hp]
  rintro ⟨_, _, hk⟩
  cases hk

/-- The place of the owner of an item. -/
theorem owner_update {q : Id} {y : Place} (hr : (pl q).hung = true)
    (hy : (pl p).hung = true → y.hung = true) :
    (Function.update pl p y q).hung = true := by
  by_cases hqp : q = p
  · subst hqp
    rw [Function.update_self]
    exact hy hr
  · rw [Function.update_of_ne hqp]
    exact hr

/-- A packet in hand is put in its queue. -/
theorem Rel.enque (h : Rel cfg s pl) (hx : (pl p).handed = some k.sup) (hd : (cfg.pkt p).entry = d)
    (hk : (cfg.pkt p).fifo = k.ac) (hl : l.Perm (p :: s.psq d k)) :
    Rel cfg (s.setPsq d k l) (Function.update pl p (pl p).enque) := by
  have hx := Place.handed_spec hx
  have hnp := h.notMem_psq hx.queue
  have hp := h.places p
  refine h.move ?_ ?_ fun q hqp => same_setPsq ?_
  · exact {
      psq := fun d' k' => by
        rw [psq_setPsq]
        split
        · exact hl.nodup_iff.mpr (List.nodup_cons.mpr ⟨hnp d k, h.psq d k⟩)
        · exact h.psq d' k'
      bus := h.bus
      air := h.air
      freed := h.freed
      afq := h.afq
      owner := fun ha i q hi => by
        obtain ⟨hs, hr⟩ := h.owner ha i q hi
        exact ⟨hs, owner_update hr fun hh => hx.enqueHung.trans (hx.hung.symm.trans hh)⟩
      free := h.free }
  · exact {
      passed := hp.passed.trans (iff_of_true hx.fresh hx.enqueFresh)
      freed := hp.freed.trans (by rw [hx.done, hx.enqueDone])
      psq := fun d' k' => by
        rw [psq_setPsq, hx.enqueQueue, hd, hk]
        split
        · next hdk =>
          obtain ⟨rfl, rfl⟩ := hdk
          exact iff_of_true (hl.mem_iff.mpr List.mem_cons_self) ⟨rfl, rfl, rfl⟩
        · next hdk =>
          refine iff_of_false (hnp d' k') ?_
          rintro ⟨rfl, h1, h2⟩
          exact hdk ⟨rfl, Prec.ext h1.symm (Option.some.inj h2).symm⟩
      bus := hx.enqueOnBus ▸ hp.bus
      air := hp.air.trans (by rw [hx.atFw, hx.enqueAtFw])
      afq := fun d' ac => (hp.afq d' ac).trans
        (iff_of_false (fun hf => hx.notFlying _ _ hf.2.2.2) fun hf => hx.enqueFlying _ _ hf.2.2.2)
      onBus := fun ha hb => absurd (hp.onBus ha (hx.enqueOnBus ▸ hb)) (hx.notFlying _ _)
      undone := hx.enqueFlying _ _
      slot := fun ha hs => hp.slot ha (hx.hung.trans (hx.enqueHung.symm.trans hs))
      item := fun ha hs => by
        obtain ⟨hi, hb⟩ := hp.item ha (hx.hung.trans (hx.enqueHung.symm.trans hs))
        exact ⟨hi, hx.bits _ hb⟩ }
  · rw [hl.mem_iff, List.mem_cons]
    exact or_iff_right hqp

/-- All packets of `l` are put in place `x`. -/
def putAll (pl : Id → Place) (l : List Id) (x : Place) : Id → Place :=
  fun q => if q ∈ l then x else pl q

theorem putAll_singleton (pl : Id → Place) (p : Id) (x : Place) :
    putAll pl [p] x = Function.update pl p x := by
  funext q
  unfold putAll Function.update
  by_cases h : q = p
  · subst h
    simp
  · simp [h]

theorem putAll_cons (pl : Id → Place) (p : Id) (l : List Id) (x : Place) :
    putAll pl (p :: l) x = putAll (Function.update pl p x) l x := by
  funext q
  unfold putAll
  by_cases hl : q ∈ l
  · rw [if_pos hl, if_pos (List.mem_cons_of_mem p hl)]
  · rw [if_neg hl]
    by_cases h : q = p
    · subst h
      rw [if_pos List.mem_cons_self, Function.update_self]
    · rw [if_neg (by simp [h, hl]), Function.update_of_ne h]

theorem Place.eq_of_queue {x : Place} {b : Bool} (hq : x.queue = some b) (ho : x.onBus = false) :
    x = (hand b).enque := by
  cases x with
  | delayed =>
    cases hq
    rfl
  | suppressed c =>
    cases hq
    cases ho
    rfl
  | fresh | hand | flying | reported | taken | freed => cases hq

/-- Packets that are not on the bus are taken out of their queue. -/
theorem Rel.unqueue (h : Rel cfg s pl) {t : List Id} (hl : (s.psq d k).Perm (t ++ l))
    (hbus : ∀ q ∈ t, (pl q).onBus = false) :
    Rel cfg (s.setPsq d k l) (putAll pl t (.hand k.sup)) := by
  have hnd : (t ++ l).Nodup := hl.nodup_iff.mp (h.psq d k)
  have hdis := List.nodup_append.mp hnd
  have hmem : ∀ {q}, q ∈ s.psq d k ↔ q ∈ t ∨ q ∈ l := fun {q} => hl.mem_iff.trans List.mem_append
  have hpl : ∀ q ∈ t, (cfg.pkt q).entry = d ∧ (cfg.pkt q).fifo = k.ac ∧
      pl q = (Place.hand k.sup).enque := by
    intro q hq
    obtain ⟨h1, h2, h3⟩ := ((h.places q).psq d k).mp (hmem.mpr (Or.inl hq))
    exact ⟨h1, h2, Place.eq_of_queue h3 (hbus q hq)⟩
  have hhand := Place.handed_spec (x := .hand k.sup) rfl
  exact {
    psq := fun d' k' => by
      rw [psq_setPsq]
      split
      · exact hdis.2.1
      · exact h.psq d' k'
    bus := h.bus
    air := h.air
    freed := h.freed
    afq := h.afq
    owner := fun ha i q hi => by
      obtain ⟨hs, hr⟩ := h.owner ha i q hi
      refine ⟨hs, ?_⟩
      unfold putAll
      split
      · next hq =>
        rw [(hpl q hq).2.2] at hr
        exact hhand.hung.trans (hhand.enqueHung.symm.trans hr)
      · exact hr
    free := h.free
    places := fun q => by
      unfold putAll
      split
      · next hq =>
        obtain ⟨h1, h2, h3⟩ := hpl q hq
        have hp := h.places q
        rw [h3] at hp
        exact {
          passed := hp.passed.trans (iff_of_true hhand.enqueFresh hhand.fresh)
          freed := hp.freed.trans (by rw [hhand.enqueDone, hhand.done])
          psq := fun d' k' => by
            refine iff_of_false ?_ fun hf => nomatch hf.2.2
            rw [psq_setPsq]
            split
            · exact fun hl' => hdis.2.2 q hq q hl' rfl
            · next hdk =>
              rw [hp.psq d' k']
              rintro ⟨rfl, h4, h5⟩
              have h6 := hhand.enqueQueue.symm.trans h5
              exact hdk ⟨h1, Prec.ext (h4.symm.trans h2) (Option.some.inj h6).symm⟩
          bus := hp.bus.trans (by rw [hhand.enqueOnBus])
          air := hp.air.trans (by rw [hhand.enqueAtFw, hhand.atFw])
          afq := fun d' ac => (hp.afq d' ac).trans
            (iff_of_false (fun hf => hhand.enqueFlying _ _ hf.2.2.2) fun hf => nomatch hf.2.2.2)
          onBus := fun _ hb => nomatch hb
          undone := nofun
          slot := fun ha hs => hp.slot ha (hhand.enqueHung.trans (hhand.hung.symm.trans hs))
          item := fun ha hs => by
            obtain ⟨hi, hb⟩ := hp.item ha (hhand.enqueHung.trans (hhand.hung.symm.trans hs))
            refine ⟨hi, ?_⟩
            cases hk : k.sup with
            | false =>
              rw [hk] at hs
              cases hs
            | true =>
              rw [hk] at hb
              exact hb }
      · next hq =>
        refine (h.places q).congr (same_setPsq ?_)
        rw [hmem]
        exact (or_iff_right hq).symm }

/-! ## Lists and items -/

/-- What happens to packet `p`, and to its item if it has one, happens to no other packet. -/
structure Apart (cfg : Cfg) (s s' : State) (p : Id) (hung : Bool) : Prop where
  passed : s'.passed = s.passed
  psq : s'.psq = s.psq
  tag : ∀ q, (s'.tag q).hslot = (s.tag q).hslot
  freed : ∀ q, q ≠ p → (q ∈ s'.freed ↔ q ∈ s.freed)
  bus : ∀ q, q ≠ p → (q ∈ s'.bus ↔ q ∈ s.bus)
  air : ∀ q, q ≠ p → (q ∈ s'.air ↔ q ∈ s.air)
  afq : ∀ q, q ≠ p → ∀ d ac, q ∈ s'.afq d ac ↔ q ∈ s.afq d ac
  freedNodup : s'.freed.Nodup
  busNodup : s'.bus.Nodup
  airNodup : s'.air.Nodup
  afqNodup : ∀ d ac, (s'.afq d ac).Nodup
  item : ∀ i, s'.hanger i = s.hanger i ∨
    cfg.afq = false ∧ hung = true ∧ i = (s.tag p).hslot ∧
      ((s'.hanger i).pkt = some p ∧ (s'.hanger i).state ≠ .free ∨
        (s'.hanger i).pkt = none ∧ (s'.hanger i).state = .free)

theorem Rel.apart {s' : State} (h : Rel cfg s pl) {y : Place} (ha : Apart cfg s s' p (pl p).hung)
    (hp : At cfg s' p y)
    (hy : (s'.hanger (s.tag p).hslot).pkt = some p → cfg.afq = false → (pl p).hung = true →
      y.hung = true) : Rel cfg s' (Function.update pl p y) := by
  refine h.move ?_ hp fun q hqp => ?_
  · exact {
      psq := fun d k => ha.psq ▸ h.psq d k
      bus := ha.busNodup
      air := ha.airNodup
      freed := ha.freedNodup
      afq := ha.afqNodup
      owner := fun hm i q hi => by
        rw [ha.tag]
        rcases ha.item i with he | ⟨_, hh, rfl, ⟨ho, _⟩ | ⟨ho, _⟩⟩
        · rw [he] at hi
          obtain ⟨hs, hr⟩ := h.owner hm i q hi
          refine ⟨hs, ?_⟩
          by_cases hqp : q = p
          · subst hqp
            subst hs
            rw [Function.update_self]
            exact hy (he ▸ hi) hm hr
          · rw [Function.update_of_ne hqp]
            exact hr
        · rw [ho] at hi
          cases hi
          refine ⟨rfl, ?_⟩
          rw [Function.update_self]
          exact hy ho hm hh
        · rw [ho] at hi
          cases hi
      free := fun i => by
        rcases ha.item i with he | ⟨_, _, _, ⟨ho, hn⟩ | ⟨ho, hn⟩⟩
        · rw [he]
          exact h.free i
        · exact iff_of_false hn (by rw [ho]; nofun)
        · exact iff_of_true hn ho }
  · exact {
      passed := by rw [ha.passed]
      freed := ha.freed q hqp
      psq := fun d k => by rw [ha.psq]
      bus := ha.bus q hqp
      air := ha.air q hqp
      afq := ha.afq q hqp
      tag := ha.tag q
      item := fun hm hq => by
        rcases ha.item (s.tag q).hslot with he | ⟨_, hh, hs, _⟩
        · rw [he]
          exact ⟨hq, rfl, rfl⟩
        · have := ((h.places p).item hm hh).1
          rw [← hs, hq] at this
          exact absurd (Option.some.inj this) hqp }

theorem at_freed {b : Bool} (hp : p ∈ s.passed) (hf : p ∈ s.freed) (hq : ∀ d k, p ∉ s.psq d k)
    (hb : p ∉ s.bus) (ha : p ∉ s.air) (hafq : ∀ d ac, p ∉ s.afq d ac)
    (hi : b = true → cfg.afq = false ∧ (s.hanger (s.tag p).hslot).pkt = some p) :
    At cfg s p (.freed b) where
  passed := iff_of_true hp nofun
  freed := iff_of_true hf rfl
  psq d k := iff_of_false (hq d k) fun h => nomatch h.2.2
  bus := iff_of_false hb nofun
  air := iff_of_false ha nofun
  afq d ac := iff_of_false (hafq d ac) fun h => nomatch h.2.2.2
  onBus _ h := nomatch h
  undone := nofun
  slot hm h := nomatch hm.symm.trans (hi h).1
  item _ h := ⟨(hi h).2, trivial⟩

theorem Rel.state_ne_free (h : Rel cfg s pl) {i : Slot} (hi : (s.hanger i).pkt = some p) :
    (s.hanger i).state ≠ .free := by
  intro hf
  rw [(h.free i).mp hf] at hi
  cases hi

/-- The item that has been removed from the hanger. -/
theorem poppkt_eq {h : Slot → Item} {i : Slot} (hs : (h i).state ≠ .free) :
    (hangerPoppkt h i true).1 =
      Function.update h i { h i with state := .free, gen := true, pkt := none } := by
  unfold hangerPoppkt
  rw [if_pos hs]
  rfl

theorem poppkt_item {h : Slot → Item} {i : Slot} (hs : (h i).state ≠ .free) (j : Slot) :
    (hangerPoppkt h i true).1 j = h j ∨ j = i ∧ ((hangerPoppkt h i true).1 j).pkt = none ∧
      ((hangerPoppkt h i true).1 j).state = .free := by
  rw [poppkt_eq hs]
  by_cases hj : j = i
  · subst hj
    rw [Function.update_self]
    exact Or.inr ⟨rfl, rfl, rfl⟩
  · exact Or.inl (Function.update_of_ne hj _ _)

theorem nodup_freed (h : l.Nodup) (hp : p ∉ l) : (l ++ [p]).Nodup := by
  rw [List.nodup_append_comm]
  exact List.nodup_cons.mpr ⟨hp, h⟩

theorem mem_concat_of_ne {q : Id} (h : q ≠ p) : q ∈ l ++ [p] ↔ q ∈ l := by
  rw [List.mem_append, List.mem_singleton]
  exact or_iff_left h

/-! ## Drops -/

theorem Rel.drop (h : Rel cfg s pl) (b : Bool) (hx : (pl p).handed = some k.sup)
    (ho : (pl p).onBus = false) :
    Rel cfg (precDrop cfg k b s p) (Function.update pl p (.freed false)) := by
  have hx := Place.handed_spec hx
  have hp := h.places p
  have hfreed : p ∉ s.freed := fun hf => nomatch hx.done.symm.trans (hp.freed.mp hf)
  refine h.apart ?_ ?_ (fun hi hm hh => ?_)
  · exact {
      passed := rfl
      psq := rfl
      tag := fun _ => rfl
      freed := fun q hq => mem_concat_of_ne hq
      bus := fun _ _ => Iff.rfl
      air := fun _ _ => Iff.rfl
      afq := fun _ _ _ _ => Iff.rfl
      freedNodup := nodup_freed h.freed hfreed
      busNodup := h.bus
      airNodup := h.air
      afqNodup := h.afq
      item := fun i => by
        show (if ¬ cfg.afq = true ∧ k.sup = true then (hangerPoppkt s.hanger _ true).1
          else s.hanger) i = s.hanger i ∨ _
        split
        · next hc =>
          have hm : cfg.afq = false := by simpa using hc.1
          have hi := (hp.item hm (hx.hung.trans hc.2)).1
          refine (poppkt_item (h.state_ne_free hi) i).imp_right fun hj => ?_
          refine ⟨hm, hx.hung.trans hc.2, hj.1, Or.inr ?_⟩
          show ((if ¬ cfg.afq = true ∧ k.sup = true then (hangerPoppkt s.hanger _ true).1
            else s.hanger) i).pkt = none ∧ ((if ¬ cfg.afq = true ∧ k.sup = true then
              (hangerPoppkt s.hanger _ true).1 else s.hanger) i).state = _
          rw [if_pos hc]
          exact hj.2
        · exact Or.inl rfl }
  · refine at_freed (hp.passed.mpr hx.fresh) (List.mem_append_right _ List.mem_cons_self) ?_ ?_ ?_ ?_
      nofun
    · exact h.notMem_psq hx.queue
    · exact fun hb => nomatch ho.symm.trans (hp.bus.mp hb)
    · exact fun ha => nomatch hx.atFw.symm.trans (hp.air.mp ha)
    · exact fun d ac ha => hx.notFlying _ _ ((hp.afq d ac).mp ha).2.2.2
  · have hk := hx.hung.symm.trans hh
    change ((if ¬ cfg.afq = true ∧ k.sup = true then (hangerPoppkt s.hanger _ true).1
      else s.hanger) _).pkt = _ at hi
    rw [if_pos ⟨by simp [hm], hk⟩, poppkt_eq (h.state_ne_free (hp.item hm hh).1),
      Function.update_self] at hi
    cases hi

theorem Rel.dropAll (h : Rel cfg s pl) (hl : l.Nodup) (hpl : ∀ q ∈ l, pl q = .hand k.sup) :
    Rel cfg (l.foldl (precDrop cfg k true) s) (putAll pl l (.freed false)) := by
  induction l generalizing s pl with
  | nil => exact h
  | cons p l ih =>
    obtain ⟨hp, hl⟩ := List.nodup_cons.mp hl
    have hpp := hpl p List.mem_cons_self
    rw [List.foldl_cons, putAll_cons]
    refine ih (h.drop true (hpp ▸ rfl) (hpp ▸ rfl)) hl fun q hq => ?_
    rw [Function.update_of_ne (ne_of_mem_of_not_mem hq hp)]
    exact hpl q (List.mem_cons_of_mem p hq)

theorem dropped_perm (cfg : Cfg) (l : List Id) : l.Perm (droppedPkts cfg l ++ keptPkts cfg l) := by
  unfold droppedPkts keptPkts
  generalize dropped cfg l = r
  have hsplit : l = l.take r.1 ++ ((l.drop r.1).take r.2 ++ l.drop (r.1 + r.2)) := by
    rw [← List.drop_drop, List.take_append_drop, List.take_append_drop]
  exact (List.Perm.of_eq hsplit).trans (List.perm_append_comm_assoc _ _ _)

/-- Packets of a queue that are not on the bus are dropped. -/
theorem Rel.dropPkts (h : Rel cfg s pl) (d : Dest) (k : Prec)
    (hbus : ∀ q ∈ droppedPkts cfg (s.psq d k), q ∉ s.bus) :
    Rel cfg (precDropPkts cfg s d k) (putAll pl (droppedPkts cfg (s.psq d k)) (.freed false)) := by
  have hperm := dropped_perm cfg (s.psq d k)
  have hun := h.unqueue hperm fun q hq => by
    by_contra hb
    exact hbus q hq ((h.places q).bus.mpr (by simpa using hb))
  have hnd := (List.nodup_append.mp (hperm.nodup_iff.mp (h.psq d k))).1
  have hall := hun.dropAll (k := k) hnd fun q hq => if_pos hq
  have he : putAll (putAll pl (droppedPkts cfg (s.psq d k)) (.hand k.sup))
      (droppedPkts cfg (s.psq d k)) (.freed false) =
        putAll pl (droppedPkts cfg (s.psq d k)) (.freed false) := by
    funext q
    unfold putAll
    split <;> rfl
  rw [he] at hall
  exact hall

/-! ## Enqueue -/

theorem insertBySeq_perm (seq : Id → Nat) (p : Id) (l : List Id) :
    (insertBySeq seq p l).Perm (p :: l) := by
  induction l with
  | nil => exact List.Perm.refl _
  | cons q l ih =>
    unfold insertBySeq
    split
    · exact (ih.cons q).trans (List.Perm.swap p q l)
    · exact List.Perm.refl _

theorem precEnque_eq (cfg : Cfg) (s : State) (d : Dest) (k : Prec) (p : Id) (qHead : Bool) :
    ∃ l, precEnque cfg s d k p qHead = s.setPsq d k l ∧ l.Perm (p :: s.psq d k) := by
  have hif : ∀ (c : Prop) [Decidable c] (seq : Id → Nat) (l : List Id),
      (if c then insertBySeq seq p l else if qHead = true then p :: l else l ++ [p]).Perm
        (p :: l) := by
    intro c _ seq l
    split
    · exact insertBySeq_perm seq p l
    · split
      · exact List.Perm.refl _
      · exact List.perm_append_singleton p l
  unfold precEnque
  exact ⟨_, rfl, hif _ _ _⟩

theorem Rel.enqueSeq (h : Rel cfg s pl) (qHead : Bool) (hx : (pl p).handed = some k.sup)
    (hd : (cfg.pkt p).entry = d) (hk : (cfg.pkt p).fifo = k.ac) :
    Rel cfg (precEnque cfg s d k p qHead) (Function.update pl p (pl p).enque) := by
  obtain ⟨l, he, hl⟩ := precEnque_eq cfg s d k p qHead
  rw [he]
  exact h.enque hx hd hk hl

theorem samePlaces_countPsq (cfg : Cfg) (s : State) (p : Id) (ac : Ac) (z : Int) :
    SamePlaces s (s.countPsq cfg p ac z) :=
  ⟨⟨rfl, rfl, rfl, rfl, rfl, rfl⟩, fun _ => rfl, fun _ => rfl, fun _ => rfl, fun _ => rfl,
    fun _ => Iff.rfl⟩

theorem samePlaces_countDrv (cfg : Cfg) (s : State) (p : Id) (ac : Ac) (z : Int) :
    SamePlaces s (s.countDrv cfg p ac z) :=
  ⟨⟨rfl, rfl, rfl, rfl, rfl, rfl⟩, fun _ => rfl, fun _ => rfl, fun _ => rfl, fun _ => rfl,
    fun _ => Iff.rfl⟩

theorem samePlaces_setEntry (s : State) (d : Dest) (e : Entry) : SamePlaces s (s.setEntry d e) :=
  ⟨⟨rfl, rfl, rfl, rfl, rfl, rfl⟩, fun _ => rfl, fun _ => rfl, fun _ => rfl, fun _ => rfl,
    fun _ => Iff.rfl⟩

/-- The packets that make room for one more. -/
def evicted (cfg : Cfg) (s : State) (d : Dest) (k : Prec) : List Id :=
  match room cfg s d k with
  | .evict e => droppedPkts cfg (s.psq d e)
  | _ => []

/-- Packets other than `p` stay where they are, or have been dropped from a queue. -/
def Spares (pl pl' : Id → Place) (p : Id) : Prop :=
  ∀ q, q ≠ p → pl' q = pl q ∨ (pl q).queue ≠ none ∧ pl' q = .freed false

theorem spares_update (pl : Id → Place) (p : Id) (y : Place) :
    Spares pl (Function.update pl p y) p := fun _ hq => Or.inl (Function.update_of_ne hq y pl)

theorem Spares.trans {pl' pl'' : Id → Place} (h : Spares pl pl' p) (h' : Spares pl' pl'' p) :
    Spares pl pl'' p := by
  intro q hq
  rcases h q hq with h1 | ⟨h1, h2⟩
  · rw [← h1]
    exact h' q hq
  · refine Or.inr ⟨h1, ?_⟩
    rcases h' q hq with h3 | ⟨_, h3⟩
    · exact h3.trans h2
    · exact h3

theorem Rel.enqWithDrop (h : Rel cfg s pl) (qHead : Bool) (hx : (pl p).handed = some k.sup)
    (hd : (cfg.pkt p).entry = d) (hk : (cfg.pkt p).fifo = k.ac)
    (hbus : ∀ q ∈ evicted cfg s d k, q ∉ s.bus) :
    precEnqWithDrop cfg s d k p qHead = (s, false) ∨
      (precEnqWithDrop cfg s d k p qHead).2 = true ∧
        ∃ pl', Rel cfg (precEnqWithDrop cfg s d k p qHead).1 pl' ∧ Spares pl pl' p ∧
          pl' p = (pl p).enque := by
  unfold evicted at hbus
  unfold precEnqWithDrop
  cases hr : room cfg s d k with
  | refuse => exact Or.inl rfl
  | enough =>
    have hrel := (h.enqueSeq qHead hx hd hk).congr (samePlaces_countPsq cfg _ p k.ac 1)
    exact Or.inr ⟨rfl, _, hrel, spares_update pl p _, Function.update_self _ _ _⟩
  | evict e =>
    rw [hr] at hbus
    have hmem : ∀ q ∈ droppedPkts cfg (s.psq d e), q ∈ s.psq d e := fun q hq =>
      (dropped_perm cfg _).mem_iff.mpr (List.mem_append_left _ hq)
    have hp : p ∉ droppedPkts cfg (s.psq d e) := fun hm =>
      h.notMem_psq (Place.handed_spec hx).queue d e (hmem p hm)
    have hplace : putAll pl (droppedPkts cfg (s.psq d e)) (.freed false) p = pl p := if_neg hp
    have hrel := (h.dropPkts d e hbus).enqueSeq qHead (hplace ▸ hx) hd hk
    rw [hplace] at hrel
    refine Or.inr ⟨rfl, _, hrel.congr (samePlaces_countPsq cfg _ p k.ac 1), fun q hq => ?_,
      Function.update_self _ _ _⟩
    rw [Function.update_of_ne hq]
    unfold putAll
    split
    · next hm =>
      refine Or.inr ⟨fun hn => ?_, rfl⟩
      exact h.notMem_psq hn d e (hmem q hm)
    · exact Or.inl rfl

/-! ## Commit -/

theorem freeSlotFrom_free {h : Slot → Item} {n : Nat} {i j : Slot}
    (hs : freeSlotFrom h n i = some j) : (h j).state = .free := by
  induction n generalizing i with
  | zero => cases hs
  | succ n ih =>
    unfold freeSlotFrom at hs
    split at hs
    · next hf =>
      cases hs
      exact hf
    · exact ih hs

/-- A packet in hand gets a slot, or gives it back. -/
theorem At.rehand {s' : State} {b b' : Bool} (h : At cfg s p (.hand b)) (hl : SameLists s s')
    (hslot : cfg.afq = true → b' = true → (s'.tag p).hslot = slotOf (cfg.pkt p).entry)
    (hitem : cfg.afq = false → b' = true → (s'.hanger (s'.tag p).hslot).pkt = some p ∧
      (s'.hanger (s'.tag p).hslot).txstatus = false) : At cfg s' p (.hand b') where
  passed := by
    rw [hl.passed]
    exact h.passed.trans (iff_of_true nofun nofun)
  freed := by
    rw [hl.freed]
    exact h.freed
  psq d k := by
    rw [hl.psq]
    exact (h.psq d k).trans (iff_of_false (fun hf => nomatch hf.2.2) fun hf => nomatch hf.2.2)
  bus := by
    rw [hl.bus]
    exact h.bus
  air := by
    rw [hl.air]
    exact h.air
  afq d ac := by
    rw [hl.afq]
    exact (h.afq d ac).trans (iff_of_false (fun hf => nomatch hf.2.2.2) fun hf => nomatch hf.2.2.2)
  onBus _ hb := nomatch hb
  undone := nofun
  slot := hslot
  item := hitem

/-- What a packet with a slot has when it is given to the bus. -/
structure Ready (cfg : Cfg) (s : State) (pl : Id → Place) (p : Id) : Prop where
  rel : Rel cfg s (Function.update pl p (.hand true))
  clear : cfg.afq = false → (s.hanger (s.tag p).hslot).busreturned = false
  live : cfg.afq = false → (s.hanger (s.tag p).hslot).state = .inuse

theorem tag_update (t : Id → Tag) (p : Id) (x : Tag) {q : Id} (hq : q ≠ p) :
    (Function.update t p x q).hslot = (t q).hslot := by
  rw [Function.update_of_ne hq]

theorem Rel.newHeader (h : Rel cfg s pl) (hp : pl p = .hand false) (hd : (cfg.pkt p).entry = d) :
    pretxNew cfg s d p = (s, false) ∨
      (pretxNew cfg s d p).2 = true ∧ Ready cfg (pretxNew cfg s d p).1 pl p := by
  have hat := h.places p
  rw [hp] at hat
  unfold pretxNew
  dsimp only
  split
  · next hafq =>
    refine Or.inr ⟨rfl, ?_, fun ha => absurd hafq (by simp [ha]),
      fun ha => absurd hafq (by simp [ha])⟩
    refine h.move ?_ (hat.rehand ⟨rfl, rfl, rfl, rfl, rfl, rfl⟩ (fun _ _ => ?_) fun ha =>
      absurd hafq (by simp [ha])) fun q hq => ?_
    · exact {
        psq := h.psq
        bus := h.bus
        air := h.air
        freed := h.freed
        afq := h.afq
        owner := fun ha => absurd hafq (by simp [ha])
        free := h.free }
    · show (Function.update s.tag p _ p).hslot = _
      rw [Function.update_self, hd]
    · exact ⟨Iff.rfl, Iff.rfl, fun _ _ => Iff.rfl, Iff.rfl, Iff.rfl, fun _ _ => Iff.rfl,
        tag_update s.tag p _ hq, fun _ hi => ⟨hi, rfl, rfl⟩⟩
  · next hafq =>
    have hm : cfg.afq = false := by simpa using hafq
    cases hg : hangerGetFreeSlot s with
    | none => exact Or.inl rfl
    | some i =>
      have hfree : (s.hanger i).state = .free := freeSlotFrom_free hg
      unfold hangerPushpkt
      dsimp only
      rw [if_pos hfree]
      refine Or.inr ⟨rfl, h.move ?_ (hat.rehand ⟨rfl, rfl, rfl, rfl, rfl, rfl⟩
        (fun ha => absurd ha hafq) fun _ _ => ?_) fun q hq => ?_, fun _ => ?_, fun _ => ?_⟩
      · exact {
          psq := h.psq
          bus := h.bus
          air := h.air
          freed := h.freed
          afq := h.afq
          owner := fun ha j q hj => by
            change (Function.update s.hanger i _ j).pkt = some q at hj
            show (Function.update s.tag p _ q).hslot = j ∧ _
            by_cases hji : j = i
            · subst hji
              rw [Function.update_self] at hj
              cases hj
              rw [Function.update_self, Function.update_self]
              exact ⟨rfl, rfl⟩
            · rw [Function.update_of_ne hji] at hj
              obtain ⟨hs, hr⟩ := h.owner ha j q hj
              have hqp : q ≠ p := by
                rintro rfl
                rw [hp] at hr
                cases hr
              rw [tag_update s.tag p _ hqp, Function.update_of_ne hqp]
              exact ⟨hs, hr⟩
          free := fun j => by
            show (Function.update s.hanger i _ j).state = _ ↔ (Function.update s.hanger i _ j).pkt = _
            by_cases hji : j = i
            · subst hji
              rw [Function.update_self]
              exact iff_of_false nofun nofun
            · rw [Function.update_of_ne hji]
              exact h.free j }
      · show (Function.update s.hanger i _ (Function.update s.tag p _ p).hslot).pkt = _ ∧
          (Function.update s.hanger i _ (Function.update s.tag p _ p).hslot).txstatus = _
        rw [Function.update_self, Function.update_self]
        exact ⟨rfl, rfl⟩
      · refine ⟨Iff.rfl, Iff.rfl, fun _ _ => Iff.rfl, Iff.rfl, Iff.rfl, fun _ _ => Iff.rfl,
          tag_update s.tag p _ hq, fun _ hi => ?_⟩
        show (Function.update s.hanger i _ _).pkt = _ ∧
          (Function.update s.hanger i _ _).txstatus = _ ∧
          (Function.update s.hanger i _ _).busreturned = _
        have hne : (s.tag q).hslot ≠ i := by
          rintro rfl
          exact h.state_ne_free hi hfree
        rw [Function.update_of_ne hne]
        exact ⟨hi, rfl, rfl⟩
      · show (Function.update s.hanger i _ (Function.update s.tag p _ p).hslot).busreturned = _
        rw [Function.update_self, Function.update_self]
      · show (Function.update s.hanger i _ (Function.update s.tag p _ p).hslot).state = _
        rw [Function.update_self, Function.update_self]

theorem Rel.oldHeader (h : Rel cfg s pl) (d : Dest) (hp : pl p = .hand true) :
    Ready cfg (pretxAgain cfg s d p) pl p := by
  have hat := h.places p
  rw [hp] at hat
  unfold pretxAgain
  dsimp only
  have htag : ∀ (x : Tag) q, x.hslot = (s.tag p).hslot →
      (Function.update s.tag p x q).hslot = (s.tag q).hslot := by
    intro x q hx
    by_cases hq : q = p
    · subst hq
      rw [Function.update_self, hx]
    · rw [Function.update_of_ne hq]
  split
  · next hafq =>
    refine ⟨?_, fun ha => absurd hafq (by simp [ha]), fun ha => absurd hafq (by simp [ha])⟩
    rw [← hp, Function.update_eq_self]
    exact h.congr ⟨⟨rfl, rfl, rfl, rfl, rfl, rfl⟩, fun q => htag _ q rfl, fun _ => rfl,
      fun _ => rfl, fun _ => rfl, fun _ => Iff.rfl⟩
  · next hafq =>
    have hm : cfg.afq = false := by simpa using hafq
    obtain ⟨hi, hb⟩ := hat.item hm rfl
    refine ⟨h.apart ?_ (hat.rehand ⟨rfl, rfl, rfl, rfl, rfl, rfl⟩ (fun ha => absurd ha hafq)
      fun _ _ => ?_) (fun _ _ _ => rfl), fun _ => ?_, fun _ => ?_⟩
    · exact {
        passed := rfl
        psq := rfl
        tag := fun q => htag _ q rfl
        freed := fun _ _ => Iff.rfl
        bus := fun _ _ => Iff.rfl
        air := fun _ _ => Iff.rfl
        afq := fun _ _ _ _ => Iff.rfl
        freedNodup := h.freed
        busNodup := h.bus
        airNodup := h.air
        afqNodup := h.afq
        item := fun j => by
          show Function.update s.hanger _ _ j = _ ∨ _
          by_cases hj : j = (s.tag p).hslot
          · subst hj
            refine Or.inr ⟨hm, hp ▸ rfl, rfl, Or.inl ?_⟩
            show (Function.update s.hanger _ _ _).pkt = _ ∧ (Function.update s.hanger _ _ _).state ≠ _
            rw [Function.update_self]
            exact ⟨hi, nofun⟩
          · exact Or.inl (Function.update_of_ne hj _ _) }
    · show (Function.update s.hanger _ _ (Function.update s.tag p _ p).hslot).pkt = _ ∧
        (Function.update s.hanger _ _ (Function.update s.tag p _ p).hslot).txstatus = _
      rw [Function.update_self, Function.update_self]
      exact ⟨hi, rfl⟩
    · show (Function.update s.hanger _ _ (Function.update s.tag p _ p).hslot).busreturned = _
      rw [Function.update_self, Function.update_self]
    · show (Function.update s.hanger _ _ (Function.update s.tag p _ p).hslot).state = _
      rw [Function.update_self, Function.update_self]

/-- The packet is given to the bus. -/
theorem Ready.onBus (h : Ready cfg s pl p) (d : Dest) :
    Rel cfg (committed s d p) (Function.update pl p (.flying true true)) := by
  have hat := h.rel.places p
  rw [Function.update_self] at hat
  have hbus : p ∉ s.bus := fun hb => nomatch hat.bus.mp hb
  have hair : p ∉ s.air := fun hb => nomatch hat.air.mp hb
  suffices hrel : Rel cfg (committed s d p)
      (Function.update (Function.update pl p (.hand true)) p (.flying true true)) by
    rw [Function.update_idem] at hrel
    exact hrel
  refine h.rel.apart (p := p) ?_ ?_ fun _ _ _ => rfl
  · exact {
      passed := rfl
      psq := rfl
      tag := fun _ => rfl
      freed := fun _ _ => Iff.rfl
      bus := fun _ hq => mem_concat_of_ne hq
      air := fun _ hq => mem_concat_of_ne hq
      afq := fun _ _ _ _ => Iff.rfl
      freedNodup := h.rel.freed
      busNodup := nodup_freed h.rel.bus hbus
      airNodup := nodup_freed h.rel.air hair
      afqNodup := h.rel.afq
      item := fun _ => Or.inl rfl }
  · exact {
      passed := hat.passed.trans (iff_of_true nofun nofun)
      freed := hat.freed
      psq := fun d k => (hat.psq d k).trans
        (iff_of_false (fun hf => nomatch hf.2.2) fun hf => nomatch hf.2.2)
      bus := iff_of_true (List.mem_append_right _ List.mem_cons_self) rfl
      air := iff_of_true (List.mem_append_right _ List.mem_cons_self) rfl
      afq := fun d ac => (hat.afq d ac).trans
        (iff_of_false (fun hf => nomatch hf.2.2.2) fun hf => nomatch hf.2.2.2)
      onBus := fun _ _ => rfl
      undone := nofun
      slot := hat.slot
      item := fun ha hs => ⟨(hat.item ha hs).1, (hat.item ha hs).2, h.clear ha⟩ }

/-- A packet in hand gives its slot back (in AFQ mode, the slot number means nothing). -/
theorem Rel.pop (h : Rel cfg s (Function.update pl p (.hand true))) :
    Rel cfg { s with hanger := if cfg.afq then s.hanger
        else (hangerPoppkt s.hanger (s.tag p).hslot true).1 }
      (Function.update pl p (.hand false)) := by
  have hat := h.places p
  rw [Function.update_self] at hat
  suffices hrel : Rel cfg { s with hanger := if cfg.afq then s.hanger
        else (hangerPoppkt s.hanger (s.tag p).hslot true).1 }
      (Function.update (Function.update pl p (.hand true)) p (.hand false)) by
    rw [Function.update_idem] at hrel
    exact hrel
  refine h.apart (p := p) ?_ (hat.rehand ⟨rfl, rfl, rfl, rfl, rfl, rfl⟩ nofun nofun)
    fun hi hm _ => ?_
  · exact {
      passed := rfl
      psq := rfl
      tag := fun _ => rfl
      freed := fun _ _ => Iff.rfl
      bus := fun _ _ => Iff.rfl
      air := fun _ _ => Iff.rfl
      afq := fun _ _ _ _ => Iff.rfl
      freedNodup := h.freed
      busNodup := h.bus
      airNodup := h.air
      afqNodup := h.afq
      item := fun i => by
        dsimp only
        split
        · exact Or.inl rfl
        · next hafq =>
          have hm : cfg.afq = false := by simpa using hafq
          have hs := h.state_ne_free (hat.item hm rfl).1
          refine (poppkt_item hs i).imp_right fun hj => ⟨hm, ?_, hj.1, Or.inr hj.2⟩
          rw [Function.update_self]
          rfl }
  · dsimp only at hi
    rw [hm, if_neg nofun, poppkt_eq (h.state_ne_free (hat.item hm rfl).1),
      Function.update_self] at hi
    cases hi

theorem evicted_mem {q : Id} (hq : q ∈ evicted cfg s d k) :
    ∃ e, q ∈ s.psq d e := by
  unfold evicted at hq
  split at hq
  · next e _ => exact ⟨e, (dropped_perm cfg _).mem_iff.mpr (List.mem_append_left _ hq)⟩
  · cases hq

/-- A packet in hand goes back to its queue, or is dropped. -/
theorem Rel.rollback (h : Rel cfg s pl) (needsHdr pulled : Bool) (hp : pl p = .hand (!needsHdr))
    (hbus : ∀ k, ∀ q ∈ s.psq (cfg.pkt p).entry k, q ∉ s.bus) :
    ∃ pl', Rel cfg (rollbackPacketToq cfg s p needsHdr pulled) pl' ∧ Spares pl pl' p ∧
      (pl' p = .freed false ∨ pl' p = (Place.hand (!needsHdr)).enque) := by
  have hback : ∀ (t : State) (k : Prec), Rel cfg t pl → k.sup = !needsHdr →
      (cfg.pkt p).fifo = k.ac → (∀ e, ∀ q ∈ t.psq (cfg.pkt p).entry e, q ∉ t.bus) →
      ∀ r, r = (t, false) ∨ r = precEnqWithDrop cfg t (cfg.pkt p).entry k p true →
      ∃ pl', Rel cfg (if r.2 then r.1 else precDrop cfg k false r.1 p) pl' ∧
        Spares pl pl' p ∧ (pl' p = .freed false ∨ pl' p = (Place.hand (!needsHdr)).enque) := by
    intro t k ht hk hac hb r hr
    have hx : (pl p).handed = some k.sup := by rw [hp, hk]; rfl
    have hdrop : ∃ pl', Rel cfg (precDrop cfg k false t p) pl' ∧ Spares pl pl' p ∧
        (pl' p = .freed false ∨ pl' p = (Place.hand (!needsHdr)).enque) :=
      ⟨_, ht.drop false hx (by rw [hp]; rfl), spares_update pl p _,
        Or.inl (Function.update_self _ _ _)⟩
    rcases hr with rfl | rfl
    · exact hdrop
    · rcases ht.enqWithDrop true hx rfl hac fun q hq => by
          obtain ⟨e, he⟩ := evicted_mem hq
          exact hb e q he with he | ⟨he, pl', hrel, hsp, hpl'⟩
      · rw [he]
        exact hdrop
      · rw [he, if_pos rfl]
        exact ⟨pl', hrel, hsp, Or.inr (hpl'.trans (by rw [hp]))⟩
  unfold rollbackPacketToq
  cases needsHdr with
  | true =>
    rw [if_pos rfl]
    dsimp only
    obtain ⟨t, ht, hrel, hbt⟩ : ∃ t, t = s.setEntry (cfg.pkt p).entry _ ∧ Rel cfg t pl ∧
        ∀ k, ∀ q ∈ t.psq (cfg.pkt p).entry k, q ∉ t.bus :=
      ⟨_, rfl, h.congr (samePlaces_setEntry s _ _), hbus⟩
    rw [← ht]
    refine hback t (dly (cfg.pkt p).fifo) hrel rfl rfl hbt _ ?_
    cases pulled
    · exact Or.inl rfl
    · exact Or.inr rfl
  | false =>
    rw [if_neg nofun]
    exact hback s (sup (cfg.pkt p).fifo) h rfl rfl hbus _ (Or.inr rfl)

end Bcmdhd.Wlfc
