import Mathlib.Data.List.Perm.Basic
import Mathlib.Algebra.BigOperators.Group.List.Basic
import Mathlib.Algebra.Order.Group.Multiset
import Mathlib.Tactic.Abel
import Bcmdhd.Lib.RingQueue
import Bcmdhd.Linux.WakeLock

/-!
# The thread for received frames (`dhd_sched_rxf`, `dhd_rxf_thread`)

`dhd_rx_frame` links the frames it was given and stores the chain in a ring of slots (`skbbuf`).
A thread takes the chains out and passes their frames to the network stack.  A semaphore counts the
chains, and each of them counts the wake lock, from before it is stored until its last frame is
passed on.

    runs (step conf) init acts = some (t, tr) →
      each frame given was passed on once or is pending, and none is pending when all have gone
      to sleep                                                                   (rxf_no_loss)
      calls are made one after the other → frames are passed on in order        (rxf_in_order)
      no event lock shares the source → the device stays awake for what is pending  (rxf_awake)
-/

namespace Bcmdhd.Linux.Rxf

open Runs RingQueue WakeLock

/-! ## Algorithm -/

def MAXSKBPEND : Nat := 1024

/-- `dequeueOnBusy`: `RXF_DEQUEUE_ON_BUSY` -/
structure Conf where
  dequeueOnBusy : Bool
  wake : WakeLock.Conf

/-- Where a call of `dhd_sched_rxf` is: in front of `dhd_rxf_enqueue`, or of `up`, or it passes on
the rest of its frames itself. -/
inductive Sched (α : Type)
  | enqueue (chain : List α) (retry : Int)
  | stored
  | backlog (rest : List α)

/-- Where the thread is: it sleeps, is in front of `dhd_rxf_dequeue`, or passes on frames. -/
inductive Pc (α : Type)
  | waiting
  | took
  | passing (rest : List α)

/-- `others`: locks that are counted for other work.  `given`, `stored` and `passed` are what
happened so far: chains that `dhd_sched_rxf` was called with and those it stored, and calls of
`netif_rx`.  `left`: chains whose wake lock is not given back. -/
structure State (α : Type) where
  skbbuf : Nat → Option (List α)
  storeIdx : Nat
  sentIdx : Nat
  sema : Nat
  pc : Pc α
  scheds : List (Sched α)
  lock : WakeLock.State
  others : Nat
  given : List (List α)
  stored : List (List α)
  passed : List α
  left : Nat

inductive Act (α : Type)
  | sched (chain : List α)
  | enqueue (i : Nat)
  | up (i : Nat)
  | backlog (i : Nat)
  | take
  | dequeue
  | pass
  /-- Other work, with the wake lock -/
  | other (a : WakeLock.Act)

variable {α : Type}

/-- `none`: the slot is taken. -/
def dhdRxfEnqueue (s : State α) (chain : List α) : Option (State α) :=
  match s.skbbuf s.storeIdx with
  | some _ => none
  | none => some { s with
      skbbuf := Function.update s.skbbuf s.storeIdx (some chain)
      storeIdx := (s.storeIdx + 1) &&& (MAXSKBPEND - 1)
      stored := s.stored ++ [chain] }

/-- The chain, or `none` for NULL -/
def dhdRxfDequeue (s : State α) : State α × Option (List α) :=
  match s.skbbuf s.sentIdx with
  | none => (s, none)
  | some chain =>
    ({ s with
      skbbuf := Function.update s.skbbuf s.sentIdx none
      sentIdx := (s.sentIdx + 1) &&& (MAXSKBPEND - 1) }, some chain)

/-- A turn of the loop in `dhd_sched_rxf`.  With `RXF_DEQUEUE_ON_BUSY` there are three. -/
def schedTurn (conf : Conf) (s : State α) (i : Nat) (chain : List α) (retry : Int) : State α :=
  match dhdRxfEnqueue s chain with
  | some s => { s with scheds := s.scheds.set i .stored }
  | none =>
    if ¬ conf.dequeueOnBusy then s
    else if 0 < retry then { s with scheds := s.scheds.set i (.enqueue chain (retry - 1)) }
    else { s with scheds := s.scheds.set i (.backlog chain), left := s.left + 1 }

/-- Behind `down_interruptible` -/
def threadTook (s : State α) : State α :=
  match dhdRxfDequeue s with
  | (s, none) => { s with pc := .waiting }
  | (s, some chain) => { s with pc := .passing chain }

def step (conf : Conf) (s : State α) : Act α → Option (State α × Unit)
  | .sched chain =>
    if chain.isEmpty then none
    else some ({ s with
      lock := dhdOsWakeLock conf.wake s.lock
      scheds := s.scheds ++ [.enqueue chain 2]
      given := s.given ++ [chain] }, ())
  | .enqueue i =>
    match s.scheds[i]? with
    | some (.enqueue chain retry) => some (schedTurn conf s i chain retry, ())
    | _ => none
  | .up i =>
    match s.scheds[i]? with
    | some .stored => some ({ s with sema := s.sema + 1, scheds := s.scheds.eraseIdx i }, ())
    | _ => none
  | .backlog i =>
    match s.scheds[i]? with
    | some (.backlog (skb :: rest)) =>
      some ({ s with passed := s.passed ++ [skb], scheds := s.scheds.set i (.backlog rest) }, ())
    | some (.backlog []) => some ({ s with scheds := s.scheds.eraseIdx i }, ())
    | _ => none
  | .take =>
    match s.pc with
    | .waiting => if 0 < s.sema then some ({ s with sema := s.sema - 1, pc := .took }, ()) else none
    | _ => none
  | .dequeue =>
    match s.pc with
    | .took => some (threadTook s, ())
    | _ => none
  | .pass =>
    match s.pc with
    | .passing (skb :: rest) =>
      some ({ s with passed := s.passed ++ [skb], pc := .passing rest }, ())
    | .passing [] => some ({ s with lock := dhdOsWakeUnlock conf.wake s.lock, pc := .waiting }, ())
    | _ => none
  | .other .lock =>
    some ({ s with lock := dhdOsWakeLock conf.wake s.lock, others := s.others + 1 }, ())
  | .other .unlock =>
    if 0 < s.others then
      some ({ s with lock := dhdOsWakeUnlock conf.wake s.lock, others := s.others - 1 }, ())
    else none
  | .other a => some ({ s with lock := act conf.wake s.lock a }, ())

def init : State α where
  skbbuf := fun _ => none
  storeIdx := 0
  sentIdx := 0
  sema := 0
  pc := .waiting
  scheds := []
  lock := WakeLock.init
  others := 0
  given := []
  stored := []
  passed := []
  left := 0

/-! ## What is pending -/

def Sched.frames : Sched α → List α
  | .enqueue chain _ => chain
  | .stored => []
  | .backlog rest => rest

def Pc.frames : Pc α → List α
  | .passing rest => rest
  | _ => []

/-- The chains in `skbbuf`, oldest first -/
def queue (s : State α) : List (List α) :=
  (List.range MAXSKBPEND).filterMap fun j => s.skbbuf ((s.sentIdx + j) % MAXSKBPEND)

/-- Frames that were given and not passed on -/
def pending (s : State α) : List α :=
  s.pc.frames ++ (queue s).flatten ++ (s.scheds.map Sched.frames).flatten

/-- The thread sleeps, and nobody is about to wake it. -/
structure Quiet (s : State α) : Prop where
  pc : s.pc = .waiting
  sema : s.sema = 0
  scheds : s.scheds = []

/-- A call begins when the one before has ended. -/
def single (s : State α) : Act α → Bool
  | .sched _ => s.scheds.isEmpty
  | _ => true

/-- No event lock is given back that shares the source with locks in use. -/
def calm (conf : Conf) (s : State α) : Act α → Bool
  | .other a => WakeLock.calm conf.wake s.lock a
  | _ => true

/-! ## Steps -/

/-- What a step can do. -/
inductive Moves (conf : Conf) (s : State α) : Act α → State α → Prop
  | sched (chain : List α) : Moves conf s (.sched chain) { s with
      lock := dhdOsWakeLock conf.wake s.lock
      scheds := s.scheds ++ [.enqueue chain 2]
      given := s.given ++ [chain] }
  | store (i : Nat) (chain : List α) (retry : Int) (hi : s.scheds[i]? = some (.enqueue chain retry))
    (hfree : s.skbbuf s.storeIdx = none) : Moves conf s (.enqueue i) { s with
      skbbuf := Function.update s.skbbuf s.storeIdx (some chain)
      storeIdx := (s.storeIdx + 1) &&& (MAXSKBPEND - 1)
      stored := s.stored ++ [chain]
      scheds := s.scheds.set i .stored }
  | spin (i : Nat) : Moves conf s (.enqueue i) s
  | busy (i : Nat) (chain : List α) (retry : Int)
    (hi : s.scheds[i]? = some (.enqueue chain retry)) (hconf : conf.dequeueOnBusy = true) :
    Moves conf s (.enqueue i) { s with scheds := s.scheds.set i (.enqueue chain (retry - 1)) }
  | giveUp (i : Nat) (chain : List α) (retry : Int)
    (hi : s.scheds[i]? = some (.enqueue chain retry)) (hconf : conf.dequeueOnBusy = true) :
    Moves conf s (.enqueue i) { s with
      scheds := s.scheds.set i (.backlog chain)
      left := s.left + 1 }
  | up (i : Nat) (hi : s.scheds[i]? = some .stored) :
    Moves conf s (.up i) { s with sema := s.sema + 1, scheds := s.scheds.eraseIdx i }
  | backlog (i : Nat) (skb : α) (rest : List α)
    (hi : s.scheds[i]? = some (.backlog (skb :: rest))) :
    Moves conf s (.backlog i) { s with
      passed := s.passed ++ [skb]
      scheds := s.scheds.set i (.backlog rest) }
  | backlogEnd (i : Nat) (hi : s.scheds[i]? = some (.backlog [])) :
    Moves conf s (.backlog i) { s with scheds := s.scheds.eraseIdx i }
  | take (hpc : s.pc = .waiting) (hsema : 0 < s.sema) :
    Moves conf s .take { s with sema := s.sema - 1, pc := .took }
  | empty (hpc : s.pc = .took) (hnone : s.skbbuf s.sentIdx = none) :
    Moves conf s .dequeue { s with pc := .waiting }
  | dequeue (hpc : s.pc = .took) (chain : List α) (hsome : s.skbbuf s.sentIdx = some chain) :
    Moves conf s .dequeue { s with
      skbbuf := Function.update s.skbbuf s.sentIdx none
      sentIdx := (s.sentIdx + 1) &&& (MAXSKBPEND - 1)
      pc := .passing chain }
  | pass (skb : α) (rest : List α) (hpc : s.pc = .passing (skb :: rest)) :
    Moves conf s .pass { s with passed := s.passed ++ [skb], pc := .passing rest }
  | passEnd (hpc : s.pc = .passing []) :
    Moves conf s .pass { s with lock := dhdOsWakeUnlock conf.wake s.lock, pc := .waiting }
  | lock : Moves conf s (.other .lock) { s with
      lock := dhdOsWakeLock conf.wake s.lock
      others := s.others + 1 }
  | unlock (hothers : 0 < s.others) : Moves conf s (.other .unlock) { s with
      lock := dhdOsWakeUnlock conf.wake s.lock
      others := s.others - 1 }
  | other (a : WakeLock.Act) (hlock : a ≠ .lock) (hunlock : a ≠ .unlock) :
    Moves conf s (.other a) { s with lock := act conf.wake s.lock a }

variable {conf : Conf} {s t : State α} {e : Act α}

theorem schedTurn_moves {i : Nat} {chain : List α} {retry : Int}
    (hi : s.scheds[i]? = some (.enqueue chain retry)) :
    Moves conf s (.enqueue i) (schedTurn conf s i chain retry) := by
  unfold schedTurn dhdRxfEnqueue
  cases hslot : s.skbbuf s.storeIdx with
  | none => exact .store i chain retry hi hslot
  | some _ =>
    dsimp only
    split_ifs with hconf hretry
    · exact .busy i chain retry hi hconf
    · exact .giveUp i chain retry hi hconf
    · exact .spin i

theorem threadTook_moves (hpc : s.pc = .took) : Moves conf s .dequeue (threadTook s) := by
  unfold threadTook dhdRxfDequeue
  cases hslot : s.skbbuf s.sentIdx with
  | none => exact .empty hpc hslot
  | some chain => exact .dequeue hpc chain hslot

theorem step_moves {u : Unit} (h : step conf s e = some (t, u)) : Moves conf s e t := by
  cases e with
  | sched chain =>
    simp only [step] at h
    split at h
    · cases h
    · cases h
      exact .sched chain
  | enqueue i =>
    simp only [step] at h
    split at h
    · next chain retry hi =>
      cases h
      exact schedTurn_moves hi
    · cases h
  | up i =>
    simp only [step] at h
    split at h
    · next hi =>
      cases h
      exact .up i hi
    · cases h
  | backlog i =>
    simp only [step] at h
    split at h
    · next skb rest hi =>
      cases h
      exact .backlog i skb rest hi
    · next hi =>
      cases h
      exact .backlogEnd i hi
    · cases h
  | take =>
    simp only [step] at h
    split at h
    · next hpc =>
      split at h
      · next hsema =>
        cases h
        exact .take hpc hsema
      · cases h
    · cases h
  | dequeue =>
    simp only [step] at h
    split at h
    · next hpc =>
      cases h
      exact threadTook_moves hpc
    · cases h
  | pass =>
    simp only [step] at h
    split at h
    · next skb rest hpc =>
      cases h
      exact .pass skb rest hpc
    · next hpc =>
      cases h
      exact .passEnd hpc
    · cases h
  | other a =>
    cases a with
    | lock =>
      cases h
      exact .lock
    | unlock =>
      simp only [step] at h
      split at h
      · next hothers =>
        cases h
        exact .unlock hothers
      · cases h
    | _ =>
      cases h
      exact .other _ nofun nofun

/-! ## Sums over the calls -/

section Sums
variable {β M : Type} [AddCommMonoid M] (f : β → M) {l : List β} {i : Nat} {x : β}

theorem sum_eraseIdx (hi : l[i]? = some x) : (l.map f).sum = f x + ((l.eraseIdx i).map f).sum := by
  obtain ⟨hlt, rfl⟩ := List.getElem?_eq_some_iff.mp hi
  have hperm := ((List.getElem_cons_eraseIdx_perm hlt).map f).sum_eq
  rw [← hperm, List.map_cons, List.sum_cons]

theorem sum_set (hi : l[i]? = some x) (y : β) :
    ((l.set i y).map f).sum = f y + ((l.eraseIdx i).map f).sum := by
  obtain ⟨hlt, -⟩ := List.getElem?_eq_some_iff.mp hi
  rw [((List.set_perm_cons_eraseIdx hlt y).map f).sum_eq, List.map_cons, List.sum_cons]

end Sums

/-! ## The invariant -/

/-- A call in front of `up` -/
def Sched.tokens : Sched α → Nat
  | .stored => 1
  | _ => 0

/-- A call whose chain is not stored yet -/
def Sched.locks : Sched α → Nat
  | .enqueue _ _ => 1
  | _ => 0

/-- A call that passes on its frames itself -/
def Sched.backlogs : Sched α → Nat
  | .backlog _ => 1
  | _ => 0

def Pc.tokens : Pc α → Nat
  | .took => 1
  | _ => 0

def Pc.locks : Pc α → Nat
  | .passing _ => 1
  | _ => 0

/-- `q`: the chains in `skbbuf`.  The semaphore counts them, and so does the wake lock. -/
structure Inv (s : State α) (q : List (List α)) : Prop where
  sent : s.sentIdx < MAXSKBPEND
  store : s.storeIdx = (s.sentIdx + q.length) % MAXSKBPEND
  holds : Holds MAXSKBPEND s.skbbuf s.sentIdx q
  tokens : s.sema + (s.scheds.map Sched.tokens).sum + s.pc.tokens = q.length
  locks : s.lock.wakelockCounter =
    s.others + (s.scheds.map Sched.locks).sum + q.length + s.pc.locks + s.left
  left : (s.scheds.map Sched.backlogs).sum ≤ s.left
  frames : (s.given.flatten : Multiset α) =
    s.passed + s.pc.frames + q.flatten + (s.scheds.map fun c => (c.frames : Multiset α)).sum

theorem init_inv : Inv (init : State α) [] where
  sent := Nat.succ_pos _
  store := rfl
  holds := holds_nil (fun _ _ => rfl) 0
  tokens := rfl
  locks := rfl
  left := le_rfl
  frames := rfl

theorem mask_eq_mod (n : Nat) : n &&& (MAXSKBPEND - 1) = n % MAXSKBPEND :=
  Nat.and_two_pow_sub_one_eq_mod n 10

/-- The thread finds a chain whenever the semaphore lets it pass. -/
theorem Inv.took {q : List (List α)} (h : Inv s q) (hpc : s.pc = .took) :
    ∃ chain q', q = chain :: q' ∧ s.skbbuf s.sentIdx = some chain ∧
      Holds MAXSKBPEND (Function.update s.skbbuf s.sentIdx none) (s.sentIdx + 1) q' := by
  have htok := h.tokens
  rw [hpc] at htok
  cases q with
  | nil =>
    simp [Pc.tokens] at htok
  | cons chain q' =>
    obtain ⟨hslot, hrest⟩ := h.holds.take
    rw [Nat.mod_eq_of_lt h.sent] at hslot hrest
    exact ⟨chain, q', rfl, hslot, hrest⟩

theorem Inv.step {q : List (List α)} (h : Inv s q) (hm : Moves conf s e t) : ∃ q', Inv t q' := by
  have htok := h.tokens
  have hlocks := h.locks
  have hleft := h.left
  have hframes := h.frames
  cases hm with
  | sched chain =>
    refine ⟨q, h.sent, h.store, h.holds, ?_, ?_, ?_, ?_⟩
    · simp only [List.map_append, List.sum_append]
      exact htok
    · simp only [List.map_append, List.sum_append, counter_lock, hlocks]
      simp only [List.map_cons, List.map_nil, List.sum_cons, List.sum_nil, Sched.locks]
      omega
    · simp only [List.map_append, List.sum_append]
      exact hleft
    · simp only [List.flatten_append, ← Multiset.coe_add, hframes, List.map_append, List.sum_append]
      simp only [List.flatten_cons, List.flatten_nil, List.append_nil, List.map_cons, List.map_nil,
        List.sum_cons, List.sum_nil, Sched.frames]
      abel
  | store i chain retry hi hfree =>
    rw [h.store] at hfree
    have hlt : q.length < MAXSKBPEND := (h.holds.free_iff (Nat.succ_pos _)).mp hfree
    refine ⟨q ++ [chain], h.sent, ?_, ?_, ?_, ?_, ?_, ?_⟩
    · rw [mask_eq_mod, h.store, List.length_append, Nat.mod_add_mod, Nat.add_assoc]
      rfl
    · rw [h.store]
      exact h.holds.put hlt chain
    · rw [sum_set Sched.tokens hi, List.length_append]
      rw [sum_eraseIdx Sched.tokens hi] at htok
      simp only [Sched.tokens, List.length_singleton] at htok ⊢
      omega
    · rw [sum_set Sched.locks hi, List.length_append]
      rw [sum_eraseIdx Sched.locks hi] at hlocks
      simp only [Sched.locks, List.length_singleton] at hlocks ⊢
      omega
    · rw [sum_set Sched.backlogs hi]
      rwa [sum_eraseIdx Sched.backlogs hi] at hleft
    · rw [sum_set (fun c => (c.frames : Multiset α)) hi, hframes,
        sum_eraseIdx (fun c => (c.frames : Multiset α)) hi, List.flatten_append, ← Multiset.coe_add]
      simp only [Sched.frames, List.flatten_cons, List.flatten_nil, List.append_nil,
        Multiset.coe_nil]
      abel
  | spin i => exact ⟨q, h⟩
  | busy i chain retry hi hconf =>
    refine ⟨q, h.sent, h.store, h.holds, ?_, ?_, ?_, ?_⟩
    · rw [sum_set Sched.tokens hi]
      rwa [sum_eraseIdx Sched.tokens hi] at htok
    · rw [sum_set Sched.locks hi]
      rwa [sum_eraseIdx Sched.locks hi] at hlocks
    · rw [sum_set Sched.backlogs hi]
      rwa [sum_eraseIdx Sched.backlogs hi] at hleft
    · rw [sum_set (fun c => (c.frames : Multiset α)) hi]
      rwa [sum_eraseIdx (fun c => (c.frames : Multiset α)) hi] at hframes
  | giveUp i chain retry hi hconf =>
    refine ⟨q, h.sent, h.store, h.holds, ?_, ?_, ?_, ?_⟩
    · rw [sum_set Sched.tokens hi]
      rwa [sum_eraseIdx Sched.tokens hi] at htok
    · rw [sum_set Sched.locks hi]
      rw [sum_eraseIdx Sched.locks hi] at hlocks
      simp only [Sched.locks] at hlocks ⊢
      omega
    · rw [sum_set Sched.backlogs hi]
      rw [sum_eraseIdx Sched.backlogs hi] at hleft
      simp only [Sched.backlogs] at hleft ⊢
      omega
    · rw [sum_set (fun c => (c.frames : Multiset α)) hi]
      rwa [sum_eraseIdx (fun c => (c.frames : Multiset α)) hi] at hframes
  | up i hi =>
    refine ⟨q, h.sent, h.store, h.holds, ?_, ?_, ?_, ?_⟩
    · rw [sum_eraseIdx Sched.tokens hi] at htok
      simp only [Sched.tokens] at htok ⊢
      omega
    · rw [sum_eraseIdx Sched.locks hi] at hlocks
      simpa only [Sched.locks, Nat.zero_add] using hlocks
    · rw [sum_eraseIdx Sched.backlogs hi] at hleft
      exact (Nat.le_add_left _ _).trans hleft
    · rw [sum_eraseIdx (fun c => (c.frames : Multiset α)) hi] at hframes
      simpa only [Sched.frames, Multiset.coe_nil, zero_add] using hframes
  | backlog i skb rest hi =>
    refine ⟨q, h.sent, h.store, h.holds, ?_, ?_, ?_, ?_⟩
    · rw [sum_set Sched.tokens hi]
      rwa [sum_eraseIdx Sched.tokens hi] at htok
    · rw [sum_set Sched.locks hi]
      rwa [sum_eraseIdx Sched.locks hi] at hlocks
    · rw [sum_set Sched.backlogs hi]
      rwa [sum_eraseIdx Sched.backlogs hi] at hleft
    · rw [sum_set (fun c => (c.frames : Multiset α)) hi, hframes,
        sum_eraseIdx (fun c => (c.frames : Multiset α)) hi]
      simp only [Sched.frames, ← Multiset.coe_add, ← Multiset.cons_coe, ← Multiset.singleton_add]
      abel
  | backlogEnd i hi =>
    refine ⟨q, h.sent, h.store, h.holds, ?_, ?_, ?_, ?_⟩
    · rw [sum_eraseIdx Sched.tokens hi] at htok
      simpa only [Sched.tokens, Nat.zero_add] using htok
    · rw [sum_eraseIdx Sched.locks hi] at hlocks
      simpa only [Sched.locks, Nat.zero_add] using hlocks
    · rw [sum_eraseIdx Sched.backlogs hi] at hleft
      exact (Nat.le_add_left _ _).trans hleft
    · rw [sum_eraseIdx (fun c => (c.frames : Multiset α)) hi] at hframes
      simpa only [Sched.frames, Multiset.coe_nil, zero_add] using hframes
  | take hpc hsema =>
    rw [hpc] at htok hlocks hframes
    refine ⟨q, h.sent, h.store, h.holds, ?_, hlocks, hleft, hframes⟩
    simp only [Pc.tokens] at htok ⊢
    omega
  | empty hpc hnone =>
    obtain ⟨chain, q', -, hslot, -⟩ := h.took hpc
    exact absurd (hnone.symm.trans hslot) nofun
  | dequeue hpc chain hsome =>
    obtain ⟨chain', q', rfl, hslot, hrest⟩ := h.took hpc
    obtain rfl : chain = chain' := Option.some.inj (hsome.symm.trans hslot)
    rw [hpc] at htok hlocks hframes
    have hmask := mask_eq_mod (s.sentIdx + 1)
    refine ⟨q', ?_, ?_, ?_, ?_, ?_, hleft, ?_⟩
    · rw [hmask]
      exact Nat.mod_lt _ (Nat.succ_pos _)
    · rw [hmask, h.store, Nat.mod_add_mod, Nat.add_right_comm, Nat.add_assoc]
      rfl
    · rw [hmask]
      exact hrest.mod
    · simp only [Pc.tokens, List.length_cons] at htok ⊢
      omega
    · simp only [Pc.locks, List.length_cons] at hlocks ⊢
      omega
    · rw [hframes, List.flatten_cons, ← Multiset.coe_add]
      simp only [Pc.frames, Multiset.coe_nil]
      abel
  | pass skb rest hpc =>
    rw [hpc] at htok hlocks hframes
    refine ⟨q, h.sent, h.store, h.holds, htok, hlocks, hleft, ?_⟩
    rw [hframes]
    simp only [Pc.frames, ← Multiset.coe_add, ← Multiset.cons_coe, ← Multiset.singleton_add]
    abel
  | passEnd hpc =>
    rw [hpc] at htok hlocks hframes
    refine ⟨q, h.sent, h.store, h.holds, htok, ?_, hleft, hframes⟩
    rw [counter_unlock, hlocks]
    simp only [Pc.locks]
    omega
  | lock =>
    refine ⟨q, h.sent, h.store, h.holds, htok, ?_, hleft, hframes⟩
    rw [counter_lock, hlocks]
    dsimp only
    omega
  | unlock hothers =>
    refine ⟨q, h.sent, h.store, h.holds, htok, ?_, hleft, hframes⟩
    rw [counter_unlock, hlocks]
    dsimp only
    omega
  | other a hlock hunlock =>
    exact ⟨q, h.sent, h.store, h.holds, htok, (counter_other _ _ hlock hunlock).trans hlocks, hleft,
      hframes⟩

/-- The chain of a call that has not stored it -/
def Sched.unstored : Sched α → List (List α)
  | .enqueue chain _ => [chain]
  | _ => []

/-- One call at a time stores its chain behind those stored so far. -/
structure Order (s : State α) (q : List (List α)) : Prop where
  oneCall : s.scheds.length ≤ 1
  noBacklog : ∀ rest, .backlog rest ∉ s.scheds
  stored : s.stored.flatten = s.passed ++ s.pc.frames ++ q.flatten
  given : s.given = s.stored ++ s.scheds.flatMap Sched.unstored

theorem eq_singleton {β : Type} {l : List β} {i : Nat} {x : β} (hl : l.length ≤ 1)
    (hi : l[i]? = some x) : l = [x] ∧ i = 0 := by
  cases l with
  | nil => cases hi
  | cons y l =>
    obtain rfl : l = [] := List.length_eq_zero_iff.mp (Nat.le_zero.mp (Nat.le_of_succ_le_succ hl))
    cases i with
    | zero => exact ⟨congrArg (fun z => [z]) (Option.some.inj hi), rfl⟩
    | succ i => cases hi

theorem Order.step {q q' : List (List α)} (h : Order s q) (hs : Inv s q) (ht : Inv t q')
    (hconf : conf.dequeueOnBusy = false) (hone : single s e = true) (hm : Moves conf s e t) :
    Order t q' := by
  obtain ⟨hsingle, hback, hstored, hgiven⟩ := h
  cases hm with
  | sched chain =>
    obtain rfl := hs.holds.unique ht.holds
    have hnil : s.scheds = [] := List.isEmpty_iff.mp hone
    rw [hnil] at hgiven
    refine ⟨by simp [hnil], by simp [hnil], hstored, ?_⟩
    simp [hnil, hgiven, Sched.unstored]
  | store i chain retry hi hfree =>
    obtain ⟨hl, rfl⟩ := eq_singleton hsingle hi
    rw [hs.store] at hfree
    have hlt : q.length < MAXSKBPEND := (hs.holds.free_iff (Nat.succ_pos _)).mp hfree
    have hput := hs.holds.put hlt chain
    rw [← hs.store] at hput
    obtain rfl := hput.unique ht.holds
    rw [hl] at hgiven
    refine ⟨by simp [hl], by simp [hl], ?_, ?_⟩
    · simp [hstored]
    · simp [hl, hgiven, Sched.unstored]
  | spin i =>
    obtain rfl := hs.holds.unique ht.holds
    exact ⟨hsingle, hback, hstored, hgiven⟩
  | busy i chain retry hi hbusy => exact absurd (hconf.symm.trans hbusy) nofun
  | giveUp i chain retry hi hbusy => exact absurd (hconf.symm.trans hbusy) nofun
  | up i hi =>
    obtain rfl := hs.holds.unique ht.holds
    obtain ⟨hl, rfl⟩ := eq_singleton hsingle hi
    rw [hl] at hgiven
    refine ⟨by simp [hl], by simp [hl], hstored, ?_⟩
    simpa [hl, Sched.unstored] using hgiven
  | backlog i skb rest hi => exact absurd (List.mem_of_getElem? hi) (hback _)
  | backlogEnd i hi => exact absurd (List.mem_of_getElem? hi) (hback _)
  | take hpc hsema =>
    obtain rfl := hs.holds.unique ht.holds
    rw [hpc] at hstored
    exact ⟨hsingle, hback, hstored, hgiven⟩
  | empty hpc hnone =>
    obtain ⟨chain, q', -, hslot, -⟩ := hs.took hpc
    exact absurd (hnone.symm.trans hslot) nofun
  | dequeue hpc chain hsome =>
    obtain ⟨chain', q'', rfl, hslot, hrest⟩ := hs.took hpc
    obtain rfl : chain = chain' := Option.some.inj (hsome.symm.trans hslot)
    have htaken := hrest.mod
    rw [← mask_eq_mod] at htaken
    obtain rfl := htaken.unique ht.holds
    rw [hpc] at hstored
    refine ⟨hsingle, hback, ?_, hgiven⟩
    simpa [Pc.frames] using hstored
  | pass skb rest hpc =>
    obtain rfl := hs.holds.unique ht.holds
    rw [hpc] at hstored
    refine ⟨hsingle, hback, ?_, hgiven⟩
    simpa [Pc.frames] using hstored
  | passEnd hpc =>
    obtain rfl := hs.holds.unique ht.holds
    rw [hpc] at hstored
    exact ⟨hsingle, hback, hstored, hgiven⟩
  | lock =>
    obtain rfl := hs.holds.unique ht.holds
    exact ⟨hsingle, hback, hstored, hgiven⟩
  | unlock hothers =>
    obtain rfl := hs.holds.unique ht.holds
    exact ⟨hsingle, hback, hstored, hgiven⟩
  | other a hlock hunlock =>
    obtain rfl := hs.holds.unique ht.holds
    exact ⟨hsingle, hback, hstored, hgiven⟩

/-! ## Runs -/

theorem Inv.queue_eq {q : List (List α)} (h : Inv s q) : queue s = q := h.holds.contents

variable {acts : List (Act α)} {tr : List (Act α × Unit)}

theorem runs_inv_queue (hrun : runs (step conf) init acts = some (t, tr)) : Inv t (queue t) :=
  runs_inv (step conf) (fun s _ => Inv s (queue s))
    (fun _ _ _ _ _ hi hs => by
      obtain ⟨q', h'⟩ := hi.step (step_moves hs)
      exact h'.queue_eq ▸ h')
    init t acts tr (init_inv.queue_eq ▸ init_inv) hrun

theorem coe_frames (l : List (Sched α)) :
    (l.map fun c => (c.frames : Multiset α)).sum = ((l.map Sched.frames).flatten : Multiset α) := by
  induction l with
  | nil => rfl
  | cons c l ih =>
    rw [List.map_cons, List.sum_cons, ih, List.map_cons, List.flatten_cons, ← Multiset.coe_add]

/-- **No frame is lost, and none is passed on twice.**  The frames that `dhd_sched_rxf` was called
with are those passed on and those pending, each as often as it was given.  When the thread sleeps
and nobody is about to wake it, all have been passed on. -/
theorem rxf_no_loss (conf : Conf) (acts : List (Act α)) (t : State α) (tr : List (Act α × Unit))
    (hrun : runs (step conf) init acts = some (t, tr)) :
    t.given.flatten.Perm (t.passed ++ pending t) ∧ (Quiet t → pending t = []) := by
  have hi := runs_inv_queue hrun
  refine ⟨?_, fun hq => ?_⟩
  · rw [← Multiset.coe_eq_coe, hi.frames, coe_frames]
    simp only [pending, ← Multiset.coe_add]
    abel
  · have htok := hi.tokens
    rw [hq.sema, hq.scheds, hq.pc] at htok
    have hnil : queue t = [] := List.length_eq_zero_iff.mp htok.symm
    unfold pending
    rw [hq.pc, hq.scheds, hnil]
    rfl

/-- An SDIO bus, where each call waits for its slot -/
def sdio : Conf := ⟨false, oneSource⟩

/-- Two frames, and one that comes while the thread passes them on -/
def twoChains : List (Act Nat) :=
  [.sched [1, 2], .enqueue 0, .up 0, .take, .dequeue, .sched [3], .enqueue 0, .pass, .up 0]

theorem rxf_no_loss_twoChains : ∃ t tr, runs (step sdio) init twoChains = some (t, tr) ∧
    t.given.flatten.Perm (t.passed ++ pending t) ∧ (Quiet t → pending t = []) := by
  obtain ⟨⟨t, tr⟩, hrun⟩ : ∃ r, runs (step sdio) init twoChains = some r := ⟨_, rfl⟩
  exact ⟨t, tr, hrun, rxf_no_loss sdio twoChains t tr hrun⟩

theorem unstored_flatten (l : List (Sched α)) (hback : ∀ rest, .backlog rest ∉ l) :
    (l.flatMap Sched.unstored).flatten = (l.map Sched.frames).flatten := by
  induction l with
  | nil => rfl
  | cons c l ih =>
    have hrest := ih fun rest h => hback rest (List.mem_cons_of_mem _ h)
    rw [List.flatMap_cons, List.flatten_append, hrest, List.map_cons, List.flatten_cons]
    cases c with
    | enqueue chain retry => simp [Sched.unstored, Sched.frames]
    | stored => rfl
    | backlog rest => exact absurd List.mem_cons_self (hback rest)

/-- **Frames are passed on in order.**  Without `RXF_DEQUEUE_ON_BUSY`, where a call of
`dhd_sched_rxf` begins when the one before has ended: what was passed on and what is pending, one
behind the other, are the frames as they were given. -/
theorem rxf_in_order (conf : Conf) (hconf : conf.dequeueOnBusy = false) (acts : List (Act α))
    (t : State α) (tr : List (Act α × Unit)) (hrun : runs (step conf) init acts = some (t, tr))
    (hone : meets (step conf) single init acts = true) :
    t.given.flatten = t.passed ++ pending t := by
  have hi : Inv t (queue t) ∧ Order t (queue t) :=
    runs_inv_of_meets (step conf) single (fun s _ => Inv s (queue s) ∧ Order s (queue s))
      (fun _ _ _ _ _ hi hc hs => by
        have hm := step_moves hs
        obtain ⟨q', h'⟩ := hi.1.step hm
        have hq := h'.queue_eq
        exact ⟨hq ▸ h', hq ▸ hi.2.step hi.1 h' hconf hc hm⟩)
      init t acts tr
      ⟨init_inv.queue_eq ▸ init_inv, init_inv.queue_eq ▸ ⟨Nat.zero_le _, nofun, rfl, rfl⟩⟩ hone hrun
  rw [hi.2.given, List.flatten_append, hi.2.stored, unstored_flatten t.scheds hi.2.noBacklog]
  simp only [pending, List.append_assoc]

theorem rxf_in_order_twoChains : ∃ t tr, runs (step sdio) init twoChains = some (t, tr) ∧
    t.given.flatten = t.passed ++ pending t := by
  obtain ⟨⟨t, tr⟩, hrun⟩ : ∃ r, runs (step sdio) init twoChains = some r := ⟨_, rfl⟩
  exact ⟨t, tr, hrun, rxf_in_order sdio rfl twoChains t tr hrun (by decide +kernel)⟩

theorem held_step (h : Held conf.wake s.lock) (hc : calm conf s e = true) (hm : Moves conf s e t) :
    Held conf.wake t.lock := by
  cases hm with
  | sched chain => exact h.lock
  | passEnd hpc => exact h.unlock
  | lock => exact h.lock
  | unlock hothers => exact h.unlock
  | other a hlock hunlock => exact h.step hc
  | _ => exact h

/-- A call that counts no wake lock has stored its chain. -/
theorem frames_eq_nil (l : List (Sched α)) (hlocks : (l.map Sched.locks).sum = 0)
    (hback : (l.map Sched.backlogs).sum = 0) : (l.map Sched.frames).flatten = [] := by
  induction l with
  | nil => rfl
  | cons c l ih =>
    simp only [List.map_cons, List.sum_cons, Nat.add_eq_zero_iff] at hlocks hback
    rw [List.map_cons, List.flatten_cons, ih hlocks.2 hback.2, List.append_nil]
    cases c with
    | enqueue chain retry => exact absurd hlocks.1 nofun
    | stored => rfl
    | backlog rest => exact absurd hback.1 nofun

theorem pending_eq_nil {q : List (List α)} (h : Inv s q) (hzero : s.lock.wakelockCounter = 0) :
    pending s = [] := by
  have hlocks := h.locks
  have hleft := h.left
  rw [hzero] at hlocks
  have hq : queue s = [] := h.queue_eq.trans (List.length_eq_zero_iff.mp (by omega))
  have hpc : s.pc.frames = [] := by
    have hnot : s.pc.locks = 0 := by omega
    cases hs : s.pc with
    | passing rest =>
      rw [hs] at hnot
      cases hnot
    | _ => rfl
  unfold pending
  rw [hpc, hq, frames_eq_nil s.scheds (by omega) (by omega)]
  rfl

/-- **The device stays awake for what is pending.**  The wake lock is counted once for each chain
that is to be stored, is in `skbbuf` or is passed on by the thread, besides other work, and for ever
for each chain that was passed on without the thread.  No event lock shares the source: the device
is awake while a frame is pending and locks are effective. -/
theorem rxf_awake (conf : Conf) (acts : List (Act α)) (t : State α) (tr : List (Act α × Unit))
    (hrun : runs (step conf) init acts = some (t, tr)) :
    t.lock.wakelockCounter = t.others + (t.scheds.map Sched.locks).sum + (queue t).length +
        t.pc.locks + t.left ∧
      (meets (step conf) (calm conf) init acts = true → pending t ≠ [] →
        t.lock.waiveWakelock = false → t.lock.active (wifiSource conf.wake) = true) := by
  have hi := runs_inv_queue hrun
  refine ⟨hi.locks, fun hc hpend hwaive => ?_⟩
  have hheld : Held conf.wake t.lock :=
    runs_inv_of_meets (step conf) (calm conf) (fun s _ => Held conf.wake s.lock)
      (fun _ _ _ _ _ hh hcalm hs => held_step hh hcalm (step_moves hs))
      init t acts tr (init_held conf.wake) hc hrun
  apply hheld.awake
  have heff : effective t.lock = t.lock.wakelockCounter := by simp [effective, hwaive]
  rw [heff]
  exact Nat.pos_of_ne_zero fun hzero => hpend (pending_eq_nil hi hzero)

theorem rxf_awake_twoChains : ∃ t tr, runs (step sdio) init twoChains = some (t, tr) ∧
    t.lock.wakelockCounter = 2 ∧ t.lock.active .dev = true := by
  obtain ⟨⟨t, tr⟩, hrun, hs⟩ : ∃ r, runs (step sdio) init twoChains = some r ∧
      (r.1.lock.wakelockCounter = 2 ∧ r.1.lock.waiveWakelock = false ∧
        r.1.pc.frames ≠ []) := ⟨_, rfl, rfl, rfl, nofun⟩
  obtain ⟨hcount, hwaive, hframes⟩ := hs
  refine ⟨t, tr, hrun, hcount,
    (rxf_awake sdio twoChains t tr hrun).2 (by decide +kernel) ?_ hwaive⟩
  intro hnil
  exact hframes (List.append_eq_nil_iff.mp (List.append_eq_nil_iff.mp hnil).1).1

end Bcmdhd.Linux.Rxf
