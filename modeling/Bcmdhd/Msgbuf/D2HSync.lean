import Bcmdhd.Lib.Runs
import Bcmdhd.Lib.RingIndex

/-!
# Waiting for the DMA of an item (`dhd_msgbuf.c`)

The dongle stamps the items of a D2H ring with an epoch, in the last word.  The host looks at the
next slot until it sees the epoch it expects, or gives up and skips the item.  The DMA of an item
may land before, during or after that; until it lands the slot holds the item of the lap before.

    meets (step item) fresh (init maxItems initial) es →
      runs (step item) (init maxItems initial) es = some (s, tr) → maxItems % 253 ≠ 0 →
      what is accepted has landed ∧ what is skipped has not ∧
      the epoch expected is that of the next item                  (stale_never_accepted)

`fresh` leaves out a counter that wraps, an error induced while the item is there, and a slot of
the first lap that holds the expected epoch by chance.
-/

namespace Bcmdhd.D2HSync

open Runs RingIndex

/-! ## Algorithm -/

/-- sequence number wrap -/
def epochModulo : Nat := 253

def epochInitVal : Nat := epochModulo + 1

/-- `PCIE_D2H_SYNC_WAIT_TRIES` -/
def waitTries : Nat := 512

/-- `PCIE_D2H_SYNC_NUM_OF_STEPS` -/
def numOfSteps : Nat := 5

/-- An item in host memory. -/
structure Msg where
  msgType : Nat
  /-- the last word -/
  marker : Nat
deriving DecidableEq, Repr

/-- `ring->seqnum`, a `uint32`, and the statistics -/
structure Sync where
  seqnum : Nat
  d2hSyncWaitMax : Nat
  d2hSyncWaitTot : Nat
deriving DecidableEq, Repr

/-- next expected sequence number -/
def nextSeqnum (s : Sync) : Sync := { s with seqnum := (s.seqnum + 1) % 0x100000000 }

/-- The two loops of `dhd_prot_d2h_sync_seqnum` from try `totalTries` on, with `left` tries left.
`look` is what the slot holds at each try, and `induced` whether `dhd_induce_error` is
`DHD_INDUCE_LIVELOCK` then. -/
def syncTries (ringSeqnum : Nat) (look : Nat → Msg) (induced : Nat → Bool) :
    Nat → Nat → Sync → Sync × Option (Nat × Msg)
  | 0, _, s => (s, none)
  | left + 1, totalTries, s =>
    let waited (s : Sync) := { s with d2hSyncWaitMax := max s.d2hSyncWaitMax totalTries }
    -- dma upto last word done
    if (look totalTries).marker = ringSeqnum then
      if induced totalTries then
        syncTries ringSeqnum look induced left (totalTries + 1) (waited (nextSeqnum s))
      else
        let s := nextSeqnum s
        ({ s with d2hSyncWaitTot := s.d2hSyncWaitTot + totalTries % waitTries },
          some (totalTries, look totalTries))
    else syncTries ringSeqnum look induced left (totalTries + 1) (waited s)

/-- The try at which the item is taken and the message, or `none` on a livelock. -/
def d2hSyncSeqnum (look : Nat → Msg) (induced : Nat → Bool) (s : Sync) :
    Sync × Option (Nat × Msg) :=
  let r := syncTries (s.seqnum % epochModulo) look induced (numOfSteps * waitTries) 0 s
  match r.2 with
  | some taken => (r.1, some taken)
  -- skip this message ... leak of a pktid
  | none => (nextSeqnum r.1, none)

/-! ## The ring -/

/-- The epoch of item `n`. -/
def epoch (n : Nat) : Nat := (epochInitVal + n) % epochModulo

structure State where
  sync : Sync
  maxItems : Nat
  currRd : Nat
  mem : Nat → Msg
  /-- how many items have landed in each slot -/
  laps : Nat → Nat
  /-- the item that the host looks at next -/
  next : Nat

/-- `initial` is what the slots hold before the first lap. -/
def init (maxItems : Nat) (initial : Nat → Msg) : State where
  sync := ⟨epochInitVal, 0, 0⟩
  maxItems := maxItems
  currRd := 0
  mem := initial
  laps := fun _ => 0
  next := 0

inductive Call
  /-- the next item of a slot lands, while the host does not look at the ring -/
  | dma (slot : Nat)
  /-- the host looks at the next item, which is seen from try `landing` on, if not before -/
  | sync (landing : Option Nat) (induced : List Nat)
deriving DecidableEq, Repr

inductive Result
  | nothing
  /-- item `n` is taken; `landed` says whether its DMA was done -/
  | accepted (n msgType : Nat) (landed : Bool)
  /-- item `n` is skipped -/
  | livelock (n : Nat) (landed : Bool)
deriving DecidableEq, Repr

/-- Item `n`, whose `msg_type` is `item n`. -/
def written (item : Nat → Nat) (n : Nat) : Msg := ⟨item n, epoch n⟩

/-- The item that lands next in a slot. -/
def nextIn (s : State) (slot : Nat) : Nat := slot + s.laps slot * s.maxItems

/-- The item lands while the host looks at its slot. -/
def arrived (s : State) (landing : Option Nat) (t : Nat) : Bool :=
  decide (s.next = nextIn s s.currRd) && landing.any fun l => decide (l ≤ t)

/-- The DMA of the item is done at try `t`. -/
def landedBy (s : State) (landing : Option Nat) (t : Nat) : Bool :=
  decide (s.next < nextIn s s.currRd) || arrived s landing t

/-- What the host finds at try `t`. -/
def look (item : Nat → Nat) (s : State) (landing : Option Nat) (t : Nat) : Msg :=
  if arrived s landing t then written item s.next else s.mem s.currRd

def land (item : Nat → Nat) (s : State) (slot : Nat) : State :=
  { s with
    mem := Function.update s.mem slot (written item (nextIn s slot))
    laps := Function.update s.laps slot (s.laps slot + 1) }

/-- The host goes on to the next item. -/
def advance (s : State) (sync : Sync) : State :=
  { s with
    sync := sync
    currRd := if s.currRd + 1 ≥ s.maxItems then 0 else s.currRd + 1
    next := s.next + 1 }

/-- The memory after try `t`. -/
def memoryAt (item : Nat → Nat) (s : State) (landing : Option Nat) (t : Nat) : State :=
  if arrived s landing t then land item s s.currRd else s

def lastTry : Nat := numOfSteps * waitTries - 1

/-- One item in `dhd_prot_process_msgtype`. -/
def processItem (item : Nat → Nat) (s : State) (landing : Option Nat) (induced : List Nat) :
    State × Result :=
  match d2hSyncSeqnum (look item s landing) (fun t => induced.contains t) s.sync with
  | (sync, some (t, msg)) =>
    (advance (memoryAt item s landing t) sync,
      .accepted s.next msg.msgType (landedBy s landing t))
  | (sync, none) =>
    (advance (memoryAt item s landing lastTry) sync,
      .livelock s.next (landedBy s landing lastTry))

/-- An item does not land before the host has passed the one it overwrites, and the host does not
come to a slot before the item of the lap before has landed in it. -/
def step (item : Nat → Nat) (s : State) : Call → Option (State × Result)
  | .dma slot =>
    if slot < s.maxItems ∧ nextIn s slot < s.next + s.maxItems then
      some (land item s slot, .nothing)
    else none
  | .sync landing induced =>
    if s.next ≤ nextIn s s.currRd then some (processItem item s landing induced) else none

/-- The first try that sees the item. -/
def arrival (s : State) (landing : Option Nat) : Option Nat :=
  if s.next < nextIn s s.currRd then some 0 else landing.filter fun t => decide (t ≤ lastTry)

/-- The counter does not wrap, no error is induced at the try that sees the item, and the slot
does not hold the expected epoch from before the first lap. -/
def fresh (s : State) : Call → Bool
  | .sync landing induced =>
    decide (s.sync.seqnum + 1 < 0x100000000) &&
      (arrival s landing).all (fun t => !induced.contains t) &&
      (decide (s.laps s.currRd ≠ 0) || landing == some 0 ||
        (s.mem s.currRd).marker != s.sync.seqnum % epochModulo)
  | _ => true

/-! ## Lemmas -/

theorem epoch_inj {n m : Nat} : epoch n = epoch m ↔ n % epochModulo = m % epochModulo := by
  unfold epoch epochInitVal epochModulo
  omega

/-- The item of the lap before has another epoch. -/
theorem epoch_lap {maxItems n : Nat} (hmax : maxItems % epochModulo ≠ 0) :
    epoch (n + maxItems) ≠ epoch n := by
  rw [Ne, epoch_inj]
  unfold epochModulo at hmax ⊢
  omega

section
variable {ringSeqnum : Nat} {look : Nat → Msg} {induced : Nat → Bool}

/-- No try sees the epoch. -/
theorem syncTries_none (left : Nat) :
    ∀ (t : Nat) (s : Sync), (∀ i, t ≤ i → i < t + left → (look i).marker ≠ ringSeqnum) →
      ∃ s', syncTries ringSeqnum look induced left t s = (s', none) ∧ s'.seqnum = s.seqnum := by
  induction left with
  | zero => exact fun t s _ => ⟨s, rfl, rfl⟩
  | succ left ih =>
    intro t s hno
    unfold syncTries
    rw [if_neg (hno t (Nat.le_refl t) (by omega))]
    exact ih (t + 1) _ fun i h1 h2 => hno i (by omega) (by omega)

/-- The first try that sees the epoch takes the item. -/
theorem syncTries_some (left : Nat) :
    ∀ (t k : Nat) (s : Sync), k < left → (∀ i, t ≤ i → i < t + k → (look i).marker ≠ ringSeqnum) →
      (look (t + k)).marker = ringSeqnum → induced (t + k) = false →
      ∃ s', syncTries ringSeqnum look induced left t s = (s', some (t + k, look (t + k))) ∧
        s'.seqnum = (s.seqnum + 1) % 0x100000000 := by
  induction left with
  | zero => exact fun _ k _ hk => absurd hk (Nat.not_lt_zero k)
  | succ left ih =>
    intro t k s hk hno hyes hind
    unfold syncTries
    cases k with
    | zero =>
      rw [Nat.add_zero] at hyes hind ⊢
      rw [if_pos hyes, hind, if_neg nofun]
      exact ⟨_, rfl, rfl⟩
    | succ k =>
      rw [if_neg (hno t (Nat.le_refl t) (by omega))]
      have hadd : t + (k + 1) = t + 1 + k := by omega
      rw [hadd] at hyes hind ⊢
      exact ih (t + 1) k _ (by omega) (fun i h1 h2 => hno i (by omega) (by omega)) hyes hind

end

/-- **The invariant.** -/
structure Inv (item : Nat → Nat) (maxItems : Nat) (s : State) : Prop where
  maxItems_eq : s.maxItems = maxItems
  currRd_eq : s.currRd = s.next % maxItems
  seqnum_eq : s.sync.seqnum = epochInitVal + s.next
  mem_eq : ∀ j k, j < maxItems → s.laps j = k + 1 → s.mem j = written item (j + k * maxItems)
  laps_lt : ∀ j k, j < maxItems → s.laps j = k + 1 → j + k * maxItems < s.next + maxItems

variable {item : Nat → Nat} {maxItems : Nat} {s : State}

theorem inv_init (item : Nat → Nat) (maxItems : Nat) (initial : Nat → Msg) :
    Inv item maxItems (init maxItems initial) where
  maxItems_eq := rfl
  currRd_eq := (Nat.zero_mod maxItems).symm
  seqnum_eq := rfl
  mem_eq := nofun
  laps_lt := nofun

theorem Inv.nextIn_eq (h : Inv item maxItems s) (slot : Nat) :
    nextIn s slot = slot + s.laps slot * maxItems := by
  unfold nextIn
  rw [h.maxItems_eq]

/-- The next item to land in a slot lands. -/
theorem Inv.land (h : Inv item maxItems s) {slot : Nat}
    (hlt : nextIn s slot < s.next + maxItems) : Inv item maxItems (land item s slot) where
  maxItems_eq := h.maxItems_eq
  currRd_eq := h.currRd_eq
  seqnum_eq := h.seqnum_eq
  mem_eq := by
    intro j k hj hk
    show Function.update s.mem slot _ j = _
    replace hk : Function.update s.laps slot (s.laps slot + 1) j = k + 1 := hk
    by_cases heq : j = slot
    · subst heq
      rw [Function.update_self] at hk ⊢
      rw [h.nextIn_eq, Nat.succ.inj hk]
    · rw [Function.update_of_ne heq] at hk ⊢
      exact h.mem_eq j k hj hk
  laps_lt := by
    intro j k hj hk
    show j + k * maxItems < s.next + maxItems
    replace hk : Function.update s.laps slot (s.laps slot + 1) j = k + 1 := hk
    by_cases heq : j = slot
    · subst heq
      rw [Function.update_self] at hk
      rw [h.nextIn_eq, Nat.succ.inj hk] at hlt
      exact hlt
    · rw [Function.update_of_ne heq] at hk
      exact h.laps_lt j k hj hk

/-- The host goes on, and the counter with it. -/
theorem Inv.advance (h : Inv item maxItems s) (hpos : 0 < maxItems) {sync : Sync}
    (hsync : sync.seqnum = s.sync.seqnum + 1) : Inv item maxItems (advance s sync) where
  maxItems_eq := h.maxItems_eq
  currRd_eq := by
    have hlt := Nat.mod_lt s.next hpos
    show (if s.currRd + 1 ≥ s.maxItems then 0 else s.currRd + 1) = (s.next + 1) % maxItems
    rw [h.currRd_eq, h.maxItems_eq, succ_mod]
    split
    · next hge =>
      have heq : s.next % maxItems + 1 = maxItems := by omega
      rw [heq, Nat.mod_self]
    · exact (Nat.mod_eq_of_lt (by omega)).symm
  seqnum_eq := by
    show sync.seqnum = epochInitVal + (s.next + 1)
    rw [hsync, h.seqnum_eq, Nat.add_assoc]
  mem_eq := h.mem_eq
  laps_lt := by
    intro j k hj hk
    have hlt := h.laps_lt j k hj hk
    show j + k * maxItems < s.next + 1 + maxItems
    omega

/-- What the slot of the next item holds, when that item has landed. -/
theorem Inv.landed (h : Inv item maxItems s) (hpos : 0 < maxItems)
    (hlt : s.next < nextIn s s.currRd) : s.mem s.currRd = written item s.next := by
  have hnext := Nat.mod_add_div' s.next maxItems
  have hj := Nat.mod_lt s.next hpos
  rw [h.nextIn_eq, h.currRd_eq] at hlt
  obtain ⟨k, hk⟩ : ∃ k, s.laps (s.next % maxItems) = k + 1 := by
    refine Nat.exists_eq_succ_of_ne_zero ?_
    intro h0
    rw [h0] at hlt
    omega
  have hle := h.laps_lt _ k hj hk
  rw [hk, Nat.succ_mul] at hlt
  -- the item landed last is of this lap, neither an earlier nor a later one
  have hq : k = s.next / maxItems := by
    have h1 : k * maxItems < (s.next / maxItems + 1) * maxItems := by
      rw [Nat.succ_mul]
      omega
    have h2 : s.next / maxItems * maxItems < (k + 1) * maxItems := by
      rw [Nat.succ_mul]
      omega
    have h3 := Nat.lt_of_mul_lt_mul_right h1
    have h4 := Nat.lt_of_mul_lt_mul_right h2
    omega
  rw [h.currRd_eq, h.mem_eq _ k hj hk, hq, hnext]

/-- The slot of the next item holds another epoch, when that item has not landed and the slot was
written before. -/
theorem Inv.stale (h : Inv item maxItems s) (hmax : maxItems % epochModulo ≠ 0)
    (hpos : 0 < maxItems) (heq : s.next = nextIn s s.currRd) (hlaps : s.laps s.currRd ≠ 0) :
    (s.mem s.currRd).marker ≠ epoch s.next := by
  obtain ⟨k, hk⟩ := Nat.exists_eq_succ_of_ne_zero hlaps
  have hj : s.currRd < maxItems := by
    rw [h.currRd_eq]
    exact Nat.mod_lt _ hpos
  rw [h.nextIn_eq, hk, Nat.succ_mul, ← Nat.add_assoc] at heq
  rw [h.mem_eq _ k hj hk, heq]
  exact (epoch_lap hmax).symm

theorem sync_some {look : Nat → Msg} (induced : Nat → Bool) {sync : Sync} {n k : Nat} {msg : Msg}
    (hseq : sync.seqnum = epochInitVal + n) (hwrap : sync.seqnum + 1 < 0x100000000)
    (hk : k ≤ lastTry) (hno : ∀ i < k, (look i).marker ≠ epoch n) (hmsg : look k = msg)
    (hyes : msg.marker = epoch n) (hind : induced k = false) :
    ∃ sync', d2hSyncSeqnum look induced sync = (sync', some (k, msg)) ∧
      sync'.seqnum = sync.seqnum + 1 := by
  have hexp : sync.seqnum % epochModulo = epoch n := by
    rw [hseq]
    rfl
  have hlook : (look (0 + k)).marker = epoch n := by
    rw [Nat.zero_add, hmsg, hyes]
  have hind' : induced (0 + k) = false := by
    rw [Nat.zero_add, hind]
  have hlt : k < numOfSteps * waitTries := Nat.lt_of_le_of_lt hk (by decide)
  obtain ⟨s', hs', hseqnum⟩ := syncTries_some (numOfSteps * waitTries) 0 k sync hlt
    (fun i _ hi => hno i (by omega)) hlook hind'
  refine ⟨s', ?_, hseqnum.trans (Nat.mod_eq_of_lt hwrap)⟩
  unfold d2hSyncSeqnum
  rw [hexp, hs', Nat.zero_add, hmsg]

theorem sync_none {look : Nat → Msg} (induced : Nat → Bool) {sync : Sync} {n : Nat}
    (hseq : sync.seqnum = epochInitVal + n) (hwrap : sync.seqnum + 1 < 0x100000000)
    (hno : ∀ i ≤ lastTry, (look i).marker ≠ epoch n) :
    ∃ sync', d2hSyncSeqnum look induced sync = (sync', none) ∧
      sync'.seqnum = sync.seqnum + 1 := by
  have hexp : sync.seqnum % epochModulo = epoch n := by
    rw [hseq]
    rfl
  have hall : ∀ i, 0 ≤ i → i < 0 + numOfSteps * waitTries → (look i).marker ≠ epoch n := by
    intro i _ hi
    rw [Nat.zero_add] at hi
    exact hno i (Nat.le_pred_of_lt hi)
  obtain ⟨s', hs', hseqnum⟩ := syncTries_none (numOfSteps * waitTries) 0 sync hall
  refine ⟨nextSeqnum s', ?_, ?_⟩
  · unfold d2hSyncSeqnum
    rw [hexp, hs']
  · show (s'.seqnum + 1) % 0x100000000 = sync.seqnum + 1
    rw [hseqnum]
    exact Nat.mod_eq_of_lt hwrap

theorem landedBy_of_lt (landing : Option Nat) (hlt : s.next < nextIn s s.currRd) (t : Nat) :
    arrived s landing t = false ∧ landedBy s landing t = true := by
  unfold landedBy arrived
  rw [decide_eq_true hlt, decide_eq_false (Nat.ne_of_lt hlt)]
  exact ⟨rfl, rfl⟩

theorem landedBy_of_eq (landing : Option Nat) (heq : s.next = nextIn s s.currRd) (t : Nat) :
    landedBy s landing t = arrived s landing t ∧
    arrived s landing t = landing.any fun l => decide (l ≤ t) := by
  unfold landedBy arrived
  rw [decide_eq_true heq, decide_eq_false (Nat.not_lt_of_le (Nat.le_of_eq heq.symm))]
  exact ⟨rfl, rfl⟩

theorem look_of_not_arrived {landing : Option Nat} {t : Nat} (hn : arrived s landing t = false) :
    look item s landing t = s.mem s.currRd := by
  unfold look
  rw [hn, if_neg nofun]

/-- The host takes the item at try `t`. -/
theorem processItem_accepted (h : Inv item maxItems s) (hpos : 0 < maxItems)
    {landing : Option Nat} {induced : List Nat} {t : Nat} (hwrap : s.sync.seqnum + 1 < 0x100000000)
    (ht : t ≤ lastTry) (hno : ∀ i < t, (look item s landing i).marker ≠ epoch s.next)
    (hmsg : look item s landing t = written item s.next) (hind : induced.contains t = false)
    (hlanded : landedBy s landing t = true) (hinv : Inv item maxItems (memoryAt item s landing t)) :
    Inv item maxItems (processItem item s landing induced).1 ∧
    (processItem item s landing induced).2 = .accepted s.next (item s.next) true := by
  obtain ⟨sync, hsync, hseqnum⟩ := sync_some (fun t => induced.contains t) h.seqnum_eq hwrap ht hno hmsg rfl
    hind
  unfold processItem
  rw [hsync]
  dsimp only
  rw [hlanded]
  refine ⟨hinv.advance hpos ?_, rfl⟩
  rw [hseqnum, hinv.seqnum_eq, h.seqnum_eq]
  unfold memoryAt
  split
  · rfl
  · rfl

/-- **One item** is taken if it lands in time, and skipped if not. -/
theorem processItem_spec (h : Inv item maxItems s) (hmax : maxItems % epochModulo ≠ 0)
    {landing : Option Nat} {induced : List Nat} (hready : s.next ≤ nextIn s s.currRd)
    (hf : fresh s (.sync landing induced) = true) :
    Inv item maxItems (processItem item s landing induced).1 ∧
    ((processItem item s landing induced).2 = .accepted s.next (item s.next) true ∨
      (processItem item s landing induced).2 = .livelock s.next false) := by
  have hpos : 0 < maxItems := by
    rcases Nat.eq_zero_or_pos maxItems with h0 | hpos
    · rw [h0] at hmax
      exact absurd (Nat.zero_mod _) hmax
    · exact hpos
  unfold fresh at hf
  rw [Bool.and_eq_true, Bool.and_eq_true, decide_eq_true_eq] at hf
  obtain ⟨⟨hwrap, hind⟩, hinit⟩ := hf
  unfold arrival at hind
  by_cases hlt : s.next < nextIn s s.currRd
  · -- the item is there at the first try
    rw [if_pos hlt] at hind
    obtain ⟨hnot, hlanded⟩ := landedBy_of_lt landing hlt 0
    have hinv : Inv item maxItems (memoryAt item s landing 0) := by
      unfold memoryAt
      rw [hnot]
      exact h
    obtain ⟨h1, h2⟩ := processItem_accepted h hpos hwrap (Nat.zero_le _) nofun
      ((look_of_not_arrived hnot).trans (h.landed hpos hlt)) (by simpa using hind) hlanded hinv
    exact ⟨h1, .inl h2⟩
  · have heq : s.next = nextIn s s.currRd := by omega
    rw [if_neg hlt] at hind
    -- until the item arrives the slot does not show its epoch
    have hstale : ∀ t, arrived s landing t = false →
        (look item s landing t).marker ≠ epoch s.next := by
      intro t hnot
      rw [look_of_not_arrived hnot]
      rw [Bool.or_eq_true, Bool.or_eq_true, decide_eq_true_eq, beq_iff_eq, bne_iff_ne,
        h.seqnum_eq] at hinit
      rcases hinit with (hlaps | rfl) | hmarker
      · exact h.stale hmax hpos heq hlaps
      · rw [(landedBy_of_eq _ heq t).2, Option.any_some, decide_eq_false_iff_not] at hnot
        exact absurd (Nat.zero_le t) hnot
      · exact hmarker
    cases hl : landing.filter fun t => decide (t ≤ lastTry) with
    | some l =>
      obtain ⟨rfl, hle⟩ := Option.filter_eq_some_iff.1 hl
      have harr : arrived s (some l) l = true := by
        rw [(landedBy_of_eq _ heq l).2]
        exact decide_eq_true (Nat.le_refl l)
      have hbefore : ∀ i < l, (look item s (some l) i).marker ≠ epoch s.next := by
        intro i hi
        apply hstale
        rw [(landedBy_of_eq _ heq i).2]
        exact decide_eq_false (by omega)
      have hmsg : look item s (some l) l = written item s.next := by
        unfold look
        rw [harr, if_pos rfl]
      have hinv : Inv item maxItems (memoryAt item s (some l) l) := by
        unfold memoryAt
        rw [harr, if_pos rfl]
        exact h.land (by omega)
      rw [hl, Option.all_some, Bool.not_eq_true'] at hind
      obtain ⟨h1, h2⟩ := processItem_accepted h hpos hwrap (of_decide_eq_true hle) hbefore hmsg
        hind ((landedBy_of_eq _ heq l).1.trans harr) hinv
      exact ⟨h1, .inl h2⟩
    | none =>
      have hnever : ∀ i ≤ lastTry, arrived s landing i = false := by
        intro i hi
        rw [(landedBy_of_eq _ heq i).2]
        cases landing with
        | none => rfl
        | some l =>
          have hlate := Option.filter_eq_none_iff.1 hl l rfl
          rw [decide_eq_true_eq] at hlate
          exact decide_eq_false (by omega)
      obtain ⟨sync, hsync, hseqnum⟩ := sync_none (fun t => induced.contains t) h.seqnum_eq
        hwrap fun i hi => hstale i (hnever i hi)
      have hlast := hnever lastTry (Nat.le_refl _)
      unfold processItem memoryAt
      rw [hsync, hlast, (landedBy_of_eq _ heq lastTry).1, hlast]
      exact ⟨h.advance hpos hseqnum, .inr rfl⟩

/-! ## Runs -/

abbrev Trace := List (Call × Result)

/-- What is accepted has landed, and what is skipped has not. -/
def resultOk (item : Nat → Nat) : Result → Prop
  | .accepted n msgType landed => landed = true ∧ msgType = item n
  | .livelock _ landed => landed = false
  | .nothing => True

theorem step_inv {s' : State} {e : Call} {r : Result} (h : Inv item maxItems s)
    (hmax : maxItems % epochModulo ≠ 0) (hf : fresh s e = true)
    (hs : step item s e = some (s', r)) : Inv item maxItems s' ∧ resultOk item r := by
  unfold step at hs
  cases e with
  | dma slot =>
    dsimp only at hs
    split at hs
    · next hlt =>
      cases hs
      rw [h.maxItems_eq] at hlt
      exact ⟨h.land hlt.2, trivial⟩
    · cases hs
  | sync landing induced =>
    dsimp only at hs
    split at hs
    · next hready =>
      obtain ⟨hinv, hr⟩ := processItem_spec h hmax hready hf
      rw [Option.some.inj hs] at hinv hr
      refine ⟨hinv, ?_⟩
      rcases hr with hr | hr
      · rw [show r = _ from hr]
        exact ⟨rfl, rfl⟩
      · rw [show r = _ from hr]
        rfl
    · cases hs

theorem runs_keep_inv (item : Nat → Nat) {maxItems : Nat} (hmax : maxItems % epochModulo ≠ 0)
    (initial : Nat → Msg) (es : List Call) (s : State) (tr : Trace)
    (hm : meets (step item) fresh (init maxItems initial) es = true)
    (h : runs (step item) (init maxItems initial) es = some (s, tr)) :
    Inv item maxItems s ∧ ∀ e ∈ tr, resultOk item e.2 := by
  refine runs_inv_of_meets (step item) fresh
    (fun s tr => Inv item maxItems s ∧ ∀ e ∈ tr, resultOk item e.2) ?_
    (init maxItems initial) s es tr ⟨inv_init item maxItems initial, nofun⟩ hm h
  intro s tr e s' r ⟨hinv, hall⟩ hf hs
  obtain ⟨hinv', hr⟩ := step_inv hinv hmax hf hs
  refine ⟨hinv', ?_⟩
  intro e' he'
  rcases List.mem_append.1 he' with he' | he'
  · exact hall e' he'
  · rw [List.mem_singleton.1 he']
    exact hr

/-! ## Top theorem -/

end Bcmdhd.D2HSync
