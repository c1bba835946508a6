import Bcmdhd.Lib.Tally
import Bcmdhd.Wlfc.Moves

/-!
# The suppressed gate

An entry that has had a packet suppressed is sent nothing more until all of its packets are back
from the bus, and those that were sent before from the firmware.  The gate is kept with three
counters:

    onbus_pkts_count = packets on the bus,   transit_count = packets at the firmware,
    suppressed → 0 < onbus_pkts_count ∨ 0 < suppr_transit_count.

This holds as long as `dhd_wlfc_cleanup_txq` takes no packet, which it does not count off the bus.
-/

namespace Bcmdhd.Wlfc

/-! ## Runs -/

inductive Act
  | commitPackets (p : Id)
  | transferPacket (d : Dest) (ac : Ac) (fcommit pulled : Bool)
  /-- the bus takes a packet out of `bus->txq` to send it -/
  | send (p : Id)
  | txcomplete (p : Id) (success : Bool)
  | txstatus (len : Nat) (st : TxStatus)
  | suppressTxq (d : Dest)
  | cleanupTxq (fn : PktFn)

/-- Packets are passed once, and the bus completes what it has sent. -/
def step (cfg : Cfg) (s : State) : Act → Option State
  | .commitPackets p => if p ∈ s.passed then none else some (commitPackets cfg s p)
  | .transferPacket d ac fcommit pulled => transferPacket cfg s d ac fcommit pulled
  | .send p =>
    if p ∈ s.bus then some { s with inTxq := Function.update s.inTxq p false } else none
  | .txcomplete p success =>
    if p ∈ s.bus ∧ s.inTxq p = false then some (txcomplete cfg s p success) else none
  | .txstatus len st => (compressedTxstatusUpdate cfg len s st none).map Prod.fst
  | .suppressTxq d => suppressTxq cfg s d
  | .cleanupTxq fn => some (cleanupTxq cfg s fn)

/-- The states of the runs all of whose steps are `ok`. -/
inductive Reach (cfg : Cfg) (occupied : Dest → Bool) (ok : State → Act → Prop) : State → Prop
  | init : Reach cfg occupied ok (.init occupied)
  | step {s s' : State} (a : Act) : Reach cfg occupied ok s → ok s a → step cfg s a = some s' →
      Reach cfg occupied ok s'

/-! ## Conditions -/

/-- A packet that is no longer in `bus->txq`, and the status of which has not come. -/
def State.awaits (s : State) (p : Id) : Prop := p ∈ s.air ∧ ¬ (p ∈ s.bus ∧ s.inTxq p = true)

/-- None of the packets that have to give way is on the bus. -/
def Yields (cfg : Cfg) (s : State) (k : Prec) (p : Id) : Prop :=
  ∀ q ∈ displaced cfg s (cfg.pkt p).entry k p, q ∉ s.bus

/-- One packet of a status: it is about a packet whose status is awaited, in AFQ mode one that the
bus has completed, and not about one in a queue (`SUPPRESS_ACKED`) in hanger mode. -/
structure Reports (cfg : Cfg) (s : State) (st : TxStatus) : Prop where
  acked : st.acks → cfg.afq = true ∨ suppressedAckedUpdate cfg s st = s
  finds : ∀ t r, statusFinds cfg (ackedFirst cfg s st) st = some (t, r) →
    match r with
    | none => cfg.afq = false
    | some (p, _, suppress) => (ackedFirst cfg s st).awaits p ∧
      (suppress = true → Yields cfg (ackedFirst cfg s st) (sup (cfg.pkt p).fifo) p)

/-- Each packet of a status in turn. -/
def ReportsAll (cfg : Cfg) : Nat → State → TxStatus → Prop
  | 0, _, _ => True
  | len + 1, s, st => Reports cfg s st ∧ ∀ s' st' m, txstatusOne cfg s st = some (s', st', m) →
      ReportsAll cfg len s' st'

/-- Where the packets are is known as long as what a status finds is a packet whose status is
awaited. -/
structure Awaited (cfg : Cfg) (s : State) (st : TxStatus) : Prop where
  acked : st.acks → cfg.afq = true ∨ suppressedAckedUpdate cfg s st = s
  finds : ∀ t p i suppress,
    statusFinds cfg (ackedFirst cfg s st) st = some (t, some (p, i, suppress)) →
      (ackedFirst cfg s st).awaits p ∧
        (suppress = true → Yields cfg (ackedFirst cfg s st) (sup (cfg.pkt p).fifo) p)

variable {cfg : Cfg} {s s' : State} {st : TxStatus} {l : List Id} {p : Id} {pl : Id → Place}

theorem Reports.awaited (h : Reports cfg s st) :
    Awaited cfg s st := ⟨h.acked, fun t p i suppress hf => h.finds t (some (p, i, suppress)) hf⟩

/-- Each packet of a status in turn is `ok`. -/
def EachTurn (cfg : Cfg) (ok : State → TxStatus → Prop) : Nat → State → TxStatus → Prop
  | 0, _, _ => True
  | len + 1, s, st => ok s st ∧ ∀ s' st' m, txstatusOne cfg s st = some (s', st', m) →
      EachTurn cfg ok len s' st'

theorem EachTurn.imp {ok ok' : State → TxStatus → Prop} (himp : ∀ s st, ok s st → ok' s st)
    {len : Nat} (h : EachTurn cfg ok len s st) : EachTurn cfg ok' len s st := by
  induction len generalizing s st with
  | zero => trivial
  | succ len ih => exact ⟨himp s st h.1, fun s' st' m hs => ih (h.2 s' st' m hs)⟩

theorem ReportsAll.awaited {len : Nat} (h : ReportsAll cfg len s st) :
    EachTurn cfg (Awaited cfg) len s st := by
  induction len generalizing s st with
  | zero => trivial
  | succ len ih => exact ⟨h.1.awaited, fun s' st' m hs => ih (h.2 s' st' m hs)⟩

/-- Each packet of a faked suppression in turn. -/
def YieldsAll (cfg : Cfg) : List Id → State → Prop
  | [], _ => True
  | p :: l, s => Yields cfg s (sup (cfg.pkt p).fifo) p ∧
      ∀ s', suppressPkt cfg s p = some s' → YieldsAll cfg l s'

/-- No packet is dropped from a queue while it is on the bus, what fails has not been reported,
and `_dhd_wlfc_cleanup_txq` finds nothing. -/
def Act.Keeps (cfg : Cfg) (s : State) : Act → Prop
  | .commitPackets p => Yields cfg s (dly (cfg.pkt p).fifo) p
  | .transferPacket .. | .send _ => True
  | .txcomplete p success => success = false → p ∈ s.air
  | .txstatus len st => ReportsAll cfg len s st
  | .suppressTxq d => YieldsAll cfg (txqTaken cfg s (.entrypkt d))
      (s.leaveTxq (txqTaken cfg s (.entrypkt d)))
  | .cleanupTxq fn => txqTaken cfg s fn = []

/-- What `Keeps` asks for, but for statuses that find nothing. -/
def Act.Tracks (cfg : Cfg) (s : State) : Act → Prop
  | .txstatus len st => EachTurn cfg (Awaited cfg) len s st
  | a => a.Keeps cfg s

theorem Act.Keeps.tracks {a : Act} (h : a.Keeps cfg s) :
    a.Tracks cfg s := by
  cases a with
  | txstatus len st => exact ReportsAll.awaited h
  | commitPackets | transferPacket | send | txcomplete | suppressTxq | cleanupTxq => exact h

/-! ## Counts -/

/-- The packets of `l` that go to entry `d`. -/
def load (cfg : Cfg) (l : List Id) (d : Dest) : Nat := l.countP fun p => (cfg.pkt p).entry = d

theorem load_append (cfg : Cfg) (l m : List Id) (d : Dest) :
    load cfg (l ++ m) d = load cfg l d + load cfg m d := List.countP_append

theorem load_cons (cfg : Cfg) (p : Id) (l : List Id) (d : Dest) :
    load cfg (p :: l) d = load cfg l d + if (cfg.pkt p).entry = d then 1 else 0 := by
  unfold load
  rw [List.countP_cons]
  simp

theorem load_concat (cfg : Cfg) (p : Id) (l : List Id) (d : Dest) :
    load cfg (l ++ [p]) d = load cfg l d + if (cfg.pkt p).entry = d then 1 else 0 := by
  rw [load_append, load_cons]
  exact congrArg _ (Nat.zero_add _)

theorem load_perm (cfg : Cfg) {m : List Id} (h : l.Perm m) (d : Dest) :
    load cfg l d = load cfg m d := h.countP_eq _

theorem load_erase (cfg : Cfg) (hp : p ∈ l) (d : Dest) :
    load cfg l d = load cfg (l.erase p) d + if (cfg.pkt p).entry = d then 1 else 0 := by
  rw [load_perm cfg (List.perm_cons_erase hp), load_cons]

theorem load_pos (cfg : Cfg) (hp : p ∈ l) :
    0 < load cfg l (cfg.pkt p).entry :=
  List.countP_pos_iff.mpr ⟨p, hp, by simp⟩

/-- The counters of an entry with `n` packets on the bus and `m` at the firmware; `w` says that
packets may have been taken from `bus->txq` without being counted off the bus. -/
structure Entry.Counts (e : Entry) (w : Bool) (n m : Nat) : Prop where
  onbus : n ≤ e.onbusPktsCount
  all : w = false → e.onbusPktsCount = n
  transit : e.transitCount = m
  suppr : e.supprTransitCount ≤ m
  gate : e.suppressed = true → 0 < e.onbusPktsCount ∨ 0 < e.supprTransitCount

section

variable {e : Entry} {w : Bool} {n m : Nat}

theorem Entry.Counts.seq (h : e.Counts w n m) (q : Ac → BitVec 8) :
    Entry.Counts { e with seq := q } w n m := ⟨h.onbus, h.all, h.transit, h.suppr, h.gate⟩

theorem Entry.Counts.openGate (hn : n ≤ e.onbusPktsCount) (ha : w = false → e.onbusPktsCount = n)
    (hm : e.transitCount = m) (hs : e.supprTransitCount ≤ m) : e.openGate.Counts w n m := by
  unfold Entry.openGate
  split
  · exact ⟨hn, ha, hm, hs, nofun⟩
  · next hc =>
    refine ⟨hn, ha, hm, hs, fun hg => ?_⟩
    by_contra hz
    exact hc ⟨hg, by omega, by omega⟩

theorem Entry.Counts.back (h : e.Counts w n (m + 1)) : e.back.Counts w n m := by
  have ht := h.transit
  have hs := h.suppr
  have hm : e.transitCount - 1 = m := by omega
  unfold Entry.back
  dsimp only
  split
  · exact .openGate h.onbus h.all hm (by dsimp only; omega)
  · next hz => exact ⟨h.onbus, h.all, hm, by dsimp only; omega, h.gate⟩

theorem Entry.Counts.offBus (h : e.Counts w (n + 1) m) : e.offBus.Counts w n m := by
  have hn := h.onbus
  refine .openGate (by dsimp only; omega) (fun hw => ?_) h.transit h.suppr
  have ha := h.all hw
  dsimp only
  omega

/-- A packet on the bus has failed. -/
theorem Entry.Counts.fail (h : e.Counts w (n + 1) (m + 1)) :
    Entry.Counts (Entry.offBus { e with
      transitCount := e.transitCount - 1, supprTransitCount := e.supprTransitCount - 1 }) w n m := by
  have hn := h.onbus
  have ht := h.transit
  have hs := h.suppr
  refine .openGate (by dsimp only; omega) (fun hw => ?_) (by dsimp only; omega)
    (by dsimp only; omega)
  have ha := h.all hw
  dsimp only
  omega

theorem Entry.openGate_suppressed (h : e.suppressed = true)
    (hn : e.onbusPktsCount ≠ 0) : e.openGate.suppressed = true := by
  unfold Entry.openGate
  rw [if_neg fun hc => hn hc.2.1]
  exact h

theorem Entry.openGate_onbus (e : Entry) : e.openGate.onbusPktsCount = e.onbusPktsCount := by
  unfold Entry.openGate
  split <;> rfl

theorem Entry.offBus_suppressed (h : e.suppressed = true)
    (hn : e.offBus.onbusPktsCount ≠ 0) : e.offBus.suppressed = true :=
  openGate_suppressed h (openGate_onbus _ ▸ hn)

theorem Entry.back_suppressed (h : e.suppressed = true) (hn : e.onbusPktsCount ≠ 0) :
    e.back.suppressed = true := by
  unfold Entry.back
  dsimp only
  split
  · exact openGate_suppressed h hn
  · exact h

theorem committed_entry (s : State) (d : Dest) (p : Id) (h : (s.entry d).Counts w n m) :
    ((committed s d p).entry d).Counts w (n + 1) (m + 1) ∧
      ((s.entry d).suppressed = true → ((committed s d p).entry d).suppressed = true) := by
  have hn := h.onbus
  have hm := h.transit
  have hs := h.suppr
  unfold committed
  dsimp only
  rw [setEntry_self]
  split
  · exact ⟨⟨Nat.succ_le_succ hn, fun hw => congrArg (· + 1) (h.all hw), congrArg (· + 1) hm,
      Nat.succ_le_succ hs, fun _ => Or.inl (Nat.succ_pos _)⟩, fun _ => rfl⟩
  · exact ⟨⟨Nat.succ_le_succ hn, fun hw => congrArg (· + 1) (h.all hw), congrArg (· + 1) hm,
      Nat.le_succ_of_le hs, fun _ => Or.inl (Nat.succ_pos _)⟩, fun hg => hg⟩

theorem Entry.Counts.suppress (h : e.Counts w n (m + 1)) (gen : Bool) :
    Entry.Counts { e with
      supprTransitCount := if e.suppressed then e.supprTransitCount else e.transitCount
      suppressed := true
      generation := gen } w n (m + 1) := by
  have hm := h.transit
  have hs := h.suppr
  refine ⟨h.onbus, h.all, hm, ?_, fun _ => ?_⟩
  · dsimp only
    split <;> omega
  · dsimp only
    split
    · next hg => exact h.gate hg
    · exact Or.inr (by omega)

end

/-! ## Invariant -/

/-- A packet between two calls, or in `t` when it has been taken back from `bus->txq`. -/
structure Tracked (cfg : Cfg) (s : State) (pl : Id → Place) (t : List Id) (w : Bool) (q : Id) :
    Prop where
  handed : (pl q).handed = none
  clean : w = false → pl q ≠ .freed true
  taken : pl q = .taken ↔ q ∈ t
  held : pl q = .suppressed true → (s.entry (cfg.pkt q).entry).suppressed = true
  txq : q ∈ s.bus → s.inTxq q = true → pl q = .flying true true
  flush : cfg.afq = false → ∀ i, (s.hanger i).Flushed q →
    q ∉ t ∧ ¬ (q ∈ s.bus ∧ s.inTxq q = true)

/-- The packets of `t` have been taken back from `bus->txq`; those of `l` are still counted. -/
structure Inv (cfg : Cfg) (s : State) (pl : Id → Place) (l t : List Id) (w : Bool) : Prop
    extends Rel cfg s pl where
  count : ∀ d, (s.entry d).Counts w (load cfg s.bus d + load cfg l d) (load cfg s.air d)
  tracked : ∀ q, Tracked cfg s pl t w q
  left : l ⊆ t

theorem inv_init (cfg : Cfg) (occupied : Dest → Bool) :
    Inv cfg (.init occupied) (fun _ => .fresh) [] [] false where
  toRel := rel_init cfg occupied
  count _ := ⟨Nat.le_refl 0, fun _ => rfl, rfl, Nat.le_refl 0, nofun⟩
  tracked _ := ⟨rfl, nofun, iff_of_false nofun List.not_mem_nil, nofun, nofun, nofun⟩
  left := List.Subset.refl _

/-- Off the bus, and in nobody's hands. -/
structure Place.Resting (x : Place) : Prop where
  onBus : x.onBus = false
  handed : x.handed = none
  taken : x ≠ .taken
  clean : x ≠ .freed true

theorem resting_freed : (Place.freed false).Resting := ⟨rfl, rfl, nofun, nofun⟩

section

variable {cfg : Cfg} {s s' : State} {pl pl' : Id → Place} {l l' t t' : List Id} {w w' : Bool}

theorem Place.Resting.tracked {q : Id} (h : (pl q).Resting) (hrel : Rel cfg s pl) (ht : q ∉ t) :
    Tracked cfg s pl t w q := by
  have hbus : q ∉ s.bus := fun hb => nomatch h.onBus.symm.trans ((hrel.places q).bus.mp hb)
  refine ⟨h.handed, fun _ => h.clean, iff_of_false h.taken ht, fun hx => ?_,
    fun hb => absurd hb hbus, fun _ _ _ => ⟨ht, fun hb => hbus hb.1⟩⟩
  have := h.onBus
  rw [hx] at this
  cases this

/-- Nothing happens to packet `q`. -/
structure Stays (s s' : State) (pl pl' : Id → Place) (t t' : List Id) (q : Id) : Prop where
  place : pl' q = pl q
  inTxq : s'.inTxq q = true → s.inTxq q = true
  taken : q ∈ t' ↔ q ∈ t

theorem Inv.next (h : Inv cfg s pl l t w) (hw : w' = false → w = false) (hrel : Rel cfg s' pl')
    (hcount : ∀ d, (s'.entry d).Counts w' (load cfg s'.bus d + load cfg l' d) (load cfg s'.air d))
    (hgate : ∀ d, (s.entry d).suppressed = true → 0 < load cfg s'.bus d →
      (s'.entry d).suppressed = true)
    (hflush : ∀ i q, (s'.hanger i).Flushed q → (s.hanger i).Flushed q) (hl : l' ⊆ t')
    (hq : ∀ q, Stays s s' pl pl' t t' q ∨ Tracked cfg s' pl' t' w' q) :
    Inv cfg s' pl' l' t' w' where
  toRel := hrel
  count := hcount
  left := hl
  tracked q := by
    rcases hq q with hs | hq
    · have hx := h.tracked q
      have hbus : q ∈ s'.bus → q ∈ s.bus := by
        rw [(h.places q).bus, ← hs.place]
        exact (hrel.places q).bus.mp
      refine ⟨?_, fun hw' => ?_, ?_, fun hsup => ?_, fun hb hi => ?_, fun ha i hi => ?_⟩
      · rw [hs.place]
        exact hx.handed
      · rw [hs.place]
        exact hx.clean (hw hw')
      · rw [hs.place, hs.taken]
        exact hx.taken
      · have hb : q ∈ s'.bus := (hrel.places q).bus.mpr (by rw [hsup]; rfl)
        exact hgate _ (hx.held (hs.place.symm.trans hsup)) (load_pos cfg hb)
      · rw [hs.place]
        exact hx.txq (hbus hb) (hs.inTxq hi)
      · obtain ⟨ht, hn⟩ := hx.flush ha i (hflush i q hi)
        exact ⟨fun hm => ht (hs.taken.mp hm), fun hb => hn ⟨hbus hb.1, hs.inTxq hb.2⟩⟩
    · exact hq

/-- One packet moves. -/
theorem Inv.move (h : Inv cfg s pl l t w) (hrel : Rel cfg s' pl')
    (hcount : ∀ d, (s'.entry d).Counts w (load cfg s'.bus d + load cfg l' d) (load cfg s'.air d))
    (hgate : ∀ d, (s.entry d).suppressed = true → 0 < load cfg s'.bus d →
      (s'.entry d).suppressed = true)
    (hflush : ∀ i q, (s'.hanger i).Flushed q → (s.hanger i).Flushed q) (hl : l' ⊆ t')
    (hsp : Spares pl pl' p) (htxq : ∀ q, q ≠ p → s'.inTxq q = true → s.inTxq q = true)
    (ht : ∀ q, q ≠ p → (q ∈ t' ↔ q ∈ t)) (hp : Tracked cfg s' pl' t' w p) :
    Inv cfg s' pl' l' t' w := by
  refine h.next id hrel hcount hgate hflush hl fun q => ?_
  by_cases hqp : q = p
  · subst hqp
    exact Or.inr hp
  · rcases hsp q hqp with hx | ⟨hn, hx⟩
    · exact Or.inl ⟨hx, htxq q hqp, ht q hqp⟩
    · refine Or.inr (Place.Resting.tracked (hx ▸ resting_freed) hrel fun hm => ?_)
      rw [ht q hqp, ← (h.tracked q).taken] at hm
      rw [hm] at hn
      exact hn rfl

/-- Nothing happens to the counters. -/
theorem Inv.calm (h : Inv cfg s pl [] [] w) (hc : Calm s s') (hrel : Rel cfg s' pl')
    (hsp : Spares pl pl' p) (hp : (pl' p).Resting) : Inv cfg s' pl' [] [] w := by
  refine h.move (p := p) hrel (fun d => ?_) (fun d hd _ => ?_) hc.flushed (List.Subset.refl _) hsp
    (fun q _ hq => hc.inTxq ▸ hq) (fun _ _ => Iff.rfl) (hp.tracked hrel List.not_mem_nil)
  · obtain ⟨q, hq⟩ := hc.entry d
    rw [hq, hc.bus, hc.air]
    exact (h.count d).seq q
  · obtain ⟨q, hq⟩ := hc.entry d
    rw [hq]
    exact hd

theorem Inv.same (h : Inv cfg s pl [] [] w) (hc : Calm s s') (hs : SamePlaces s s') :
    Inv cfg s' pl [] [] w := by
  refine h.next id (h.congr hs) (fun d => ?_) (fun d hd _ => ?_) hc.flushed (List.Subset.refl _)
    fun q => Or.inl ⟨rfl, fun hq => hc.inTxq ▸ hq, Iff.rfl⟩
  · obtain ⟨q, hq⟩ := hc.entry d
    rw [hq, hc.bus, hc.air]
    exact (h.count d).seq q
  · obtain ⟨q, hq⟩ := hc.entry d
    rw [hq]
    exact hd

end

/-! ## Steps -/

variable {w : Bool}

theorem Inv.onCommit (h : Inv cfg s pl [] [] w) (hp : p ∉ s.passed)
    (hy : Yields cfg s (dly (cfg.pkt p).fifo) p) :
    ∃ pl', Inv cfg (commitPackets cfg s p) pl' [] [] w := by
  obtain ⟨hc, pl', hrel, hsp, hx⟩ := h.passed hp fun q hq => hy q (evicted_subset hq)
  refine ⟨pl', h.calm hc hrel hsp ?_⟩
  rcases hx with hx | hx <;> rw [hx] <;> exact ⟨rfl, rfl, nofun, nofun⟩

/-- The gate is open: no packet of the entry waits in a queue while it is on the bus. -/
theorem Inv.open (h : Inv cfg s pl [] [] w) {d : Dest} (hg : (s.entry d).gate = true) (k : Prec) :
    ∀ q ∈ s.psq d k, q ∉ s.bus := by
  intro q hq hb
  obtain ⟨rfl, _, hk⟩ := ((h.places q).psq d k).mp hq
  have hx : pl q = .suppressed true := by
    have ho := (h.places q).bus.mp hb
    cases hpl : pl q with
    | suppressed b =>
      rw [hpl] at ho
      cases ho
      rfl
    | delayed =>
      rw [hpl] at ho
      cases ho
    | fresh | hand | flying | reported | taken | freed =>
      rw [hpl] at hk
      cases hk
  have hs := (h.tracked q).held hx
  unfold Entry.gate at hg
  simp [hs] at hg

theorem Inv.onTransfer (h : Inv cfg s pl [] [] w) {d : Dest} {ac : Ac} {fcommit pulled : Bool}
    (hs : transferPacket cfg s d ac fcommit pulled = some s') :
    ∃ pl', Inv cfg s' pl' [] [] w := by
  unfold transferPacket at hs
  split at hs
  · next hg =>
    split at hs
    · cases hs
    · next u p needsHdr hdeq =>
      cases hs
      have hd := h.dequeue (h.open hg) hdeq
      have hcalm := calm_dequeue hdeq
      rcases hd.rel.commit fcommit pulled (Function.update_self _ _ _) hd.entry hd.psq with
        hret | ⟨v, hv, he, hrel, hlive⟩
      · obtain ⟨pl', hrel, hsp, hx⟩ := hret.rel
        refine ⟨pl', h.calm (hcalm.trans hret.calm) hrel ((spares_update pl p _).trans hsp) ?_⟩
        rcases hx with hx | hx
        · rw [hx]
          exact resting_freed
        · rw [hx]
          cases needsHdr <;> exact ⟨rfl, rfl, nofun, nofun⟩
      · rw [he]
        rw [Function.update_idem] at hrel
        have hc := hcalm.trans hv
        refine ⟨_, h.move (p := p) hrel (fun d' => ?_) (fun d' hd' _ => ?_) hc.flushed
          (List.Subset.refl _) (spares_update pl p _) (fun q hq hi => ?_) (fun _ _ => Iff.rfl) ?_⟩
        · show ((committed v d p).entry d').Counts w (load cfg (v.bus ++ [p]) d' + _)
            (load cfg (v.air ++ [p]) d')
          rw [load_concat, load_concat, hc.bus, hc.air, hd.entry]
          obtain ⟨q, hq⟩ := hc.entry d'
          have hcount := (h.count d').seq q
          rw [← hq] at hcount
          by_cases hdd : d' = d
          · subst hdd
            rw [if_pos rfl, Nat.add_right_comm]
            exact (committed_entry v d' p hcount).1
          · rw [if_neg (Ne.symm hdd)]
            show ((v.setEntry d _).entry d').Counts w _ _
            rw [setEntry_of_ne v _ hdd]
            exact hcount
        · obtain ⟨q, hq⟩ := hc.entry d'
          by_cases hdd : d' = d
          · subst hdd
            refine (committed_entry v d' p (n := _) (m := _) (hq ▸ (h.count d').seq q)).2 ?_
            rw [hq]
            exact hd'
          · show ((v.setEntry d _).entry d').suppressed = true
            rw [setEntry_of_ne v _ hdd, hq]
            exact hd'
        · change Function.update v.inTxq p true q = true at hi
          rw [Function.update_of_ne hq] at hi
          exact hc.inTxq ▸ hi
        · have hup : Function.update pl p (.flying true true) p = .flying true true :=
            Function.update_self _ _ _
          refine ⟨by rw [hup]; rfl, fun _ => by rw [hup]; nofun,
            iff_of_false (by rw [hup]; nofun) List.not_mem_nil, by rw [hup]; nofun, fun _ _ => hup,
            fun hm i hi => ?_⟩
          have hslot := (hrel.owner hm i p hi.2).1
          have hst : (v.hanger i).state = .inuse := hslot ▸ hlive hm
          exact nomatch hst.symm.trans hi.1
  · cases hs

theorem Inv.onSend (h : Inv cfg s pl [] [] w) (p : Id) :
    Inv cfg { s with inTxq := Function.update s.inTxq p false } pl [] [] w := by
  have hrel : Rel cfg { s with inTxq := Function.update s.inTxq p false } pl := h.congr
    ⟨⟨rfl, rfl, rfl, rfl, rfl, rfl⟩, fun _ => rfl, fun _ => rfl, fun _ => rfl, fun _ => rfl,
      fun _ => Iff.rfl⟩
  have hx := h.tracked p
  have hin : Function.update s.inTxq p false p = false := Function.update_self _ _ _
  refine h.move (p := p) hrel h.count (fun _ hd _ => hd) (fun _ _ hi => hi) (List.Subset.refl _)
    (fun _ _ => Or.inl rfl) (fun q hq hi => ?_) (fun _ _ => Iff.rfl)
    ⟨hx.handed, hx.clean, hx.taken, hx.held, fun _ hi => ?_, fun ha i hi => ⟨(hx.flush ha i hi).1,
      fun hb => ?_⟩⟩
  · change Function.update s.inTxq p false q = true at hi
    rw [Function.update_of_ne hq] at hi
    exact hi
  · exact nomatch hin.symm.trans hi
  · exact nomatch hin.symm.trans hb.2

theorem Inv.onBus (h : Inv cfg s pl [] [] w) (hp : p ∈ s.bus) :
    ∃ f, pl p = .flying true f ∨ pl p = .suppressed true := by
  have ho := (h.places p).bus.mp hp
  have hh := (h.tracked p).handed
  cases hpl : pl p with
  | suppressed b =>
    rw [hpl] at ho
    cases ho
    exact ⟨false, Or.inr rfl⟩
  | flying b f =>
    rw [hpl] at ho
    cases ho
    exact ⟨f, Or.inl rfl⟩
  | reported b =>
    rw [hpl] at hh
    cases hh
  | fresh | hand | delayed | taken | freed =>
    rw [hpl] at ho
    cases ho

/-- What else happens when the bus has completed a packet. -/
structure Completed (cfg : Cfg) (s s' : State) (p : Id) (success : Bool) : Prop where
  bus : s'.bus = s.bus.erase p
  air : s'.air = if success then s.air else s.air.erase p
  inTxq : s'.inTxq = s.inTxq
  flushed : ∀ i q, (s'.hanger i).Flushed q → (s.hanger i).Flushed q
  other : ∀ d, d ≠ (cfg.pkt p).entry → ∃ q, s'.entry d = { s.entry d with seq := q }
  entry : ∃ q, s'.entry (cfg.pkt p).entry = Entry.offBus
    (if success then { s.entry (cfg.pkt p).entry with seq := q }
      else { s.entry (cfg.pkt p).entry with
        transitCount := (s.entry (cfg.pkt p).entry).transitCount - 1
        supprTransitCount := (s.entry (cfg.pkt p).entry).supprTransitCount - 1 })

theorem txcomplete_completed (cfg : Cfg) (s : State) (p : Id) (success : Bool) :
    Completed cfg s (txcomplete cfg s p success) p success := by
  unfold txcomplete
  dsimp only
  cases success with
  | true =>
    rw [if_pos rfl]
    have hcalm : Calm s (if cfg.afq = true then enqueAfq cfg s p
        else hangerFreePkt cfg s (s.tag p).hslot .busreturned) := by
      split
      · exact ⟨rfl, rfl, rfl, fun _ => ⟨_, rfl⟩, fun _ _ h => h⟩
      · exact calm_freePkt cfg s _ _
    generalize (if cfg.afq = true then enqueAfq cfg s p
      else hangerFreePkt cfg s (s.tag p).hslot .busreturned) = u at hcalm
    refine ⟨congrArg (·.erase p) hcalm.bus, hcalm.air, hcalm.inTxq, hcalm.flushed,
      fun d hd => ?_, ?_⟩
    · obtain ⟨q, hq⟩ := hcalm.entry d
      exact ⟨q, (setEntry_of_ne u _ hd).trans hq⟩
    · obtain ⟨q, hq⟩ := hcalm.entry (cfg.pkt p).entry
      exact ⟨q, (setEntry_self u _ _).trans (congrArg Entry.offBus hq)⟩
  | false =>
    rw [if_neg nofun]
    obtain ⟨u, hu, hcalm, hent⟩ : ∃ u, u = (if cfg.afq = true then s
        else { s with hanger := (hangerPoppkt s.hanger (s.tag p).hslot true).1 }) ∧
        Calm s u ∧ u.entry = s.entry := by
      refine ⟨_, rfl, ?_, ?_⟩
      · split
        · exact .refl s
        · exact calm_hanger s fun _ _ => flushed_poppkt
      · split <;> rfl
    rw [← hu]
    refine ⟨congrArg (·.erase p) hcalm.bus, congrArg (·.erase p) hcalm.air, hcalm.inTxq,
      hcalm.flushed, fun d hd => ⟨(s.entry d).seq, ?_⟩, fun _ => 0, ?_⟩
    · refine (setEntry_of_ne _ _ hd).trans ?_
      show (u.setEntry (cfg.pkt p).entry _).entry d = _
      rw [setEntry_of_ne u _ hd, hent]
    · refine (setEntry_self _ _ _).trans ?_
      show Entry.offBus ((u.setEntry (cfg.pkt p).entry _).entry (cfg.pkt p).entry) = _
      rw [setEntry_self, hent]
      rfl

theorem Inv.onComplete (h : Inv cfg s pl [] [] w) {success : Bool} (hp : p ∈ s.bus)
    (hfail : success = false → p ∈ s.air) :
    ∃ pl', Inv cfg (txcomplete cfg s p success) pl' [] [] w := by
  have hx := h.onBus hp
  have hrel := h.complete hx hfail
  have hc := txcomplete_completed cfg s p success
  generalize txcomplete cfg s p success = s' at hrel hc
  obtain ⟨q, hq⟩ := hc.entry
  have hcount : ∀ d, (s'.entry d).Counts w (load cfg s'.bus d + load cfg [] d)
      (load cfg s'.air d) := by
    intro d
    have hd := h.count d
    rw [load_erase cfg hp d, Nat.add_right_comm] at hd
    rw [hc.bus, hc.air]
    by_cases hdd : d = (cfg.pkt p).entry
    · subst hdd
      rw [if_pos rfl] at hd
      rw [hq]
      cases success with
      | true => exact (hd.seq q).offBus
      | false =>
        rw [load_erase cfg (hfail rfl) _, if_pos rfl] at hd
        exact hd.fail
    · rw [if_neg (Ne.symm hdd)] at hd
      obtain ⟨r, hr⟩ := hc.other d hdd
      rw [hr]
      cases success with
      | true => exact hd.seq r
      | false =>
        rw [load_erase cfg (hfail rfl) d, if_neg (Ne.symm hdd)] at hd
        exact hd.seq r
  refine ⟨_, h.move (p := p) hrel hcount (fun d hd hl => ?_) hc.flushed (List.Subset.refl _)
    (spares_update pl p _) (fun q _ hi => hc.inTxq ▸ hi) (fun _ _ => Iff.rfl)
    (Place.Resting.tracked ?_ hrel List.not_mem_nil)⟩
  · by_cases hdd : d = (cfg.pkt p).entry
    · subst hdd
      have hn := (hcount (cfg.pkt p).entry).onbus
      have hne : (s'.entry (cfg.pkt p).entry).onbusPktsCount ≠ 0 := by omega
      rw [hq] at hne ⊢
      refine Entry.offBus_suppressed ?_ hne
      cases success <;> exact hd
    · obtain ⟨r, hr⟩ := hc.other d hdd
      rw [hr]
      exact hd
  · rw [Function.update_self]
    obtain ⟨f, hx | hx⟩ := hx <;> rw [hx]
    · cases f <;> cases success <;> exact ⟨rfl, rfl, nofun, nofun⟩
    · cases success <;> exact ⟨rfl, rfl, nofun, nofun⟩

/-- The entry of a packet whose status has come. -/
def Entry.reported (e : Entry) (suppress gen : Bool) : Entry :=
  if suppress then
    { e with
      supprTransitCount := if e.suppressed then e.supprTransitCount else e.transitCount
      suppressed := true
      generation := gen } else e

theorem Entry.reported_suppressed {e : Entry} {suppress : Bool} (gen : Bool)
    (h : e.suppressed = true ∨ suppress = true) : (e.reported suppress gen).suppressed = true := by
  unfold reported
  split
  · rfl
  · next hs => exact h.resolve_right hs

theorem Entry.reported_onbus (e : Entry) (suppress gen : Bool) :
    (e.reported suppress gen).onbusPktsCount = e.onbusPktsCount := by
  unfold reported
  split <;> rfl

theorem Entry.Counts.reported {e : Entry} {n m : Nat} (h : e.Counts w n (m + 1))
    (suppress gen : Bool) : (e.reported suppress gen).Counts w n (m + 1) := by
  unfold Entry.reported
  split
  · exact h.suppress gen
  · exact h

/-- What else happens when a status has come. -/
structure Answered (cfg : Cfg) (s s' : State) (p : Id) (suppress gen : Bool) : Prop where
  bus : s'.bus = s.bus
  air : s'.air = s.air.erase p
  inTxq : s'.inTxq = s.inTxq
  flushed : ∀ i q, (s'.hanger i).Flushed q → (s.hanger i).Flushed q
  other : ∀ d, d ≠ (cfg.pkt p).entry → ∃ q, s'.entry d = { s.entry d with seq := q }
  entry : ∃ q, s'.entry (cfg.pkt p).entry =
    Entry.back { (s.entry (cfg.pkt p).entry).reported suppress gen with seq := q }

theorem statusOf_answered (cfg : Cfg) (s : State) (p : Id) (i : Slot) (suppress gen : Bool) :
    Answered cfg s (statusOf cfg s p i suppress gen) p suppress gen := by
  unfold statusOf
  dsimp only
  obtain ⟨u, hu⟩ : ∃ u : State, u = { s.setEntry (cfg.pkt p).entry
      ((s.entry (cfg.pkt p).entry).reported suppress gen) with air := s.air.erase p } := ⟨_, rfl⟩
  have hcalm := calm_statusMoves cfg u p i suppress gen
  unfold Entry.reported at hu
  rw [← hu]
  generalize statusMoves cfg u p i suppress gen = v at hcalm
  subst hu
  refine ⟨hcalm.bus, hcalm.air, hcalm.inTxq, hcalm.flushed, fun d hd => ?_, ?_⟩
  · obtain ⟨q, hq⟩ := hcalm.entry d
    refine ⟨q, (setEntry_of_ne v _ hd).trans (hq.trans ?_)⟩
    show { (s.setEntry (cfg.pkt p).entry _).entry d with seq := q } = _
    rw [setEntry_of_ne s _ hd]
  · obtain ⟨q, hq⟩ := hcalm.entry (cfg.pkt p).entry
    refine ⟨q, (setEntry_self v _ _).trans (congrArg Entry.back (hq.trans ?_))⟩
    show { (s.setEntry (cfg.pkt p).entry _).entry (cfg.pkt p).entry with seq := q } = _
    rw [setEntry_self]
    rfl

theorem Inv.status {u : State} {t t' : List Id} (h : Inv cfg s pl l t w) {i : Slot}
    {suppress : Bool} (gen : Bool)
    (hx : (∃ b, pl p = .flying b true) ∨ pl p = .taken ∧ suppress = true)
    (hf : Found cfg s u pl p i) (htxq : ¬ (p ∈ s.bus ∧ s.inTxq p = true))
    (hy : suppress = true → Yields cfg s (sup (cfg.pkt p).fifo) p)
    (ht : ∀ q, q ≠ p → (q ∈ t' ↔ q ∈ t)) (hp : p ∉ t') (hl : l ⊆ t') :
    ∃ pl', Inv cfg (statusOf cfg u p i suppress gen) pl' l t' w := by
  have hair : p ∈ s.air := by
    rw [(h.places p).air]
    rcases hx with ⟨b, hx⟩ | ⟨hx, _⟩ <;> rw [hx] <;> rfl
  have hland : (Function.update pl p (pl p).landed p).handed = some true := by
    rw [Function.update_self]
    rcases hx with ⟨b, hx⟩ | ⟨hx, _⟩ <;> rw [hx] <;> rfl
  have hy' : suppress = true →
      ∀ q ∈ displaced cfg u (cfg.pkt p).entry (sup (cfg.pkt p).fifo) p, q ∉ u.bus := by
    rw [hf.state]
    exact hy
  obtain ⟨pl', hrel, hset⟩ := hf.rel.status suppress gen hland hf.slot
    (fun hs => by
      rw [Function.update_self]
      rcases hx with ⟨b, hx⟩ | ⟨_, hx⟩
      · exact ⟨b, by rw [hx]; rfl⟩
      · exact nomatch hs.symm.trans hx) hy'
  have hans := statusOf_answered cfg u p i suppress gen
  generalize statusOf cfg u p i suppress gen = s' at hrel hans
  have hbus : s'.bus = s.bus := hans.bus.trans (by rw [hf.state])
  have hair' : s'.air = s.air.erase p := hans.air.trans (by rw [hf.state])
  have hent : ∀ d, u.entry d = s.entry d := fun d => by rw [hf.state]
  obtain ⟨q, hq⟩ := hans.entry
  rw [hent] at hq
  have hgate : ∀ d, (s.entry d).suppressed = true ∨ d = (cfg.pkt p).entry ∧ suppress = true →
      0 < load cfg s'.bus d → (s'.entry d).suppressed = true := by
    intro d hd hl
    by_cases hdd : d = (cfg.pkt p).entry
    · subst hdd
      rw [hq]
      refine Entry.back_suppressed (Entry.reported_suppressed gen (hd.imp_right And.right)) ?_
      have hn := (h.count (cfg.pkt p).entry).onbus
      have ho := Entry.reported_onbus (s.entry (cfg.pkt p).entry) suppress gen
      rw [hbus] at hl
      dsimp only
      omega
    · obtain ⟨r, hr⟩ := hans.other d hdd
      rw [hr, hent]
      exact hd.resolve_right fun hc => hdd hc.1
  have hsp : Spares pl pl' p := (spares_update pl p _).trans hset.spares
  have hn : ¬ (p ∈ s'.bus ∧ s'.inTxq p = true) := by
    rw [hbus, hans.inTxq, hf.state]
    exact htxq
  refine ⟨pl', h.move (p := p) hrel (fun d => ?_) (fun d hd => hgate d (Or.inl hd))
    (fun j r hj => ?_) hl hsp (fun r _ hi => ?_) ht ?_⟩
  · have hd := h.count d
    rw [load_erase cfg hair d] at hd
    rw [hbus, hair']
    by_cases hdd : d = (cfg.pkt p).entry
    · subst hdd
      rw [if_pos rfl] at hd
      rw [hq]
      exact ((hd.reported suppress gen).seq q).back
    · rw [if_neg (Ne.symm hdd)] at hd
      obtain ⟨r, hr⟩ := hans.other d hdd
      rw [hr, hent]
      exact hd.seq r
  · have := hans.flushed j r hj
    rw [hf.state] at this
    exact this
  · have := hans.inTxq ▸ hi
    rw [hf.state] at this
    exact this
  · have hup : Function.update pl p (pl p).landed p = (pl p).landed := Function.update_self _ _ _
    have hrest : (pl' p).Resting → Tracked cfg s' pl' t' w p := fun hx => hx.tracked hrel hp
    cases suppress with
    | true =>
      rcases hset.suppressed rfl with hpl | ⟨_, hpl⟩
      · rw [hup] at hpl
        rcases hx with ⟨b, hx⟩ | ⟨hx, _⟩
        · rw [hx] at hpl
          cases b with
          | false => exact hrest (hpl ▸ ⟨rfl, rfl, nofun, nofun⟩)
          | true =>
            have hb : p ∈ s'.bus := hbus ▸ (h.places p).bus.mpr (by rw [hx]; rfl)
            exact ⟨hpl ▸ rfl, fun _ => hpl ▸ nofun, iff_of_false (hpl ▸ nofun) hp,
              fun _ => hgate _ (Or.inr ⟨rfl, rfl⟩) (load_pos cfg hb),
              fun hb hi => absurd ⟨hb, hi⟩ hn, fun _ _ _ => ⟨hp, hn⟩⟩
        · rw [hx] at hpl
          exact hrest (hpl ▸ ⟨rfl, rfl, nofun, nofun⟩)
      · exact hrest (hpl ▸ resting_freed)
    | false =>
      have hpl := hset.answered rfl
      rw [hup] at hpl
      rcases hx with ⟨b, hx⟩ | ⟨_, hx⟩
      · rw [hx] at hpl
        cases b with
        | false => exact hrest (hpl ▸ resting_freed)
        | true =>
          exact ⟨hpl ▸ rfl, fun _ => hpl ▸ nofun, iff_of_false (hpl ▸ nofun) hp, hpl ▸ nofun,
            fun hb hi => absurd ⟨hb, hi⟩ hn, fun _ _ _ => ⟨hp, hn⟩⟩
      · cases hx

theorem Inv.onAcked (h : Inv cfg s pl [] [] w)
    (hst : st.acks → cfg.afq = true ∨ suppressedAckedUpdate cfg s st = s) :
    ∃ pl', Inv cfg (ackedFirst cfg s st) pl' [] [] w := by
  unfold ackedFirst
  split
  · next hflag =>
    rcases hst hflag with hafq | he
    · rcases h.suppressedAcked hafq st with he | ⟨p, hc, hd, hrel⟩
      · rw [he]
        exact ⟨pl, h⟩
      · generalize suppressedAckedUpdate cfg s st = s' at hc hrel
        refine ⟨_, h.move (p := p) hrel (fun d => ?_) (fun d hg _ => ?_)
          (fun _ _ hi => hc.hanger ▸ hi) (List.Subset.refl _) (spares_update pl p _)
          (fun q _ hi => hc.inTxq ▸ hi) (fun _ _ => Iff.rfl)
          (Place.Resting.tracked ?_ hrel List.not_mem_nil)⟩
        · have hcount := h.count d
          rw [hc.bus, hc.air, load_concat, hd, hc.entry]
          by_cases hdd : d = entryOf st.hslot
          · subst hdd
            rw [Function.update_self, if_pos rfl]
            exact ⟨hcount.onbus, hcount.all, congrArg (· + 1) hcount.transit,
              Nat.le_succ_of_le hcount.suppr, hcount.gate⟩
          · rw [Function.update_of_ne hdd, if_neg (Ne.symm hdd)]
            exact hcount
        · rw [hc.entry]
          by_cases hdd : d = entryOf st.hslot
          · subst hdd
            rw [Function.update_self]
            exact hg
          · rw [Function.update_of_ne hdd]
            exact hg
        · rw [Function.update_self]
          exact ⟨rfl, rfl, nofun, nofun⟩
    · rw [he]
      exact ⟨pl, h⟩
  · exact ⟨pl, h⟩

theorem Inv.atFw (h : Inv cfg s pl [] [] w) (hp : p ∈ s.air) :
    (∃ b, pl p = .flying b true) ∨ pl p = .taken := by
  have ha := (h.places p).air.mp hp
  cases hpl : pl p with
  | flying b f =>
    rw [hpl] at ha
    cases ha
    exact Or.inl ⟨b, rfl⟩
  | taken => exact Or.inr rfl
  | fresh | hand | delayed | suppressed | reported | freed =>
    rw [hpl] at ha
    cases ha

/-- A packet is looked for, and its status goes to what is found. -/
theorem txstatusOne_some {st' : TxStatus} {m : Option Dest}
    (h : txstatusOne cfg s st = some (s', st', m)) :
    ∃ v r, statusFinds cfg (ackedFirst cfg s st) st = some (v, r) ∧
      (r = none ∧ s' = v ∨
        ∃ p i suppress, r = some (p, i, suppress) ∧ s' = statusOf cfg v p i suppress st.gen) := by
  unfold txstatusOne at h
  dsimp only at h
  split at h
  · cases h
  · next v hv =>
    cases h
    exact ⟨_, none, hv, Or.inl ⟨rfl, rfl⟩⟩
  · next v p i suppress hv =>
    cases h
    exact ⟨_, some (p, i, suppress), hv, Or.inr ⟨p, i, suppress, rfl, rfl⟩⟩

theorem Inv.onReport (h : Inv cfg s pl [] [] w) {st' : TxStatus} (hst : Awaited cfg s st)
    {m : Option Dest} (hs : txstatusOne cfg s st = some (s', st', m)) :
    ∃ pl', Inv cfg s' pl' [] [] w := by
  obtain ⟨pl₁, h₁⟩ := h.onAcked hst.acked
  obtain ⟨v, r, hv, hr⟩ := txstatusOne_some hs
  rcases hr with ⟨rfl, rfl⟩ | ⟨p, i, suppress, rfl, rfl⟩
  · rcases h₁.finds hv with ⟨_, hc, hsame⟩ | ⟨p, i, suppress, hr, _⟩
    · exact ⟨pl₁, h₁.same hc hsame⟩
    · cases hr
  · obtain ⟨⟨hair, htxq⟩, hy⟩ := hst.finds v p i suppress hv
    have hx : ∃ b, pl₁ p = .flying b true :=
      (h₁.atFw hair).resolve_right fun ht => nomatch (h₁.tracked p).taken.mp ht
    rcases h₁.finds hv with ⟨hr, _⟩ | ⟨p', i', suppress', hr, hf, _⟩
    · cases hr
    · cases hr
      exact h₁.status st.gen (Or.inl hx) (hf (Or.inl hx)) htxq hy (fun _ _ => Iff.rfl)
        List.not_mem_nil (List.Subset.refl _)

theorem Inv.onStatus {len : Nat} (h : Inv cfg s pl [] [] w)
    (hst : EachTurn cfg (Awaited cfg) len s st) {mac mac' : Option Dest}
    (hs : compressedTxstatusUpdate cfg len s st mac = some (s', mac')) :
    ∃ pl', Inv cfg s' pl' [] [] w := by
  induction len generalizing s pl st mac with
  | zero =>
    cases hs
    exact ⟨pl, h⟩
  | succ len ih =>
    unfold compressedTxstatusUpdate at hs
    split at hs
    · cases hs
    · next u st' m hu =>
      obtain ⟨pl', h'⟩ := h.onReport hst.1 hu
      exact ih h' (hst.2 _ _ _ hu) hs

/-! ## Packets taken back -/

theorem mem_txqTaken {fn : PktFn} :
    p ∈ txqTaken cfg s fn ↔ p ∈ s.bus ∧ s.inTxq p = true ∧ fn.takes cfg p = true := by
  unfold txqTaken
  simp only [List.mem_flatMap, List.mem_filter, Bool.and_eq_true, decide_eq_true_eq]
  constructor
  · rintro ⟨_, _, hb, ⟨hi, _⟩, hf⟩
    exact ⟨hb, hi, hf⟩
  · rintro ⟨hb, hi, hf⟩
    exact ⟨_, List.mem_finRange _, hb, ⟨hi, rfl⟩, hf⟩

theorem nodup_txqTaken (cfg : Cfg) (fn : PktFn) (h : s.bus.Nodup) :
    (txqTaken cfg s fn).Nodup := by
  unfold txqTaken
  refine List.nodup_flatMap.mpr ⟨fun _ _ => h.filter _, ?_⟩
  refine (List.nodup_finRange 8).imp fun hab => ?_
  intro p hp hq
  simp only [List.mem_filter, Bool.and_eq_true, decide_eq_true_eq] at hp hq
  exact hab (hp.2.1.2.symm.trans hq.2.1.2)

/-- The bus loses the packets that are taken from its queue. -/
theorem load_leaveTxq (cfg : Cfg) {b : List Id} (hb : b.Nodup) (hl : l.Nodup) (hs : l ⊆ b)
    (d : Dest) : load cfg b d = load cfg (b.filter fun p => p ∉ l) d + load cfg l d := by
  rw [load_perm cfg (Tally.perm_diff hl hb hs) d, load_append, Nat.add_comm]

/-- Packets at the firmware are taken off the bus or out of the AFQs. -/
theorem Rel.take (h : Rel cfg s pl) (hl : ∀ p ∈ l, ∃ b, pl p = .flying b true)
    (hs' : s' = { s with bus := s'.bus, afq := s'.afq }) (hbus : s'.bus.Nodup)
    (hafq : ∀ d ac, (s'.afq d ac).Nodup) (hin : ∀ q ∈ l, q ∉ s'.bus ∧ ∀ d ac, q ∉ s'.afq d ac)
    (hout : ∀ q, q ∉ l → (q ∈ s'.bus ↔ q ∈ s.bus) ∧ ∀ d ac, q ∈ s'.afq d ac ↔ q ∈ s.afq d ac) :
    Rel cfg s' (putAll pl l .taken) := by
  rw [hs']
  exact {
    psq := h.psq
    bus := hbus
    air := h.air
    freed := h.freed
    afq := hafq
    owner := fun ha i q hi => by
      obtain ⟨hs, hr⟩ := h.owner ha i q hi
      refine ⟨hs, ?_⟩
      unfold putAll
      split
      · rfl
      · exact hr
    free := h.free
    places := fun q => by
      have hq := h.places q
      unfold putAll
      split
      · next hm =>
        obtain ⟨b, hx⟩ := hl q hm
        rw [hx] at hq
        exact {
          passed := hq.passed.trans (iff_of_true nofun nofun)
          freed := hq.freed
          psq := fun d k => (hq.psq d k).trans
            (iff_of_false (fun hf => nomatch hf.2.2) fun hf => nomatch hf.2.2)
          bus := iff_of_false (hin q hm).1 nofun
          air := hq.air
          afq := fun d ac => iff_of_false ((hin q hm).2 d ac) fun hf => nomatch hf.2.2.2
          onBus := fun _ hb => nomatch hb
          undone := nofun
          slot := fun ha _ => hq.slot ha rfl
          item := fun ha _ => ⟨(hq.item ha rfl).1, (hq.item ha rfl).2.1⟩ }
      · next hm =>
        exact hq.congr ⟨Iff.rfl, Iff.rfl, fun _ _ => Iff.rfl, (hout q hm).1, Iff.rfl,
          (hout q hm).2, rfl, fun _ hi => ⟨hi, rfl, rfl⟩⟩ }

theorem Rel.leaveTxq (h : Rel cfg s pl) (hl : ∀ p ∈ l, pl p = .flying true true) :
    Rel cfg (s.leaveTxq l) (putAll pl l .taken) := by
  refine h.take (fun p hp => ⟨true, hl p hp⟩) rfl (h.bus.filter _) h.afq (fun q hq => ⟨?_, ?_⟩)
    fun q hq => ⟨?_, fun _ _ => Iff.rfl⟩
  · show q ∉ s.bus.filter _
    simp [hq]
  · intro d ac ha
    exact nomatch (hl q hq).symm.trans (((h.places q).afq d ac).mp ha).2.2.2
  · show q ∈ s.bus.filter _ ↔ _
    simp [hq]

theorem Inv.onLeaveTxq (h : Inv cfg s pl [] [] w) (fn : PktFn) :
    ∃ pl', Inv cfg (s.leaveTxq (txqTaken cfg s fn)) pl' (txqTaken cfg s fn)
      (txqTaken cfg s fn) w := by
  have hmem : ∀ p ∈ txqTaken cfg s fn, p ∈ s.bus ∧ s.inTxq p = true ∧ pl p = .flying true true := by
    intro p hp
    obtain ⟨hb, hi, _⟩ := mem_txqTaken.mp hp
    exact ⟨hb, hi, (h.tracked p).txq hb hi⟩
  have hnd := nodup_txqTaken cfg fn h.bus
  have hsub : txqTaken cfg s fn ⊆ s.bus := fun p hp => (hmem p hp).1
  generalize txqTaken cfg s fn = l at *
  refine ⟨putAll pl l .taken, h.next id (h.leaveTxq fun p hp => (hmem p hp).2.2) (fun d => ?_)
    (fun _ hd _ => hd) (fun _ _ hi => hi) (List.Subset.refl _) fun q => ?_⟩
  · have hd := h.count d
    rw [load_leaveTxq cfg h.bus hnd hsub d] at hd
    exact hd
  · by_cases hq : q ∈ l
    · have hx : putAll pl l .taken q = .taken := if_pos hq
      have hb : q ∉ (s.leaveTxq l).bus := fun hb => by simpa [hq] using (List.mem_filter.mp hb).2
      refine Or.inr ⟨by rw [hx]; rfl, fun _ => by rw [hx]; nofun, iff_of_true hx hq,
        by rw [hx]; nofun, fun hc => absurd hc hb, fun ha i hi => ?_⟩
      exact absurd ⟨(hmem q hq).1, (hmem q hq).2.1⟩ ((h.tracked q).flush ha i hi).2
    · exact Or.inl ⟨if_neg hq, fun hi => hi, iff_of_false hq List.not_mem_nil⟩

theorem statusFinds_hanger (st : TxStatus) {i : Slot} (hm : cfg.afq = false)
    (hi : (s.hanger i).pkt = some p) (hs : (s.hanger i).state ≠ .free)
    (hf : (s.hanger i).state ≠ .flushed) (hst : st.hslot = i) :
    statusFinds cfg s st = some (s, some (p, i, st.flag.suppress)) := by
  have hlt : st.hslot < 3072 := hst ▸ i.isLt
  have hpop : (hangerPoppkt s.hanger i false).2 = some p := by
    unfold hangerPoppkt
    rw [if_pos hs]
    exact hi
  have hslot : (⟨st.hslot, hlt⟩ : Slot) = i := Fin.ext hst
  unfold statusFinds
  rw [if_neg (by simp [hm]), if_neg (Nat.ne_of_lt hlt), dif_pos hlt, hslot]
  dsimp only
  rw [hpop]
  simp [hf]

theorem statusFinds_afq (st : TxStatus) {ac : Ac} (hm : cfg.afq = true)
    (hp : p ∈ s.afq (entryOf st.hslot) ac) (hac : acOf st.fifo = some ac)
    (hctr : (s.tag p).ctr = st.ctr) :
    ∃ u q, statusFinds cfg s st = some (u, some (q, (u.tag q).hslot, st.flag.suppress)) := by
  have hsome : ((s.afq (entryOf st.hslot) ac).find? fun p => (s.tag p).ctr = st.ctr).isSome := by
    rw [List.find?_isSome]
    exact ⟨p, hp, by simpa using hctr⟩
  obtain ⟨q, hq⟩ := Option.isSome_iff_exists.mp hsome
  unfold statusFinds dequeAfq
  rw [if_pos hm, hac]
  dsimp only
  rw [hq]
  exact ⟨_, q, rfl⟩

theorem acOf_val (ac : Ac) : acOf ac.val = some ac := dif_pos ac.isLt

/-- In AFQ mode no packet in a queue is on the bus. -/
theorem Rel.yields (h : Rel cfg s pl) (hafq : cfg.afq = true) (hp : p ∉ s.bus) (k : Prec) :
    Yields cfg s k p := by
  intro q hq hb
  have hfly := (h.places q).onBus hafq ((h.places q).bus.mp hb)
  unfold displaced at hq
  split at hq
  · cases hq
  · next e _ =>
    have hm := (dropped_perm cfg (s.psq (cfg.pkt p).entry e)).mem_iff.mpr (List.mem_append_left _ hq)
    exact h.notMem_psq (by rw [hfly]; rfl) _ e hm
  · rw [List.mem_singleton.mp hq] at hb
    exact hp hb

/-- The packet is taken off the count of the bus. -/
theorem Inv.offBus (h : Inv cfg s pl (p :: l) (p :: l) w) :
    Inv cfg (s.setEntry (cfg.pkt p).entry (s.entry (cfg.pkt p).entry).offBus) pl l (p :: l) w := by
  have hcount : ∀ d,
      ((s.setEntry (cfg.pkt p).entry (s.entry (cfg.pkt p).entry).offBus).entry d).Counts w
        (load cfg s.bus d + load cfg l d) (load cfg s.air d) := by
    intro d
    have hd := h.count d
    rw [load_cons, ← Nat.add_assoc] at hd
    by_cases hdd : d = (cfg.pkt p).entry
    · subst hdd
      rw [if_pos rfl] at hd
      rw [setEntry_self]
      exact hd.offBus
    · rw [if_neg (Ne.symm hdd)] at hd
      rw [setEntry_of_ne s _ hdd]
      exact hd
  refine h.next id (h.congr (samePlaces_setEntry s _ _)) hcount (fun d hd hn => ?_)
    (fun _ _ hi => hi) (List.subset_cons_self p l) fun _ => Or.inl ⟨rfl, fun hi => hi, Iff.rfl⟩
  by_cases hdd : d = (cfg.pkt p).entry
  · subst hdd
    have hon := (hcount (cfg.pkt p).entry).onbus
    rw [setEntry_self] at hon ⊢
    refine Entry.offBus_suppressed hd ?_
    change 0 < load cfg s.bus _ at hn
    omega
  · rw [setEntry_of_ne s _ hdd]
    exact hd

theorem mem_cons_of_ne {q : Id} (h : q ≠ p) : q ∈ l ↔ q ∈ p :: l := by
  rw [List.mem_cons]
  exact (or_iff_right h).symm

/-- In AFQ mode the packet is queued for its status. -/
theorem Inv.requeue (h : Inv cfg s pl l (p :: l) w) (hl : p ∉ l) (hafq : cfg.afq = true) :
    Inv cfg (enqueAfq cfg s p) (Function.update pl p (.flying false true)) l l w := by
  have hx : pl p = .taken := (h.tracked p).taken.mpr List.mem_cons_self
  have hbus : p ∉ s.bus := by
    rw [(h.places p).bus, hx]
    nofun
  have hair : p ∈ s.air := by
    rw [(h.places p).air, hx]
    rfl
  have hrel := h.toAfq (l := s.air) hafq (by rw [hx]; rfl)
    (by rw [hx]; exact ⟨rfl, rfl, nofun, nofun⟩) (Or.inl ⟨rfl, hair⟩) rfl
  rw [List.erase_of_not_mem hbus] at hrel
  refine h.move (p := p) hrel h.count (fun _ hd _ => hd) (fun _ _ hi => hi) (List.Subset.refl _)
    (spares_update pl p _) (fun _ _ hi => hi) (fun _ hq => mem_cons_of_ne hq)
    (Place.Resting.tracked ?_ hrel hl)
  rw [Function.update_self]
  exact ⟨rfl, rfl, nofun, nofun⟩

theorem Inv.onSuppressPkt (h : Inv cfg s pl (p :: l) (p :: l) w) (hl : p ∉ l)
    (hy : Yields cfg s (sup (cfg.pkt p).fifo) p) (hs : suppressPkt cfg s p = some s') :
    ∃ pl', Inv cfg s' pl' l l w := by
  have hx : pl p = .taken := (h.tracked p).taken.mpr List.mem_cons_self
  have h₁ := h.offBus
  unfold suppressPkt at hs
  dsimp only at hs
  obtain ⟨u, hu⟩ : ∃ u, u = s.setEntry (cfg.pkt p).entry (s.entry (cfg.pkt p).entry).offBus :=
    ⟨_, rfl⟩
  have hbus : p ∉ u.bus := by
    rw [hu, (h₁.places p).bus, hx]
    nofun
  have hyu : Yields cfg u (sup (cfg.pkt p).fifo) p := hu ▸ hy
  rw [← hu] at hs h₁
  obtain ⟨⟨s₁, mac⟩, hone, rfl⟩ := Option.map_eq_some_iff.mp hs
  have hacks : ∀ (v : State) (i ac : Nat) (ctr : BitVec 8) (g : Bool),
      ackedFirst cfg v ⟨.wlSuppress, i, ac, ctr, g, false⟩ = v :=
    fun _ _ _ _ _ => if_neg fun h => nomatch h.1
  unfold compressedTxstatusUpdate txstatusOne at hone
  rw [hacks] at hone
  dsimp only at hone
  cases hm : cfg.afq with
  | true =>
    rw [if_pos hm] at hone
    have h₂ := h₁.requeue hl hm
    have hslot := (h₁.places p).slot hm (by rw [hx]; rfl)
    have hmem : p ∈ (enqueAfq cfg u p).afq (entryOf (u.tag p).hslot) (cfg.pkt p).fifo := by
      rw [(h₂.places p).afq, Function.update_self]
      exact ⟨hm, by rw [hslot, entryOf_slotOf], rfl, rfl⟩
    obtain ⟨v, q, hv⟩ := statusFinds_afq ⟨.wlSuppress, (u.tag p).hslot, (cfg.pkt p).fifo,
      (u.tag p).ctr, (u.entry (cfg.pkt p).entry).generation, false⟩ hm hmem (acOf_val _) rfl
    rw [hv] at hone
    cases hone
    rcases h₂.finds hv with ⟨hr, _⟩ | ⟨q', i', b, hr, hf, hfly, _⟩
    · cases hr
    · cases hr
      have hqx := hfly hm
      have hqb : q ∉ u.bus := by
        intro hb
        have := (h₂.places q).bus.mp hb
        rw [hqx] at this
        cases this
      refine h₂.status _ (Or.inl ⟨false, hqx⟩) (hf (Or.inl ⟨false, hqx⟩)) (fun hc => hqb hc.1)
        (fun _ => h₂.yields hm hqb _) (fun _ _ => Iff.rfl) (fun hql => ?_) (List.Subset.refl _)
      exact nomatch hqx.symm.trans ((h₂.tracked q).taken.mpr hql)
  | false =>
    rw [if_neg (by simp [hm])] at hone
    have hi := ((h₁.places p).item hm (by rw [hx]; rfl)).1
    have hv := statusFinds_hanger ⟨.wlSuppress, (u.tag p).hslot, (cfg.pkt p).fifo,
      (u.tag p).ctr, (u.entry (cfg.pkt p).entry).generation, false⟩ hm hi (h₁.state_ne_free hi)
      (fun hs => ((h₁.tracked p).flush hm _ ⟨hs, hi⟩).1 List.mem_cons_self) rfl
    rw [hv] at hone
    cases hone
    refine h₁.status _ (Or.inr ⟨hx, rfl⟩) (h₁.found_hanger hm hi (Or.inr hx)) (fun hc => hbus hc.1)
      (fun _ => hyu) (fun _ hq => mem_cons_of_ne hq) hl (List.Subset.refl _)

theorem Inv.suppressAll (h : Inv cfg s pl l l w) (hl : l.Nodup) (hy : YieldsAll cfg l s)
    (hs : l.foldlM (suppressPkt cfg) s = some s') : ∃ pl', Inv cfg s' pl' [] [] w := by
  induction l generalizing s pl with
  | nil =>
    cases hs
    exact ⟨pl, h⟩
  | cons p l ih =>
    obtain ⟨hp, hl⟩ := List.nodup_cons.mp hl
    rw [List.foldlM_cons] at hs
    obtain ⟨u, hu, hs⟩ := Option.bind_eq_some_iff.mp hs
    obtain ⟨pl', h'⟩ := h.onSuppressPkt hp hy.1 hu
    exact ih h' hl (hy.2 u hu) hs

theorem Inv.onStep (h : Inv cfg s pl [] [] w) {a : Act} (ha : a.Tracks cfg s)
    (hs : step cfg s a = some s') :
    ∃ pl', Inv cfg s' pl' [] [] w := by
  cases a with
  | commitPackets p =>
    unfold step at hs
    dsimp only at hs
    split at hs
    · cases hs
    · next hp =>
      cases hs
      exact h.onCommit hp ha
  | transferPacket d ac fcommit pulled => exact h.onTransfer hs
  | send p =>
    unfold step at hs
    dsimp only at hs
    split at hs
    · cases hs
      exact ⟨pl, h.onSend p⟩
    · cases hs
  | txcomplete p success =>
    unfold step at hs
    dsimp only at hs
    split at hs
    · next hp =>
      cases hs
      exact h.onComplete hp.1 ha
    · cases hs
  | txstatus len st =>
    obtain ⟨⟨u, mac⟩, hu, rfl⟩ := Option.map_eq_some_iff.mp hs
    exact h.onStatus ha hu
  | suppressTxq d =>
    obtain ⟨pl', h'⟩ := h.onLeaveTxq (.entrypkt d)
    exact h'.suppressAll (nodup_txqTaken cfg _ h.bus) ha hs
  | cleanupTxq fn =>
    have hl : txqTaken cfg s fn = [] := ha
    obtain ⟨pl', h'⟩ := h.onLeaveTxq fn
    cases hs
    unfold cleanupTxq
    dsimp only
    rw [hl] at h' ⊢
    exact ⟨pl', h'⟩

theorem Reach.inv {occupied : Dest → Bool} {ok : State → Act → Prop} (h : Reach cfg occupied ok s)
    (hok : ∀ s a, ok s a → a.Keeps cfg s) :
    ∃ pl, Inv cfg s pl [] [] false := by
  induction h with
  | init => exact ⟨_, inv_init cfg occupied⟩
  | step a _ ha hs ih =>
    obtain ⟨pl, hi⟩ := ih
    exact hi.onStep (hok _ a ha).tracks hs

/-! ## Runs that are checked -/

instance (cfg : Cfg) (s : State) (k : Prec) (p : Id) : Decidable (Yields cfg s k p) :=
  inferInstanceAs (Decidable (∀ q ∈ displaced cfg s (cfg.pkt p).entry k p, q ∉ s.bus))

instance (s : State) (p : Id) : Decidable (s.awaits p) :=
  inferInstanceAs (Decidable (p ∈ s.air ∧ ¬ (p ∈ s.bus ∧ s.inTxq p = true)))

/-- A status is about a packet that awaits it. -/
def TxStatus.checked (cfg : Cfg) (s : State) (st : TxStatus) : Bool :=
  decide (st.flag ≠ .suppressAcked) &&
    match statusFinds cfg s st with
    | some (_, some (p, _, suppress)) =>
      decide (s.awaits p ∧ (suppress = true → Yields cfg s (sup (cfg.pkt p).fifo) p))
    | _ => false

/-- A step of a run in which the bus succeeds, and packets are reported one by one. -/
def Act.checked (cfg : Cfg) (s : State) : Act → Bool
  | .commitPackets p => decide (Yields cfg s (dly (cfg.pkt p).fifo) p)
  | .transferPacket .. | .send _ => true
  | .txcomplete _ success => success
  | .txstatus len st => decide (len = 1) && st.checked cfg s
  | .suppressTxq _ | .cleanupTxq _ => false

def stepIf (cfg : Cfg) (check : State → Act → Bool) (s : State) (a : Act) : Option State :=
  if check s a then step cfg s a else none

section
variable {cfg : Cfg} {s : State}

theorem TxStatus.checked_found (h : st.checked cfg s = true) :
    st.flag ≠ .suppressAcked ∧ ∃ t p i suppress,
      statusFinds cfg s st = some (t, some (p, i, suppress)) ∧ s.awaits p ∧
        (suppress = true → Yields cfg s (sup (cfg.pkt p).fifo) p) := by
  unfold checked at h
  rw [Bool.and_eq_true, decide_eq_true_eq] at h
  refine ⟨h.1, ?_⟩
  have hfound := h.2
  split at hfound
  · next t p i suppress hf => exact ⟨t, p, i, suppress, hf, of_decide_eq_true hfound⟩
  · cases hfound

theorem Act.checked_keeps {a : Act} (h : a.checked cfg s = true) : a.Keeps cfg s := by
  cases a with
  | commitPackets p =>
    have hy : Yields cfg s (dly (cfg.pkt p).fifo) p := of_decide_eq_true h
    exact hy
  | transferPacket | send => trivial
  | txcomplete p success => exact fun hfail => nomatch hfail.symm.trans h
  | txstatus len st =>
    unfold Act.checked at h
    rw [Bool.and_eq_true, decide_eq_true_eq] at h
    obtain ⟨rfl, hst⟩ := h
    obtain ⟨hflag, t, p, i, suppress, hf, hp⟩ := TxStatus.checked_found hst
    have hfirst : ackedFirst cfg s st = s := if_neg fun h => hflag h.1
    refine ⟨⟨fun h => absurd h.1 hflag, fun t' r hr => ?_⟩, fun _ _ _ _ => trivial⟩
    rw [hfirst] at hr ⊢
    rw [hf] at hr
    cases hr
    exact hp
  | suppressTxq | cleanupTxq => cases h

end

theorem reach_run {occupied : Dest → Bool} {ok : State → Act → Prop} {check : State → Act → Bool}
    (hcheck : ∀ t a, check t a = true → ok t a) {acts : List Act} (h : Reach cfg occupied ok s)
    (hs : acts.foldlM (stepIf cfg check) s = some s') :
    Reach cfg occupied ok s' := by
  induction acts generalizing s with
  | nil =>
    cases hs
    exact h
  | cons a acts ih =>
    rw [List.foldlM_cons] at hs
    obtain ⟨u, hu, hs⟩ := Option.bind_eq_some_iff.mp hs
    unfold stepIf at hu
    split at hu
    · next hc => exact ih (.step a h (hcheck s a hc) hu) hs
    · cases hu

/-- One entry, hanger mode. -/
def plain : Cfg where
  afq := false
  reorderSupp := false
  psqLen := 8
  pkt := fun _ => ⟨firstIf, firstAc, firstDest, firstTxprec, .none⟩

/-- The counters of every entry, in every run in which no packet is taken from `bus->txq` by
`_dhd_wlfc_cleanup_txq`. -/
theorem gate_never_jams (cfg : Cfg) (occupied : Dest → Bool) {s : State}
    (h : Reach cfg occupied (fun s a => a.Keeps cfg s) s) (d : Dest) :
    (s.entry d).onbusPktsCount = load cfg s.bus d ∧
      (s.entry d).transitCount = load cfg s.air d ∧
      ((s.entry d).suppressed = true →
        0 < (s.entry d).onbusPktsCount ∨ 0 < (s.entry d).supprTransitCount) ∧
      (s.entry d).supprTransitCount ≤ (s.entry d).transitCount := by
  obtain ⟨pl, hi⟩ := h.inv fun _ _ ha => ha
  have hd := hi.count d
  exact ⟨hd.all rfl, hd.transit, hd.gate, hd.transit ▸ hd.suppr⟩

/-- Packets 1 and 2 are sent, the first is suppressed, and the gate stays closed for the second. -/
def suppressOne : List Act :=
  [.commitPackets 1, .commitPackets 2, .transferPacket firstDest firstAc true true,
    .transferPacket firstDest firstAc true true, .send 1, .send 2, .txcomplete 1 true,
    .txcomplete 2 true,
    .txstatus 1 ⟨.wlSuppress, 1, 0, 0, true, false⟩]

theorem gate_never_jams_suppressed : ∃ s : State,
    ((s.entry 0).onbusPktsCount = load plain s.bus 0 ∧
      (s.entry 0).transitCount = load plain s.air 0 ∧
      ((s.entry 0).suppressed = true →
        0 < (s.entry 0).onbusPktsCount ∨ 0 < (s.entry 0).supprTransitCount) ∧
      (s.entry 0).supprTransitCount ≤ (s.entry 0).transitCount) ∧
    (s.entry 0).suppressed = true ∧ (s.entry 0).supprTransitCount = 1 ∧
      s.psq 0 (sup 0) = [1] ∧ s.air = [2] := by
  have hrun : (suppressOne.foldlM (stepIf plain (Act.checked plain)) (.init fun _ => true)).map
      (fun s => decide ((s.entry 0).suppressed = true ∧ (s.entry 0).supprTransitCount = 1 ∧
        s.psq 0 (sup 0) = [1] ∧ s.air = [2])) = some true := by
    decide +kernel
  obtain ⟨s, hs, he⟩ := Option.map_eq_some_iff.mp hrun
  have hreach : Reach plain (fun _ => true) (fun s a => a.Keeps plain s) s :=
    reach_run (fun _ _ => Act.checked_keeps) .init hs
  exact ⟨s, gate_never_jams plain _ hreach 0, of_decide_eq_true he⟩

/-- Packet 1 is taken from `bus->txq` by the clean-up, packet 2 is suppressed afterwards. -/
def jam : List Act :=
  [.commitPackets 1, .transferPacket firstDest firstAc true true, .cleanupTxq .all,
    .commitPackets 2, .transferPacket firstDest firstAc true true, .send 2, .txcomplete 2 true,
    .txstatus 1 ⟨.wlSuppress, 2, 0, 1, true, false⟩]

/-- Nothing is on the bus or at the firmware, and the entry is never sent anything again. -/
theorem gate_never_jams_fails :
    ∃ s, Reach plain (fun _ => true) (fun _ _ => True) s ∧
      load plain s.bus 0 = 0 ∧ load plain s.air 0 = 0 ∧
      (s.entry 0).onbusPktsCount = 1 ∧ (s.entry 0).supprTransitCount = 0 ∧
      (s.entry 0).suppressed = true ∧ s.psq 0 (sup 0) = [2] ∧
      ∀ ac fcommit pulled, transferPacket plain s 0 ac fcommit pulled = none := by
  have hrun : (jam.foldlM (stepIf plain fun _ _ => true) (.init fun _ => true)).map (fun s =>
      decide (s.bus = [] ∧ s.air = [] ∧ (s.entry 0).onbusPktsCount = 1 ∧
        (s.entry 0).supprTransitCount = 0 ∧ (s.entry 0).suppressed = true ∧
        s.psq 0 (sup 0) = [2])) = some true := by rfl
  obtain ⟨s, hs, he⟩ := Option.map_eq_some_iff.mp hrun
  obtain ⟨hb, ha, ho, ht, hg, hq⟩ := of_decide_eq_true he
  refine ⟨s, reach_run (fun _ _ _ => trivial) .init hs, by rw [hb]; rfl, by rw [ha]; rfl, ho, ht,
    hg, hq, ?_⟩
  intro ac fcommit pulled
  unfold transferPacket Entry.gate
  rw [hg]
  simp

end Bcmdhd.Wlfc
