import Bcmdhd.Wlfc.Places

/-!
# How packets move

What each function of the model does to the packet it is about: a packet taken from its queue is
at the firmware or back in the queue, a completed one stays in the air or is freed, and a reported
one is freed, waits for the bus, or is among the suppressed ones of its entry.
-/

namespace Bcmdhd.Wlfc

open Loans (bump)

/-! ## What stays -/

/-- The item is that of packet `p`, which has been flushed. -/
def Item.Flushed (it : Item) (p : Id) : Prop := it.state = .flushed ∧ it.pkt = some p

/-- Neither the bus nor the firmware is concerned, and nothing is flushed. -/
structure Calm (s s' : State) : Prop where
  bus : s'.bus = s.bus
  inTxq : s'.inTxq = s.inTxq
  air : s'.air = s.air
  entry : ∀ d, ∃ q, s'.entry d = { s.entry d with seq := q }
  flushed : ∀ i p, (s'.hanger i).Flushed p → (s.hanger i).Flushed p

theorem Calm.refl (s : State) : Calm s s := ⟨rfl, rfl, rfl, fun _ => ⟨_, rfl⟩, fun _ _ h => h⟩

variable {s t s' : State} {i : Slot} {p : Id} {cfg : Cfg} {d : Dest} {needsHdr : Bool}
  {pl : Id → Place} {b : PktState}

theorem Calm.trans {u : State} (h : Calm s t) (h' : Calm t u) : Calm s u where
  bus := h'.bus.trans h.bus
  inTxq := h'.inTxq.trans h.inTxq
  air := h'.air.trans h.air
  entry d := by
    obtain ⟨q, hq⟩ := h.entry d
    obtain ⟨r, hr⟩ := h'.entry d
    exact ⟨r, by rw [hr, hq]⟩
  flushed i p hi := h.flushed i p (h'.flushed i p hi)

/-- The hanger after something has been done to one item. -/
theorem flushed_update {h : Slot → Item} {j : Slot} {it : Item} (hit : it.state ≠ .flushed)
    (hj : (Function.update h i it j).Flushed p) : (h j).Flushed p := by
  by_cases hji : j = i
  · subst hji
    rw [Function.update_self] at hj
    exact absurd hj.1 hit
  · rw [Function.update_of_ne hji] at hj
    exact hj

theorem flushed_poppkt {h : Slot → Item} {j : Slot} (hj : ((hangerPoppkt h i true).1 j).Flushed p) :
    (h j).Flushed p := by
  unfold hangerPoppkt at hj
  split at hj
  · exact flushed_update (by simp) hj
  · exact hj

theorem calm_setPsq (s : State) (d : Dest) (k : Prec) (l : List Id) : Calm s (s.setPsq d k l) :=
  ⟨rfl, rfl, rfl, fun _ => ⟨_, rfl⟩, fun _ _ h => h⟩

theorem calm_countPsq (cfg : Cfg) (s : State) (p : Id) (ac : Ac) (z : Int) :
    Calm s (s.countPsq cfg p ac z) := ⟨rfl, rfl, rfl, fun _ => ⟨_, rfl⟩, fun _ _ h => h⟩

theorem calm_countDrv (cfg : Cfg) (s : State) (p : Id) (ac : Ac) (z : Int) :
    Calm s (s.countDrv cfg p ac z) := ⟨rfl, rfl, rfl, fun _ => ⟨_, rfl⟩, fun _ _ h => h⟩

theorem calm_hanger (s : State) {h : Slot → Item}
    (hf : ∀ i p, (h i).Flushed p → (s.hanger i).Flushed p) :
    Calm s { s with hanger := h } := ⟨rfl, rfl, rfl, fun _ => ⟨_, rfl⟩, hf⟩

theorem calm_seq (s : State) (d : Dest) (q : Ac → BitVec 8) :
    Calm s (s.setEntry d { s.entry d with seq := q }) := by
  refine ⟨rfl, rfl, rfl, fun d' => ?_, fun _ _ h => h⟩
  by_cases hd : d' = d
  · subst hd
    exact ⟨q, setEntry_self s _ _⟩
  · exact ⟨_, setEntry_of_ne s _ hd⟩

theorem calm_drop (cfg : Cfg) (k : Prec) (b : Bool) (s : State) (p : Id) :
    Calm s (precDrop cfg k b s p) := by
  refine ⟨rfl, rfl, rfl, fun _ => ⟨_, rfl⟩, fun i q hi => ?_⟩
  change ((if ¬ cfg.afq = true ∧ k.sup = true then (hangerPoppkt s.hanger _ true).1
    else s.hanger) i).Flushed q at hi
  split at hi
  · exact flushed_poppkt hi
  · exact hi

theorem calm_dropPkts (cfg : Cfg) (s : State) (d : Dest) (k : Prec) :
    Calm s (precDropPkts cfg s d k) := by
  have hfold : ∀ (l : List Id) t, Calm s t → Calm s (l.foldl (precDrop cfg k true) t) := by
    intro l
    induction l with
    | nil => exact fun t ht => ht
    | cons p l ih => exact fun t ht => ih _ (ht.trans (calm_drop cfg k true t p))
  exact hfold _ _ (calm_setPsq s d k _)

theorem calm_enqWithDrop (cfg : Cfg) (s : State) (d : Dest) (k : Prec) (p : Id) (qHead : Bool) :
    Calm s (precEnqWithDrop cfg s d k p qHead).1 := by
  unfold precEnqWithDrop
  split
  · exact .refl s
  · exact (calm_setPsq s d k _).trans (calm_countPsq cfg _ p k.ac 1)
  · exact ((calm_dropPkts cfg s d _).trans (calm_setPsq _ d k _)).trans
      (calm_countPsq cfg _ p k.ac 1)

theorem calm_dequeue {ac : Ac} (h : dequeDelayedq cfg s d ac = some (t, p, needsHdr)) :
    Calm s t := by
  unfold dequeDelayedq at h
  split at h
  · cases h
    exact (calm_setPsq s d _ _).trans (calm_countPsq cfg _ p ac (-1))
  · split at h
    · cases h
      exact (calm_setPsq s d _ _).trans (calm_countPsq cfg _ p ac (-1))
    · cases h

theorem calm_pretx (cfg : Cfg) (s : State) (d : Dest) (p : Id) (needsHdr : Bool) :
    Calm s (pretxPktprocess cfg s d p needsHdr).1 := by
  have htag : ∀ (t : Id → Tag) (i : Slot), Calm s { s with tag := t, slotPos := i } :=
    fun _ _ => ⟨rfl, rfl, rfl, fun _ => ⟨_, rfl⟩, fun _ _ h => h⟩
  unfold pretxPktprocess
  split
  · unfold pretxNew
    dsimp only
    split
    · have hs := calm_seq s d (Function.update (s.entry d).seq (cfg.pkt p).fifo
        ((s.entry d).seq (cfg.pkt p).fifo + 1))
      exact ⟨hs.bus, hs.inTxq, hs.air, hs.entry, hs.flushed⟩
    · split
      · exact .refl s
      · next i hi =>
        refine Calm.trans (htag (Function.update s.tag p
          ⟨i, (s.entry d).generation, (s.entry d).seq (cfg.pkt p).fifo⟩) i) ?_
        unfold hangerPushpkt
        dsimp only
        split
        · refine Calm.trans (calm_hanger _ fun j _ hj => ?_) (calm_seq _ d _)
          exact flushed_update (h := s.hanger) (by simp) hj
        · exact .refl _
  · unfold pretxAgain
    dsimp only
    split
    · exact htag _ s.slotPos
    · exact ⟨rfl, rfl, rfl, fun _ => ⟨_, rfl⟩, fun j _ hj => flushed_update (by simp) hj⟩

theorem calm_rollback (cfg : Cfg) (s : State) (p : Id) (needsHdr pulled : Bool) :
    Calm s (rollbackPacketToq cfg s p needsHdr pulled) := by
  have hback : ∀ (t : State) (k : Prec) (r : State × Bool), Calm s r.1 →
      Calm s (if r.2 then r.1 else precDrop cfg k false r.1 p) := by
    intro t k r hr
    split
    · exact hr
    · exact hr.trans (calm_drop cfg k false _ p)
  unfold rollbackPacketToq
  dsimp only
  split
  · refine hback s _ _ ?_
    split
    · exact (calm_seq s _ _).trans (calm_enqWithDrop cfg _ _ _ p true)
    · exact calm_seq s _ _
  · exact hback s _ _ (calm_enqWithDrop cfg s _ _ p true)

/-! ## Commit -/

theorem Rel.accept (h : Rel cfg s pl) (hp : p ∉ s.passed) :
    Rel cfg { s with passed := s.passed ++ [p] } (Function.update pl p (.hand false)) := by
  have hat := h.places p
  have hx : pl p = .fresh := by
    by_contra hc
    exact hp (hat.passed.mpr hc)
  rw [hx] at hat
  refine h.move ?_ ?_ fun q hq => ?_
  · exact {
      psq := h.psq
      bus := h.bus
      air := h.air
      freed := h.freed
      afq := h.afq
      owner := fun hm i q hi => by
        obtain ⟨hs, hr⟩ := h.owner hm i q hi
        exact ⟨hs, owner_update hr fun hh => by rw [hx] at hh; cases hh⟩
      free := h.free }
  · exact {
      passed := iff_of_true (List.mem_append_right _ List.mem_cons_self) nofun
      freed := hat.freed
      psq := fun d k => (hat.psq d k).trans
        (iff_of_false (fun hf => nomatch hf.2.2) fun hf => nomatch hf.2.2)
      bus := hat.bus
      air := hat.air
      afq := fun d ac => (hat.afq d ac).trans
        (iff_of_false (fun hf => nomatch hf.2.2.2) fun hf => nomatch hf.2.2.2)
      onBus := fun _ hb => nomatch hb
      undone := nofun
      slot := fun _ hs => nomatch hs
      item := fun _ hs => nomatch hs }
  · exact ⟨mem_concat_of_ne hq, Iff.rfl, fun _ _ => Iff.rfl, Iff.rfl, Iff.rfl, fun _ _ => Iff.rfl,
      rfl, fun _ hi => ⟨hi, rfl, rfl⟩⟩

/-- A packet from above is in its queue, or dropped. -/
theorem Rel.passed (h : Rel cfg s pl) (hp : p ∉ s.passed)
    (hbus : ∀ q ∈ evicted cfg s (cfg.pkt p).entry (dly (cfg.pkt p).fifo), q ∉ s.bus) :
    Calm s (commitPackets cfg s p) ∧
      ∃ pl', Rel cfg (commitPackets cfg s p) pl' ∧ Spares pl pl' p ∧
        (pl' p = .freed false ∨ pl' p = .delayed) := by
  obtain ⟨t, ht⟩ : ∃ t, t = { s with passed := s.passed ++ [p] } := ⟨_, rfl⟩
  have hrel : Rel cfg t (Function.update pl p (.hand false)) := ht ▸ h.accept hp
  have hcalm : Calm s t := by
    rw [ht]
    exact ⟨rfl, rfl, rfl, fun _ => ⟨_, rfl⟩, fun _ _ h => h⟩
  have hcalm' := hcalm.trans
    (calm_enqWithDrop cfg t (cfg.pkt p).entry (dly (cfg.pkt p).fifo) p false)
  have hb : ∀ q ∈ evicted cfg t (cfg.pkt p).entry (dly (cfg.pkt p).fifo), q ∉ t.bus := by
    rw [ht]
    exact hbus
  have hhand : (Function.update pl p (Place.hand false) p).handed = some false := by
    rw [Function.update_self]
    rfl
  unfold commitPackets
  dsimp only
  rw [← ht]
  rcases hrel.enqWithDrop (k := dly (cfg.pkt p).fifo) false hhand rfl rfl hb with
    he | ⟨he, pl', hrel', hsp, hp'⟩
  · rw [he, if_neg nofun]
    refine ⟨hcalm.trans (calm_drop cfg _ false t p), _,
      hrel.drop (k := dly (cfg.pkt p).fifo) false hhand (by rw [Function.update_self]; rfl), ?_,
      Or.inl (Function.update_self _ _ _)⟩
    exact (spares_update pl p _).trans (spares_update _ p _)
  · rw [if_pos he]
    refine ⟨hcalm'.trans (calm_countDrv cfg _ p _ 1), pl',
      hrel'.congr (samePlaces_countDrv cfg _ p _ 1), (spares_update pl p _).trans hsp,
      Or.inr ?_⟩
    rw [hp', Function.update_self]
    rfl

/-- The first packet of a queue. -/
theorem Rel.head (h : Rel cfg s pl) {k : Prec} {l : List Id} (hl : s.psq d k = p :: l)
    (hbus : p ∉ s.bus) :
    Rel cfg ((s.setPsq d k l).countPsq cfg p k.ac (-1)) (Function.update pl p (.hand k.sup)) ∧
      (cfg.pkt p).entry = d ∧ pl p = (Place.hand k.sup).enque := by
  have hp := h.places p
  obtain ⟨hd, _, hk⟩ := (hp.psq d k).mp (hl ▸ List.mem_cons_self)
  have ho : (pl p).onBus = false := by
    by_contra hc
    exact hbus (hp.bus.mpr (by simpa using hc))
  have hun := h.unqueue (t := [p]) (l := l) (List.Perm.of_eq hl) fun q hq => by
    rw [List.mem_singleton.mp hq]
    exact ho
  rw [putAll_singleton] at hun
  exact ⟨hun.congr (samePlaces_countPsq cfg _ p k.ac (-1)), hd, Place.eq_of_queue hk ho⟩

/-- What is taken from the queues of an entry that has no queued packet on the bus. -/
structure Dequeued (cfg : Cfg) (s t : State) (pl : Id → Place) (d : Dest) (p : Id)
    (needsHdr : Bool) : Prop where
  rel : Rel cfg t (Function.update pl p (.hand (!needsHdr)))
  entry : (cfg.pkt p).entry = d
  place : pl p = (Place.hand (!needsHdr)).enque
  psq : ∀ k, ∀ q ∈ t.psq d k, q ∉ t.bus

theorem Rel.dequeue (h : Rel cfg s pl) {ac : Ac} (hbus : ∀ k, ∀ q ∈ s.psq d k, q ∉ s.bus)
    (ht : dequeDelayedq cfg s d ac = some (t, p, needsHdr)) :
    Dequeued cfg s t pl d p needsHdr := by
  have hrest : ∀ (k : Prec) (l : List Id), s.psq d k = p :: l →
      ∀ k', ∀ q ∈ (s.setPsq d k l).psq d k', q ∉ s.bus := by
    intro k l hl k' q hq
    rw [psq_setPsq] at hq
    split at hq
    · exact hbus k q (hl ▸ List.mem_cons_of_mem p hq)
    · exact hbus k' q hq
  unfold dequeDelayedq at ht
  split at ht
  · next l hl =>
    cases ht
    obtain ⟨h1, h2, h3⟩ := h.head hl (hbus _ p (hl ▸ List.mem_cons_self))
    exact ⟨h1, h2, h3, hrest _ _ hl⟩
  · split at ht
    · next l hl =>
      cases ht
      obtain ⟨h1, h2, h3⟩ := h.head hl (hbus _ p (hl ▸ List.mem_cons_self))
      exact ⟨h1, h2, h3, hrest _ _ hl⟩
    · cases ht

theorem pretx_psq (cfg : Cfg) (s : State) (d : Dest) (p : Id) (needsHdr : Bool) :
    (pretxPktprocess cfg s d p needsHdr).1.psq = s.psq := by
  unfold pretxPktprocess pretxNew pretxAgain
  dsimp only
  split
  · split
    · rfl
    · split
      · rfl
      · split <;> rfl
  · split <;> rfl

/-- A packet that the bus did not take is back in its queue, or dropped. -/
structure Returned (cfg : Cfg) (s s' : State) (pl : Id → Place) (p : Id) (b : Bool) : Prop where
  calm : Calm s s'
  rel : ∃ pl', Rel cfg s' pl' ∧ Spares pl pl' p ∧
    (pl' p = .freed false ∨ pl' p = (Place.hand b).enque)

theorem Rel.returned {pl' : Id → Place} (pulled : Bool) (hc : Calm s t) (h : Rel cfg t pl')
    (hsp : Spares pl pl' p) (hp : pl' p = .hand (!needsHdr))
    (hbus : ∀ k, ∀ q ∈ t.psq (cfg.pkt p).entry k, q ∉ t.bus) :
    Returned cfg s (rollbackPacketToq cfg t p needsHdr pulled) pl p (!needsHdr) := by
  obtain ⟨pl'', hrel, hsp', hp'⟩ := h.rollback needsHdr pulled hp hbus
  exact ⟨hc.trans (calm_rollback cfg t p needsHdr pulled), pl'', hrel, hsp.trans hsp', hp'⟩

theorem Rel.pretx (h : Rel cfg s pl) (hp : pl p = .hand (!needsHdr)) (hd : (cfg.pkt p).entry = d) :
    pretxPktprocess cfg s d p needsHdr = (s, false) ∨
      (pretxPktprocess cfg s d p needsHdr).2 = true ∧
        Ready cfg (pretxPktprocess cfg s d p needsHdr).1 pl p := by
  unfold pretxPktprocess
  cases needsHdr with
  | true => exact h.newHeader hp hd
  | false => exact Or.inr ⟨rfl, h.oldHeader d hp⟩

theorem Rel.commit (h : Rel cfg s pl) (fcommit pulled : Bool) (hp : pl p = .hand (!needsHdr))
    (hd : (cfg.pkt p).entry = d) (hbus : ∀ k, ∀ q ∈ s.psq d k, q ∉ s.bus) :
    Returned cfg s (handlePacketCommit cfg s d p needsHdr fcommit pulled) pl p (!needsHdr) ∨
      ∃ t, Calm s t ∧ handlePacketCommit cfg s d p needsHdr fcommit pulled = committed t d p ∧
        Rel cfg (committed t d p) (Function.update pl p (.flying true true)) ∧
        (cfg.afq = false → (t.hanger (t.tag p).hslot).state = .inuse) := by
  subst hd
  have hcalm := calm_pretx cfg s (cfg.pkt p).entry p needsHdr
  have hpsq := pretx_psq cfg s (cfg.pkt p).entry p needsHdr
  have hpre := h.pretx hp rfl
  unfold handlePacketCommit
  dsimp only
  generalize pretxPktprocess cfg s (cfg.pkt p).entry p needsHdr = r at *
  rcases hpre with rfl | ⟨hr, hready⟩
  · rw [if_neg nofun]
    exact Or.inl (h.returned pulled hcalm (fun _ _ => Or.inl rfl) hp hbus)
  · rw [if_pos hr]
    have hbus' : ∀ k, ∀ q ∈ r.1.psq (cfg.pkt p).entry k, q ∉ r.1.bus := by
      rw [hpsq, hcalm.bus]
      exact hbus
    cases fcommit with
    | true => exact Or.inr ⟨r.1, hcalm, rfl, hready.onBus _, hready.live⟩
    | false =>
      rw [if_neg nofun]
      refine Or.inl ?_
      cases needsHdr with
      | false =>
        rw [if_neg (by simp)]
        exact hready.rel.returned true hcalm (spares_update pl p _) (Function.update_self _ _ _)
          hbus'
      | true =>
        have hpop := hready.rel.pop
        split
        · next hm =>
          rw [if_neg hm.2] at hpop
          exact hpop.returned true (hcalm.trans (calm_hanger _ fun _ _ => flushed_poppkt))
            (spares_update pl p _) (Function.update_self _ _ _) hbus'
        · next hm =>
          rw [if_pos (by simpa using hm)] at hpop
          exact hpop.returned true hcalm (spares_update pl p _) (Function.update_self _ _ _) hbus'

/-! ## Release -/

/-- Packet `p` is given up, with its slot. -/
structure Released (cfg : Cfg) (s s' : State) (p : Id) : Prop where
  passed : s'.passed = s.passed
  psq : s'.psq = s.psq
  afq : s'.afq = s.afq
  tag : s'.tag = s.tag
  freed : s'.freed = s.freed ++ [p]
  bus : s'.bus = s.bus.erase p
  air : s'.air = s.air.erase p
  item : ∀ i, s'.hanger i = s.hanger i ∨ cfg.afq = false ∧ i = (s.tag p).hslot ∧
    (s'.hanger i).pkt = none ∧ (s'.hanger i).state = .free
  gone : cfg.afq = false → (s'.hanger (s.tag p).hslot).pkt = none

theorem Rel.release (h : Rel cfg s pl) (hr : Released cfg s s' p) (hfresh : pl p ≠ .fresh)
    (hdone : (pl p).done = false) (hqueue : (pl p).queue = none) (hhung : (pl p).hung = true)
    (hafq : pl p ≠ .flying false true) :
    Rel cfg s' (Function.update pl p (.freed false)) := by
  have hp := h.places p
  refine h.apart (p := p) ?_ ?_ fun hi hm _ => ?_
  · exact {
      passed := hr.passed
      psq := hr.psq
      tag := fun _ => by rw [hr.tag]
      freed := fun _ hq => hr.freed ▸ mem_concat_of_ne hq
      bus := fun _ hq => hr.bus ▸ List.mem_erase_of_ne hq
      air := fun _ hq => hr.air ▸ List.mem_erase_of_ne hq
      afq := fun _ _ _ _ => by rw [hr.afq]
      freedNodup := by
        rw [hr.freed]
        exact nodup_freed h.freed fun hf => nomatch hdone.symm.trans (hp.freed.mp hf)
      busNodup := hr.bus ▸ h.bus.erase p
      airNodup := hr.air ▸ h.air.erase p
      afqNodup := hr.afq ▸ h.afq
      item := fun i => (hr.item i).imp_right fun hi => ⟨hi.1, hhung, hi.2.1, Or.inr hi.2.2⟩ }
  · refine at_freed (hr.passed ▸ hp.passed.mpr hfresh) ?_ (fun d k => ?_) ?_ ?_ (fun d ac => ?_)
      nofun
    · rw [hr.freed]
      exact List.mem_append_right _ List.mem_cons_self
    · rw [hr.psq]
      exact h.notMem_psq hqueue d k
    · rw [hr.bus]
      exact h.bus.not_mem_erase
    · rw [hr.air]
      exact h.air.not_mem_erase
    · rw [hr.afq]
      exact fun ha => hafq ((hp.afq d ac).mp ha).2.2.2
  · rw [hr.gone hm] at hi
    cases hi

/-- Only one bit of the item is set. -/
theorem hangerFreePkt_marks (cfg : Cfg) (hi : (s.hanger i).pkt = some p)
    (hb : (((s.hanger i).mark b).txstatus && ((s.hanger i).mark b).busreturned) = false) :
    hangerFreePkt cfg s i b = { s with
      hanger := Function.update s.hanger i ((s.hanger i).mark b) } := by
  unfold hangerFreePkt
  rw [hi]
  dsimp only
  rw [hb, if_neg nofun]

/-- Both bits are set. -/
theorem hangerFreePkt_frees (cfg : Cfg) (hi : (s.hanger i).pkt = some p)
    (hs : (s.hanger i).state ≠ .free)
    (hb : (((s.hanger i).mark b).txstatus && ((s.hanger i).mark b).busreturned) = true) :
    hangerFreePkt cfg s i b = (State.countDrv cfg { s with
        hanger := Function.update s.hanger i
          { (s.hanger i).mark b with state := .free, gen := true, pkt := none } } p
      (cfg.pkt p).fifo (-1)).free p := by
  have hne : (Function.update s.hanger i ((s.hanger i).mark b) i).state ≠ .free := by
    rw [Function.update_self]
    exact hs
  unfold hangerFreePkt
  rw [hi]
  dsimp only
  rw [hb, if_pos rfl, poppkt_eq hne, Function.update_idem, Function.update_self]

theorem hangerFreePkt_none (cfg : Cfg) (b : PktState) (hi : (s.hanger i).pkt = none) :
    hangerFreePkt cfg s i b = { s with
      hanger := Function.update s.hanger i { s.hanger i with state := .free } } := by
  unfold hangerFreePkt
  rw [hi]

theorem flushed_mark {h : Slot → Item} {j : Slot}
    (hj : (Function.update h i ((h i).mark b) j).Flushed p) : (h j).Flushed p := by
  by_cases hji : j = i
  · subst hji
    rw [Function.update_self] at hj
    exact hj
  · rw [Function.update_of_ne hji] at hj
    exact hj

theorem calm_freePkt (cfg : Cfg) (s : State) (i : Slot) (b : PktState) :
    Calm s (hangerFreePkt cfg s i b) := by
  cases hi : (s.hanger i).pkt with
  | none =>
    rw [hangerFreePkt_none cfg b hi]
    exact calm_hanger s fun j _ => flushed_update (by simp)
  | some p =>
    cases hb : ((s.hanger i).mark b).txstatus && ((s.hanger i).mark b).busreturned with
    | false =>
      rw [hangerFreePkt_marks cfg hi hb]
      exact calm_hanger s fun j _ hj => flushed_mark hj
    | true =>
      unfold hangerFreePkt
      rw [hi]
      dsimp only
      rw [hb, if_pos rfl]
      exact ⟨rfl, rfl, rfl, fun _ => ⟨_, rfl⟩, fun j _ hj => flushed_mark (flushed_poppkt hj)⟩

/-- Both bits are set: the packet is freed. -/
theorem Rel.freePkt (h : Rel cfg s pl) (hm : cfg.afq = false)
    (hx : pl p = .flying true false ∨ pl p = .reported false)
    (hbits : ((s.hanger (s.tag p).hslot).mark b).txstatus = true ∧
      ((s.hanger (s.tag p).hslot).mark b).busreturned = true)
    (hs' : s' = { hangerFreePkt cfg s (s.tag p).hslot b with bus := s.bus.erase p }) :
    Rel cfg s' (Function.update pl p (.freed false)) := by
  have hp := h.places p
  have hhung : (pl p).hung = true := by rcases hx with hx | hx <;> rw [hx] <;> rfl
  have hair : p ∉ s.air := by
    rw [hp.air]
    rcases hx with hx | hx <;> rw [hx] <;> nofun
  have hi := (hp.item hm hhung).1
  rw [hangerFreePkt_frees cfg hi (h.state_ne_free hi) (by rw [hbits.1, hbits.2]; rfl)] at hs'
  subst hs'
  refine h.release ?_ ?_ ?_ ?_ hhung ?_
  · exact {
      passed := rfl
      psq := rfl
      afq := rfl
      tag := rfl
      freed := rfl
      bus := rfl
      air := (List.erase_of_not_mem hair).symm
      item := fun i => by
        show Function.update s.hanger _ _ i = _ ∨ _
        by_cases hi : i = (s.tag p).hslot
        · subst hi
          refine Or.inr ⟨hm, rfl, ?_⟩
          show (Function.update s.hanger _ _ _).pkt = _ ∧ (Function.update s.hanger _ _ _).state = _
          rw [Function.update_self]
          exact ⟨rfl, rfl⟩
        · exact Or.inl (Function.update_of_ne hi _ _)
      gone := fun _ => by
        show (Function.update s.hanger _ _ _).pkt = _
        rw [Function.update_self] }
  · rcases hx with hx | hx <;> rw [hx] <;> nofun
  · rcases hx with hx | hx <;> rw [hx] <;> rfl
  · rcases hx with hx | hx <;> rw [hx] <;> rfl
  · rcases hx with hx | hx <;> rw [hx] <;> nofun

/-- One bit is set: the packet stays. -/
theorem Rel.markPkt (h : Rel cfg s pl) {l : List Id} (hm : cfg.afq = false) {y : Place}
    (hhung : (pl p).hung = true)
    (hy : y.hung = true ∧ y.done = false ∧ y.queue = (pl p).queue ∧ y.atFw = (pl p).atFw ∧
      y ≠ .fresh ∧ y ≠ .flying false false) (hx : pl p ≠ .fresh ∧ (pl p).done = false)
    (hl : l = s.bus ∧ y.onBus = (pl p).onBus ∨ l = s.bus.erase p ∧ y.onBus = false)
    (hbits : y.Bits ((s.hanger (s.tag p).hslot).mark b))
    (hboth : (((s.hanger (s.tag p).hslot).mark b).txstatus &&
      ((s.hanger (s.tag p).hslot).mark b).busreturned) = false)
    (hs' : s' = { hangerFreePkt cfg s (s.tag p).hslot b with bus := l }) :
    Rel cfg s' (Function.update pl p y) := by
  have hp := h.places p
  have hi := (hp.item hm hhung).1
  obtain ⟨hyh, hyd, hyq, hya, hyf, hyu⟩ := hy
  have hafq : ∀ x : Place, ∀ d ac, ¬ (cfg.afq = true ∧ (cfg.pkt p).entry = d ∧
      (cfg.pkt p).fifo = ac ∧ x = .flying false true) := by
    rintro x d ac ⟨ha, _⟩
    exact nomatch hm.symm.trans ha
  rw [hangerFreePkt_marks cfg hi hboth] at hs'
  subst hs'
  refine h.apart (p := p) ?_ ?_ fun _ _ _ => hyh
  · exact {
      passed := rfl
      psq := rfl
      tag := fun _ => rfl
      freed := fun _ _ => Iff.rfl
      bus := fun q hq => by
        rcases hl with ⟨rfl, _⟩ | ⟨rfl, _⟩
        · exact Iff.rfl
        · exact List.mem_erase_of_ne hq
      air := fun _ _ => Iff.rfl
      afq := fun _ _ _ _ => Iff.rfl
      freedNodup := h.freed
      busNodup := by
        rcases hl with ⟨rfl, _⟩ | ⟨rfl, _⟩
        · exact h.bus
        · exact h.bus.erase p
      airNodup := h.air
      afqNodup := h.afq
      item := fun i => by
        show Function.update s.hanger _ _ i = _ ∨ _
        by_cases hj : i = (s.tag p).hslot
        · subst hj
          refine Or.inr ⟨hm, hhung, rfl, Or.inl ?_⟩
          show (Function.update s.hanger _ _ _).pkt = _ ∧ (Function.update s.hanger _ _ _).state ≠ _
          rw [Function.update_self]
          exact ⟨hi, h.state_ne_free hi⟩
        · exact Or.inl (Function.update_of_ne hj _ _) }
  · exact {
      passed := hp.passed.trans (iff_of_true hx.1 hyf)
      freed := hp.freed.trans (by rw [hx.2, hyd])
      psq := fun d k => (hp.psq d k).trans (by rw [hyq])
      bus := by
        rcases hl with ⟨rfl, ho⟩ | ⟨rfl, ho⟩
        · exact hp.bus.trans (by rw [ho])
        · exact iff_of_false h.bus.not_mem_erase (by rw [ho]; nofun)
      air := hp.air.trans (by rw [hya])
      afq := fun d ac => (hp.afq d ac).trans (iff_of_false (hafq _ d ac) (hafq _ d ac))
      onBus := fun ha => nomatch hm.symm.trans ha
      undone := hyu
      slot := fun ha => nomatch hm.symm.trans ha
      item := fun _ _ => by
        show (Function.update s.hanger _ _ _).pkt = _ ∧ y.Bits (Function.update s.hanger _ _ _)
        rw [Function.update_self]
        exact ⟨hi, hbits⟩ }

theorem entryOf_slotOf (d : Dest) : entryOf (slotOf d) = d := by
  revert d
  decide

/-- A packet at the firmware that the bus is done with waits for its status. -/
theorem Rel.toAfq (h : Rel cfg s pl) {l : List Id} (hafq : cfg.afq = true)
    (hhung : (pl p).hung = true)
    (hx : (pl p).queue = none ∧ (pl p).done = false ∧ pl p ≠ .fresh ∧ pl p ≠ .flying false true)
    (hl : l = s.air ∧ p ∈ s.air ∨ l = s.air ++ [p] ∧ p ∉ s.air)
    (hs' : s' = { enqueAfq cfg s p with bus := s.bus.erase p, air := l }) :
    Rel cfg s' (Function.update pl p (.flying false true)) := by
  have hp := h.places p
  have hslot : entryOf (s.tag p).hslot = (cfg.pkt p).entry := by
    rw [hp.slot hafq hhung, entryOf_slotOf]
  have hnot : ∀ d ac, p ∉ s.afq d ac := fun d ac ha => hx.2.2.2 ((hp.afq d ac).mp ha).2.2.2
  have hpair : p ∈ l := by
    rcases hl with ⟨rfl, ha⟩ | ⟨rfl, _⟩
    · exact ha
    · exact List.mem_append_right _ List.mem_cons_self
  unfold enqueAfq at hs'
  rw [hslot] at hs'
  subst hs'
  refine h.apart (p := p) ?_ ?_ fun _ _ _ => rfl
  · exact {
      passed := rfl
      psq := rfl
      tag := fun _ => rfl
      freed := fun _ _ => Iff.rfl
      bus := fun _ hq => List.mem_erase_of_ne hq
      air := fun q hq => by
        rcases hl with ⟨rfl, _⟩ | ⟨rfl, _⟩
        · exact Iff.rfl
        · exact mem_concat_of_ne hq
      afq := fun q hq d ac => by
        show q ∈ (s.setAfq _ _ _).afq d ac ↔ _
        rw [afq_setAfq]
        split
        · next hd =>
          obtain ⟨rfl, rfl⟩ := hd
          exact mem_concat_of_ne hq
        · exact Iff.rfl
      freedNodup := h.freed
      busNodup := h.bus.erase p
      airNodup := by
        rcases hl with ⟨rfl, _⟩ | ⟨rfl, ha⟩
        · exact h.air
        · exact nodup_freed h.air ha
      afqNodup := fun d ac => by
        show ((s.setAfq _ _ _).afq d ac).Nodup
        rw [afq_setAfq]
        split
        · exact nodup_freed (h.afq _ _) (hnot _ _)
        · exact h.afq d ac
      item := fun _ => Or.inl rfl }
  · exact {
      passed := hp.passed.trans (iff_of_true hx.2.2.1 nofun)
      freed := hp.freed.trans (by rw [hx.2.1]; exact iff_of_false nofun nofun)
      psq := fun d k => iff_of_false (h.notMem_psq hx.1 d k) fun hf => nomatch hf.2.2
      bus := iff_of_false h.bus.not_mem_erase nofun
      air := iff_of_true hpair rfl
      afq := fun d ac => by
        show p ∈ (s.setAfq _ _ _).afq d ac ↔ _
        rw [afq_setAfq]
        split
        · next hd =>
          obtain ⟨rfl, rfl⟩ := hd
          exact iff_of_true (List.mem_append_right _ List.mem_cons_self) ⟨hafq, rfl, rfl, rfl⟩
        · next hd =>
          refine iff_of_false (hnot d ac) ?_
          rintro ⟨_, rfl, rfl, _⟩
          exact hd ⟨rfl, rfl⟩
      onBus := fun _ hb => nomatch hb
      undone := nofun
      slot := fun ha _ => hp.slot ha hhung
      item := fun hm => nomatch hafq.symm.trans hm }

/-! ## Completion -/

/-- Where a packet on the bus goes when the bus has completed it. -/
def Place.completed (success : Bool) : Place → Place
  | flying _ true => if success then flying false true else freed false
  | flying _ false => freed false
  | suppressed _ => suppressed false
  | x => x

/-- The bus has completed a packet; only what was not sent fails. -/
theorem Rel.complete (h : Rel cfg s pl) {success : Bool}
    (hx : ∃ f, pl p = .flying true f ∨ pl p = .suppressed true)
    (hfail : success = false → p ∈ s.air) :
    Rel cfg (txcomplete cfg s p success)
      (Function.update pl p ((pl p).completed success)) := by
  have hp := h.places p
  have hhung : (pl p).hung = true := by
    obtain ⟨f, hx | hx⟩ := hx <;> rw [hx] <;> rfl
  unfold txcomplete
  dsimp only
  cases success with
  | true =>
    rw [if_pos rfl]
    cases hm : cfg.afq with
    | true =>
      rw [if_pos rfl]
      have hfly : pl p = .flying true true := by
        refine hp.onBus hm ?_
        obtain ⟨f, hx | hx⟩ := hx <;> rw [hx] <;> rfl
      have hair : p ∈ s.air := hp.air.mpr (by rw [hfly]; rfl)
      have hrel := h.toAfq (l := s.air) hm hhung
        (by rw [hfly]; exact ⟨rfl, rfl, nofun, nofun⟩) (Or.inl ⟨rfl, hair⟩) rfl
      rw [hfly]
      refine hrel.congr ⟨⟨rfl, rfl, rfl, rfl, rfl, rfl⟩, fun _ => rfl, fun _ => rfl, fun _ => rfl,
        fun _ => rfl, fun _ => Iff.rfl⟩
    | false =>
      rw [if_neg nofun]
      have hcalm := calm_freePkt cfg s (s.tag p).hslot .busreturned
      suffices hrel : Rel cfg { hangerFreePkt cfg s (s.tag p).hslot .busreturned with
          bus := s.bus.erase p } (Function.update pl p ((pl p).completed true)) by
        refine hrel.congr ⟨⟨rfl, rfl, rfl, ?_, rfl, rfl⟩, fun _ => rfl, fun _ => rfl, fun _ => rfl,
          fun _ => rfl, fun _ => Iff.rfl⟩
        show (hangerFreePkt cfg s _ _).bus.erase p = s.bus.erase p
        rw [hcalm.bus]
      obtain ⟨hi, hb⟩ := hp.item hm hhung
      obtain ⟨f, hx | hx⟩ := hx
      · rw [hx] at hb
        obtain ⟨ht, hr⟩ := hb
        cases f with
        | true =>
          rw [hx]
          refine h.markPkt (l := s.bus.erase p) hm hhung ?_ ?_ (Or.inr ⟨rfl, rfl⟩) ?_ ?_ rfl
          · rw [hx]
            exact ⟨rfl, rfl, rfl, rfl, nofun, nofun⟩
          · rw [hx]
            exact ⟨nofun, rfl⟩
          · exact ⟨by simp [Item.mark, ht], by simp [Item.mark]⟩
          · simp [Item.mark, ht]
        | false =>
          rw [hx]
          exact h.freePkt hm (Or.inl hx) ⟨by simp [Item.mark, ht], by simp [Item.mark]⟩ rfl
      · rw [hx] at hb ⊢
        have ht : (s.hanger (s.tag p).hslot).txstatus = false := hb
        refine h.markPkt (l := s.bus.erase p) hm hhung ?_ ?_ (Or.inr ⟨rfl, rfl⟩) ?_ ?_ rfl
        · rw [hx]
          exact ⟨rfl, rfl, rfl, rfl, nofun, nofun⟩
        · rw [hx]
          exact ⟨nofun, rfl⟩
        · show ((s.hanger (s.tag p).hslot).mark _).txstatus = false
          simp [Item.mark, ht]
        · simp [Item.mark, ht]
  | false =>
    rw [if_neg nofun]
    have hair := hp.air.mp (hfail rfl)
    have hfly : pl p = .flying true true := by
      obtain ⟨f, hx | hx⟩ := hx
      · cases f
        · rw [hx] at hair
          cases hair
        · exact hx
      · rw [hx] at hair
        cases hair
    rw [hfly]
    refine h.release (p := p) ?_ ?_ ?_ ?_ hhung ?_
    · cases hm : cfg.afq with
      | true =>
        exact ⟨rfl, rfl, rfl, rfl, rfl, rfl, rfl, fun _ => Or.inl rfl,
          fun ha => nomatch hm.symm.trans ha⟩
      | false =>
        have hi := h.state_ne_free (hp.item hm hhung).1
        refine ⟨rfl, rfl, rfl, rfl, rfl, rfl, rfl, fun i => ?_, fun _ => ?_⟩
        · exact (poppkt_item hi i).imp_right fun hj => ⟨hm, hj⟩
        · show ((hangerPoppkt s.hanger _ true).1 _).pkt = none
          rw [poppkt_eq hi, Function.update_self]
    · rw [hfly]
      nofun
    · rw [hfly]
      rfl
    · rw [hfly]
      rfl
    · rw [hfly]
      nofun

/-! ## Status -/

/-- A packet whose status has come. -/
def Place.landed : Place → Place
  | flying b _ => reported b
  | taken => hand true
  | x => x

/-- Where it goes if it is not suppressed. -/
def Place.answered : Place → Place
  | reported true => flying true false
  | _ => freed false

theorem Rel.land (h : Rel cfg s pl) (hx : (∃ b, pl p = .flying b true) ∨ pl p = .taken)
    (hbus : cfg.afq = true → (pl p).onBus = false)
    (hafq : ∀ d ac, s'.afq d ac = (s.afq d ac).erase p)
    (hs' : s' = { s with afq := s'.afq, air := s.air.erase p }) :
    Rel cfg s' (Function.update pl p (pl p).landed) := by
  have hp := h.places p
  rw [hs']
  refine h.apart (p := p) ?_ ?_ fun _ _ hh => ?_
  · exact {
      passed := rfl
      psq := rfl
      tag := fun _ => rfl
      freed := fun _ _ => Iff.rfl
      bus := fun _ _ => Iff.rfl
      air := fun _ hq => List.mem_erase_of_ne hq
      afq := fun q hq d ac => by
        show q ∈ s'.afq d ac ↔ _
        rw [hafq]
        exact List.mem_erase_of_ne hq
      freedNodup := h.freed
      busNodup := h.bus
      airNodup := h.air.erase p
      afqNodup := fun d ac => by
        show (s'.afq d ac).Nodup
        rw [hafq]
        exact (h.afq d ac).erase p
      item := fun _ => Or.inl rfl }
  · have hgone : ∀ d ac, p ∉ s'.afq d ac := fun d ac => by
      rw [hafq]
      exact (h.afq d ac).not_mem_erase
    rcases hx with ⟨b, hx⟩ | hx
    · rw [hx] at hp hbus ⊢
      exact {
        passed := hp.passed.trans (iff_of_true nofun nofun)
        freed := hp.freed
        psq := hp.psq
        bus := hp.bus
        air := iff_of_false h.air.not_mem_erase nofun
        afq := fun d ac => iff_of_false (hgone d ac) fun hf => nomatch hf.2.2.2
        onBus := fun ha hb => nomatch (hbus ha).symm.trans hb
        undone := nofun
        slot := fun ha _ => hp.slot ha rfl
        item := fun ha _ => hp.item ha rfl }
    · rw [hx] at hp ⊢
      exact {
        passed := hp.passed.trans (iff_of_true nofun nofun)
        freed := hp.freed
        psq := fun d k => (hp.psq d k).trans
          (iff_of_false (fun hf => nomatch hf.2.2) fun hf => nomatch hf.2.2)
        bus := hp.bus
        air := iff_of_false h.air.not_mem_erase nofun
        afq := fun d ac => iff_of_false (hgone d ac) fun hf => nomatch hf.2.2.2
        onBus := fun _ hb => nomatch hb
        undone := nofun
        slot := fun ha _ => hp.slot ha rfl
        item := fun ha _ => hp.item ha rfl }
  · rcases hx with ⟨b, hx⟩ | hx <;> rw [hx] <;> rfl

/-- The packets that are dropped when `p` is to be put in queue `k`. -/
def displaced (cfg : Cfg) (s : State) (d : Dest) (k : Prec) (p : Id) : List Id :=
  match room cfg s d k with
  | .enough => []
  | .evict e => droppedPkts cfg (s.psq d e)
  | .refuse => [p]

theorem evicted_subset {k : Prec} {q : Id} (hq : q ∈ evicted cfg s d k) :
    q ∈ displaced cfg s d k p := by
  unfold evicted at hq
  unfold displaced
  split at hq
  · next e he =>
    rw [he]
    exact hq
  · cases hq

theorem refused_displaced {k : Prec} {qHead : Bool}
    (hr : precEnqWithDrop cfg s d k p qHead = (s, false)) : p ∈ displaced cfg s d k p := by
  unfold precEnqWithDrop at hr
  unfold displaced
  split at hr
  · next he =>
    rw [he]
    exact List.mem_cons_self
  · cases congrArg Prod.snd hr
  · cases congrArg Prod.snd hr

theorem samePlaces_suppress (s : State) (i : Slot) (gen : Bool) :
    SamePlaces s { s with hanger := hangerMarkSuppressed s.hanger i gen } := by
  have hitem : ∀ j, (hangerMarkSuppressed s.hanger i gen j).pkt = (s.hanger j).pkt ∧
      (hangerMarkSuppressed s.hanger i gen j).txstatus = (s.hanger j).txstatus ∧
      (hangerMarkSuppressed s.hanger i gen j).busreturned = (s.hanger j).busreturned ∧
      ((hangerMarkSuppressed s.hanger i gen j).state = .free ↔ (s.hanger j).state = .free) := by
    intro j
    unfold hangerMarkSuppressed
    by_cases hj : j = i
    · subst hj
      rw [Function.update_self]
      refine ⟨rfl, rfl, rfl, ?_⟩
      dsimp only
      split
      · next hs => exact iff_of_false nofun (by rw [hs]; nofun)
      · exact Iff.rfl
    · rw [Function.update_of_ne hj]
      exact ⟨rfl, rfl, rfl, Iff.rfl⟩
  exact ⟨⟨rfl, rfl, rfl, rfl, rfl, rfl⟩, fun _ => rfl, fun j => (hitem j).1,
    fun j => (hitem j).2.1, fun j => (hitem j).2.2.1, fun j => (hitem j).2.2.2⟩

theorem calm_suppress (s : State) (i : Slot) (gen : Bool) :
    Calm s { s with hanger := hangerMarkSuppressed s.hanger i gen } := by
  refine calm_hanger s fun j p hj => ?_
  unfold hangerMarkSuppressed at hj
  by_cases hji : j = i
  · subst hji
    rw [Function.update_self] at hj
    unfold Item.Flushed at hj
    dsimp only at hj
    split at hj
    · exact nomatch hj.1
    · exact hj
  · rw [Function.update_of_ne hji] at hj
    exact hj

theorem calm_statusMoves (cfg : Cfg) (s : State) (p : Id) (i : Slot) (suppress gen : Bool) :
    Calm s (statusMoves cfg s p i suppress gen) := by
  have htag : ∀ t : Id → Tag, Calm s { s with tag := t } :=
    fun _ => ⟨rfl, rfl, rfl, fun _ => ⟨_, rfl⟩, fun _ _ h => h⟩
  unfold statusMoves
  dsimp only
  split
  · have henq := (htag (Function.update s.tag p { s.tag p with gen := gen })).trans
      (calm_enqWithDrop cfg _ (cfg.pkt p).entry (sup (cfg.pkt p).fifo) p false)
    split
    · split
      · exact henq
      · exact henq.trans (calm_suppress _ i gen)
    · exact henq.trans (calm_drop cfg _ false _ p)
  · split
    · exact ⟨rfl, rfl, rfl, fun _ => ⟨_, rfl⟩, fun _ _ h => h⟩
    · exact calm_freePkt cfg s i .txstatus

theorem samePlaces_gen (s : State) (p : Id) (gen : Bool) :
    SamePlaces s { s with tag := Function.update s.tag p { s.tag p with gen := gen } } := by
  refine ⟨⟨rfl, rfl, rfl, rfl, rfl, rfl⟩, fun q => ?_, fun _ => rfl, fun _ => rfl, fun _ => rfl,
    fun _ => Iff.rfl⟩
  show (Function.update s.tag p _ q).hslot = _
  by_cases hq : q = p
  · subst hq
    rw [Function.update_self]
  · rw [Function.update_of_ne hq]

/-- The item of a packet that is not suppressed. -/
theorem Rel.answerPkt (h : Rel cfg s pl) {b : Bool} (hm : cfg.afq = false)
    (hb : pl p = .reported b) :
    Rel cfg (hangerFreePkt cfg s (s.tag p).hslot .txstatus)
      (Function.update pl p (Place.reported b).answered) := by
  have hp := h.places p
  have hhung : (pl p).hung = true := by rw [hb]; rfl
  have hcalm := calm_freePkt cfg s (s.tag p).hslot .txstatus
  obtain ⟨_, hbits⟩ := hp.item hm hhung
  rw [hb] at hbits
  obtain ⟨ht, hr⟩ := hbits
  have hsame : hangerFreePkt cfg s (s.tag p).hslot .txstatus =
      { hangerFreePkt cfg s (s.tag p).hslot .txstatus with bus := s.bus } := by
    rw [← hcalm.bus]
  cases b with
  | true =>
    refine h.markPkt (y := .flying true false) (l := s.bus) hm hhung ?_ ?_ (Or.inl ⟨rfl, ?_⟩)
      ?_ ?_ hsame
    · rw [hb]
      exact ⟨rfl, rfl, rfl, rfl, nofun, nofun⟩
    · rw [hb]
      exact ⟨nofun, rfl⟩
    · rw [hb]
      rfl
    · exact ⟨by simp [Item.mark], by simp [Item.mark, hr]⟩
    · simp [Item.mark, hr]
  | false =>
    have hbus : s.bus.erase p = s.bus := by
      refine List.erase_of_not_mem ?_
      rw [hp.bus, hb]
      nofun
    refine h.freePkt hm (Or.inr hb) ⟨?_, ?_⟩ (hbus.symm ▸ hsame)
    · simp [Item.mark]
    · simp [Item.mark, hr]

/-- What a status does with the packet it is about. -/
structure Settled (pl pl' : Id → Place) (p : Id) (suppress : Bool) : Prop where
  spares : Spares pl pl' p
  suppressed : suppress = true → pl' p = (pl p).enque ∨ (pl p).onBus = false ∧ pl' p = .freed false
  answered : suppress = false → pl' p = (pl p).answered

theorem Rel.moved (h : Rel cfg s pl) (suppress gen : Bool) (hx : (pl p).handed = some true)
    (hi : i = (s.tag p).hslot) (htaken : suppress = false → ∃ b, pl p = .reported b)
    (hdisp : suppress = true → ∀ q ∈ displaced cfg s (cfg.pkt p).entry (sup (cfg.pkt p).fifo) p,
      q ∉ s.bus) :
    ∃ pl', Rel cfg (statusMoves cfg s p i suppress gen) pl' ∧
      Settled pl pl' p suppress := by
  have hp := h.places p
  unfold statusMoves
  dsimp only
  cases suppress with
  | true =>
    rw [if_pos rfl]
    replace hdisp := hdisp rfl
    have hrel := h.congr (samePlaces_gen s p gen)
    have hdisp' : ∀ q ∈ displaced cfg { s with
        tag := Function.update s.tag p { s.tag p with gen := gen } } (cfg.pkt p).entry
        (sup (cfg.pkt p).fifo) p, q ∉ s.bus := hdisp
    rcases hrel.enqWithDrop false hx rfl rfl fun q hq => hdisp' q (evicted_subset hq) with
      he | ⟨he, pl', hrel', hsp, hp'⟩
    · have ho : (pl p).onBus = false := by
        by_contra hc
        exact hdisp' p (refused_displaced he) (hp.bus.mpr (by simpa using hc))
      rw [he, if_neg nofun]
      exact ⟨_, hrel.drop false hx ho, spares_update pl p _,
        fun _ => Or.inr ⟨ho, Function.update_self _ _ _⟩, nofun⟩
    · rw [if_pos he]
      refine ⟨pl', ?_, hsp, fun _ => Or.inl hp', nofun⟩
      split
      · exact hrel'
      · exact hrel'.congr (samePlaces_suppress _ i gen)
  | false =>
    rw [if_neg nofun]
    obtain ⟨b, hb⟩ := htaken rfl
    have hhung : (pl p).hung = true := by rw [hb]; rfl
    have hout : ∀ x, x = (pl p).answered → Settled pl (Function.update pl p x) p false :=
      fun x hx => ⟨spares_update pl p _, nofun, fun _ => (Function.update_self _ _ _).trans hx⟩
    cases hm : cfg.afq with
    | true =>
      rw [if_pos rfl]
      have hbus : p ∉ s.bus := fun hc => nomatch hb.symm.trans (hp.onBus hm (hp.bus.mp hc))
      have hair : p ∉ s.air := by
        rw [hp.air, hb]
        nofun
      have hnb : b = false := by
        cases b with
        | false => rfl
        | true => exact absurd (hp.bus.mpr (by rw [hb]; rfl)) hbus
      subst hnb
      refine ⟨_, h.release (p := p) ?_ ?_ ?_ ?_ hhung ?_, hout _ (by rw [hb]; rfl)⟩
      · exact ⟨rfl, rfl, rfl, rfl, rfl, (List.erase_of_not_mem hbus).symm,
          (List.erase_of_not_mem hair).symm, fun _ => Or.inl rfl,
          fun ha => nomatch hm.symm.trans ha⟩
      · rw [hb]
        nofun
      · rw [hb]
        rfl
      · rw [hb]
        rfl
      · rw [hb]
        nofun
    | false =>
      rw [if_neg nofun, hi]
      exact ⟨_, h.answerPkt hm hb, hout _ (by rw [hb])⟩

/-- Of a packet found in state `s`, of which the AFQ has lost sight. -/
theorem Rel.status (h : Rel cfg { s with air := s.air.erase p } pl) (suppress gen : Bool)
    (hx : (pl p).handed = some true) (hi : i = (s.tag p).hslot)
    (htaken : suppress = false → ∃ b, pl p = .reported b)
    (hdisp : suppress = true → ∀ q ∈ displaced cfg s (cfg.pkt p).entry (sup (cfg.pkt p).fifo) p,
      q ∉ s.bus) :
    ∃ pl', Rel cfg (statusOf cfg s p i suppress gen) pl' ∧
      Settled pl pl' p suppress := by
  unfold statusOf
  dsimp only
  generalize he : (if suppress = true then _ else _ : Entry) = e
  obtain ⟨pl', hrel, hset⟩ := (h.congr (samePlaces_setEntry _ (cfg.pkt p).entry e)).moved
    suppress gen hx hi htaken hdisp
  exact ⟨pl', hrel.congr (samePlaces_setEntry _ _ _), hset⟩

/-! ## What a status is about -/

theorem dequeAfq_some {hslot fifo : Nat} {ctr : BitVec 8}
    (h : dequeAfq s hslot fifo ctr = (t, some p)) :
    ∃ d ac, p ∈ s.afq d ac ∧ t = s.setAfq d ac ((s.afq d ac).erase p) := by
  unfold dequeAfq at h
  split at h
  · cases h
  · next ac _ =>
    split at h
    · cases h
    · next q hq =>
      cases h
      exact ⟨_, ac, List.mem_of_find?_eq_some hq, rfl⟩

theorem dequeAfq_none {hslot fifo : Nat} {ctr : BitVec 8}
    (h : dequeAfq s hslot fifo ctr = (t, none)) : t = s := by
  unfold dequeAfq at h
  split at h
  · cases h
    rfl
  · split at h
    · cases h
      rfl
    · cases h

/-- A packet is found: its status is outstanding, and it is taken out of the AFQ. -/
structure Found (cfg : Cfg) (s t : State) (pl : Id → Place) (p : Id) (i : Slot) : Prop where
  slot : i = (t.tag p).hslot
  state : t = { s with afq := t.afq }
  rel : Rel cfg { t with air := t.air.erase p } (Function.update pl p (pl p).landed)

theorem Rel.found_afq (h : Rel cfg s pl) {ac : Ac} (hp : p ∈ s.afq d ac) :
    Found cfg s (s.setAfq d ac ((s.afq d ac).erase p)) pl p (s.tag p).hslot := by
  obtain ⟨_, hd, hac, hx⟩ := ((h.places p).afq d ac).mp hp
  refine ⟨rfl, rfl, h.land (Or.inl ⟨false, hx⟩) (fun _ => by rw [hx]; rfl) (fun d' ac' => ?_) rfl⟩
  show (s.setAfq _ _ _).afq d' ac' = _
  rw [afq_setAfq]
  split
  · next hc =>
    obtain ⟨rfl, rfl⟩ := hc
    rfl
  · next hc =>
    refine (List.erase_of_not_mem fun hm => ?_).symm
    obtain ⟨_, rfl, rfl, _⟩ := ((h.places p).afq d' ac').mp hm
    exact hc ⟨hd, hac⟩

theorem Rel.found_hanger (h : Rel cfg s pl) (hm : cfg.afq = false) (hi : (s.hanger i).pkt = some p)
    (hx : (∃ b, pl p = .flying b true) ∨ pl p = .taken) : Found cfg s s pl p i := by
  refine ⟨(h.owner hm i p hi).1.symm, rfl, h.land hx (fun ha => nomatch hm.symm.trans ha)
    (fun d ac => ?_) rfl⟩
  refine (List.erase_of_not_mem fun hc => ?_).symm
  exact nomatch hm.symm.trans (((h.places p).afq d ac).mp hc).1

theorem samePlaces_freePkt (cfg : Cfg) (hi : (s.hanger i).pkt = none)
    (hs : (s.hanger i).state = .free) :
    SamePlaces s (hangerFreePkt cfg s i b) := by
  rw [hangerFreePkt_none cfg b hi]
  have hitem : Function.update s.hanger i { s.hanger i with state := .free } = s.hanger := by
    rw [← hs]
    exact Function.update_eq_self i s.hanger
  rw [hitem]
  exact ⟨⟨rfl, rfl, rfl, rfl, rfl, rfl⟩, fun _ => rfl, fun _ => rfl, fun _ => rfl, fun _ => rfl,
    fun _ => Iff.rfl⟩

/-- The status is about no packet, or about one at the firmware. -/
theorem Rel.finds (h : Rel cfg s pl) {st : TxStatus} {r : Option (Id × Slot × Bool)}
    (hf : statusFinds cfg s st = some (t, r)) :
    (r = none ∧ Calm s t ∧ SamePlaces s t) ∨
      ∃ p i suppress, r = some (p, i, suppress) ∧
        ((∃ b, pl p = .flying b true) ∨ pl p = .taken → Found cfg s t pl p i) ∧
        (cfg.afq = true → pl p = .flying false true) ∧
        (suppress = st.flag.suppress ∨ (s.hanger i).state = .flushed) := by
  have hsame : SamePlaces s s := ⟨⟨rfl, rfl, rfl, rfl, rfl, rfl⟩, fun _ => rfl, fun _ => rfl,
    fun _ => rfl, fun _ => rfl, fun _ => Iff.rfl⟩
  unfold statusFinds at hf
  split at hf
  · next hafq =>
    split at hf
    · next hd =>
      cases hf
      rw [dequeAfq_none hd]
      exact Or.inl ⟨rfl, .refl s, hsame⟩
    · next p hd =>
      cases hf
      obtain ⟨d, ac, hp, rfl⟩ := dequeAfq_some hd
      exact Or.inr ⟨p, _, _, rfl, fun _ => h.found_afq hp,
        fun _ => (((h.places p).afq d ac).mp hp).2.2.2, Or.inl rfl⟩
  · next hafq =>
    have hm : cfg.afq = false := by simpa using hafq
    split at hf
    · cases hf
      exact Or.inl ⟨rfl, .refl s, hsame⟩
    · split at hf
      · next hlt =>
        dsimp only at hf
        split at hf
        · next hpop =>
          cases hf
          refine Or.inl ⟨rfl, calm_freePkt cfg s _ _, ?_⟩
          have hi : (s.hanger ⟨st.hslot, hlt⟩).pkt = none := by
            unfold hangerPoppkt at hpop
            split at hpop
            · exact hpop
            · next hs => exact (h.free _).mp (by simpa using hs)
          exact samePlaces_freePkt cfg hi ((h.free _).mpr hi)
        · next p hpop =>
          cases hf
          have hi : (s.hanger ⟨st.hslot, hlt⟩).pkt = some p := by
            unfold hangerPoppkt at hpop
            split at hpop
            · exact hpop
            · cases hpop
          refine Or.inr ⟨p, _, _, rfl, fun hx => h.found_hanger hm hi hx,
            fun ha => absurd ha hafq, ?_⟩
          by_cases hs : (s.hanger ⟨st.hslot, hlt⟩).state = .flushed
          · exact Or.inr hs
          · exact Or.inl (by simp [hs])
      · cases hf

/-! ## Suppressed and acknowledged -/

/-- A suppressed packet is taken to be at the firmware again. -/
structure Recalled (s s' : State) (d : Dest) (p : Id) : Prop where
  bus : s'.bus = s.bus
  inTxq : s'.inTxq = s.inTxq
  air : s'.air = s.air ++ [p]
  fresh : p ∉ s.air
  hanger : s'.hanger = s.hanger
  entry : s'.entry = Function.update s.entry d
    { s.entry d with transitCount := (s.entry d).transitCount + 1 }

/-- In AFQ mode. -/
theorem Rel.suppressedAcked (h : Rel cfg s pl) (hafq : cfg.afq = true) (st : TxStatus) :
    suppressedAckedUpdate cfg s st = s ∨
      ∃ p, Recalled s (suppressedAckedUpdate cfg s st) (entryOf st.hslot) p ∧
        (cfg.pkt p).entry = entryOf st.hslot ∧
        Rel cfg (suppressedAckedUpdate cfg s st) (Function.update pl p (.flying false true)) := by
  unfold suppressedAckedUpdate
  dsimp only
  split
  · exact Or.inl rfl
  · next ac _ =>
    split
    · exact Or.inl rfl
    · next p hp =>
      have hmem := List.mem_of_find?_eq_some hp
      obtain ⟨hd, _, hq⟩ := ((h.places p).psq _ _).mp hmem
      have ho : (pl p).onBus = false := by
        by_contra hc
        rw [(h.places p).onBus hafq (by simpa using hc)] at hq
        cases hq
      have hx := Place.eq_of_queue hq ho
      have hbus : p ∉ s.bus := fun hb => nomatch ho.symm.trans ((h.places p).bus.mp hb)
      have hair : p ∉ s.air := by
        rw [(h.places p).air, hx]
        nofun
      have hun := h.unqueue (t := [p]) (List.perm_cons_erase hmem) fun q hq => by
        rw [List.mem_singleton.mp hq]
        exact ho
      rw [putAll_singleton] at hun
      rw [if_pos hafq]
      obtain ⟨t, ht⟩ : ∃ t, t = { s.setPsq (entryOf st.hslot) (sup ac)
          ((s.psq (entryOf st.hslot) (sup ac)).erase p) with
            pktCntInQ := bump s.pktCntInQ ((cfg.pkt p).ifid, ac) (-1)
            pktCntPerAc := bump s.pktCntPerAc ac (-1) } := ⟨_, rfl⟩
      have hbt : t.bus = s.bus := by rw [ht]; rfl
      have hat : t.air = s.air := by rw [ht]; rfl
      have hrel : Rel cfg t (Function.update pl p (.hand true)) := by
        rw [ht]
        exact hun.congr ⟨⟨rfl, rfl, rfl, rfl, rfl, rfl⟩, fun _ => rfl, fun _ => rfl, fun _ => rfl,
          fun _ => rfl, fun _ => Iff.rfl⟩
      have hrel' := hrel.toAfq (l := s.air ++ [p]) hafq (by rw [Function.update_self]; rfl)
        (by rw [Function.update_self]; exact ⟨rfl, rfl, nofun, nofun⟩) (Or.inr ⟨by rw [hat], hat ▸ hair⟩)
        rfl
      rw [Function.update_idem, hbt, List.erase_of_not_mem hbus, ← hbt] at hrel'
      subst ht
      refine Or.inr ⟨p, ⟨rfl, rfl, rfl, hair, rfl, rfl⟩, hd, ?_⟩
      exact hrel'.congr ⟨⟨rfl, rfl, rfl, rfl, rfl, rfl⟩, fun _ => rfl, fun _ => rfl,
        fun _ => rfl, fun _ => rfl, fun _ => Iff.rfl⟩

end Bcmdhd.Wlfc
