import Bcmdhd.Wlfc.Gate

/-!
# Clean-up (`_dhd_wlfc_cleanup`)

A clean-up takes packets out of `bus->txq`, the queues of the entries and their AFQs, and gives
them up; what is left in the hanger waits for its status.  Where every packet is stays known, as
long as none is taken from a queue while it is on the bus.

    Inv cfg s pl [] [] w →  OffBus cfg fn s →  Inv cfg (cleanup cfg s fn) pl' [] [] true
-/

namespace Bcmdhd.Wlfc

open Loans (bump)

/-! ## A packet given up -/

/-- The hanger after the removal of a packet, or not. -/
theorem removeReference_item (h : Slot → Item) (p : Id) (i j : Slot) :
    hangerRemoveReference h p i j = h j ∨ j = i ∧ (h i).pkt = some p ∧
      (hangerRemoveReference h p i j).pkt = none ∧
      (hangerRemoveReference h p i j).state = .free := by
  unfold hangerRemoveReference
  split
  · next hc =>
    by_cases hj : j = i
    · subst hj
      rw [Function.update_self]
      exact Or.inr ⟨rfl, hc.1, rfl, rfl⟩
    · exact Or.inl (Function.update_of_ne hj _ _)
  · exact Or.inl rfl

/-- Packet `p` is given up; its item may stay in the hanger. -/
structure GivenUp (cfg : Cfg) (s s' : State) (p : Id) : Prop where
  passed : s'.passed = s.passed
  psq : s'.psq = s.psq
  afq : s'.afq = s.afq
  tag : s'.tag = s.tag
  freed : s'.freed = s.freed ++ [p]
  bus : s'.bus = s.bus
  air : s'.air = s.air.erase p
  item : ∀ i, s'.hanger i = s.hanger i ∨ cfg.afq = false ∧ i = (s.tag p).hslot ∧
    (s.hanger i).pkt = some p ∧ (s'.hanger i).pkt = none ∧ (s'.hanger i).state = .free

variable {cfg : Cfg} {s s' : State} {pl : Id → Place} {fn : PktFn}

theorem Rel.giveUp (h : Rel cfg s pl) {p : Id} (hg : GivenUp cfg s s' p)
    (hx : pl p = .taken ∨ ∃ c, pl p = .hand c) :
    ∃ b, Rel cfg s' (Function.update pl p (.freed b)) := by
  have hp := h.places p
  have hfresh : pl p ≠ .fresh := by rcases hx with hx | ⟨c, hx⟩ <;> rw [hx] <;> nofun
  have hdone : (pl p).done = false := by rcases hx with hx | ⟨c, hx⟩ <;> rw [hx] <;> rfl
  have hqueue : (pl p).queue = none := by rcases hx with hx | ⟨c, hx⟩ <;> rw [hx] <;> rfl
  have hbus : (pl p).onBus = false := by rcases hx with hx | ⟨c, hx⟩ <;> rw [hx] <;> rfl
  have hfly : pl p ≠ .flying false true := by rcases hx with hx | ⟨c, hx⟩ <;> rw [hx] <;> nofun
  obtain ⟨b, hb, hleft⟩ : ∃ b : Bool,
      (b = true → cfg.afq = false ∧ (s'.hanger (s'.tag p).hslot).pkt = some p) ∧
      (cfg.afq = false → (s'.hanger (s.tag p).hslot).pkt = some p → b = true) := by
    refine ⟨decide (cfg.afq = false ∧ (s'.hanger (s'.tag p).hslot).pkt = some p),
      of_decide_eq_true, fun hm hi => decide_eq_true ⟨hm, ?_⟩⟩
    rw [hg.tag]
    exact hi
  refine ⟨b, h.apart (p := p) ?_ ?_ fun hi hm _ => hleft hm hi⟩
  · exact {
      passed := hg.passed
      psq := hg.psq
      tag := fun _ => by rw [hg.tag]
      freed := fun _ hq => hg.freed ▸ mem_concat_of_ne hq
      bus := fun _ _ => by rw [hg.bus]
      air := fun _ hq => hg.air ▸ List.mem_erase_of_ne hq
      afq := fun _ _ _ _ => by rw [hg.afq]
      freedNodup := by
        rw [hg.freed]
        exact nodup_freed h.freed fun hf => nomatch hdone.symm.trans (hp.freed.mp hf)
      busNodup := hg.bus ▸ h.bus
      airNodup := hg.air ▸ h.air.erase p
      afqNodup := hg.afq ▸ h.afq
      item := fun i => by
        rcases hg.item i with he | ⟨hm, rfl, hi, hn⟩
        · exact Or.inl he
        · exact Or.inr ⟨hm, (h.owner hm _ p hi).2, rfl, Or.inr hn⟩ }
  · refine at_freed (hg.passed ▸ hp.passed.mpr hfresh) ?_ (fun d k => ?_) ?_ ?_ (fun d ac => ?_) hb
    · rw [hg.freed]
      exact List.mem_append_right _ List.mem_cons_self
    · rw [hg.psq]
      exact h.notMem_psq hqueue d k
    · rw [hg.bus, hp.bus, hbus]
      nofun
    · rw [hg.air]
      exact h.air.not_mem_erase
    · rw [hg.afq]
      exact fun ha => hfly ((hp.afq d ac).mp ha).2.2.2

theorem GivenUp.flushed {p : Id} (hg : GivenUp cfg s s' p) (i : Slot) (q : Id)
    (hi : (s'.hanger i).Flushed q) : (s.hanger i).Flushed q := by
  rcases hg.item i with he | ⟨_, _, _, hn, _⟩
  · rw [← he]
    exact hi
  · exact nomatch hn.symm.trans hi.2

theorem givenUp_cleanupTxq (cfg : Cfg) (s : State) (p : Id) :
    GivenUp cfg s (cleanupTxqPkt cfg s p) p := by
  unfold cleanupTxqPkt
  cases hm : cfg.afq with
  | true => exact ⟨rfl, rfl, rfl, rfl, rfl, rfl, rfl, fun _ => Or.inl rfl⟩
  | false =>
    refine ⟨rfl, rfl, rfl, rfl, rfl, rfl, rfl, fun i => ?_⟩
    exact (removeReference_item s.hanger p _ i).imp_right fun hi => by
      obtain ⟨rfl, hi⟩ := hi
      exact ⟨hm, rfl, hi⟩

theorem givenUp_flushAfq (cfg : Cfg) (ac : Ac) (s : State) (p : Id) :
    GivenUp cfg s (flushAfqPkt cfg ac s p) p :=
  ⟨rfl, rfl, rfl, rfl, rfl, rfl, rfl, fun _ => Or.inl rfl⟩

theorem givenUp_flushPsq (k : Prec) {p : Id} (hp : p ∉ s.air) :
    GivenUp cfg s (flushPsqPkt cfg k s p) p := by
  unfold flushPsqPkt
  dsimp only
  split
  · next hc =>
    refine ⟨rfl, rfl, rfl, rfl, rfl, rfl, (List.erase_of_not_mem hp).symm, fun i => ?_⟩
    exact (removeReference_item s.hanger p _ i).imp_right fun hi => by
      obtain ⟨rfl, hi⟩ := hi
      exact ⟨by simpa using hc.1, rfl, hi⟩
  · exact ⟨rfl, rfl, rfl, rfl, rfl, rfl, (List.erase_of_not_mem hp).symm, fun _ => Or.inl rfl⟩

/-! ## Packets at the firmware -/

/-- What has been taken need no longer be counted on the bus. -/
theorem Inv.forget {l t : List Id} {w : Bool} (h : Inv cfg s pl l t w) :
    Inv cfg s pl [] t true := by
  refine h.next nofun h.toRel (fun d => ?_) (fun _ hd _ => hd) (fun _ _ hi => hi)
    (List.nil_subset t) fun _ => Or.inl ⟨rfl, fun hi => hi, Iff.rfl⟩
  have hd := h.count d
  have hn := hd.onbus
  exact ⟨Nat.le_trans (Nat.le_add_right _ _) hn, nofun, hd.transit, hd.suppr, hd.gate⟩

/-- A packet that has been taken is given up. -/
theorem Inv.giveUp {p : Id} {t : List Id} (h : Inv cfg s pl [] (p :: t) true) (ht : p ∉ t)
    (hg : GivenUp cfg s s' p) (hin : s'.inTxq = s.inTxq)
    (hent : s'.entry = (s.setEntry (cfg.pkt p).entry (s.entry (cfg.pkt p).entry).back).entry) :
    ∃ pl', Inv cfg s' pl' [] t true := by
  have hx : pl p = .taken := (h.tracked p).taken.mpr List.mem_cons_self
  obtain ⟨b, hrel⟩ := h.toRel.giveUp hg (Or.inl hx)
  have hup : Function.update pl p (.freed b) p = .freed b := Function.update_self _ _ _
  have hair : p ∈ s.air := by
    rw [(h.places p).air, hx]
    rfl
  have hbus : p ∉ s'.bus := by
    rw [hg.bus, (h.places p).bus, hx]
    nofun
  refine ⟨_, h.move (p := p) hrel (fun d => ?_) (fun d hd hl => ?_) hg.flushed (List.nil_subset t)
    (spares_update pl p _) (fun _ _ hi => hin ▸ hi) (fun _ hq => mem_cons_of_ne hq)
    ⟨by rw [hup]; rfl, nofun, iff_of_false (by rw [hup]; nofun) ht, by rw [hup]; nofun,
      fun hb => absurd hb hbus, fun _ _ _ => ⟨ht, fun hb => hbus hb.1⟩⟩⟩
  · have hd := h.count d
    rw [load_erase cfg hair d] at hd
    rw [hg.bus, hg.air, hent]
    by_cases hdd : d = (cfg.pkt p).entry
    · subst hdd
      rw [if_pos rfl] at hd
      rw [setEntry_self]
      exact hd.back
    · rw [if_neg (Ne.symm hdd)] at hd
      rw [setEntry_of_ne s _ hdd]
      exact hd
  · rw [hent]
    by_cases hdd : d = (cfg.pkt p).entry
    · subst hdd
      rw [setEntry_self]
      have hn := (h.count (cfg.pkt p).entry).onbus
      rw [hg.bus] at hl
      exact Entry.back_suppressed hd (by omega)
    · rw [setEntry_of_ne s _ hdd]
      exact hd

theorem Inv.giveUpAll {f : State → Id → State} (hg : ∀ s p, GivenUp cfg s (f s p) p)
    (hin : ∀ s p, (f s p).inTxq = s.inTxq)
    (hent : ∀ s p, (f s p).entry =
      (s.setEntry (cfg.pkt p).entry (s.entry (cfg.pkt p).entry).back).entry) {l : List Id}
    (hl : l.Nodup) (h : Inv cfg s pl [] l true) :
    ∃ pl', Inv cfg (l.foldl f s) pl' [] [] true := by
  induction l generalizing s pl with
  | nil => exact ⟨pl, h⟩
  | cons p l ih =>
    obtain ⟨hp, hl⟩ := List.nodup_cons.mp hl
    obtain ⟨pl', h'⟩ := h.giveUp hp (hg s p) (hin s p) (hent s p)
    exact ih hl h'

theorem Inv.onCleanupTxq {w : Bool} (h : Inv cfg s pl [] [] w) (fn : PktFn) :
    ∃ pl', Inv cfg (cleanupTxq cfg s fn) pl' [] [] true := by
  obtain ⟨pl', h'⟩ := h.onLeaveTxq fn
  refine Inv.giveUpAll (givenUp_cleanupTxq cfg) (fun s p => ?_) (fun s p => ?_)
    (nodup_txqTaken cfg fn h.bus) h'.forget
  · unfold cleanupTxqPkt
    dsimp only
    split <;> rfl
  · unfold cleanupTxqPkt
    dsimp only
    split <;> rfl

/-- Packets are taken out of an AFQ. -/
theorem Rel.leaveAfq (h : Rel cfg s pl) (d : Dest) (ac : Ac) (f : Id → Bool) :
    Rel cfg (s.setAfq d ac ((s.afq d ac).filter fun p => !f p))
      (putAll pl ((s.afq d ac).filter f) .taken) := by
  have hfly : ∀ q ∈ (s.afq d ac).filter f, f q = true ∧ (cfg.pkt q).entry = d ∧
      (cfg.pkt q).fifo = ac ∧ pl q = .flying false true := by
    intro q hq
    obtain ⟨hm, hf⟩ := List.mem_filter.mp hq
    exact ⟨hf, (((h.places q).afq d ac).mp hm).2⟩
  refine h.take (fun q hq => ⟨false, (hfly q hq).2.2.2⟩) rfl h.bus (fun d' ac' => ?_)
    (fun q hq => ⟨fun hb => ?_, fun d' ac' => ?_⟩) fun q hq => ⟨Iff.rfl, fun d' ac' => ?_⟩
  · rw [afq_setAfq]
    split
    · exact (h.afq d ac).filter _
    · exact h.afq d' ac'
  · exact nomatch ((h.places q).bus.mp hb).symm.trans (congrArg Place.onBus (hfly q hq).2.2.2)
  · obtain ⟨hf, hd, hac, _⟩ := hfly q hq
    rw [afq_setAfq]
    split
    · simp [hf]
    · next hne =>
      intro ha
      obtain ⟨_, rfl, rfl, _⟩ := ((h.places q).afq d' ac').mp ha
      exact hne ⟨hd, hac⟩
  · rw [afq_setAfq]
    split
    · next hd =>
      obtain ⟨rfl, rfl⟩ := hd
      rw [List.mem_filter] at hq ⊢
      refine and_iff_left_of_imp fun hm => ?_
      simpa [hm] using hq
    · exact Iff.rfl

theorem Inv.onFlushAfq (h : Inv cfg s pl [] [] true) (hafq : cfg.afq = true) (fn : PktFn) (d : Dest)
    (ac : Ac) :
    ∃ pl', Inv cfg (flushAfq cfg fn d s ac) pl' [] [] true := by
  have hrel : Rel cfg { s.setAfq d ac ((s.afq d ac).filter fun p => !fn.takes cfg p) with
        staleTail := s.staleTail || leavesStaleTail cfg fn (s.afq d ac) }
      (putAll pl ((s.afq d ac).filter (fn.takes cfg)) .taken) :=
    (h.leaveAfq d ac (fn.takes cfg)).congr ⟨⟨rfl, rfl, rfl, rfl, rfl, rfl⟩, fun _ => rfl,
      fun _ => rfl, fun _ => rfl, fun _ => rfl, fun _ => Iff.rfl⟩
  refine Inv.giveUpAll (givenUp_flushAfq cfg ac) (fun _ _ => rfl) (fun _ _ => rfl)
    ((h.afq d ac).filter _) (h.next nofun hrel h.count (fun _ hd _ => hd) (fun _ _ hi => hi)
      (List.nil_subset _) fun q => ?_)
  by_cases hq : q ∈ (s.afq d ac).filter (fn.takes cfg)
  · have hx : putAll pl ((s.afq d ac).filter (fn.takes cfg)) .taken q = .taken := if_pos hq
    refine Or.inr ⟨by rw [hx]; rfl, nofun, iff_of_true hx hq, by rw [hx]; nofun, fun hb => ?_,
      fun ha => nomatch hafq.symm.trans ha⟩
    have hfly := (((h.places q).afq d ac).mp (List.mem_of_mem_filter hq)).2.2.2
    exact nomatch ((h.places q).bus.mp hb).symm.trans (congrArg Place.onBus hfly)
  · exact Or.inl ⟨if_neg hq, fun hi => hi, iff_of_false hq List.not_mem_nil⟩

/-! ## Packets in queues -/

theorem calm_flushPsqPkt (cfg : Cfg) (k : Prec) (s : State) (p : Id) :
    Calm s (flushPsqPkt cfg k s p) := by
  unfold flushPsqPkt
  dsimp only
  split
  · refine ⟨rfl, rfl, rfl, fun _ => ⟨_, rfl⟩, fun i q hi => ?_⟩
    rcases removeReference_item s.hanger p (s.tag p).hslot i with he | ⟨_, _, hn, _⟩
    · rw [← he]
      exact hi
    · exact nomatch hn.symm.trans hi.2
  · exact ⟨rfl, rfl, rfl, fun _ => ⟨_, rfl⟩, fun _ _ hi => hi⟩

theorem calm_foldl {α : Type*} {f : State → α → State} (hf : ∀ s a, Calm s (f s a)) (l : List α)
    (s : State) : Calm s (l.foldl f s) :=
  List.foldlRecOn (motive := Calm s) l f (.refl s) fun t ht a _ => ht.trans (hf t a)

/-- Every packet is where it was, or given up. -/
def Sweeps (pl pl' : Id → Place) : Prop := ∀ q, pl' q = pl q ∨ ∃ b, pl' q = .freed b

theorem Rel.flushAll {k : Prec} {l : List Id} (h : Rel cfg s pl) (hl : l.Nodup)
    (hpl : ∀ q ∈ l, pl q = .hand k.sup) :
    ∃ pl', Rel cfg (l.foldl (flushPsqPkt cfg k) s) pl' ∧
      ∀ q, q ∉ l ∧ pl' q = pl q ∨ ∃ b, pl' q = .freed b := by
  induction l generalizing s pl with
  | nil => exact ⟨pl, h, fun _ => Or.inl ⟨List.not_mem_nil, rfl⟩⟩
  | cons p l ih =>
    obtain ⟨hp, hl⟩ := List.nodup_cons.mp hl
    have hx := hpl p List.mem_cons_self
    have hair : p ∉ s.air := by
      rw [(h.places p).air, hx]
      nofun
    obtain ⟨b, hrel⟩ := h.giveUp (givenUp_flushPsq k hair) (Or.inr ⟨_, hx⟩)
    obtain ⟨pl', hrel', hpl'⟩ := ih hrel hl fun q hq => by
      rw [Function.update_of_ne (ne_of_mem_of_not_mem hq hp)]
      exact hpl q (List.mem_cons_of_mem p hq)
    refine ⟨pl', hrel', fun q => ?_⟩
    rcases hpl' q with ⟨hq, he⟩ | hb
    · by_cases hqp : q = p
      · subst hqp
        exact Or.inr ⟨b, he.trans (Function.update_self _ _ _)⟩
      · rw [Function.update_of_ne hqp] at he
        exact Or.inl ⟨List.not_mem_cons_of_ne_of_not_mem hqp hq, he⟩
    · exact Or.inr hb

theorem Inv.sweep {pl' : Id → Place} (h : Inv cfg s pl [] [] true) (hc : Calm s s')
    (hrel : Rel cfg s' pl') (hpl : Sweeps pl pl') : Inv cfg s' pl' [] [] true := by
  refine h.next nofun hrel (fun d => ?_) (fun d hd _ => ?_) hc.flushed (List.Subset.refl _)
    fun q => ?_
  · obtain ⟨q, hq⟩ := hc.entry d
    rw [hq, hc.bus, hc.air]
    exact (h.count d).seq q
  · obtain ⟨q, hq⟩ := hc.entry d
    rw [hq]
    exact hd
  · rcases hpl q with hx | ⟨b, hx⟩
    · exact Or.inl ⟨hx, fun hi => hc.inTxq ▸ hi, Iff.rfl⟩
    · have hbus : q ∉ s'.bus := by
        rw [(hrel.places q).bus, hx]
        nofun
      exact Or.inr ⟨by rw [hx]; rfl, nofun, iff_of_false (by rw [hx]; nofun) List.not_mem_nil,
        by rw [hx]; nofun, fun hb => absurd hb hbus,
        fun _ _ _ => ⟨List.not_mem_nil, fun hb => hbus hb.1⟩⟩

theorem Inv.onFlushPsq (h : Inv cfg s pl [] [] true) (fn : PktFn) (d : Dest) (k : Prec)
    (hbus : ∀ p ∈ s.psq d k, fn.takes cfg p = true → p ∉ s.bus) :
    ∃ pl', Inv cfg (flushPsq cfg fn d s k) pl' [] [] true := by
  obtain ⟨l, hl⟩ : ∃ l, l = (s.psq d k).filter (fn.takes cfg) := ⟨_, rfl⟩
  have hoff : ∀ q ∈ l, (pl q).onBus = false := by
    intro q hq
    rw [hl] at hq
    obtain ⟨hm, hf⟩ := List.mem_filter.mp hq
    by_contra hb
    exact hbus q hm hf ((h.places q).bus.mpr (by simpa using hb))
  have hperm : (s.psq d k).Perm (l ++ (s.psq d k).filter fun p => !fn.takes cfg p) :=
    hl ▸ (List.filter_append_perm _ _).symm
  have hun : Rel cfg { s.setPsq d k ((s.psq d k).filter fun p => !fn.takes cfg p) with
        staleTail := s.staleTail || leavesStaleTail cfg fn (s.psq d k) }
      (putAll pl l (.hand k.sup)) :=
    (h.unqueue hperm hoff).congr ⟨⟨rfl, rfl, rfl, rfl, rfl, rfl⟩, fun _ => rfl, fun _ => rfl,
      fun _ => rfl, fun _ => rfl, fun _ => Iff.rfl⟩
  obtain ⟨pl', hrel, hpl⟩ := hun.flushAll (k := k) (hl ▸ (h.psq d k).filter _) fun q hq => if_pos hq
  have hcalm := calm_foldl (calm_flushPsqPkt cfg k) l {
      s.setPsq d k ((s.psq d k).filter fun p => !fn.takes cfg p) with
      staleTail := s.staleTail || leavesStaleTail cfg fn (s.psq d k) }
  unfold flushPsq
  dsimp only
  rw [← hl]
  refine ⟨pl', h.sweep (Calm.trans ?_ hcalm) hrel fun q => ?_⟩
  · exact ⟨rfl, rfl, rfl, fun _ => ⟨_, rfl⟩, fun _ _ hi => hi⟩
  · rcases hpl q with ⟨hq, hx⟩ | hx
    · exact Or.inl (hx.trans (if_neg hq))
    · exact Or.inr hx

/-! ## The whole clean-up -/

theorem hangerFlush_item (cfg : Cfg) (fn : PktFn) (h : Slot → Item) (i : Slot) :
    hangerFlush cfg fn h i = h i ∨ hangerFlush cfg fn h i = { h i with state := .flushed } ∧
      (h i).state ≠ .free ∧ ∀ p, (h i).pkt = some p → fn.takes cfg p = true := by
  have hsome : ∀ p, (h i).state ≠ .free → (h i).pkt = some p →
      (if fn.takes cfg p then { h i with state := .flushed } else h i) = h i ∨
        (if fn.takes cfg p then { h i with state := .flushed } else h i) =
          { h i with state := .flushed } ∧ (h i).state ≠ .free ∧
          ∀ p, (h i).pkt = some p → fn.takes cfg p = true := by
    intro p hs hp
    split
    · next hf =>
      refine Or.inr ⟨rfl, hs, fun q hq => ?_⟩
      rw [hp] at hq
      cases hq
      exact hf
    · exact Or.inl rfl
  have hnone : (h i).state ≠ .free → (h i).pkt = none →
      (if fn = .all then { h i with state := .flushed } else h i) = h i ∨
        (if fn = .all then { h i with state := .flushed } else h i) =
          { h i with state := .flushed } ∧ (h i).state ≠ .free ∧
          ∀ p, (h i).pkt = some p → fn.takes cfg p = true := by
    intro hs hp
    split
    · exact Or.inr ⟨rfl, hs, fun q hq => nomatch hp.symm.trans hq⟩
    · exact Or.inl rfl
  unfold hangerFlush
  split
  · next p hs hp => exact hsome p (by rw [hs]; nofun) hp
  · next p hs hp => exact hsome p (by rw [hs]; nofun) hp
  · next hs hp => exact hnone (by rw [hs]; nofun) hp
  · next hs hp => exact hnone (by rw [hs]; nofun) hp
  · exact Or.inl rfl

theorem samePlaces_hangerFlush (cfg : Cfg) (fn : PktFn) (s : State) :
    SamePlaces s { s with hanger := hangerFlush cfg fn s.hanger } := by
  have hitem : ∀ i, (hangerFlush cfg fn s.hanger i).pkt = (s.hanger i).pkt ∧
      (hangerFlush cfg fn s.hanger i).txstatus = (s.hanger i).txstatus ∧
      (hangerFlush cfg fn s.hanger i).busreturned = (s.hanger i).busreturned ∧
      ((hangerFlush cfg fn s.hanger i).state = .free ↔ (s.hanger i).state = .free) := by
    intro i
    rcases hangerFlush_item cfg fn s.hanger i with he | ⟨he, hs, _⟩ <;> rw [he]
    · exact ⟨rfl, rfl, rfl, Iff.rfl⟩
    · exact ⟨rfl, rfl, rfl, iff_of_false nofun hs⟩
  exact ⟨⟨rfl, rfl, rfl, rfl, rfl, rfl⟩, fun _ => rfl, fun i => (hitem i).1,
    fun i => (hitem i).2.1, fun i => (hitem i).2.2.1, fun i => (hitem i).2.2.2⟩

/-- What stays in the hanger is flushed, but for packets in `bus->txq`. -/
theorem Inv.onHangerFlush (h : Inv cfg s pl [] [] true)
    (hclear : ∀ p ∈ s.bus, s.inTxq p = true → fn.takes cfg p = false) :
    Inv cfg { s with hanger := hangerFlush cfg fn s.hanger } pl [] [] true where
  toRel := h.congr (samePlaces_hangerFlush cfg fn s)
  count := h.count
  left := h.left
  tracked q := {
    handed := (h.tracked q).handed
    clean := (h.tracked q).clean
    taken := (h.tracked q).taken
    held := (h.tracked q).held
    txq := (h.tracked q).txq
    flush := fun ha i hi => by
      change (hangerFlush cfg fn s.hanger i).Flushed q at hi
      rcases hangerFlush_item cfg fn s.hanger i with he | ⟨he, _, hf⟩
      · rw [he] at hi
        exact (h.tracked q).flush ha i hi
      · rw [he] at hi
        refine ⟨List.not_mem_nil, fun hb => ?_⟩
        exact nomatch (hf q hi.2).symm.trans (hclear q hb.1 hb.2) }

/-- A clean-up takes packets away. -/
structure Swept (s s' : State) : Prop where
  occupied : ∀ d, (s'.entry d).occupied = true → (s.entry d).occupied = true
  psq : ∀ d k, s'.psq d k ⊆ s.psq d k
  afq : ∀ d ac, s'.afq d ac ⊆ s.afq d ac
  bus : s'.bus ⊆ s.bus
  inTxq : s'.inTxq = s.inTxq

theorem Swept.refl (s : State) : Swept s s :=
  ⟨fun _ h => h, fun _ _ => List.Subset.refl _, fun _ _ => List.Subset.refl _, List.Subset.refl _,
    rfl⟩

theorem Swept.trans {t u : State} (h : Swept s t) (h' : Swept t u) : Swept s u where
  occupied d hd := h.occupied d (h'.occupied d hd)
  psq d k := List.Subset.trans (h'.psq d k) (h.psq d k)
  afq d ac := List.Subset.trans (h'.afq d ac) (h.afq d ac)
  bus := List.Subset.trans h'.bus h.bus
  inTxq := h'.inTxq.trans h.inTxq

theorem swept_foldl {α : Type*} {f : State → α → State} (hf : ∀ s a, Swept s (f s a)) (l : List α)
    (s : State) : Swept s (l.foldl f s) :=
  List.foldlRecOn (motive := Swept s) l f (.refl s) fun t ht a _ => ht.trans (hf t a)

theorem occupied_back (s : State) (d d' : Dest)
    (h : ((s.setEntry d (s.entry d).back).entry d').occupied = true) :
    (s.entry d').occupied = true :=
  (setEntry_occupied s d d' _ (Entry.back_occupied _)).symm.trans h

theorem swept_cleanupTxq (cfg : Cfg) (s : State) (fn : PktFn) : Swept s (cleanupTxq cfg s fn) := by
  have hpkt : ∀ s p, Swept s (cleanupTxqPkt cfg s p) := by
    intro s p
    unfold cleanupTxqPkt
    dsimp only
    split
    · exact ⟨occupied_back s (cfg.pkt p).entry, fun _ _ => List.Subset.refl _,
        fun _ _ => List.Subset.refl _, List.Subset.refl _, rfl⟩
    · exact ⟨occupied_back s (cfg.pkt p).entry, fun _ _ => List.Subset.refl _,
        fun _ _ => List.Subset.refl _, List.Subset.refl _, rfl⟩
  unfold cleanupTxq
  refine Swept.trans ?_ (swept_foldl hpkt _ _)
  exact ⟨fun _ h => h, fun _ _ => List.Subset.refl _, fun _ _ => List.Subset.refl _,
    List.filter_subset_self _, rfl⟩

theorem swept_flushPsq (cfg : Cfg) (fn : PktFn) (d : Dest) (s : State) (k : Prec) :
    Swept s (flushPsq cfg fn d s k) := by
  have hpkt : ∀ s p, Swept s (flushPsqPkt cfg k s p) := by
    intro s p
    unfold flushPsqPkt
    dsimp only
    split
    · exact ⟨fun _ h => h, fun _ _ => List.Subset.refl _, fun _ _ => List.Subset.refl _,
        List.Subset.refl _, rfl⟩
    · exact ⟨fun _ h => h, fun _ _ => List.Subset.refl _, fun _ _ => List.Subset.refl _,
        List.Subset.refl _, rfl⟩
  unfold flushPsq
  refine Swept.trans ?_ (swept_foldl hpkt _ _)
  refine ⟨fun _ h => h, fun d' k' => ?_, fun _ _ => List.Subset.refl _, List.Subset.refl _, rfl⟩
  show (s.setPsq _ _ _).psq d' k' ⊆ _
  rw [psq_setPsq]
  split
  · next hd =>
    obtain ⟨rfl, rfl⟩ := hd
    exact List.filter_subset_self _
  · exact List.Subset.refl _

theorem swept_flushAfq (cfg : Cfg) (fn : PktFn) (d : Dest) (s : State) (ac : Ac) :
    Swept s (flushAfq cfg fn d s ac) := by
  have hpkt : ∀ s p, Swept s (flushAfqPkt cfg ac s p) := fun s p =>
    ⟨occupied_back s (cfg.pkt p).entry, fun _ _ => List.Subset.refl _,
      fun _ _ => List.Subset.refl _, List.Subset.refl _, rfl⟩
  unfold flushAfq
  refine Swept.trans ?_ (swept_foldl hpkt _ _)
  refine ⟨fun _ h => h, fun _ _ => List.Subset.refl _, fun d' ac' => ?_, List.Subset.refl _, rfl⟩
  show (s.setAfq _ _ _).afq d' ac' ⊆ _
  rw [afq_setAfq]
  split
  · next hd =>
    obtain ⟨rfl, rfl⟩ := hd
    exact List.filter_subset_self _
  · exact List.Subset.refl _

theorem swept_cleanupEntry (cfg : Cfg) (fn : PktFn) (s : State) (d : Dest) :
    Swept s (cleanupEntry cfg fn s d) := by
  have hpsq := swept_foldl (swept_flushPsq cfg fn d) Prec.all s
  unfold cleanupEntry
  split
  · dsimp only
    generalize Prec.all.foldl (flushPsq cfg fn d) s = t at hpsq ⊢
    have hafq : Swept s (if cfg.afq = true then (List.finRange 5).foldl (flushAfq cfg fn d) t
        else t) := by
      split
      · exact hpsq.trans (swept_foldl (swept_flushAfq cfg fn d) _ t)
      · exact hpsq
    generalize (if cfg.afq = true then _ else _ : State) = u at hafq ⊢
    split
    · refine hafq.trans ⟨fun d' hd => ?_, fun _ _ => List.Subset.refl _,
        fun _ _ => List.Subset.refl _, List.Subset.refl _, rfl⟩
      by_cases hdd : d' = d
      · subst hdd
        rw [setEntry_self] at hd
        cases hd
      · rw [setEntry_of_ne u _ hdd] at hd
        exact hd
    · exact hafq
  · exact .refl s

theorem swept_cleanup (cfg : Cfg) (s : State) (fn : PktFn) : Swept s (cleanup cfg s fn) := by
  have h := (swept_cleanupTxq cfg s fn).trans
    (swept_foldl (swept_cleanupEntry cfg fn) (List.finRange 49) (cleanupTxq cfg s fn))
  unfold cleanup
  dsimp only
  generalize (List.finRange 49).foldl (cleanupEntry cfg fn) (cleanupTxq cfg s fn) = t at h ⊢
  split
  · exact h
  · exact ⟨h.occupied, h.psq, h.afq, h.bus, h.inTxq⟩

/-- No packet that is to be taken from a queue is on the bus. -/
def OffBus (cfg : Cfg) (fn : PktFn) (s : State) : Prop :=
  ∀ d, (s.entry d).occupied = true → ∀ k, ∀ p ∈ s.psq d k, fn.takes cfg p = true → p ∉ s.bus

theorem OffBus.swept (h : OffBus cfg fn s) (hs : Swept s s') : OffBus cfg fn s' := by
  intro d hd k p hp hf hb
  exact h d (hs.occupied d hd) k p (hs.psq d k hp) hf (hs.bus hb)

theorem Inv.foldl_flushPsq {d : Dest} {l : List Prec} (h : Inv cfg s pl [] [] true)
    (ho : ∀ k, ∀ p ∈ s.psq d k, fn.takes cfg p = true → p ∉ s.bus) :
    ∃ pl', Inv cfg (l.foldl (flushPsq cfg fn d) s) pl' [] [] true := by
  induction l generalizing s pl with
  | nil => exact ⟨pl, h⟩
  | cons k l ih =>
    obtain ⟨pl', h'⟩ := h.onFlushPsq fn d k (ho k)
    have hs := swept_flushPsq cfg fn d s k
    exact ih h' fun k' p hp hf hb => ho k' p (hs.psq d k' hp) hf (hs.bus hb)

theorem Inv.foldl_flushAfq {d : Dest} {l : List Ac} (h : Inv cfg s pl [] [] true)
    (hafq : cfg.afq = true) :
    ∃ pl', Inv cfg (l.foldl (flushAfq cfg fn d) s) pl' [] [] true := by
  induction l generalizing s pl with
  | nil => exact ⟨pl, h⟩
  | cons ac l ih =>
    obtain ⟨pl', h'⟩ := h.onFlushAfq hafq fn d ac
    exact ih h'

/-- An entry is given up. -/
theorem Inv.vacate (h : Inv cfg s pl [] [] true) (d : Dest) (b : Bool) :
    Inv cfg (s.setEntry d { s.entry d with occupied := b }) pl [] [] true := by
  have hent : ∀ d', (s.setEntry d { s.entry d with occupied := b }).entry d' =
      { s.entry d' with
        occupied := ((s.setEntry d { s.entry d with occupied := b }).entry d').occupied } := by
    intro d'
    by_cases hd : d' = d
    · subst hd
      rw [setEntry_self]
    · rw [setEntry_of_ne s _ hd]
  refine h.next id (h.congr (samePlaces_setEntry s _ _)) (fun d' => ?_) (fun d' hd _ => ?_)
    (fun _ _ hi => hi) (List.Subset.refl _) fun _ => Or.inl ⟨rfl, fun hi => hi, Iff.rfl⟩
  · have hd := h.count d'
    rw [hent d']
    exact ⟨hd.onbus, hd.all, hd.transit, hd.suppr, hd.gate⟩
  · rw [hent d']
    exact hd

theorem Inv.onCleanupEntry (h : Inv cfg s pl [] [] true) (ho : OffBus cfg fn s) (d : Dest) :
    ∃ pl', Inv cfg (cleanupEntry cfg fn s d) pl' [] [] true := by
  unfold cleanupEntry
  split
  · next hd =>
    dsimp only
    obtain ⟨pl₁, h₁⟩ := h.foldl_flushPsq (l := Prec.all) (ho d hd)
    generalize Prec.all.foldl (flushPsq cfg fn d) s = t at h₁
    obtain ⟨pl₂, h₂⟩ : ∃ pl₂, Inv cfg (if cfg.afq = true then
        (List.finRange 5).foldl (flushAfq cfg fn d) t else t) pl₂ [] [] true := by
      split
      · next hafq => exact h₁.foldl_flushAfq hafq
      · exact ⟨pl₁, h₁⟩
    generalize (if cfg.afq = true then _ else _ : State) = u at h₂
    split
    · exact ⟨pl₂, h₂.vacate d false⟩
    · exact ⟨pl₂, h₂⟩
  · exact ⟨pl, h⟩

theorem Inv.foldl_cleanupEntry {l : List Dest} (h : Inv cfg s pl [] [] true)
    (ho : OffBus cfg fn s) :
    ∃ pl', Inv cfg (l.foldl (cleanupEntry cfg fn) s) pl' [] [] true := by
  induction l generalizing s pl with
  | nil => exact ⟨pl, h⟩
  | cons d l ih =>
    obtain ⟨pl', h'⟩ := h.onCleanupEntry ho d
    exact ih h' (ho.swept (swept_cleanupEntry cfg fn s d))

theorem cleanupTxq_bus (cfg : Cfg) (s : State) (fn : PktFn) :
    (cleanupTxq cfg s fn).bus = s.bus.filter fun p => p ∉ txqTaken cfg s fn := by
  unfold cleanupTxq
  dsimp only
  refine List.foldlRecOn (motive := fun t : State => t.bus = _) _ _ rfl fun t ht p _ => ?_
  unfold cleanupTxqPkt
  dsimp only
  split <;> exact ht

/-- Where the packets are after a clean-up. -/
theorem Inv.onCleanup {w : Bool} (h : Inv cfg s pl [] [] w) (ho : OffBus cfg fn s) :
    ∃ pl', Inv cfg (cleanup cfg s fn) pl' [] [] true := by
  have htxq := swept_cleanupTxq cfg s fn
  have hclear : ∀ p ∈ (cleanupTxq cfg s fn).bus, s.inTxq p = true → fn.takes cfg p = false := by
    intro p hp hi
    rw [cleanupTxq_bus] at hp
    obtain ⟨hb, ht⟩ := List.mem_filter.mp hp
    by_contra hf
    have hmem : p ∈ txqTaken cfg s fn := mem_txqTaken.mpr ⟨hb, hi, by simpa using hf⟩
    simp [hmem] at ht
  obtain ⟨pl₁, h₁⟩ := h.onCleanupTxq fn
  obtain ⟨pl₂, h₂⟩ := h₁.foldl_cleanupEntry (l := List.finRange 49) (ho.swept htxq)
  have hs := swept_foldl (swept_cleanupEntry cfg fn) (List.finRange 49) (cleanupTxq cfg s fn)
  unfold cleanup
  dsimp only
  split
  · exact ⟨pl₂, h₂⟩
  · refine ⟨pl₂, h₂.onHangerFlush fun p hp hi => hclear p (hs.bus hp) ?_⟩
    rw [hs.inTxq, htxq.inTxq] at hi
    exact hi

end Bcmdhd.Wlfc
