import Bcmdhd.Wlfc.Gate

/-!
# Freed exactly once

In hanger mode a packet is freed when both the bus and the firmware are done with it, in whatever
order they report.  A suppressed packet keeps its slot, and loses the bit of the bus when it is
sent again; the gate of its entry is closed until then.

    freed.Nodup,   p ∈ freed → p ∉ bus ∧ p ∉ psq,   p ∈ passed → p ∈ freed ∨ p is still somewhere
-/

namespace Bcmdhd.Wlfc

/-! ## Slots given up -/

/-- No slot is given to another packet. -/
def Shrinks (s s' : State) : Prop :=
  ∀ i, (s'.hanger i).pkt = (s.hanger i).pkt ∨ (s'.hanger i).pkt = none

theorem Shrinks.refl (s : State) : Shrinks s s := fun _ => Or.inl rfl

variable {s s' : State} {i : Slot} {cfg : Cfg}

theorem Shrinks.trans {t u : State} (h : Shrinks s t) (h' : Shrinks t u) : Shrinks s u := by
  intro i
  rcases h' i with he | he
  · rw [he]
    exact h i
  · exact Or.inr he

theorem pkt_update {h : Slot → Item} {it : Item} (hit : it.pkt = (h i).pkt ∨ it.pkt = none)
    (j : Slot) :
    (Function.update h i it j).pkt = (h j).pkt ∨ (Function.update h i it j).pkt = none := by
  by_cases hj : j = i
  · subst hj
    rw [Function.update_self]
    exact hit
  · rw [Function.update_of_ne hj]
    exact Or.inl rfl

theorem pkt_poppkt (h : Slot → Item) (i j : Slot) :
    ((hangerPoppkt h i true).1 j).pkt = (h j).pkt ∨ ((hangerPoppkt h i true).1 j).pkt = none := by
  unfold hangerPoppkt
  split
  · exact pkt_update (Or.inr rfl) j
  · exact Or.inl rfl

theorem shrinks_drop (cfg : Cfg) (k : Prec) (b : Bool) (s : State) (p : Id) :
    Shrinks s (precDrop cfg k b s p) := by
  intro i
  show ((if ¬ cfg.afq = true ∧ k.sup = true then (hangerPoppkt s.hanger _ true).1
    else s.hanger) i).pkt = _ ∨ ((if ¬ cfg.afq = true ∧ k.sup = true then
      (hangerPoppkt s.hanger _ true).1 else s.hanger) i).pkt = _
  split
  · exact pkt_poppkt s.hanger _ i
  · exact Or.inl rfl

theorem shrinks_dropPkts (cfg : Cfg) (s : State) (d : Dest) (k : Prec) :
    Shrinks s (precDropPkts cfg s d k) :=
  List.foldlRecOn (motive := Shrinks s) _ _ (Shrinks.refl s) fun t ht p _ =>
    ht.trans (shrinks_drop cfg k true t p)

theorem shrinks_enqWithDrop (cfg : Cfg) (s : State) (d : Dest) (k : Prec) (p : Id) (qHead : Bool) :
    Shrinks s (precEnqWithDrop cfg s d k p qHead).1 := by
  unfold precEnqWithDrop
  split
  · exact .refl s
  · exact .refl s
  · exact shrinks_dropPkts cfg s d _

theorem shrinks_rollback (cfg : Cfg) (s : State) (p : Id) (needsHdr pulled : Bool) :
    Shrinks s (rollbackPacketToq cfg s p needsHdr pulled) := by
  have hback : ∀ (k : Prec) (r : State × Bool), Shrinks s r.1 →
      Shrinks s (if r.2 then r.1 else precDrop cfg k false r.1 p) := by
    intro k r hr
    split
    · exact hr
    · exact hr.trans (shrinks_drop cfg k false _ p)
  unfold rollbackPacketToq
  dsimp only
  split
  · refine hback _ _ ?_
    split
    · exact shrinks_enqWithDrop cfg (s.setEntry _ _) _ _ p true
    · exact .refl s
  · exact hback _ _ (shrinks_enqWithDrop cfg s _ _ p true)

theorem shrinks_freePkt (cfg : Cfg) (s : State) (i : Slot) (b : PktState) :
    Shrinks s (hangerFreePkt cfg s i b) := by
  unfold hangerFreePkt
  dsimp only
  split
  · split
    · exact Shrinks.trans (t := { s with hanger := Function.update s.hanger i ((s.hanger i).mark b) })
        (pkt_update (Or.inl rfl)) (pkt_poppkt _ i)
    · exact pkt_update (Or.inl rfl)
  · exact pkt_update (Or.inl rfl)

theorem shrinks_statusOf (cfg : Cfg) (s : State) (p : Id) (i : Slot) (suppress gen : Bool) :
    Shrinks s (statusOf cfg s p i suppress gen) := by
  have hmoves : ∀ t : State, Shrinks t (statusMoves cfg t p i suppress gen) := by
    intro t
    unfold statusMoves
    dsimp only
    split
    · have henq := shrinks_enqWithDrop cfg { t with
        tag := Function.update t.tag p { t.tag p with gen := gen } } (cfg.pkt p).entry
        (sup (cfg.pkt p).fifo) p false
      split
      · split
        · exact henq
        · exact Shrinks.trans henq (pkt_update (Or.inl rfl))
      · exact Shrinks.trans henq (shrinks_drop cfg _ false _ p)
    · split
      · exact .refl t
      · exact shrinks_freePkt cfg t i .txstatus
  exact hmoves _

theorem shrinks_statusFinds {t : State} {st : TxStatus} {r : Option (Id × Slot × Bool)}
    (h : statusFinds cfg s st = some (t, r)) : Shrinks s t := by
  unfold statusFinds at h
  split at h
  · split at h
    · next hd =>
      cases h
      rw [dequeAfq_none hd]
      exact .refl s
    · next hd =>
      cases h
      obtain ⟨d, ac, _, rfl⟩ := dequeAfq_some hd
      exact .refl s
  · split at h
    · cases h
      exact .refl s
    · split at h
      · dsimp only at h
        split at h
        · cases h
          exact shrinks_freePkt cfg s _ .txstatus
        · cases h
          exact .refl s
      · cases h

theorem shrinks_status {len : Nat} {st : TxStatus} (hst : st.flag ≠ .suppressAcked)
    {mac mac' : Option Dest} (hs : compressedTxstatusUpdate cfg len s st mac = some (s', mac')) :
    Shrinks s s' := by
  induction len generalizing s st mac with
  | zero =>
    cases hs
    exact .refl _
  | succ len ih =>
    unfold compressedTxstatusUpdate at hs
    split at hs
    · cases hs
    · next u st' m hu =>
      have hfirst : ackedFirst cfg s st = s := if_neg fun h => hst h.1
      unfold txstatusOne at hu
      rw [hfirst] at hu
      dsimp only at hu
      split at hu
      · cases hu
      · next hf =>
        cases hu
        refine (shrinks_statusFinds hf).trans (ih ?_ hs)
        exact hst
      · next hf =>
        cases hu
        refine Shrinks.trans ?_ (ih ?_ hs)
        · exact (shrinks_statusFinds hf).trans (shrinks_statusOf cfg _ _ _ _ _)
        · exact hst

theorem shrinks_suppressTxq {l : List Id} (hs : l.foldlM (suppressPkt cfg) s = some s') :
    Shrinks s s' := by
  induction l generalizing s with
  | nil =>
    cases hs
    exact .refl _
  | cons p l ih =>
    rw [List.foldlM_cons] at hs
    obtain ⟨u, hu, hs⟩ := Option.bind_eq_some_iff.mp hs
    refine Shrinks.trans ?_ (ih hs)
    unfold suppressPkt at hu
    obtain ⟨⟨v, mac⟩, hv, rfl⟩ := Option.map_eq_some_iff.mp hu
    generalize hw : (if cfg.afq = true then _ else _ : State) = w at hv
    have hsw : Shrinks s w := by
      rw [← hw]
      split <;> exact .refl s
    refine hsw.trans (shrinks_status ?_ hv)
    exact nofun

theorem shrinks_txcomplete (cfg : Cfg) (s : State) (p : Id) :
    Shrinks s (txcomplete cfg s p true) := by
  unfold txcomplete
  dsimp only
  rw [if_pos rfl]
  intro i
  show ((if cfg.afq = true then enqueAfq cfg s p else _ : State).hanger i).pkt = _ ∨
    ((if cfg.afq = true then enqueAfq cfg s p else _ : State).hanger i).pkt = _
  split
  · exact Or.inl rfl
  · exact shrinks_freePkt cfg s _ .busreturned i

/-- A slot in use is not given to another packet. -/
theorem pretx_slot (cfg : Cfg) (s : State) (d : Dest) (p : Id) (needsHdr : Bool)
    (hi : (s.hanger i).state ≠ .free) :
    ((pretxPktprocess cfg s d p needsHdr).1.hanger i).pkt = (s.hanger i).pkt := by
  have hsame : ∀ (j : Slot) (it : Item), it.pkt = (s.hanger j).pkt →
      (Function.update s.hanger j it i).pkt = (s.hanger i).pkt := by
    intro j it hit
    by_cases hj : i = j
    · subst hj
      rw [Function.update_self]
      exact hit
    · rw [Function.update_of_ne hj]
  unfold pretxPktprocess pretxNew pretxAgain
  dsimp only
  split
  · split
    · rfl
    · split
      · rfl
      · next j _ =>
        unfold hangerPushpkt
        dsimp only
        split
        · next hj =>
          show (Function.update s.hanger j _ i).pkt = _
          rw [Function.update_of_ne]
          rintro rfl
          exact hi hj
        · rfl
  · split
    · rfl
    · exact hsame _ _ rfl

theorem transfer_slot {d : Dest} {ac : Ac} {fcommit pulled : Bool}
    (hs : transferPacket cfg s d ac fcommit pulled = some s') (hi : (s.hanger i).state ≠ .free) :
    (s'.hanger i).pkt = (s.hanger i).pkt ∨ (s'.hanger i).pkt = none := by
  unfold transferPacket at hs
  split at hs
  · split at hs
    · cases hs
    · next u p needsHdr hdeq =>
      cases hs
      have hu : u.hanger = s.hanger := by
        unfold dequeDelayedq at hdeq
        split at hdeq
        · cases hdeq
          rfl
        · split at hdeq
          · cases hdeq
            rfl
          · cases hdeq
      rw [← hu] at hi ⊢
      rw [← pretx_slot cfg u d p needsHdr hi]
      unfold handlePacketCommit
      dsimp only
      generalize pretxPktprocess cfg u d p needsHdr = r
      split
      · split
        · exact Or.inl rfl
        · refine Shrinks.trans (t := _) ?_ (shrinks_rollback cfg _ p needsHdr true) i
          split
          · exact pkt_poppkt r.1.hanger _
          · exact .refl r.1
      · exact shrinks_rollback cfg r.1 p needsHdr pulled i
  · cases hs

theorem shrinks_commitPackets (cfg : Cfg) (s : State) (p : Id) :
    Shrinks s (commitPackets cfg s p) := by
  have henq := shrinks_enqWithDrop cfg { s with passed := s.passed ++ [p] } (cfg.pkt p).entry
    (dly (cfg.pkt p).fifo) p false
  unfold commitPackets
  dsimp only
  split
  · exact henq
  · exact Shrinks.trans henq (shrinks_drop cfg _ false _ p)

/-! ## Runs -/

/-- The bus succeeds, the firmware reports each transmission once, nothing is flushed; queues may
overflow, as long as no packet on the bus is dropped. -/
def Act.Once (cfg : Cfg) (s : State) (a : Act) : Prop :=
  a.Keeps cfg s ∧
    match a with
    | .txcomplete _ success => success = true
    | .txstatus _ st => st.flag ≠ .suppressAcked
    | .cleanupTxq _ => False
    | _ => True

/-- A packet that has been handed to the bus, and is not done with. -/
def State.Sent (s : State) (p : Id) : Prop :=
  p ∈ s.bus ∨ p ∈ s.air ∨ ∃ d ac, p ∈ s.psq d (sup ac)

/-- What has been freed is gone, and what has not is somewhere; every slot that is not free is that
of a packet. -/
structure FreedOnce (s : State) : Prop where
  once : s.freed.Nodup
  done : ∀ p ∈ s.freed, p ∈ s.passed ∧ p ∉ s.bus ∧ p ∉ s.air ∧ ∀ d k, p ∉ s.psq d k
  somewhere : ∀ p ∈ s.passed, p ∈ s.freed ∨ p ∈ s.bus ∨ p ∈ s.air ∨ ∃ d k, p ∈ s.psq d k
  slot : ∀ i, (s.hanger i).state = .free ∨
    ∃ p, (s.hanger i).pkt = some p ∧ (s.tag p).hslot = i ∧ p ∈ s.passed ∧ p ∉ s.freed
  sent : ∀ p, s.Sent p → (s.hanger (s.tag p).hslot).pkt = some p
  apart : ∀ p q, s.Sent p → s.Sent q → (s.tag p).hslot = (s.tag q).hslot → p = q

theorem Inv.freedOnce {pl : Id → Place} (h : Inv cfg s pl [] [] false) (hm : cfg.afq = false) :
    FreedOnce s := by
  have hsent : ∀ p, s.Sent p → (s.hanger (s.tag p).hslot).pkt = some p := by
    intro p hp
    refine ((h.places p).item hm ?_).1
    rcases hp with hb | ha | ⟨d, ac, hq⟩
    · obtain ⟨f, hx | hx⟩ := h.onBus hb <;> rw [hx] <;> rfl
    · rcases h.atFw ha with ⟨b, hx⟩ | hx <;> rw [hx] <;> rfl
    · have hk := (((h.places p).psq d (sup ac)).mp hq).2.2
      cases hpl : pl p with
      | suppressed b => rfl
      | delayed =>
        rw [hpl] at hk
        cases hk
      | fresh | hand | flying | reported | taken | freed =>
        rw [hpl] at hk
        cases hk
  refine ⟨h.freed, fun p hp => ?_, fun p hp => ?_, fun i => ?_, hsent, fun p q hp hq he => ?_⟩
  · have hx : ∃ b, pl p = .freed b := by
      have hd := (h.places p).freed.mp hp
      cases hpl : pl p with
      | freed b => exact ⟨b, rfl⟩
      | fresh | hand | delayed | suppressed | flying | reported | taken =>
        rw [hpl] at hd
        cases hd
    obtain ⟨b, hx⟩ := hx
    have hat := h.places p
    rw [hx] at hat
    refine ⟨hat.passed.mpr nofun, fun hb => ?_, fun ha => ?_, fun d k hq => ?_⟩
    · exact nomatch hat.bus.mp hb
    · exact nomatch hat.air.mp ha
    · exact nomatch ((hat.psq d k).mp hq).2.2
  · have hat := h.places p
    have hh := (h.tracked p).handed
    have ht := (h.tracked p).taken.mp
    cases hpl : pl p with
    | fresh => exact absurd hpl (hat.passed.mp hp)
    | delayed =>
      rw [hpl] at hat
      exact Or.inr (Or.inr (Or.inr ⟨_, dly _, (hat.psq _ _).mpr ⟨rfl, rfl, rfl⟩⟩))
    | suppressed b =>
      rw [hpl] at hat
      exact Or.inr (Or.inr (Or.inr ⟨_, sup _, (hat.psq _ _).mpr ⟨rfl, rfl, rfl⟩⟩))
    | flying b f =>
      rw [hpl] at hat
      cases b with
      | true => exact Or.inr (Or.inl (hat.bus.mpr rfl))
      | false =>
        cases f with
        | true => exact Or.inr (Or.inr (Or.inl (hat.air.mpr rfl)))
        | false => exact absurd rfl hat.undone
    | freed b =>
      rw [hpl] at hat
      exact Or.inl (hat.freed.mpr rfl)
    | taken => exact nomatch ht hpl
    | hand b =>
      rw [hpl] at hh
      cases hh
    | reported b =>
      rw [hpl] at hh
      cases hh
  · by_cases hs : (s.hanger i).state = .free
    · exact Or.inl hs
    · obtain ⟨p, hp⟩ := Option.ne_none_iff_exists'.mp fun hn => hs ((h.toShape.free i).mpr hn)
      obtain ⟨ht, hh⟩ := h.owner hm i p hp
      have hat := h.places p
      refine Or.inr ⟨p, hp, ht, hat.passed.mpr fun hx => ?_, fun hf => ?_⟩
      · rw [hx] at hh
        cases hh
      · have hd := hat.freed.mp hf
        cases hpl : pl p with
        | freed b =>
          rw [hpl] at hh
          cases hh
          exact (h.tracked p).clean rfl hpl
        | fresh | hand | delayed | suppressed | flying | reported | taken =>
          rw [hpl] at hd
          cases hd
  · have := hsent p hp
    rw [he, hsent q hq] at this
    exact (Option.some.inj this).symm

theorem step_slot {a : Act} (ha : a.Once cfg s) (hs : step cfg s a = some s')
    (hi : (s.hanger i).state ≠ .free) :
    (s'.hanger i).pkt = (s.hanger i).pkt ∨ (s'.hanger i).pkt = none := by
  cases a with
  | commitPackets p =>
    unfold step at hs
    dsimp only at hs
    split at hs
    · cases hs
    · cases hs
      exact shrinks_commitPackets cfg s p i
  | transferPacket d ac fcommit pulled => exact transfer_slot hs hi
  | send p =>
    unfold step at hs
    dsimp only at hs
    split at hs
    · cases hs
      exact Or.inl rfl
    · cases hs
  | txcomplete p success =>
    obtain rfl : success = true := ha.2
    unfold step at hs
    dsimp only at hs
    split at hs
    · cases hs
      exact shrinks_txcomplete cfg s p i
    · cases hs
  | txstatus len st =>
    obtain ⟨⟨u, mac⟩, hu, rfl⟩ := Option.map_eq_some_iff.mp hs
    exact shrinks_status ha.2 hu i
  | suppressTxq d => exact shrinks_suppressTxq (s := s.leaveTxq _) hs i
  | cleanupTxq fn => exact absurd ha.2 id

/-- A packet goes to the bus when it is not there. -/
theorem Inv.commits {pl : Id → Place} (h : Inv cfg s pl [] [] false) {d : Dest} {ac : Ac}
    {fcommit pulled : Bool} (hs : transferPacket cfg s d ac fcommit pulled = some s') :
    s'.bus = s.bus ∨ ∃ p, p ∉ s.bus ∧ s'.bus = s.bus ++ [p] := by
  obtain ⟨pl', h'⟩ := h.onTransfer hs
  unfold transferPacket at hs
  split at hs
  · next hg =>
    split at hs
    · cases hs
    · next u p needsHdr hdeq =>
      cases hs
      have hd := h.dequeue (h.open hg) hdeq
      have hcalm := calm_dequeue hdeq
      rcases hd.rel.commit fcommit pulled (Function.update_self _ _ _) hd.entry hd.psq with
        hret | ⟨v, hv, he, hrel, _⟩
      · exact Or.inl (hcalm.trans hret.calm).bus
      · have hbus : (handlePacketCommit cfg u d p needsHdr fcommit pulled).bus = s.bus ++ [p] := by
          rw [he, ← (hcalm.trans hv).bus]
          rfl
        refine Or.inr ⟨p, fun hp => ?_, hbus⟩
        have hnd := h'.bus
        rw [hbus] at hnd
        exact (List.nodup_append.mp hnd).2.2 p hp p List.mem_cons_self rfl
  · cases hs

/-- Every packet is freed once, in every run and at every step that may follow. -/
theorem hanger_frees_once (cfg : Cfg) (hm : cfg.afq = false) (occupied : Dest → Bool) {s : State}
    (h : Reach cfg occupied (fun s a => a.Once cfg s) s) :
    FreedOnce s ∧ ∀ a s', a.Once cfg s → step cfg s a = some s' →
      (∀ p i, (s.hanger i).pkt = some p → p ∈ s'.freed → (s'.hanger i).state = .free) ∧
      (∀ d ac fcommit pulled, a = .transferPacket d ac fcommit pulled →
        s'.bus = s.bus ∨ ∃ p, p ∉ s.bus ∧ s'.bus = s.bus ++ [p]) := by
  obtain ⟨pl, hi⟩ := h.inv fun _ _ ha => ha.1
  refine ⟨hi.freedOnce hm, fun a s' ha hs => ⟨fun p i hp hf => ?_, fun d ac fcommit pulled he => ?_⟩⟩
  · obtain ⟨pl', hi'⟩ := hi.onStep ha.1.tracks hs
    rcases (hi'.freedOnce hm).slot i with hfree | ⟨q, hq, _, _, hnf⟩
    · exact hfree
    · rcases step_slot ha hs (hi.state_ne_free hp) with he | he
      · rw [he, hp] at hq
        cases hq
        exact absurd hf hnf
      · rw [he] at hq
        cases hq
  · subst he
    exact hi.commits hs

theorem Act.checked_once {a : Act} (h : a.checked cfg s = true) :
    a.Once cfg s := by
  refine ⟨Act.checked_keeps h, ?_⟩
  cases a with
  | commitPackets | transferPacket | send | suppressTxq => trivial
  | txcomplete p success => exact h
  | txstatus len st => exact (TxStatus.checked_found (Bool.and_eq_true_iff.mp h).2).1
  | cleanupTxq => cases h

/-- Packet 1 is suppressed, and sent again. -/
def sentAgain : List Act :=
  [.commitPackets 1, .transferPacket firstDest firstAc true true, .send 1, .txcomplete 1 true,
    .txstatus 1 ⟨.wlSuppress, 1, 0, 0, true, false⟩, .transferPacket firstDest firstAc true true,
    .send 1, .txcomplete 1 true]

/-- The status that then comes frees it, and its slot. -/
theorem hanger_frees_once_again : ∃ s s' : State, FreedOnce s ∧ s.freed = [] ∧ s.air = [1] ∧
    (∀ p i, (s.hanger i).pkt = some p → p ∈ s'.freed → (s'.hanger i).state = .free) ∧
    FreedOnce s' ∧ s'.freed = [1] := by
  let last : Act := .txstatus 1 ⟨.discard, 1, 0, 0, true, false⟩
  have hrun : (sentAgain.foldlM (stepIf plain (Act.checked plain)) (.init fun _ => true)).bind
      (fun s => (step plain s last).map fun s' => decide (last.checked plain s ∧ s.freed = [] ∧
        s.air = [1] ∧ s'.freed = [1])) = some true := by decide +kernel
  obtain ⟨s, hs, hnext⟩ := Option.bind_eq_some_iff.mp hrun
  obtain ⟨s', hs', he⟩ := Option.map_eq_some_iff.mp hnext
  obtain ⟨hlast, hfreed, hair, hfreed'⟩ := of_decide_eq_true he
  have hreach : Reach plain (fun _ => true) (fun s a => a.Once plain s) s :=
    reach_run (fun _ _ => Act.checked_once) .init hs
  have honce := Act.checked_once hlast
  obtain ⟨hf, hstep⟩ := hanger_frees_once plain rfl _ hreach
  have hf' := (hanger_frees_once plain rfl _ (hreach.step last honce hs')).1
  exact ⟨s, s', hf, hfreed, hair, (hstep last s' honce hs').1, hf', hfreed'⟩

end Bcmdhd.Wlfc
