import Bcmdhd.Wlfc.Counters
import Mathlib.Algebra.GroupWithZero.Nat

/-!
# The queues of an entry

A queue has the packets of its entry and of its access category, and an entry has no more than
`n_pkts_tot` may be: whatever is called, in whatever order.
-/

namespace Bcmdhd.Wlfc

/-! ## Lengths -/

theorem sum_update {α : Type} [DecidableEq α] {l : List α} (hl : l.Nodup) (f : α → Nat) {k : α}
    (hk : k ∈ l) (n : Nat) :
    (l.map (Function.update f k n)).sum + f k = (l.map f).sum + n := by
  induction l with
  | nil => cases hk
  | cons a l ih =>
    obtain ⟨hal, hl⟩ := List.nodup_cons.mp hl
    rw [List.map_cons, List.map_cons, List.sum_cons, List.sum_cons]
    by_cases ha : k = a
    · subst ha
      have hrest : l.map (Function.update f k n) = l.map f :=
        List.map_congr_left fun b hb => Function.update_of_ne (ne_of_mem_of_not_mem hb hal) n f
      rw [Function.update_self, hrest]
      omega
    · have hrest := ih hl ((List.mem_cons.mp hk).resolve_left ha)
      rw [Function.update_of_ne (Ne.symm ha)]
      omega

theorem psqTot_eq (s : State) (d : Dest) :
    psqTot s d = (Prec.all.map fun k => (s.psq d k).length).sum := by
  unfold psqTot
  rw [List.sum_eq_foldl, List.foldl_map]

theorem psqTot_setPsq (s : State) (d : Dest) (k : Prec) (l : List Id) :
    psqTot (s.setPsq d k l) d + (s.psq d k).length = psqTot s d + l.length := by
  have hlengths : (fun k' => ((s.setPsq d k l).psq d k').length) =
      Function.update (fun k' => (s.psq d k').length) k l.length := by
    funext k'
    rw [psq_setPsq]
    by_cases hk : k' = k
    · rw [if_pos ⟨rfl, hk⟩, hk, Function.update_self]
    · rw [if_neg fun h => hk h.2, Function.update_of_ne hk]
  rw [psqTot_eq, psqTot_eq, hlengths]
  exact sum_update nodup_all (fun k' => (s.psq d k').length) (mem_all k) l.length

variable {d : Dest} {l : List Id} {s' : State} {k : Prec}

theorem psqTot_other (s : State) {d' : Dest} (h : d' ≠ d) (k : Prec) (l : List Id) :
    psqTot (s.setPsq d k l) d' = psqTot s d' := by
  have hlengths : (fun k' => ((s.setPsq d k l).psq d' k').length) =
      fun k' => (s.psq d' k').length := by
    funext k'
    rw [psq_setPsq, if_neg fun hk => h hk.1]
  rw [psqTot_eq, psqTot_eq, hlengths]

theorem length_le_psqTot (s : State) (d : Dest) (k : Prec) : (s.psq d k).length ≤ psqTot s d := by
  rw [psqTot_eq]
  exact List.single_le_sum (fun _ _ => Nat.zero_le _) _ (List.mem_map.mpr ⟨k, mem_all k, rfl⟩)

theorem room_enough {cfg : Cfg} {s : State} (h : psqTot s d < cfg.psqLen) (k : Prec) :
    room cfg s d k = .enough :=
  if_pos ⟨Nat.lt_of_le_of_lt (length_le_psqTot s d k) h, h⟩

/-! ## Evicted packets -/

/-- `first` is behind, or nothing has been found. -/
theorem dropRange_spec (frag : Id → Frag) (l : List Id) (i : Nat) {first : Option Nat}
    (hfirst : ∀ f ∈ first, f < i) :
    0 < (dropRange frag l i first).2 ∧
      ((dropRange frag l i first).1 < i + l.length ∨ (dropRange frag l i first).1 = 0) := by
  fun_induction dropRange frag l i first with
  | case1 => exact ⟨Nat.one_pos, .inr rfl⟩
  | case2 => exact ⟨Nat.one_pos, .inl (by simp)⟩
  | case3 i p l f hp =>
    have hf := hfirst f rfl
    simp only [List.length_cons]
    omega
  | case4 i p l hp ih =>
    simp only [List.length_cons]
    have hrest := ih fun f hf => by
      cases hf
      exact Nat.lt_succ_self _
    omega
  | case5 i p l f hp =>
    have hf := hfirst f rfl
    simp only [List.length_cons]
    omega
  | case6 i first p l _ _ _ _ ih =>
    simp only [List.length_cons]
    have hrest := ih fun f hf => Nat.lt_succ_of_lt (hfirst f hf)
    omega

/-- At least one packet goes. -/
theorem kept_shorter (cfg : Cfg) (hl : l ≠ []) :
    (keptPkts cfg l).length < l.length := by
  have hpos := List.length_pos_iff.mpr hl
  obtain ⟨hcount, hstart⟩ := @dropRange_spec (fun p => (cfg.pkt p).frag) l 0 none nofun
  unfold keptPkts dropped
  rw [List.length_append, List.length_take, List.length_drop]
  omega

theorem kept_sublist (cfg : Cfg) (l : List Id) : keptPkts cfg l ⊆ l := by
  intro p hp
  rcases List.mem_append.mp hp with hp | hp
  · exact List.mem_of_mem_take hp
  · exact List.mem_of_mem_drop hp

/-! ## Invariant -/

/-- The queues have the packets of their entry, and no more than they may. -/
structure Queued (cfg : Cfg) (s : State) (d : Dest) : Prop where
  own : ∀ k, ∀ p ∈ s.psq d k, (cfg.pkt p).entry = d ∧ (cfg.pkt p).fifo = k.ac
  fits : psqTot s d ≤ cfg.psqLen

def AllQueued (cfg : Cfg) (s : State) : Prop := ∀ d, Queued cfg s d

theorem allQueued_init (cfg : Cfg) (occupied : Dest → Bool) : AllQueued cfg (.init occupied) :=
  fun _ => ⟨nofun, Nat.zero_le _⟩

section

variable {cfg : Cfg} {s : State}

theorem AllQueued.congr (h : AllQueued cfg s) (hs : s'.psq = s.psq) :
    AllQueued cfg s' := by
  intro d
  refine ⟨?_, ?_⟩
  · rw [hs]
    exact (h d).own
  · rw [psqTot_eq, hs, ← psqTot_eq]
    exact (h d).fits

theorem AllQueued.setPsq (h : AllQueued cfg s)
    (hl : ∀ p ∈ l, (cfg.pkt p).entry = d ∧ (cfg.pkt p).fifo = k.ac)
    (hfits : psqTot s d + l.length ≤ cfg.psqLen + (s.psq d k).length) :
    AllQueued cfg (s.setPsq d k l) := by
  intro d'
  by_cases hd : d' = d
  · subst hd
    refine ⟨fun k' p hp => ?_, ?_⟩
    · rw [psq_setPsq] at hp
      split at hp
      · next hk =>
        rw [hk.2]
        exact hl p hp
      · exact (h d').own k' p hp
    · have htot := psqTot_setPsq s d' k l
      omega
  · refine ⟨fun k' p hp => ?_, ?_⟩
    · rw [psq_setPsq, if_neg fun hk => hd hk.1] at hp
      exact (h d').own k' p hp
    · rw [psqTot_other s hd]
      exact (h d').fits

theorem AllQueued.shrink (h : AllQueued cfg s) (hl : l ⊆ s.psq d k)
    (hlen : l.length ≤ (s.psq d k).length) :
    AllQueued cfg (s.setPsq d k l) := by
  have hfits := (h d).fits
  exact h.setPsq (fun p hp => (h d).own k p (hl hp)) (by omega)

theorem AllQueued.drop (h : AllQueued cfg s) (k : Prec) (b : Bool) (p : Id) :
    AllQueued cfg (precDrop cfg k b s p) := h.congr rfl

theorem foldl_drop_psq (cfg : Cfg) (k : Prec) (b : Bool) (l : List Id) (s : State) :
    (l.foldl (precDrop cfg k b) s).psq = s.psq := by
  refine List.foldlRecOn (motive := fun t : State => t.psq = s.psq) l _ rfl fun t ht p _ => ?_
  exact ht

theorem dropPkts_psq (cfg : Cfg) (s : State) (d : Dest) (k : Prec) :
    (precDropPkts cfg s d k).psq = (s.setPsq d k (keptPkts cfg (s.psq d k))).psq :=
  foldl_drop_psq ..

theorem psqTot_congr {s : State} (hs : s'.psq = s.psq) (d : Dest) : psqTot s' d = psqTot s d := by
  rw [psqTot_eq, psqTot_eq, hs]

theorem AllQueued.enque (h : AllQueued cfg s) {p : Id} (qHead : Bool) (hk : (cfg.pkt p).fifo = k.ac)
    (hroom : psqTot s (cfg.pkt p).entry < cfg.psqLen) :
    AllQueued cfg (precEnque cfg s (cfg.pkt p).entry k p qHead) := by
  obtain ⟨l, hl, hperm⟩ := precEnque_eq cfg s (cfg.pkt p).entry k p qHead
  rw [hl]
  have hlen := hperm.length_eq
  rw [List.length_cons] at hlen
  refine h.setPsq (fun q hq => ?_) (by omega)
  rcases List.mem_cons.mp (hperm.mem_iff.mp hq) with rfl | hq
  · exact ⟨rfl, hk⟩
  · exact (h _).own k q hq

theorem AllQueued.evict (h : AllQueued cfg s) (hk : s.psq d k ≠ []) :
    AllQueued cfg (precDropPkts cfg s d k) ∧ psqTot (precDropPkts cfg s d k) d < cfg.psqLen := by
  have hshort := kept_shorter cfg hk
  refine ⟨(h.shrink (kept_sublist cfg _) hshort.le).congr (dropPkts_psq cfg s d k), ?_⟩
  rw [psqTot_congr (dropPkts_psq cfg s d k)]
  have htot := psqTot_setPsq s d k (keptPkts cfg (s.psq d k))
  have hfits := (h d).fits
  omega

/-- A queue that is evicted from has packets. -/
theorem evict_ne_nil {e : Prec} (hlen : 0 < cfg.psqLen) (he : room cfg s d k = .evict e) :
    s.psq d e ≠ [] := by
  unfold room at he
  split at he
  · cases he
  · split at he
    · next hfull =>
      cases he
      exact List.length_pos_iff.mp (Nat.lt_of_lt_of_le hlen hfull)
    · split at he
      · cases he
      · next e' hpeek =>
        have htail : s.psq d e' ≠ [] := by
          have hsome := List.find?_some hpeek
          simpa using hsome
        split at he
        · split at he
          · cases he
          · next hempty =>
            cases he
            simpa using hempty
        · cases he
          exact htail

theorem AllQueued.enqWithDrop (h : AllQueued cfg s) (hlen : 0 < cfg.psqLen) {p : Id} (qHead : Bool)
    (hk : (cfg.pkt p).fifo = k.ac) :
    AllQueued cfg (precEnqWithDrop cfg s (cfg.pkt p).entry k p qHead).1 := by
  unfold precEnqWithDrop
  split
  · exact h
  · next hroom =>
    refine AllQueued.congr (h.enque qHead hk ?_) rfl
    unfold room at hroom
    split at hroom
    · next hfits => exact hfits.2
    · split at hroom
      · cases hroom
      · split at hroom
        · cases hroom
        · split at hroom
          · split at hroom <;> cases hroom
          · cases hroom
  · next e he =>
    obtain ⟨hevict, htot⟩ := h.evict (evict_ne_nil hlen he)
    exact AllQueued.congr (hevict.enque qHead hk htot) rfl

/-! ## Commit -/

theorem AllQueued.enqOrDrop {r : State × Bool} (h : AllQueued cfg r.1) (k : Prec) (p : Id) :
    AllQueued cfg (if r.2 then r.1 else precDrop cfg k false r.1 p) := by
  split
  · exact h
  · exact h.drop k false p

theorem AllQueued.commitPackets (h : AllQueued cfg s) (hlen : 0 < cfg.psqLen) (p : Id) :
    AllQueued cfg (commitPackets cfg s p) := by
  have hpassed : AllQueued cfg { s with passed := s.passed ++ [p] } := h.congr rfl
  have henq := hpassed.enqWithDrop hlen (k := dly (cfg.pkt p).fifo) (p := p) false rfl
  unfold Wlfc.commitPackets
  dsimp only
  split
  · exact henq.congr rfl
  · exact henq.drop _ false p

theorem AllQueued.dequeue (h : AllQueued cfg s) {t : State} {ac : Ac} {p : Id} {needsHdr : Bool}
    (hd : dequeDelayedq cfg s d ac = some (t, p, needsHdr)) :
    AllQueued cfg t := by
  have htail : ∀ k l, s.psq d k = p :: l → AllQueued cfg (s.setPsq d k l) := by
    intro k l hl
    refine h.shrink ?_ ?_
    · rw [hl]
      exact List.subset_cons_self p l
    · rw [hl]
      exact Nat.le_succ _
  unfold dequeDelayedq at hd
  split at hd
  · next l hl =>
    cases hd
    exact (htail _ l hl).congr rfl
  · split at hd
    · next l hl =>
      cases hd
      exact (htail _ l hl).congr rfl
    · cases hd

theorem AllQueued.rollback (h : AllQueued cfg s) (hlen : 0 < cfg.psqLen) (p : Id)
    (needsHdr pulled : Bool) : AllQueued cfg (rollbackPacketToq cfg s p needsHdr pulled) := by
  unfold rollbackPacketToq
  dsimp only
  split
  · refine AllQueued.enqOrDrop ?_ _ p
    split
    · refine AllQueued.enqWithDrop ?_ hlen true rfl
      exact h.congr rfl
    · exact h.congr rfl
  · exact (h.enqWithDrop hlen true rfl).enqOrDrop _ p

theorem AllQueued.transfer (h : AllQueued cfg s) (hlen : 0 < cfg.psqLen) {ac : Ac}
    {fcommit pulled : Bool} (hs : transferPacket cfg s d ac fcommit pulled = some s') :
    AllQueued cfg s' := by
  have hcommit : ∀ {t : State} (p : Id) (needsHdr : Bool), AllQueued cfg t →
      AllQueued cfg (handlePacketCommit cfg t d p needsHdr fcommit pulled) := by
    intro t p needsHdr ht
    have hpretx := ht.congr (pretx_psq cfg t d p needsHdr)
    unfold handlePacketCommit
    dsimp only
    split
    · split
      · exact hpretx.congr rfl
      · refine AllQueued.rollback ?_ hlen p needsHdr true
        split
        · exact hpretx.congr rfl
        · exact hpretx
    · exact hpretx.rollback hlen p needsHdr pulled
  unfold transferPacket at hs
  split at hs
  · split at hs
    · cases hs
    · next hd =>
      cases hs
      exact hcommit _ _ (h.dequeue hd)
  · cases hs

/-! ## Completion and status -/

theorem freePkt_psq (cfg : Cfg) (s : State) (i : Slot) (b : PktState) :
    (hangerFreePkt cfg s i b).psq = s.psq := by
  unfold hangerFreePkt
  split
  · dsimp only
    split <;> rfl
  · rfl

theorem txcomplete_psq (cfg : Cfg) (s : State) (p : Id) (success : Bool) :
    (txcomplete cfg s p success).psq = s.psq := by
  unfold txcomplete
  dsimp only
  split
  · split
    · rfl
    · exact freePkt_psq ..
  · split <;> rfl

theorem AllQueued.status (h : AllQueued cfg s) (hlen : 0 < cfg.psqLen) (p : Id) (i : Slot)
    (suppress gen : Bool) : AllQueued cfg (statusOf cfg s p i suppress gen) := by
  have hmoves : ∀ {t : State}, AllQueued cfg t →
      AllQueued cfg (statusMoves cfg t p i suppress gen) := by
    intro t ht
    unfold statusMoves
    dsimp only
    split
    · have htag : AllQueued cfg { t with
          tag := Function.update t.tag p { t.tag p with gen := gen } } := ht.congr rfl
      have henq := htag.enqWithDrop hlen (k := sup (cfg.pkt p).fifo) (p := p) false rfl
      split
      · split
        · exact henq
        · exact henq.congr rfl
      · exact henq.drop _ false p
    · split
      · exact ht.congr rfl
      · exact ht.congr (freePkt_psq ..)
  unfold statusOf
  dsimp only
  refine AllQueued.congr (hmoves ?_) rfl
  exact h.congr rfl

theorem finds_psq {t : State} {st : TxStatus} {r : Option (Id × Slot × Bool)}
    (hf : statusFinds cfg s st = some (t, r)) : t.psq = s.psq := by
  unfold statusFinds at hf
  split at hf
  · split at hf
    · next hd =>
      cases hf
      rw [dequeAfq_none hd]
    · next hd =>
      cases hf
      obtain ⟨d, ac, _, rfl⟩ := dequeAfq_some hd
      rfl
  · split at hf
    · cases hf
      rfl
    · split at hf
      · dsimp only at hf
        split at hf
        · cases hf
          exact freePkt_psq ..
        · cases hf
          rfl
      · cases hf

theorem AllQueued.acked (h : AllQueued cfg s) (st : TxStatus) :
    AllQueued cfg (suppressedAckedUpdate cfg s st) := by
  unfold suppressedAckedUpdate
  dsimp only
  split
  · exact h
  · split
    · exact h
    · next ac _ _ p _ =>
      have hshrink : AllQueued cfg (s.setPsq (entryOf st.hslot) (sup ac)
          ((s.psq (entryOf st.hslot) (sup ac)).erase p)) :=
        h.shrink List.erase_subset (List.length_erase_le ..)
      split
      · exact hshrink.congr rfl
      · split <;> exact hshrink.congr rfl

theorem AllQueued.reports (hlen : 0 < cfg.psqLen) {len : Nat} {st : TxStatus}
    {mac mac' : Option Dest} (h : AllQueued cfg s)
    (hs : compressedTxstatusUpdate cfg len s st mac = some (s', mac')) : AllQueued cfg s' := by
  induction len generalizing s st mac with
  | zero =>
    cases hs
    exact h
  | succ len ih =>
    unfold compressedTxstatusUpdate at hs
    split at hs
    · cases hs
    · next u st' m hone =>
      refine ih ?_ hs
      obtain ⟨v, r, hv, hr⟩ := txstatusOne_some hone
      have hfirst : AllQueued cfg (ackedFirst cfg s st) := by
        unfold ackedFirst
        split
        · exact h.acked st
        · exact h
      have hfound := hfirst.congr (finds_psq hv)
      rcases hr with ⟨_, rfl⟩ | ⟨p, i, suppress, _, rfl⟩
      · exact hfound
      · exact hfound.status hlen p i suppress st.gen

theorem AllQueued.suppressAll (hlen : 0 < cfg.psqLen) (h : AllQueued cfg s)
    (hs : l.foldlM (suppressPkt cfg) s = some s') : AllQueued cfg s' := by
  induction l generalizing s with
  | nil =>
    cases hs
    exact h
  | cons p l ih =>
    rw [List.foldlM_cons] at hs
    obtain ⟨u, hu, hs⟩ := Option.bind_eq_some_iff.mp hs
    refine ih ?_ hs
    unfold suppressPkt at hu
    obtain ⟨⟨v, mac⟩, hv, rfl⟩ := Option.map_eq_some_iff.mp hu
    refine AllQueued.reports hlen ?_ hv
    split <;> exact h.congr rfl

/-! ## Clean-up -/

theorem cleanupTxq_psq (cfg : Cfg) (s : State) (fn : PktFn) : (cleanupTxq cfg s fn).psq = s.psq := by
  refine List.foldlRecOn (motive := fun t : State => t.psq = s.psq) _ _ rfl fun t ht p _ => ?_
  unfold cleanupTxqPkt
  dsimp only
  split <;> exact ht

theorem AllQueued.flushPsq (h : AllQueued cfg s) (fn : PktFn) (d : Dest) (k : Prec) :
    AllQueued cfg (flushPsq cfg fn d s k) := by
  have hshrink : AllQueued cfg
      (s.setPsq d k ((s.psq d k).filter fun p => !fn.takes cfg p)) :=
    h.shrink (List.filter_subset_self _) (List.length_filter_le ..)
  refine List.foldlRecOn (motive := fun t => AllQueued cfg t) _ _ (hshrink.congr rfl)
    fun t ht p _ => ?_
  unfold flushPsqPkt
  dsimp only
  split <;> exact ht.congr rfl

theorem flushAfq_psq (cfg : Cfg) (fn : PktFn) (d : Dest) (s : State) (ac : Ac) :
    (flushAfq cfg fn d s ac).psq = s.psq :=
  List.foldlRecOn (motive := fun t : State => t.psq = s.psq) _ _ rfl fun _ ht _ _ => ht

theorem AllQueued.cleanupEntry (h : AllQueued cfg s) (fn : PktFn) (d : Dest) :
    AllQueued cfg (cleanupEntry cfg fn s d) := by
  have hflushed : AllQueued cfg (Prec.all.foldl (Wlfc.flushPsq cfg fn d) s) :=
    List.foldlRecOn (motive := fun t => AllQueued cfg t) _ _ h fun t ht k _ => ht.flushPsq fn d k
  have hafq : ∀ {t : State}, AllQueued cfg t →
      AllQueued cfg ((List.finRange 5).foldl (flushAfq cfg fn d) t) := fun ht =>
    List.foldlRecOn (motive := fun t => AllQueued cfg t) _ _ ht fun t ht ac _ =>
      ht.congr (flushAfq_psq cfg fn d t ac)
  unfold Wlfc.cleanupEntry
  split
  · dsimp only
    generalize Prec.all.foldl (Wlfc.flushPsq cfg fn d) s = t at hflushed
    have hboth : AllQueued cfg
        (if cfg.afq = true then (List.finRange 5).foldl (flushAfq cfg fn d) t else t) := by
      split
      · exact hafq hflushed
      · exact hflushed
    generalize (if cfg.afq = true then _ else _ : State) = u at hboth
    split
    · exact hboth.congr rfl
    · exact hboth
  · exact h

theorem AllQueued.cleanup (h : AllQueued cfg s) (fn : PktFn) : AllQueued cfg (cleanup cfg s fn) := by
  have hentries : AllQueued cfg ((List.finRange 49).foldl (Wlfc.cleanupEntry cfg fn)
      (cleanupTxq cfg s fn)) :=
    List.foldlRecOn (motive := fun t => AllQueued cfg t) _ _
      (h.congr (cleanupTxq_psq cfg s fn)) fun t ht d _ => ht.cleanupEntry fn d
  unfold Wlfc.cleanup
  dsimp only
  generalize (List.finRange 49).foldl (Wlfc.cleanupEntry cfg fn) (cleanupTxq cfg s fn) = t
    at hentries
  split
  · exact hentries
  · exact hentries.congr rfl

/-! ## Runs -/

theorem AllQueued.onCall (h : AllQueued cfg s) (hlen : 0 < cfg.psqLen) {c : Call}
    (hs : call cfg s c = some s') : AllQueued cfg s' := by
  cases c with
  | cleanup fn =>
    cases hs
    exact h.cleanup fn
  | act a =>
    cases a with
    | commitPackets p =>
      unfold call step at hs
      dsimp only at hs
      split at hs
      · cases hs
      · cases hs
        exact h.commitPackets hlen p
    | transferPacket d ac fcommit pulled => exact h.transfer hlen hs
    | send p =>
      unfold call step at hs
      dsimp only at hs
      split at hs
      · cases hs
        exact h.congr rfl
      · cases hs
    | txcomplete p success =>
      unfold call step at hs
      dsimp only at hs
      split at hs
      · cases hs
        exact h.congr (txcomplete_psq cfg s p success)
      · cases hs
    | txstatus len st =>
      obtain ⟨⟨u, mac⟩, hu, rfl⟩ := Option.map_eq_some_iff.mp hs
      exact h.reports hlen hu
    | suppressTxq d =>
      refine AllQueued.suppressAll hlen ?_ hs
      exact h.congr rfl
    | cleanupTxq fn =>
      cases hs
      exact h.congr (cleanupTxq_psq cfg s fn)

end

theorem Called.queued {cfg : Cfg} {occupied : Dest → Bool} {ok : State → Call → Prop} {s : State}
    (hlen : 0 < cfg.psqLen) (h : Called cfg occupied ok s) (d : Dest) : Queued cfg s d := by
  have hall : AllQueued cfg s := by
    induction h with
    | init => exact allQueued_init cfg occupied
    | call c _ _ hs ih => exact ih.onCall hlen hs
  exact hall d

end Bcmdhd.Wlfc
