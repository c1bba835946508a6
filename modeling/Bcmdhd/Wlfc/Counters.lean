import Bcmdhd.Lib.Buckets
import Bcmdhd.Lib.Tally
import Bcmdhd.Wlfc.Cleanup
import Mathlib.Data.List.ProdSigma

/-!
# Packet counters

`pkt_cnt_in_psq`, `pkt_cnt_per_ac` and `pkt_cnt_in_q` count the packets in the queues of all
entries, `pkt_cnt_in_drv` those that have been accepted and not been completed.

    Counted cfg s h l:   pktCntInPsq = queued ++ h,   pktCntInDrv + freed + l = passed

where `h` has been taken out of its queue and is still counted there, and `l` has been accepted
and is not counted yet.
-/

namespace Bcmdhd.Wlfc

open Loans Buckets Tally

/-! ## Counts -/

def key (cfg : Cfg) (p : Id) : Ifid × Ac := ((cfg.pkt p).ifid, (cfg.pkt p).fifo)

def fifoOf (cfg : Cfg) (p : Id) : Ac := (cfg.pkt p).fifo

def queues : List (Dest × Prec) := (List.finRange 49).product Prec.all

theorem nodup_all : Prec.all.Nodup := by decide

theorem mem_all (k : Prec) : k ∈ Prec.all := by
  obtain ⟨ac, b⟩ := k
  unfold Prec.all
  refine List.mem_flatMap.mpr ⟨ac, List.mem_finRange ac, ?_⟩
  cases b <;> simp

theorem nodup_queues : queues.Nodup := (List.nodup_finRange 49).product nodup_all

theorem mem_queues (x : Dest × Prec) : x ∈ queues :=
  List.mem_product.mpr ⟨List.mem_finRange x.1, mem_all x.2⟩

/-- The packets in the queues of all entries. -/
def queued (s : State) : List Id := entries queues fun x => s.psq x.1 x.2

/-- Accepted, and not completed. -/
def outstanding (s : State) : List Id := s.passed.filter fun p => p ∉ s.freed

structure Counted (cfg : Cfg) (s : State) (h l : List Id) : Prop where
  inPsq : s.pktCntInPsq = (queued s ++ h).length
  perAc : s.pktCntPerAc = tally (fifoOf cfg) (queued s ++ h)
  inQ : s.pktCntInQ = tally (key cfg) (queued s ++ h)
  inDrv : ∀ x, s.pktCntInDrv x + tally (key cfg) s.freed x + tally (key cfg) l x =
    tally (key cfg) s.passed x
  filed : ∀ d k, ∀ p ∈ s.psq d k, (cfg.pkt p).fifo = k.ac
  filedAfq : ∀ d ac, ∀ p ∈ s.afq d ac, (cfg.pkt p).fifo = ac
  nodup : s.passed.Nodup

theorem psq_init (occupied : Dest → Bool) : queued (.init occupied) = [] := by
  unfold queued entries
  exact List.flatMap_eq_nil_iff.mpr fun _ _ => rfl

theorem counted_init (cfg : Cfg) (occupied : Dest → Bool) : Counted cfg (.init occupied) [] [] := by
  have hq := psq_init occupied
  refine ⟨by rw [hq]; rfl, by rw [hq]; rfl, by rw [hq]; rfl, fun _ => rfl, nofun, nofun,
    List.nodup_nil⟩

/-- The counters, and what they count. -/
structure SameCounts (s s' : State) : Prop where
  inPsq : s'.pktCntInPsq = s.pktCntInPsq
  perAc : s'.pktCntPerAc = s.pktCntPerAc
  inQ : s'.pktCntInQ = s.pktCntInQ
  inDrv : s'.pktCntInDrv = s.pktCntInDrv
  psq : s'.psq = s.psq
  afq : s'.afq = s.afq
  passed : s'.passed = s.passed
  freed : s'.freed = s.freed

variable {p : Id} {d : Dest} {k : Prec} {st : TxStatus} {cfg : Cfg} {s : State}

section

variable {cfg : Cfg} {s s' : State} {h l : List Id}

theorem Counted.congr (hc : Counted cfg s h l) (hs : SameCounts s s') : Counted cfg s' h l := by
  have hq : queued s' = queued s := by
    unfold queued
    rw [hs.psq]
  refine ⟨?_, ?_, ?_, fun x => ?_, ?_, ?_, ?_⟩
  · rw [hs.inPsq, hq]
    exact hc.inPsq
  · rw [hs.perAc, hq]
    exact hc.perAc
  · rw [hs.inQ, hq]
    exact hc.inQ
  · rw [hs.inDrv, hs.freed, hs.passed]
    exact hc.inDrv x
  · rw [hs.psq]
    exact hc.filed
  · rw [hs.afq]
    exact hc.filedAfq
  · rw [hs.passed]
    exact hc.nodup

/-! ## Queues -/

theorem queued_setPsq (s : State) (d : Dest) (k : Prec) (m : List Id) :
    queued (s.setPsq d k m) =
      entries queues (Function.update (fun x => s.psq x.1 x.2) (d, k) m) := by
  unfold queued
  congr 1
  funext ⟨d', k'⟩
  rw [psq_setPsq]
  by_cases hx : d' = d ∧ k' = k
  · obtain ⟨rfl, rfl⟩ := hx
    rw [if_pos ⟨rfl, rfl⟩, Function.update_self]
  · rw [if_neg hx, Function.update_of_ne fun he => hx (Prod.mk.inj he)]

/-- A packet is put in its queue. -/
theorem Counted.insert (hc : Counted cfg s h l) {m : List Id} (hm : m.Perm (p :: s.psq d k))
    (hk : (cfg.pkt p).fifo = k.ac) :
    Counted cfg ((s.setPsq d k m).countPsq cfg p k.ac 1) h l := by
  have hq : (queued (s.setPsq d k m) ++ h).Perm (p :: (queued s ++ h)) := by
    rw [queued_setPsq]
    exact (entries_insert nodup_queues (mem_queues (d, k)) hm).append_right h
  refine ⟨?_, ?_, ?_, hc.inDrv, fun d' k' q hq' => ?_, hc.filedAfq, hc.nodup⟩
  · show s.pktCntInPsq + 1 = ((queued (s.setPsq d k m) ++ h).length : Int)
    rw [hq.length_eq, hc.inPsq]
    rfl
  · show bump s.pktCntPerAc k.ac 1 = tally _ (queued (s.setPsq d k m) ++ h)
    rw [tally_perm _ hq, tally_cons, hc.perAc]
    unfold fifoOf
    rw [hk]
  · show bump s.pktCntInQ ((cfg.pkt p).ifid, k.ac) 1 = tally _ (queued (s.setPsq d k m) ++ h)
    rw [tally_perm _ hq, tally_cons, hc.inQ]
    unfold key
    rw [hk]
  · change q ∈ (s.setPsq d k m).psq d' k' at hq'
    rw [psq_setPsq] at hq'
    split at hq'
    · next hd =>
      obtain ⟨rfl, rfl⟩ := hd
      rcases List.mem_cons.mp (hm.mem_iff.mp hq') with rfl | hq'
      · exact hk
      · exact hc.filed d' k' q hq'
    · exact hc.filed d' k' q hq'

/-- Packets are taken out of a queue. -/
theorem Counted.takeOut (hc : Counted cfg s h l) {t m : List Id} (hm : (s.psq d k).Perm (t ++ m)) :
    Counted cfg (s.setPsq d k m) (t ++ h) l := by
  have hq : (queued (s.setPsq d k m) ++ (t ++ h)).Perm (queued s ++ h) := by
    rw [queued_setPsq, ← List.append_assoc]
    refine List.Perm.append_right h ?_
    have hnew := entries_update nodup_queues (mem_queues (d, k)) (fun x => s.psq x.1 x.2) m
    have hold := entries_perm_split nodup_queues (mem_queues (d, k)) fun x => s.psq x.1 x.2
    refine (hnew.append_right t).trans (List.Perm.trans ?_ (hold.trans (hm.append_right _)).symm)
    exact List.perm_append_comm.trans (List.Perm.of_eq (List.append_assoc t m _).symm)
  refine ⟨?_, ?_, ?_, hc.inDrv, fun d' k' q hq' => ?_, hc.filedAfq, hc.nodup⟩
  · rw [hq.length_eq]
    exact hc.inPsq
  · rw [tally_perm _ hq]
    exact hc.perAc
  · rw [tally_perm _ hq]
    exact hc.inQ
  · rw [psq_setPsq] at hq'
    split at hq'
    · next hd =>
      obtain ⟨rfl, rfl⟩ := hd
      exact hc.filed d' k' q (hm.mem_iff.mpr (List.mem_append_right t hq'))
    · exact hc.filed d' k' q hq'

/-- A packet that has been taken out is no longer counted. -/
theorem Counted.uncount (hc : Counted cfg s (p :: h) l) {ac : Ac} (hk : (cfg.pkt p).fifo = ac) :
    Counted cfg (s.countPsq cfg p ac (-1)) h l := by
  have hq : (queued s ++ p :: h).Perm (p :: (queued s ++ h)) := List.perm_middle
  refine ⟨?_, ?_, ?_, hc.inDrv, hc.filed, hc.filedAfq, hc.nodup⟩
  · show s.pktCntInPsq + -1 = ((queued s ++ h).length : Int)
    rw [hc.inPsq, hq.length_eq, List.length_cons]
    omega
  · show bump s.pktCntPerAc ac (-1) = tally _ (queued s ++ h)
    rw [hc.perAc, tally_perm _ hq, ← hk]
    exact tally_uncons _ p _
  · show bump s.pktCntInQ ((cfg.pkt p).ifid, ac) (-1) = tally _ (queued s ++ h)
    rw [hc.inQ, tally_perm _ hq, ← hk]
    exact tally_uncons (key cfg) p _

theorem Counted.release (hc : Counted cfg s h l) (p : Id) {ac : Ac} (hk : (cfg.pkt p).fifo = ac) :
    Counted cfg ((s.countDrv cfg p ac (-1)).free p) h l := by
  refine ⟨hc.inPsq, hc.perAc, hc.inQ, fun x => ?_, hc.filed, hc.filedAfq, hc.nodup⟩
  have hx := hc.inDrv x
  show bump s.pktCntInDrv ((cfg.pkt p).ifid, ac) (-1) x + tally (key cfg) (s.freed ++ [p]) x +
    tally (key cfg) l x = tally (key cfg) s.passed x
  rw [tally_concat, ← hk]
  change bump s.pktCntInDrv (key cfg p) (-1) x + _ + _ = _
  by_cases he : x = key cfg p
  · rw [he, bump_self, bump_self, ← he]
    omega
  · rw [bump_ne _ _ he, bump_ne _ _ he]
    exact hx

theorem Counted.accept (hc : Counted cfg s h [p]) :
    Counted cfg (s.countDrv cfg p (cfg.pkt p).fifo 1) h [] := by
  refine ⟨hc.inPsq, hc.perAc, hc.inQ, fun x => ?_, hc.filed, hc.filedAfq, hc.nodup⟩
  have hx := hc.inDrv x
  show bump s.pktCntInDrv (key cfg p) 1 x + tally (key cfg) s.freed x + 0 =
    tally (key cfg) s.passed x
  rw [tally_cons] at hx
  by_cases he : x = key cfg p
  · rw [he, bump_self, tally_nil] at hx
    dsimp only at hx
    rw [he, bump_self]
    omega
  · rw [bump_ne _ _ he, tally_nil] at hx
    rw [bump_ne _ _ he]
    exact hx

/-! ## Drops -/

theorem Counted.dropQueued (hc : Counted cfg s (p :: h) l) (hk : (cfg.pkt p).fifo = k.ac) :
    Counted cfg (precDrop cfg k true s p) h l := by
  refine Counted.release (Counted.uncount (hc.congr ?_) hk) p rfl
  exact ⟨rfl, rfl, rfl, rfl, rfl, rfl, rfl, rfl⟩

theorem Counted.drop (hc : Counted cfg s h l) (k : Prec) (p : Id) :
    Counted cfg (precDrop cfg k false s p) h l := by
  refine Counted.release (hc.congr ?_) p rfl
  exact ⟨Int.add_zero _, bump_zero _ _, bump_zero _ _, rfl, rfl, rfl, rfl, rfl⟩

theorem Counted.dropAll {t : List Id} (hc : Counted cfg s (t ++ h) l)
    (hk : ∀ p ∈ t, (cfg.pkt p).fifo = k.ac) :
    Counted cfg (t.foldl (precDrop cfg k true) s) h l := by
  induction t generalizing s with
  | nil => exact hc
  | cons p t ih =>
    exact ih (Counted.dropQueued hc (hk p List.mem_cons_self)) fun q hq =>
      hk q (List.mem_cons_of_mem p hq)

theorem Counted.dropPkts (hc : Counted cfg s h l) (d : Dest) (k : Prec) :
    Counted cfg (precDropPkts cfg s d k) h l := by
  have hperm := dropped_perm cfg (s.psq d k)
  refine (hc.takeOut hperm).dropAll fun p hp => hc.filed d k p ?_
  exact hperm.mem_iff.mpr (List.mem_append_left _ hp)

theorem Counted.enque (hc : Counted cfg s h l) (d : Dest) (qHead : Bool)
    (hk : (cfg.pkt p).fifo = k.ac) :
    Counted cfg ((precEnque cfg s d k p qHead).countPsq cfg p k.ac 1) h l := by
  obtain ⟨m, he, hm⟩ := precEnque_eq cfg s d k p qHead
  rw [he]
  exact hc.insert hm hk

theorem Counted.enqWithDrop (hc : Counted cfg s h l) (d : Dest) (qHead : Bool)
    (hk : (cfg.pkt p).fifo = k.ac) : Counted cfg (precEnqWithDrop cfg s d k p qHead).1 h l := by
  unfold precEnqWithDrop
  split
  · exact hc
  · exact hc.enque d qHead hk
  · exact (hc.dropPkts d _).enque d qHead hk

theorem Counted.enqOrDrop {r : State × Bool} (hc : Counted cfg r.1 h l) (k : Prec) (p : Id) :
    Counted cfg (if r.2 then r.1 else precDrop cfg k false r.1 p) h l := by
  split
  · exact hc
  · exact hc.drop k p

/-! ## Commit -/

theorem enqWithDrop_true {qHead : Bool} (hr : room cfg s d k ≠ .refuse) :
    (precEnqWithDrop cfg s d k p qHead).2 = true := by
  unfold precEnqWithDrop
  split
  · next he => exact absurd he hr
  · rfl
  · rfl

/-- A packet that is not refused. -/
theorem Counted.commitPackets (hc : Counted cfg s [] []) (hp : p ∉ s.passed)
    (hr : room cfg s (cfg.pkt p).entry (dly (cfg.pkt p).fifo) ≠ .refuse) :
    Counted cfg (commitPackets cfg s p) [] [] := by
  have hnew : Counted cfg { s with passed := s.passed ++ [p] } [] [p] := by
    refine ⟨hc.inPsq, hc.perAc, hc.inQ, fun x => ?_, hc.filed, hc.filedAfq, nodup_freed hc.nodup hp⟩
    have hx := hc.inDrv x
    rw [tally_nil, Int.add_zero] at hx
    show s.pktCntInDrv x + tally (key cfg) s.freed x + _ = tally (key cfg) (s.passed ++ [p]) x
    rw [tally_append, hx]
  have hq := hnew.enqWithDrop (k := dly (cfg.pkt p).fifo) (cfg.pkt p).entry false rfl
  unfold Wlfc.commitPackets
  dsimp only
  rw [if_pos (enqWithDrop_true (s := { s with passed := s.passed ++ [p] }) hr)]
  exact hq.accept

theorem Counted.dequeue (hc : Counted cfg s h l) {t : State} {ac : Ac} {needsHdr : Bool}
    (ht : dequeDelayedq cfg s d ac = some (t, p, needsHdr)) :
    Counted cfg t h l := by
  have hhead : ∀ (k : Prec) (m : List Id), s.psq d k = p :: m →
      Counted cfg ((s.setPsq d k m).countPsq cfg p k.ac (-1)) h l := by
    intro k m hm
    have hout := hc.takeOut (t := [p]) (m := m) (List.Perm.of_eq hm)
    exact Counted.uncount hout (hc.filed d k p (hm ▸ List.mem_cons_self))
  unfold dequeDelayedq at ht
  split at ht
  · next m hm =>
    cases ht
    exact hhead (sup ac) _ hm
  · split at ht
    · next m hm =>
      cases ht
      exact hhead (dly ac) _ hm
    · cases ht

theorem sameCounts_pretx (cfg : Cfg) (s : State) (d : Dest) (p : Id) (needsHdr : Bool) :
    SameCounts s (pretxPktprocess cfg s d p needsHdr).1 := by
  unfold pretxPktprocess pretxNew pretxAgain
  dsimp only
  split
  · split
    · exact ⟨rfl, rfl, rfl, rfl, rfl, rfl, rfl, rfl⟩
    · split
      · exact ⟨rfl, rfl, rfl, rfl, rfl, rfl, rfl, rfl⟩
      · split <;> exact ⟨rfl, rfl, rfl, rfl, rfl, rfl, rfl, rfl⟩
  · split <;> exact ⟨rfl, rfl, rfl, rfl, rfl, rfl, rfl, rfl⟩

theorem Counted.rollback (hc : Counted cfg s h l) (p : Id) (needsHdr pulled : Bool) :
    Counted cfg (rollbackPacketToq cfg s p needsHdr pulled) h l := by
  have hent : ∀ d e, Counted cfg (s.setEntry d e) h l := fun _ _ =>
    hc.congr ⟨rfl, rfl, rfl, rfl, rfl, rfl, rfl, rfl⟩
  unfold rollbackPacketToq
  dsimp only
  split
  · refine Counted.enqOrDrop ?_ _ p
    split
    · exact (hent _ _).enqWithDrop _ true rfl
    · exact hent _ _
  · exact (hc.enqWithDrop _ true rfl).enqOrDrop _ p

theorem Counted.commit (hc : Counted cfg s h l) (d : Dest) (p : Id)
    (needsHdr fcommit pulled : Bool) :
    Counted cfg (handlePacketCommit cfg s d p needsHdr fcommit pulled) h l := by
  have hpre := hc.congr (sameCounts_pretx cfg s d p needsHdr)
  unfold handlePacketCommit
  dsimp only
  generalize pretxPktprocess cfg s d p needsHdr = r at hpre
  split
  · split
    · exact hpre.congr ⟨rfl, rfl, rfl, rfl, rfl, rfl, rfl, rfl⟩
    · refine Counted.rollback ?_ p needsHdr true
      split
      · exact hpre.congr ⟨rfl, rfl, rfl, rfl, rfl, rfl, rfl, rfl⟩
      · exact hpre
  · exact hpre.rollback p needsHdr pulled

theorem Counted.transfer (hc : Counted cfg s h l) {ac : Ac} {fcommit pulled : Bool}
    (hs : transferPacket cfg s d ac fcommit pulled = some s') : Counted cfg s' h l := by
  unfold transferPacket at hs
  split at hs
  · split at hs
    · cases hs
    · next hd =>
      cases hs
      exact (hc.dequeue hd).commit d _ _ fcommit pulled
  · cases hs

/-! ## Completion -/

theorem Counted.freePkt (hc : Counted cfg s h l) (i : Slot) (b : PktState) :
    Counted cfg (hangerFreePkt cfg s i b) h l := by
  unfold hangerFreePkt
  split
  · next p _ =>
    dsimp only
    split
    · exact (hc.release p rfl).congr ⟨rfl, rfl, rfl, rfl, rfl, rfl, rfl, rfl⟩
    · exact hc.congr ⟨rfl, rfl, rfl, rfl, rfl, rfl, rfl, rfl⟩
  · exact hc.congr ⟨rfl, rfl, rfl, rfl, rfl, rfl, rfl, rfl⟩

theorem Counted.enqueAfq (hc : Counted cfg s h l) (p : Id) :
    Counted cfg (enqueAfq cfg s p) h l := by
  refine ⟨hc.inPsq, hc.perAc, hc.inQ, hc.inDrv, hc.filed, fun d ac q hq => ?_, hc.nodup⟩
  change q ∈ (s.setAfq _ _ _).afq d ac at hq
  rw [afq_setAfq] at hq
  split at hq
  · next hd =>
    rcases List.mem_append.mp hq with hq | hq
    · exact (hc.filedAfq _ _ q hq).trans hd.2.symm
    · rw [List.mem_singleton.mp hq, hd.2]
  · exact hc.filedAfq d ac q hq

theorem Counted.txcomplete (hc : Counted cfg s h l) (p : Id) (success : Bool) :
    Counted cfg (txcomplete cfg s p success) h l := by
  unfold Wlfc.txcomplete
  dsimp only
  cases success with
  | true =>
    rw [if_pos rfl]
    split
    · exact (hc.enqueAfq p).congr ⟨rfl, rfl, rfl, rfl, rfl, rfl, rfl, rfl⟩
    · exact (hc.freePkt _ .busreturned).congr ⟨rfl, rfl, rfl, rfl, rfl, rfl, rfl, rfl⟩
  | false =>
    rw [if_neg nofun]
    split
    · exact (hc.release p rfl).congr ⟨rfl, rfl, rfl, rfl, rfl, rfl, rfl, rfl⟩
    · exact (hc.release p rfl).congr ⟨rfl, rfl, rfl, rfl, rfl, rfl, rfl, rfl⟩

/-! ## Status -/

theorem Counted.moves (hc : Counted cfg s h l) (p : Id) (i : Slot) (suppress gen : Bool) :
    Counted cfg (statusMoves cfg s p i suppress gen) h l := by
  have htag : Counted cfg { s with
      tag := Function.update s.tag p { s.tag p with gen := gen } } h l :=
    hc.congr ⟨rfl, rfl, rfl, rfl, rfl, rfl, rfl, rfl⟩
  unfold statusMoves
  dsimp only
  split
  · have henq := htag.enqWithDrop (k := sup (cfg.pkt p).fifo) (cfg.pkt p).entry false rfl
    split
    · split
      · exact henq
      · exact henq.congr ⟨rfl, rfl, rfl, rfl, rfl, rfl, rfl, rfl⟩
    · exact henq.drop _ p
  · split
    · exact hc.release p rfl
    · exact hc.freePkt i .txstatus

theorem Counted.status (hc : Counted cfg s h l) (p : Id) (i : Slot) (suppress gen : Bool) :
    Counted cfg (statusOf cfg s p i suppress gen) h l := by
  unfold statusOf
  dsimp only
  refine Counted.congr (Counted.moves ?_ p i suppress gen) ⟨rfl, rfl, rfl, rfl, rfl, rfl, rfl, rfl⟩
  exact hc.congr ⟨rfl, rfl, rfl, rfl, rfl, rfl, rfl, rfl⟩

theorem Counted.finds (hc : Counted cfg s h l) {t : State} {r : Option (Id × Slot × Bool)}
    (hf : statusFinds cfg s st = some (t, r)) :
    Counted cfg t h l := by
  unfold statusFinds at hf
  split at hf
  · split at hf
    · next hd =>
      cases hf
      rw [dequeAfq_none hd]
      exact hc
    · next hd =>
      cases hf
      obtain ⟨d, ac, _, rfl⟩ := dequeAfq_some hd
      refine ⟨hc.inPsq, hc.perAc, hc.inQ, hc.inDrv, hc.filed, fun d' ac' q hq => ?_, hc.nodup⟩
      rw [afq_setAfq] at hq
      split at hq
      · next he =>
        obtain ⟨rfl, rfl⟩ := he
        exact hc.filedAfq d' ac' q (List.mem_of_mem_erase hq)
      · exact hc.filedAfq d' ac' q hq
  · split at hf
    · cases hf
      exact hc
    · split at hf
      · dsimp only at hf
        split at hf
        · cases hf
          exact hc.freePkt _ .txstatus
        · cases hf
          exact hc
      · cases hf

/-- `SUPPRESS_ACKED` is about no packet. -/
def Unacked (cfg : Cfg) (s : State) (st : TxStatus) : Prop :=
  st.acks → suppressedAckedUpdate cfg s st = s

theorem Unacked.first (hu : Unacked cfg s st) : ackedFirst cfg s st = s := by
  unfold ackedFirst
  split
  · next hf => exact hu hf
  · rfl

theorem Counted.report (hc : Counted cfg s h l) {st' : TxStatus} (hu : Unacked cfg s st)
    {m : Option Dest} (hs : txstatusOne cfg s st = some (s', st', m)) : Counted cfg s' h l := by
  obtain ⟨v, r, hv, hr⟩ := txstatusOne_some hs
  rw [hu.first] at hv
  have hcv := hc.finds hv
  rcases hr with ⟨_, rfl⟩ | ⟨p, i, suppress, _, rfl⟩
  · exact hcv
  · exact hcv.status p i suppress st.gen

theorem Counted.reports {len : Nat} {mac mac' : Option Dest} (hc : Counted cfg s h l)
    (hu : EachTurn cfg (Unacked cfg) len s st)
    (hs : compressedTxstatusUpdate cfg len s st mac = some (s', mac')) : Counted cfg s' h l := by
  induction len generalizing s st mac with
  | zero =>
    cases hs
    exact hc
  | succ len ih =>
    unfold compressedTxstatusUpdate at hs
    split at hs
    · cases hs
    · next u st' m hone => exact ih (hc.report hu.1 hone) (hu.2 _ _ _ hone) hs

theorem Counted.suppressPkt (hc : Counted cfg s h l) (hs : suppressPkt cfg s p = some s') :
    Counted cfg s' h l := by
  unfold Wlfc.suppressPkt at hs
  obtain ⟨⟨v, mac⟩, hv, rfl⟩ := Option.map_eq_some_iff.mp hs
  refine Counted.reports ?_ ?_ hv
  · split
    · refine Counted.enqueAfq (hc.congr ?_) p
      exact ⟨rfl, rfl, rfl, rfl, rfl, rfl, rfl, rfl⟩
    · exact hc.congr ⟨rfl, rfl, rfl, rfl, rfl, rfl, rfl, rfl⟩
  · refine ⟨?_, fun _ _ _ _ => trivial⟩
    unfold Unacked
    exact nofun

theorem Counted.suppressAll {t : List Id} (hc : Counted cfg s h l)
    (hs : t.foldlM (Wlfc.suppressPkt cfg) s = some s') : Counted cfg s' h l := by
  induction t generalizing s with
  | nil =>
    cases hs
    exact hc
  | cons p t ih =>
    rw [List.foldlM_cons] at hs
    obtain ⟨u, hu, hs⟩ := Option.bind_eq_some_iff.mp hs
    exact ih (hc.suppressPkt hu) hs

/-! ## Clean-up -/

theorem Counted.cleanupTxq (hc : Counted cfg s h l) (fn : PktFn) :
    Counted cfg (cleanupTxq cfg s fn) h l := by
  refine List.foldlRecOn (motive := fun t => Counted cfg t h l) _ _ ?_ fun t ht p _ => ?_
  · exact hc.congr ⟨rfl, rfl, rfl, rfl, rfl, rfl, rfl, rfl⟩
  · unfold cleanupTxqPkt
    dsimp only
    split
    · exact (ht.release p rfl).congr ⟨rfl, rfl, rfl, rfl, rfl, rfl, rfl, rfl⟩
    · exact (ht.release p rfl).congr ⟨rfl, rfl, rfl, rfl, rfl, rfl, rfl, rfl⟩

theorem Counted.flushAll {t : List Id} (hc : Counted cfg s (t ++ h) l)
    (hk : ∀ p ∈ t, (cfg.pkt p).fifo = k.ac) :
    Counted cfg (t.foldl (flushPsqPkt cfg k) s) h l := by
  induction t generalizing s with
  | nil => exact hc
  | cons p t ih =>
    have hp := hk p List.mem_cons_self
    refine ih ?_ fun q hq => hk q (List.mem_cons_of_mem p hq)
    unfold flushPsqPkt
    dsimp only
    refine Counted.release (Counted.uncount ?_ hp) p hp
    split
    · exact Counted.congr hc ⟨rfl, rfl, rfl, rfl, rfl, rfl, rfl, rfl⟩
    · exact hc

theorem Counted.flushPsq (hc : Counted cfg s h l) (fn : PktFn) (d : Dest) (k : Prec) :
    Counted cfg (flushPsq cfg fn d s k) h l := by
  have hperm : (s.psq d k).Perm ((s.psq d k).filter (fn.takes cfg) ++
      (s.psq d k).filter fun p => !fn.takes cfg p) := (List.filter_append_perm _ _).symm
  refine Counted.flushAll ((hc.takeOut hperm).congr ?_) fun p hp =>
    hc.filed d k p (List.mem_of_mem_filter hp)
  exact ⟨rfl, rfl, rfl, rfl, rfl, rfl, rfl, rfl⟩

/-- Packets of the first category, the number of which is its own half. -/
theorem Counted.flushAfq (hc : Counted cfg s h l) (fn : PktFn) (d : Dest) (ac : Ac)
    (hfirst : ∀ p ∈ s.afq d ac, fn.takes cfg p = true → ac = firstAc) :
    Counted cfg (flushAfq cfg fn d s ac) h l := by
  refine List.foldlRecOn (motive := fun t => Counted cfg t h l) _ _ ?_ fun t ht p hp => ?_
  · refine ⟨hc.inPsq, hc.perAc, hc.inQ, hc.inDrv, hc.filed, fun d' ac' q hq => ?_, hc.nodup⟩
    change q ∈ (s.setAfq _ _ _).afq d' ac' at hq
    rw [afq_setAfq] at hq
    split at hq
    · next he =>
      obtain ⟨rfl, rfl⟩ := he
      exact hc.filedAfq d' ac' q (List.mem_of_mem_filter hq)
    · exact hc.filedAfq d' ac' q hq
  · obtain ⟨hm, hf⟩ := List.mem_filter.mp hp
    obtain rfl := hfirst p hm hf
    have hk : (cfg.pkt p).fifo = halfOf firstAc := hc.filedAfq d firstAc p hm
    exact (ht.release p hk).congr ⟨rfl, rfl, rfl, rfl, rfl, rfl, rfl, rfl⟩

/-- In AFQ mode, what a clean-up takes from an AFQ is of the first category. -/
def FirstOnly (cfg : Cfg) (fn : PktFn) (s : State) : Prop :=
  cfg.afq = true → ∀ d, (s.entry d).occupied = true → ∀ ac, ∀ p ∈ s.afq d ac,
    fn.takes cfg p = true → ac = firstAc

theorem FirstOnly.swept {fn : PktFn} (ho : FirstOnly cfg fn s) (hs : Swept s s') :
    FirstOnly cfg fn s' := fun hafq d hd ac p hp hf =>
  ho hafq d (hs.occupied d hd) ac p (hs.afq d ac hp) hf

theorem Counted.cleanupEntry (hc : Counted cfg s h l) {fn : PktFn} (ho : FirstOnly cfg fn s)
    (d : Dest) : Counted cfg (cleanupEntry cfg fn s d) h l := by
  have hs := swept_foldl (swept_flushPsq cfg fn d) Prec.all s
  have hc₁ : Counted cfg (Prec.all.foldl (Wlfc.flushPsq cfg fn d) s) h l :=
    List.foldlRecOn (motive := fun t => Counted cfg t h l) _ _ hc fun t ht k _ =>
      ht.flushPsq fn d k
  unfold Wlfc.cleanupEntry
  split
  · next hd =>
    dsimp only
    generalize Prec.all.foldl (Wlfc.flushPsq cfg fn d) s = t at hs hc₁
    have hc₂ : Counted cfg (if cfg.afq = true then
        (List.finRange 5).foldl (Wlfc.flushAfq cfg fn d) t else t) h l := by
      split
      · next hm =>
        -- each AFQ only loses packets, so the next holds what it held at first
        refine (List.foldlRecOn (motive := fun u => Swept s u ∧ Counted cfg u h l) _ _ ⟨hs, hc₁⟩
          fun u hu ac _ => ?_).2
        refine ⟨hu.1.trans (swept_flushAfq cfg fn d u ac), hu.2.flushAfq fn d ac fun p hp => ?_⟩
        exact ho hm d hd ac p (hu.1.afq d ac hp)
      · exact hc₁
    generalize (if cfg.afq = true then _ else _ : State) = u at hc₂
    split
    · exact hc₂.congr ⟨rfl, rfl, rfl, rfl, rfl, rfl, rfl, rfl⟩
    · exact hc₂
  · exact hc

theorem Counted.cleanup (hc : Counted cfg s h l) {fn : PktFn} (ho : FirstOnly cfg fn s) :
    Counted cfg (cleanup cfg s fn) h l := by
  have hentries : Counted cfg ((List.finRange 49).foldl (Wlfc.cleanupEntry cfg fn)
      (Wlfc.cleanupTxq cfg s fn)) h l := by
    refine (List.foldlRecOn (motive := fun t => FirstOnly cfg fn t ∧ Counted cfg t h l) _ _
      ⟨ho.swept (swept_cleanupTxq cfg s fn), hc.cleanupTxq fn⟩ fun t ht d _ => ?_).2
    exact ⟨ht.1.swept (swept_cleanupEntry cfg fn t d), ht.2.cleanupEntry ht.1 d⟩
  unfold Wlfc.cleanup
  dsimp only
  generalize (List.finRange 49).foldl (Wlfc.cleanupEntry cfg fn) (Wlfc.cleanupTxq cfg s fn) = t
    at hentries
  split
  · exact hentries
  · exact hentries.congr ⟨rfl, rfl, rfl, rfl, rfl, rfl, rfl, rfl⟩

end

/-! ## Runs -/

/-- What is called from outside, clean-ups included. -/
inductive Call
  | act (a : Act)
  | cleanup (fn : PktFn)

def call (cfg : Cfg) (s : State) : Call → Option State
  | .act a => step cfg s a
  | .cleanup fn => some (cleanup cfg s fn)

/-- The states of the runs all of whose calls are `ok`. -/
inductive Called (cfg : Cfg) (occupied : Dest → Bool) (ok : State → Call → Prop) : State → Prop
  | init : Called cfg occupied ok (.init occupied)
  | call {s s' : State} (c : Call) : Called cfg occupied ok s → ok s c → call cfg s c = some s' →
      Called cfg occupied ok s'

/-- One packet of a status is about a packet whose status is awaited, and `SUPPRESS_ACKED` about
none. -/
structure Tells (cfg : Cfg) (s : State) (st : TxStatus) : Prop where
  unacked : Unacked cfg s st
  finds : ∀ t p i suppress, statusFinds cfg s st = some (t, some (p, i, suppress)) →
    s.awaits p ∧ (suppress = true → Yields cfg s (sup (cfg.pkt p).fifo) p)

theorem Tells.awaited (h : Tells cfg s st) :
    Awaited cfg s st := by
  refine ⟨fun hf => Or.inr (h.unacked hf), ?_⟩
  rw [h.unacked.first]
  exact h.finds

/-- What a clean-up takes from a queue is not on the bus, what it takes from an AFQ is of the first
category, and no queue is left with the tail of what was taken. -/
structure Sweepable (cfg : Cfg) (fn : PktFn) (s : State) : Prop where
  offBus : OffBus cfg fn s
  first : FirstOnly cfg fn s
  psqTail : ∀ d, (s.entry d).occupied = true → ∀ k, leavesStaleTail cfg fn (s.psq d k) = false
  afqTail : cfg.afq = true → ∀ d, (s.entry d).occupied = true →
    ∀ ac, leavesStaleTail cfg fn (s.afq d ac) = false

/-- The packet is not refused, no status is a `SUPPRESS_ACKED` for a packet in a queue, and nothing
is flushed that is on the bus or of another category than the first in AFQ mode. -/
def Call.Sound (cfg : Cfg) (s : State) : Call → Prop
  | .act (.commitPackets p) =>
    room cfg s (cfg.pkt p).entry (dly (cfg.pkt p).fifo) ≠ .refuse ∧
      Yields cfg s (dly (cfg.pkt p).fifo) p
  | .act (.txstatus len st) => EachTurn cfg (Tells cfg) len s st
  | .act (.cleanupTxq _) => True
  | .act a => a.Keeps cfg s
  | .cleanup fn => Sweepable cfg fn s

theorem Inv.onCall {s' : State} {pl : Id → Place} {w : Bool} (h : Inv cfg s pl [] [] w) {c : Call}
    (hok : c.Sound cfg s) (hs : call cfg s c = some s') :
    ∃ pl' w', Inv cfg s' pl' [] [] w' := by
  have hstep : ∀ a : Act, a.Tracks cfg s → step cfg s a = some s' →
      ∃ pl' w', Inv cfg s' pl' [] [] w' := by
    intro a ha hs
    obtain ⟨pl', h'⟩ := h.onStep ha hs
    exact ⟨pl', w, h'⟩
  cases c with
  | cleanup fn =>
    cases hs
    obtain ⟨pl', h'⟩ := h.onCleanup (Sweepable.offBus hok)
    exact ⟨pl', true, h'⟩
  | act a =>
    cases a with
    | commitPackets p => exact hstep (.commitPackets p) hok.2 hs
    | txstatus len st =>
      exact hstep (.txstatus len st) (EachTurn.imp (fun _ _ => Tells.awaited) hok) hs
    | cleanupTxq fn =>
      cases hs
      obtain ⟨pl', h'⟩ := h.onCleanupTxq fn
      exact ⟨pl', true, h'⟩
    | transferPacket d ac fcommit pulled => exact hstep (.transferPacket d ac fcommit pulled) hok hs
    | send p => exact hstep (.send p) hok hs
    | txcomplete p success => exact hstep (.txcomplete p success) hok hs
    | suppressTxq d => exact hstep (.suppressTxq d) hok hs

theorem Counted.onStep {s' : State} (hc : Counted cfg s [] []) {a : Act}
    (ha : (Call.act a).Sound cfg s) (hs : step cfg s a = some s') : Counted cfg s' [] [] := by
  cases a with
  | commitPackets p =>
    unfold step at hs
    dsimp only at hs
    split at hs
    · cases hs
    · next hp =>
      cases hs
      exact hc.commitPackets hp ha.1
  | transferPacket d ac fcommit pulled => exact hc.transfer hs
  | send p =>
    unfold step at hs
    dsimp only at hs
    split at hs
    · cases hs
      exact hc.congr ⟨rfl, rfl, rfl, rfl, rfl, rfl, rfl, rfl⟩
    · cases hs
  | txcomplete p success =>
    unfold step at hs
    dsimp only at hs
    split at hs
    · cases hs
      exact hc.txcomplete p success
    · cases hs
  | txstatus len st =>
    obtain ⟨⟨u, mac⟩, hu, rfl⟩ := Option.map_eq_some_iff.mp hs
    exact hc.reports (EachTurn.imp (fun _ _ => Tells.unacked) ha) hu
  | suppressTxq d =>
    refine Counted.suppressAll (hc.congr ?_) hs
    exact ⟨rfl, rfl, rfl, rfl, rfl, rfl, rfl, rfl⟩
  | cleanupTxq fn =>
    cases hs
    exact hc.cleanupTxq fn

theorem Called.inv {occupied : Dest → Bool} (h : Called cfg occupied (fun s c => c.Sound cfg s) s) :
    (∃ pl w, Inv cfg s pl [] [] w) ∧ Counted cfg s [] [] := by
  induction h with
  | init => exact ⟨⟨_, false, inv_init cfg occupied⟩, counted_init cfg occupied⟩
  | call c _ hok hs ih =>
    obtain ⟨⟨pl, w, hi⟩, hc⟩ := ih
    refine ⟨hi.onCall hok hs, ?_⟩
    cases c with
    | act a => exact hc.onStep hok hs
    | cleanup fn =>
      cases hs
      exact hc.cleanup (Sweepable.first hok)

/-- Every counter is the number of the packets it stands for. -/
structure Exact (cfg : Cfg) (s : State) : Prop where
  inPsq : s.pktCntInPsq = (queued s).length
  perAc : ∀ ac, s.pktCntPerAc ac = tally (fifoOf cfg) (queued s) ac
  inQ : ∀ i ac, s.pktCntInQ (i, ac) = tally (key cfg) (queued s) (i, ac)
  inDrv : ∀ i ac, s.pktCntInDrv (i, ac) = tally (key cfg) (outstanding s) (i, ac)

theorem Inv.freed_subset {pl : Id → Place} {w : Bool} (h : Inv cfg s pl [] [] w) :
    s.freed ⊆ s.passed := by
  intro p hp
  rw [(h.places p).freed] at hp
  refine (h.places p).passed.mpr fun hx => ?_
  rw [hx] at hp
  cases hp

/-- The counters are exact, and none is negative. -/
theorem wlfc_counters_exact (cfg : Cfg) (occupied : Dest → Bool) {s : State}
    (h : Called cfg occupied (fun s c => c.Sound cfg s) s) :
    Exact cfg s ∧ 0 ≤ s.pktCntInPsq ∧ (∀ ac, 0 ≤ s.pktCntPerAc ac) ∧
      ∀ x, 0 ≤ s.pktCntInQ x ∧ 0 ≤ s.pktCntInDrv x := by
  obtain ⟨⟨pl, w, hi⟩, hc⟩ := h.inv
  have hq : queued s ++ [] = queued s := List.append_nil _
  have hdrv : ∀ x, s.pktCntInDrv x = tally (key cfg) (outstanding s) x := by
    intro x
    have hx := hc.inDrv x
    rw [tally_diff (key cfg) hi.freed hc.nodup hi.freed_subset x, tally_nil] at hx
    unfold outstanding
    dsimp only at hx
    omega
  have hpsq : s.pktCntInPsq = (queued s).length := hq ▸ hc.inPsq
  have hac : s.pktCntPerAc = tally (fifoOf cfg) (queued s) := hq ▸ hc.perAc
  have hin : s.pktCntInQ = tally (key cfg) (queued s) := hq ▸ hc.inQ
  refine ⟨⟨hpsq, fun ac => by rw [hac], fun i ac => by rw [hin], fun i ac => hdrv (i, ac)⟩, ?_,
    fun ac => ?_, fun x => ⟨?_, ?_⟩⟩
  · rw [hpsq]
    exact Int.natCast_nonneg _
  · rw [hac]
    exact tally_nonneg _ _ _
  · rw [hin]
    exact tally_nonneg _ _ _
  · rw [hdrv x]
    exact tally_nonneg _ _ _

/-- A step as in `Act.checked`, of packets that are not refused. -/
def Call.checked (cfg : Cfg) (s : State) : Call → Bool
  | .act a =>
    a.checked cfg s &&
      match a with
      | .commitPackets p =>
        decide (room cfg s (cfg.pkt p).entry (dly (cfg.pkt p).fifo) ≠ .refuse)
      | _ => true
  | .cleanup _ => false

theorem Call.checked_sound {c : Call} (h : c.checked cfg s = true) :
    c.Sound cfg s := by
  cases c with
  | cleanup fn => cases h
  | act a =>
    obtain ⟨hchecked, hroom⟩ := Bool.and_eq_true_iff.mp h
    have hkeeps := Act.checked_keeps hchecked
    cases a with
    | commitPackets p => exact ⟨of_decide_eq_true hroom, hkeeps⟩
    | transferPacket | send | txcomplete | suppressTxq => exact hkeeps
    | cleanupTxq => trivial
    | txstatus len st =>
      obtain ⟨hlen, hst⟩ := Bool.and_eq_true_iff.mp hchecked
      obtain rfl : len = 1 := of_decide_eq_true hlen
      obtain ⟨hflag, t, p, i, suppress, hf, hp⟩ := TxStatus.checked_found hst
      refine ⟨⟨fun hacks => absurd hacks.1 hflag, fun t' p' i' suppress' hf' => ?_⟩,
        fun _ _ _ _ => trivial⟩
      rw [hf] at hf'
      cases hf'
      exact hp

def callIf (cfg : Cfg) (check : State → Call → Bool) (s : State) (c : Call) : Option State :=
  if check s c then call cfg s c else none

theorem called_run {occupied : Dest → Bool} {ok : State → Call → Prop} {check : State → Call → Bool}
    (hcheck : ∀ t c, check t c = true → ok t c) {calls : List Call} {s' : State}
    (h : Called cfg occupied ok s) (hs : calls.foldlM (callIf cfg check) s = some s') :
    Called cfg occupied ok s' := by
  induction calls generalizing s with
  | nil =>
    cases hs
    exact h
  | cons c calls ih =>
    rw [List.foldlM_cons] at hs
    obtain ⟨u, hu, hs⟩ := Option.bind_eq_some_iff.mp hs
    unfold callIf at hu
    split at hu
    · next hc => exact ih (.call c h (hcheck s c hc) hu) hs
    · cases hu

/-- Of three packets the first is done with, the second is suppressed and the third is not sent. -/
def threePackets : List Call :=
  [.act (.commitPackets 1), .act (.commitPackets 2), .act (.commitPackets 3),
    .act (.transferPacket firstDest firstAc true true),
    .act (.transferPacket firstDest firstAc true true), .act (.send 1), .act (.send 2),
    .act (.txcomplete 1 true), .act (.txcomplete 2 true),
    .act (.txstatus 1 ⟨.discard, 1, 0, 0, true, false⟩),
    .act (.txstatus 1 ⟨.wlSuppress, 2, 0, 1, true, false⟩)]

theorem wlfc_counters_exact_reported : ∃ s : State,
    (Exact plain s ∧ 0 ≤ s.pktCntInPsq ∧ (∀ ac, 0 ≤ s.pktCntPerAc ac) ∧
      ∀ x, 0 ≤ s.pktCntInQ x ∧ 0 ≤ s.pktCntInDrv x) ∧
    s.freed = [1] ∧ s.pktCntInPsq = 2 ∧ s.pktCntInDrv (firstIf, firstAc) = 2 := by
  have hrun : (threePackets.foldlM (callIf plain (Call.checked plain)) (.init fun _ => true)).map
      (fun s => decide (s.freed = [1] ∧ s.pktCntInPsq = 2 ∧
        s.pktCntInDrv (firstIf, firstAc) = 2)) = some true := by decide +kernel
  obtain ⟨s, hs, he⟩ := Option.map_eq_some_iff.mp hrun
  have hcalled : Called plain (fun _ => true) (fun s c => c.Sound plain s) s :=
    called_run (fun _ _ => Call.checked_sound) .init hs
  exact ⟨s, wlfc_counters_exact plain _ hcalled, of_decide_eq_true he⟩

/-- One entry, AFQ mode, all packets of category `ac`. -/
def plainAfq (ac : Ac) : Cfg where
  afq := true
  reorderSupp := false
  psqLen := 8
  pkt := fun _ => ⟨firstIf, ac, firstDest, firstTxprec, .none⟩

/-- Packet 1 is sent, and the bus is done with it. -/
def delivered (ac : Ac) : List Call :=
  [.act (.commitPackets 1), .act (.transferPacket firstDest ac true true), .act (.send 1),
    .act (.txcomplete 1 true)]

/-- It is suppressed, and reported as suppressed and acknowledged. -/
def acked : List Call :=
  delivered firstAc ++ [.act (.txstatus 1 ⟨.wlSuppress, 0, 0, 0, true, false⟩),
    .act (.txstatus 1 ⟨.suppressAcked, 0, 0, 0, true, false⟩)]

def thirdAc : Ac := ⟨2, by decide⟩

def secondAc : Ac := ⟨1, by decide⟩

/-- Packet 1 is of the second category and packet 2 of the first, and there is room for one. -/
def narrow : Cfg where
  afq := false
  reorderSupp := false
  psqLen := 1
  pkt := fun p => ⟨firstIf, if p = 1 then secondAc else firstAc, firstDest, firstTxprec, .none⟩

/-- A packet that was suppressed and acknowledged stays counted in the queues; a flush of the AFQ
takes the packet from the count of another category; a packet that is refused is taken from a
count that it never was in. -/
theorem wlfc_counters_exact_fails :
    (∃ s, Called (plainAfq firstAc) (fun _ => true) (fun _ _ => True) s ∧
      queued s = [] ∧ s.pktCntInPsq = 1) ∧
    (∃ s, Called (plainAfq thirdAc) (fun _ => true) (fun _ _ => True) s ∧ outstanding s = [] ∧
      s.pktCntInDrv (firstIf, thirdAc) = 1 ∧ s.pktCntInDrv (firstIf, secondAc) = -1) ∧
    (∃ s, Called narrow (fun _ => true) (fun _ _ => True) s ∧ outstanding s = [1] ∧
      s.pktCntInDrv (firstIf, firstAc) = -1) := by
  have hacked : (acked.foldlM (callIf (plainAfq firstAc) fun _ _ => true) (.init fun _ => true)).map
      (fun s => decide (queued s = [] ∧ s.pktCntInPsq = 1)) = some true := by decide +kernel
  have hflush : ((delivered thirdAc ++ [Call.cleanup .all]).foldlM
      (callIf (plainAfq thirdAc) fun _ _ => true) (.init fun _ => true)).map (fun s =>
        decide (outstanding s = [] ∧ s.pktCntInDrv (firstIf, thirdAc) = 1 ∧
          s.pktCntInDrv (firstIf, secondAc) = -1)) = some true := by decide +kernel
  have hrefuse : ([Call.act (.commitPackets 1), Call.act (.commitPackets 2)].foldlM
      (callIf narrow fun _ _ => true) (.init fun _ => true)).map (fun s =>
        decide (outstanding s = [1] ∧ s.pktCntInDrv (firstIf, firstAc) = -1)) = some true := by decide +kernel
  obtain ⟨s, hs, he⟩ := Option.map_eq_some_iff.mp hacked
  obtain ⟨t, ht, hf⟩ := Option.map_eq_some_iff.mp hflush
  obtain ⟨u, hu, hr⟩ := Option.map_eq_some_iff.mp hrefuse
  exact ⟨⟨s, called_run (fun _ _ _ => trivial) .init hs, of_decide_eq_true he⟩,
    ⟨t, called_run (fun _ _ _ => trivial) .init ht, of_decide_eq_true hf⟩,
    ⟨u, called_run (fun _ _ _ => trivial) .init hu, of_decide_eq_true hr⟩⟩

end Bcmdhd.Wlfc
