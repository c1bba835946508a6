import Bcmdhd.Wlfc.Credits

/-!
# Packets that never reach the firmware (`dhd_wlfc_txcomplete`, `_dhd_wlfc_cleanup_txq`)

The bus gives a packet up, or it is taken out of the bus's queue: in implied mode its credit comes
back at once, to the FIFO of the highest priority that its own FIFO owes one, or to its own.  In
explicit mode it is lost, although `_dhd_wlfc_suppress_txq` gives such a credit back in both modes.

    runs step (init cfg) es = some (s, tr) → implied mode → no packet charged is left →
      FIFO_credit = Init_FIFO_credit, and nothing is borrowed        (discarded_credits_return)
-/

namespace Bcmdhd.Wlfc.Discard

open Runs Loans Credits

/-! ## Algorithm -/

/-- `_dhd_wlfc_return_implied_credit` for a packet -/
def returnCreditOf (cfg : Cfg) (s : State) (p : Sent) : State :=
  if cfg.mode = .implied ∧ p.creditcheck then
    returnImpliedCredit { s with charged := bump s.charged p.fifo (-1) } p.fifo
  else s

/-- The packet at `k` is discarded; `opens` is whether its entry is no longer suppressed. -/
def discardPkt (cfg : Cfg) (s : State) (k : Nat) (opens : Bool) : Option State :=
  match s.flight[k]? with
  | none => none
  | some p =>
    let e := s.entry p.entry
    let s := s.setEntry p.entry { e with
      transitCount := e.transitCount - 1
      suppressed := e.suppressed && !opens }
    some { returnCreditOf cfg s p with flight := s.flight.eraseIdx k }

/-- `dhd_wlfc_txcomplete` without success -/
def txcompleteFailed (cfg : Cfg) (s : State) (k : Nat) (opens : Bool) : Option State :=
  discardPkt cfg s k opens

/-- `_dhd_wlfc_cleanup_txq`: the packets that it takes, one after the other. -/
def cleanupTxq (cfg : Cfg) (s : State) (l : List (Nat × Bool)) : Option State :=
  l.foldlM (fun s x => discardPkt cfg s x.1 x.2) s

def atimFifo : Fifo := Fin.last 5

/-- The credit map in use, and the state. -/
structure Live where
  cfg : Cfg
  st : State

theorem atim_unlent (credits : Fifo → BitVec 8) :
    (if atimFifo = atimFifo then 0 else (credits atimFifo).toNat) = 0 := if_pos rfl

/-- `_dhd_wlfc_FIFOcreditmap_update` -/
def fifocreditmapUpdate (s : Live) (credits : Fifo → BitVec 8) : Live where
  cfg := { s.cfg with
    initFifoCredit := fun f => if f = atimFifo then 0 else (credits f).toNat
    atim := atim_unlent credits }
  st := { s.st with
    fifoCredit := fun f =>
      if f = atimFifo then 0 else s.st.fifoCredit f + ((credits f).toNat - s.cfg.initFifoCredit f) }

/-! ## Steps -/

inductive Act
  | call (a : Credits.Act)
  | txcompleteFailed (k : Nat) (opens : Bool)
  | cleanupTxq (l : List (Nat × Bool))
  | creditMap (credits : Fifo → BitVec 8)

/-- No pass goes on in another call, since it holds the lock. -/
def step (s : Live) : Act → Option (Live × Unit)
  | .call a => (Credits.step s.cfg s.st a).map fun r => (⟨s.cfg, r.1⟩, ())
  | .txcompleteFailed k opens =>
    if s.st.pass.isNone then
      (txcompleteFailed s.cfg s.st k opens).map fun t => (⟨s.cfg, t⟩, ())
    else none
  | .cleanupTxq l =>
    if s.st.pass.isNone then (cleanupTxq s.cfg s.st l).map fun t => (⟨s.cfg, t⟩, ()) else none
  | .creditMap credits =>
    if s.st.pass.isNone then some (fifocreditmapUpdate s credits, ()) else none

def init (cfg : Cfg) : Live := ⟨cfg, Credits.init cfg⟩

/-! ## What comes back -/

/-- One credit, for a packet of FIFO `f`. -/
inductive CreditBack (s s' : State) (f : Fifo) : Prop
  | lender (l : Fifo) (owed : 0 < s.creditsBorrowed f l)
      (highest : ∀ m, l < m → s.creditsBorrowed f m = 0)
      (credit : s'.fifoCredit = bump s.fifoCredit l 1)
      (loans : s'.creditsBorrowed =
        Function.update s.creditsBorrowed f (bump (s.creditsBorrowed f) l (-1)))
  | own (debtless : ∀ l, s.creditsBorrowed f l = 0)
      (credit : s'.fifoCredit = bump s.fifoCredit f 1)
      (loans : s'.creditsBorrowed = s.creditsBorrowed)

theorem find_first {l : List Fifo} (hl : l.Pairwise (· > ·)) {p : Fifo → Bool} {a : Fifo}
    (ha : l.find? p = some a) {m : Fifo} (hm : m ∈ l) (hlt : a < m) : p m = false := by
  obtain ⟨-, before, behind, rfl, hbefore⟩ := List.find?_eq_some_iff_append.mp ha
  rcases List.mem_append.mp hm with hm | hm
  · simpa using hbefore m hm
  · have hbehind := (List.pairwise_cons.mp (List.pairwise_append.mp hl).2.1).1
    rcases List.mem_cons.mp hm with rfl | hm
    · exact absurd hlt (lt_irrefl m)
    · exact absurd hlt (lt_asymm (hbehind m hm))

theorem lenders_sorted : lenders.reverse.Pairwise (· > ·) := by decide

variable {cfg : Cfg} {s t : State} {k : Nat}

/-- The lender found is the one of the highest priority. -/
theorem creditor_highest (h : Owed cfg s) {f l : Fifo} (hl : creditor s f = some l) (m : Fifo)
    (hm : l < m) : s.creditsBorrowed f m = 0 := by
  rcases @mem_lenders m with hmem | rfl
  · have hnone := find_first lenders_sorted hl (List.mem_reverse.mpr hmem) hm
    have hnonneg : 0 ≤ s.creditsBorrowed f m := h.accounted.borrowed_nonneg f m
    rw [decide_eq_false_iff_not] at hnone
    omega
  · exact h.atim f

theorem discardPkt_eq {opens : Bool} (h : discardPkt cfg s k opens = some t) :
    ∃ p e, s.flight[k]? = some p ∧
      t = { returnCreditOf cfg (s.setEntry p.entry e) p with flight := s.flight.eraseIdx k } := by
  unfold discardPkt at h
  split at h
  · cases h
  · next p hp =>
    cases h
    exact ⟨p, _, hp, rfl⟩

/-- In implied mode a packet that was charged gives its credit back. -/
theorem discardPkt_back {opens : Bool} {p : Sent} (ho : Owed cfg s) (hm : cfg.mode = .implied)
    (hk : s.flight[k]? = some p) (hp : p.creditcheck = true)
    (h : discardPkt cfg s k opens = some t) :
    CreditBack s t p.fifo := by
  obtain ⟨q, e, hq, rfl⟩ := discardPkt_eq h
  obtain rfl : p = q := Option.some.inj (hk.symm.trans hq)
  unfold returnCreditOf
  rw [if_pos ⟨hm, hp⟩]
  unfold returnImpliedCredit
  split
  · next l hl =>
    have hl : creditor s p.fifo = some l := hl
    exact .lender l (creditor_some hl).2 (creditor_highest ho hl) rfl rfl
  · next hl =>
    have hl : creditor s p.fifo = none := hl
    exact .own (creditor_none ho hl) rfl rfl

theorem discardPkt_owed {opens : Bool} (ho : Owed cfg s) (h : discardPkt cfg s k opens = some t) :
    Owed cfg t := by
  obtain ⟨p, e, hk, rfl⟩ := discardPkt_eq h
  have hentry := ho.setEntry p.entry e
  unfold returnCreditOf
  split
  · next hback => exact hentry.comeBack hk hback.1 hback.2
  · next hback => exact hentry.leave hk fun hp hm => hback ⟨hm, hp⟩

/-! ## The ATIM FIFO -/

def Phase.Ranged : Phase → Prop
  | .perAc ac rest _ => ac ≠ atimFifo ∧ atimFifo ∉ rest
  | .borrowAll ac => ac ≠ atimFifo

/-- No packet goes to the ATIM FIFO. -/
structure Ranged (s : State) : Prop where
  phase : ∀ p ∈ s.pass, Phase.Ranged p.phase ∧ p.singleAc ≤ 5
  flight : ∀ p ∈ s.flight, p.fifo ≠ atimFifo

section

variable {cfg : Cfg} {s : State}

theorem endPerAc_ranged (h : Ranged s) {p : Pass} (hp : p.singleAc ≤ 5) (elapsed : Bool) :
    Ranged (endPerAc s p elapsed) := by
  have hac : Fin.ofNat 6 (p.singleAc - 1) ≠ atimFifo := by
    intro h
    have hval := congrArg Fin.val h
    simp only [Fin.ofNat, atimFifo, Fin.last] at hval
    omega
  have hno : ∀ {t : State}, t.flight = s.flight → t.pass = none → Ranged t := by
    intro t hflight hpass
    refine ⟨?_, ?_⟩
    · rw [hpass]
      exact nofun
    · rw [hflight]
      exact h.flight
  have hgo : ∀ {t : State}, t.flight = s.flight →
      t.pass = some { p with phase := .borrowAll (Fin.ofNat 6 (p.singleAc - 1)) } → Ranged t := by
    intro t hflight hpass
    refine ⟨?_, ?_⟩
    · rw [hpass]
      rintro q ⟨⟩
      exact ⟨hac, hp⟩
    · rw [hflight]
      exact h.flight
  unfold endPerAc
  dsimp only
  split
  · exact hno rfl rfl
  · split
    · split
      · split
        · exact hno rfl rfl
        · exact hgo rfl rfl
      · split
        · exact hno rfl rfl
        · split
          · split
            · exact hno rfl rfl
            · exact hgo rfl rfl
          · exact hno rfl rfl
    · exact hno rfl rfl

theorem enterAc_ranged (h : Ranged s) {p : Pass} (hp : p.singleAc ≤ 5) (elapsed : Bool)
    {l : List Fifo} (hl : atimFifo ∉ l) : Ranged (enterAc s p elapsed l) := by
  induction l generalizing p with
  | nil => exact endPerAc_ranged h hp elapsed
  | cons ac rest ih =>
    have hac : atimFifo ≠ ac := fun hac => hl (hac ▸ List.mem_cons_self)
    have hrest : atimFifo ∉ rest := fun hm => hl (List.mem_cons_of_mem ac hm)
    unfold enterAc
    dsimp only
    split
    · exact ih hp hrest
    · refine ⟨?_, h.flight⟩
      rintro q ⟨⟩
      have hne : ac.val ≠ 5 := fun h => hac (Fin.ext h.symm)
      have hlt := ac.isLt
      refine ⟨⟨hac.symm, hrest⟩, ?_⟩
      dsimp only
      omega

theorem leaveAc_ranged (h : Ranged s) {p : Pass} (hp : p.singleAc ≤ 5) (elapsed : Bool) {ac : Fifo}
    {l : List Fifo} (hl : atimFifo ∉ l) : Ranged (leaveAc s p elapsed ac l) := by
  unfold leaveAc
  refine enterAc_ranged h ?_ elapsed hl
  exact hp

/-- A turn may add a packet of its category. -/
structure Turned (s s' : State) (ac : Fifo) : Prop where
  pass : s'.pass = s.pass
  flight : ∀ p ∈ s'.flight, p ∈ s.flight ∨ p.fifo = ac

theorem dequeDelayedq_pass (cfg : Cfg) (s : State) (prec : Fifo) (onlyNoCredit : Bool) :
    (dequeDelayedq cfg s prec onlyNoCredit).1.pass = s.pass := by
  unfold dequeDelayedq
  split <;> rfl

theorem rollback_pass (s : State) (ac : Fifo) (d : Dequeued) (requeued : Bool) :
    (rollbackPacketToq s ac d requeued).pass = s.pass := by
  unfold rollbackPacketToq
  dsimp only
  split <;> split <;> rfl

theorem turn_turned (cfg : Cfg) (s : State) (ac : Fifo) (lender : Option Fifo)
    (onlyNoCredit : Bool) (res : Commit) :
    Turned s (turn cfg s ac lender onlyNoCredit res).1 ac := by
  have hstart : ∀ l : Option Fifo, (l.elim s fun l => borrowCredit s l ac).pass = s.pass ∧
      (l.elim s fun l => borrowCredit s l ac).flight = s.flight := by
    rintro (_ | l) <;> exact ⟨rfl, rfl⟩
  have hend : ∀ {t : State}, Turned s t ac →
      Turned s (lender.elim t fun l => returnCredit t l ac) ac := by
    intro t ht
    cases lender with
    | none => exact ht
    | some l => exact ⟨ht.pass, ht.flight⟩
  unfold turn
  dsimp only
  generalize hb : (lender.elim s fun l => borrowCredit s l ac) = b
  have hpass := dequeDelayedq_pass cfg b ac onlyNoCredit
  have hflight := (dequeDelayedq_same cfg b ac onlyNoCredit).flight
  rw [← hb, (hstart lender).1, hb] at hpass
  rw [← hb, (hstart lender).2, hb] at hflight
  generalize dequeDelayedq cfg b ac onlyNoCredit = r at hpass hflight
  obtain ⟨t, d⟩ := r
  dsimp only at hpass hflight
  have hback : ∀ {u : State}, u.pass = t.pass → u.flight = t.flight → Turned s u ac := by
    intro u hp hf
    refine ⟨hp.trans hpass, fun p hm => .inl ?_⟩
    rw [← hflight, ← hf]
    exact hm
  cases d with
  | none => exact hend (hback rfl rfl)
  | some d =>
    dsimp only
    generalize ht : ({ t with assertFailed := _ } : State) = t'
    have hpass' : t'.pass = t.pass := ht ▸ rfl
    have hflight' : t'.flight = t.flight := ht ▸ rfl
    have hrollback : ∀ requeued, Turned s (rollbackPacketToq t' ac d requeued) ac := fun requeued =>
      hback ((rollback_pass t' ac d requeued).trans hpass')
        ((rollback_same t' ac d requeued).flight.trans hflight')
    cases res with
    | ok old =>
      have hcommitted : Turned s (committed t' ac d old) ac := by
        refine ⟨hpass'.trans hpass, fun p hm => ?_⟩
        change p ∈ t'.flight ++ [_] at hm
        rw [hflight', hflight] at hm
        rcases List.mem_append.mp hm with hm | hm
        · exact .inl hm
        · rw [List.mem_singleton.mp hm]
          exact .inr rfl
      dsimp only
      split
      · exact ⟨hcommitted.pass, hcommitted.flight⟩
      · exact ⟨hcommitted.pass, hcommitted.flight⟩
      · exact hcommitted
    | requeued => exact hend (hrollback true)
    | dropped => exact hend (hrollback false)

/-- The passes go through the four categories and bc/mc. -/
theorem advance_ranged (h : Ranged s) {p : Pass} (hp : s.pass = some p) (inp : Inp) :
    Ranged (advance cfg s p inp) := by
  obtain ⟨hphase, hsingle⟩ := h.phase p hp
  have hturn : ∀ {ac : Fifo} (lender : Option Fifo) (b : Bool), ac ≠ atimFifo →
      Ranged (turn cfg s ac lender b inp.res).1 := by
    intro ac lender b hac
    have ht := turn_turned cfg s ac lender b inp.res
    refine ⟨?_, fun q hq => ?_⟩
    · rw [ht.pass]
      exact h.phase
    · rcases ht.flight q hq with hq | hq
      · exact h.flight q hq
      · rw [hq]
        exact hac
  unfold advance
  split
  · next ac rest sent heq =>
    rw [heq] at hphase
    split
    · have hs := hturn (turnLender cfg s p ac)
        (noCredit s ac && (turnLender cfg s p ac).isNone) hphase.1
      dsimp only
      split
      · exact leaveAc_ranged hs hsingle inp.elapsed hphase.2
      · refine ⟨?_, hs.flight⟩
        rintro q ⟨⟩
        exact ⟨hphase, hsingle⟩
      · exact ⟨nofun, hs.flight⟩
    · exact leaveAc_ranged h hsingle inp.elapsed hphase.2
  · next ac heq =>
    rw [heq] at hphase
    split
    · split
      · exact ⟨nofun, h.flight⟩
      · next l _ =>
        have hs := hturn (some l) false hphase
        dsimp only
        split
        · exact hs
        · exact ⟨nofun, hs.flight⟩
    · exact ⟨nofun, h.flight⟩

theorem ranged_erase {s' : State} (h : Ranged s) (hpass : s'.pass = s.pass)
    (hflight : s'.flight = s.flight.eraseIdx k) : Ranged s' := by
  refine ⟨?_, fun p hp => ?_⟩
  · rw [hpass]
    exact h.phase
  · rw [hflight] at hp
    exact h.flight p (List.mem_of_mem_eraseIdx hp)

theorem ranged_same {s' : State} (h : Ranged s) (hpass : s'.pass = s.pass)
    (hflight : s'.flight = s.flight) : Ranged s' := by
  refine ⟨?_, ?_⟩
  · rw [hpass]
    exact h.phase
  · rw [hflight]
    exact h.flight

theorem returnImpliedCredit_same (s : State) (f : Fifo) :
    (returnImpliedCredit s f).pass = s.pass ∧ (returnImpliedCredit s f).flight = s.flight := by
  unfold returnImpliedCredit
  split <;> exact ⟨rfl, rfl⟩

theorem txstatus_pass (cfg : Cfg) (s : State) (p : Sent) : (txstatus cfg s p).pass = s.pass := by
  unfold txstatus
  dsimp only
  split
  · split
    · exact (returnImpliedCredit_same ..).1
    · rfl
  · split <;> rfl

theorem backToLenders_same (i : Fifo) (l : List Fifo) (s : State) (n : Nat) :
    (backToLenders s i l n).1.pass = s.pass ∧ (backToLenders s i l n).1.flight = s.flight := by
  induction l generalizing s n with
  | nil => exact ⟨rfl, rfl⟩
  | cons m l ih =>
    unfold backToLenders
    dsimp only
    split
    · exact ih _ _
    · exact ih s n

theorem creditback_ranged (credits : Fifo → BitVec 8) (l : List Fifo) (h : Ranged s) :
    Ranged (l.foldl (fifocreditback cfg credits) s) := by
  refine List.foldlRecOn (motive := Ranged) l _ h fun t ht i _ => ?_
  obtain ⟨hpass, hflight⟩ := backToLenders_same i lenders.reverse t (credits i).toNat
  exact ranged_same ht hpass hflight

theorem psmodeUpdate_pass (s : State) (i : Nat) (opened : Bool) :
    (psmodeUpdate s i opened).pass = s.pass := by
  unfold psmodeUpdate
  dsimp only
  split
  · split <;> rfl
  · rfl

theorem request_pass (s : State) (i : Nat) (bmp : BitVec 8) (set : Entry → Entry) :
    (request s i bmp set).pass = s.pass := by
  unfold request
  dsimp only
  split <;> rfl

theorem step_ranged (h : Ranged s) {s' : State} {a : Credits.Act} {u : Unit}
    (hs : Credits.step cfg s a = some (s', u)) : Ranged s' := by
  unfold Credits.step at hs
  split at hs
  · next p inp hp =>
    cases hs
    exact advance_ranged h hp inp
  · cases hs
  · cases hs
  · cases hs
    exact enterAc_ranged h (Nat.zero_le 5) false (by decide)
  · split at hs
    · cases hs
    · next p hk =>
      cases hs
      exact ranged_erase h (txstatus_pass cfg s p) rfl
  · split at hs
    · split at hs
      · cases hs
        exact h
      · cases hs
        exact creditback_ranged _ fifos h
    · cases hs
  · cases hs
    exact ranged_same h (psmodeUpdate_pass ..) (psmodeUpdate_same ..).flight
  · cases hs
    exact ranged_same h (request_pass ..) (request_same ..).flight
  · cases hs
    exact ranged_same h (request_pass ..) (request_same ..).flight
  · cases hs
    exact ranged_same h rfl rfl
  · cases hs
    exact ranged_same h rfl rfl
  · cases hs
    exact ranged_same h rfl rfl

theorem discardPkt_ranged (h : Ranged s) {opens : Bool} (ht : discardPkt cfg s k opens = some t) :
    Ranged t := by
  obtain ⟨p, e, -, rfl⟩ := discardPkt_eq ht
  refine ranged_erase h ?_ rfl
  show (returnCreditOf cfg (s.setEntry p.entry e) p).pass = s.pass
  unfold returnCreditOf
  split
  · exact (returnImpliedCredit_same ..).1
  · rfl

end

theorem cleanupTxq_inv {l : List (Nat × Bool)} (ho : Owed cfg s) (hr : Ranged s)
    (h : cleanupTxq cfg s l = some t) : Owed cfg t ∧ Ranged t := by
  induction l generalizing s with
  | nil =>
    cases h
    exact ⟨ho, hr⟩
  | cons x l ih =>
    unfold cleanupTxq at h
    rw [List.foldlM_cons] at h
    obtain ⟨u, hu, h⟩ := Option.bind_eq_some_iff.mp h
    exact ih (discardPkt_owed ho hu) (discardPkt_ranged hr hu) h

theorem cleanupTxq_snoc {u : State} {l : List (Nat × Bool)} {x : Nat × Bool}
    (h : cleanupTxq cfg s l = some t) (hu : cleanupTxq cfg s (l ++ [x]) = some u) :
    discardPkt cfg t x.1 x.2 = some u := by
  unfold cleanupTxq at h hu
  rw [List.foldlM_append, h] at hu
  simpa using hu

/-! ## Steps -/

/-- In implied mode credits are accounted for, with the credit map that is in use. -/
structure Live.Inv (s : Live) : Prop where
  implied : s.cfg.mode = .implied
  owed : Owed s.cfg s.st
  ranged : Ranged s.st

theorem inv_init (hm : cfg.mode = .implied) : (init cfg).Inv :=
  ⟨hm, owed_init cfg, ⟨nofun, nofun⟩⟩

/-- Without a charge the FIFO is left alone. -/
theorem fifocreditmapUpdate_inv {s : Live} (h : s.Inv) (credits : Fifo → BitVec 8) :
    (fifocreditmapUpdate s credits).Inv := by
  have hcharged : s.st.charged atimFifo = 0 := by
    rw [h.owed.counted h.implied atimFifo, List.countP_eq_zero.mpr]
    · rfl
    · intro p hp
      have hne := h.ranged.flight p hp
      simp [hne]
  refine ⟨h.implied, ⟨?_, h.owed.counted, h.owed.atim⟩, ⟨h.ranged.phase, h.ranged.flight⟩⟩
  refine ⟨fun l => ?_, h.owed.accounted.borrowed_nonneg, h.owed.accounted.debt_le⟩
  have htotal : s.st.fifoCredit l + s.st.ledger.lent l +
      (s.st.charged l - s.st.ledger.debt l) = s.cfg.initFifoCredit l := h.owed.accounted.total l
  show (if l = atimFifo then 0 else s.st.fifoCredit l + ((credits l).toNat - s.cfg.initFifoCredit l)) +
    s.st.ledger.lent l + (s.st.charged l - s.st.ledger.debt l) =
      ((if l = atimFifo then 0 else (credits l).toNat : Nat) : Int)
  by_cases hl : l = atimFifo
  · subst hl
    have hlent : s.st.ledger.lent atimFifo = 0 := Finset.sum_eq_zero fun b _ => h.owed.atim b
    have hdebt : s.st.ledger.debt atimFifo = 0 :=
      Finset.sum_eq_zero fun l _ => h.owed.accounted.debtless hcharged l
    rw [if_pos rfl, if_pos rfl, hlent, hdebt, hcharged]
    rfl
  · rw [if_neg hl, if_neg hl]
    omega

theorem step_inv {s s' : Live} {a : Act} {u : Unit} (h : s.Inv) (hs : step s a = some (s', u)) :
    s'.Inv := by
  cases a with
  | call a =>
    obtain ⟨r, hr, heq⟩ := Option.map_eq_some_iff.mp hs
    cases heq
    exact ⟨h.implied, step_owed h.owed hr, step_ranged h.ranged hr⟩
  | txcompleteFailed k opens =>
    unfold step at hs
    dsimp only at hs
    split at hs
    · obtain ⟨t, ht, heq⟩ := Option.map_eq_some_iff.mp hs
      cases heq
      exact ⟨h.implied, discardPkt_owed h.owed ht, discardPkt_ranged h.ranged ht⟩
    · cases hs
  | cleanupTxq l =>
    unfold step at hs
    dsimp only at hs
    split at hs
    · obtain ⟨t, ht, heq⟩ := Option.map_eq_some_iff.mp hs
      cases heq
      obtain ⟨howed, hranged⟩ := cleanupTxq_inv h.owed h.ranged ht
      exact ⟨h.implied, howed, hranged⟩
    · cases hs
  | creditMap credits =>
    unfold step at hs
    dsimp only at hs
    split at hs
    · cases hs
      exact fifocreditmapUpdate_inv h credits
    · cases hs

theorem runs_inv {es : List Act} {s : Live} {tr : List (Act × Unit)}
    (h : runs step (init cfg) es = some (s, tr)) (hm : cfg.mode = .implied) : s.Inv :=
  Runs.runs_inv step (fun s _ => s.Inv) (fun _ _ _ _ _ hi hs => step_inv hi hs) (init cfg) s es tr
    (inv_init hm) h

/-! ## Top theorem -/

/-- **The credit of a discarded packet comes back** in implied mode; when no packet that was charged
is left, all credits are where they were at first. -/
theorem discarded_credits_return (cfg : Cfg) (es : List Act) (s : Live) (tr : List (Act × Unit))
    (hm : cfg.mode = .implied) (h : runs step (init cfg) es = some (s, tr)) :
    (∀ k opens p t, s.st.flight[k]? = some p → p.creditcheck = true →
      txcompleteFailed s.cfg s.st k opens = some t → CreditBack s.st t p.fifo) ∧
    (∀ l x p t u, cleanupTxq s.cfg s.st l = some t → t.flight[x.1]? = some p →
      p.creditcheck = true → cleanupTxq s.cfg s.st (l ++ [x]) = some u → CreditBack t u p.fifo) ∧
    ((∀ p ∈ s.st.flight, p.creditcheck = false) →
      (∀ f, s.st.fifoCredit f = s.cfg.initFifoCredit f) ∧ ∀ b l, s.st.creditsBorrowed b l = 0) := by
  have hinv := runs_inv h hm
  refine ⟨fun k opens p t hk hp ht => ?_, fun l x p t u ht hk hp hu => ?_, fun hnone => ?_⟩
  · exact discardPkt_back hinv.owed hinv.implied hk hp ht
  · have howed := (cleanupTxq_inv hinv.owed hinv.ranged ht).1
    exact discardPkt_back howed hinv.implied hk hp (cleanupTxq_snoc ht hu)
  · have hcharged : ∀ f, s.st.charged f = 0 := by
      intro f
      rw [hinv.owed.counted hinv.implied f, List.countP_eq_zero.mpr]
      · rfl
      · intro p hp
        simp [hnone p hp]
    obtain ⟨hfree, hborrowed⟩ := hinv.owed.accounted.settled hcharged
    exact ⟨congrFun hfree, hborrowed⟩

/-- A pass with `n` packets of category 1, after `m` turns. -/
def passed (n m : Nat) : List Act :=
  [.call (.other 48 (waiting 0xff n) [48] [] (fun f => if f.val = 1 then n else 0)),
    .call (.passBegin fun _ => false)] ++ List.replicate m (.call (.advance goes))

/-- Two packets, the second with a credit of FIFO 0: both are discarded. -/
theorem discarded_credits_return_two :
    ∃ s tr, runs step (init twoFifos) (passed 2 3 ++ [.txcompleteFailed 0 true,
        .cleanupTxq [(0, false)]]) = some (s, tr) ∧
      (∀ f, s.st.fifoCredit f = s.cfg.initFifoCredit f) ∧ ∀ b l, s.st.creditsBorrowed b l = 0 := by
  obtain ⟨s, tr, h⟩ : ∃ s tr, runs step (init twoFifos) (passed 2 3 ++ [.txcompleteFailed 0 true,
      .cleanupTxq [(0, false)]]) = some (s, tr) := ⟨_, _, rfl⟩
  have hnone : ∀ p ∈ s.st.flight, p.creditcheck = false := by
    cases h
    exact nofun
  exact ⟨s, tr, h, (discarded_credits_return twoFifos _ s tr rfl h).2.2 hnone⟩

/-- One credit in explicit mode, in FIFO 1. -/
def explicitCredit : Cfg := { oneCredit with mode := .explicit }

/-- In explicit mode the credit is lost; and the credit that the first packet took of its own FIFO
comes back to the one that the second packet has borrowed from. -/
theorem discarded_credits_return_fails :
    (∃ s tr, runs step (init explicitCredit) (passed 1 2 ++ [.txcompleteFailed 0 true]) =
        some (s, tr) ∧
      s.st.flight.length = 0 ∧ s.st.fifoCredit 1 = 0 ∧ s.cfg.initFifoCredit 1 = 1) ∧
    (∃ s tr, runs step (init twoFifos) (passed 2 1) = some (s, tr) ∧
      (s.st.fifoCredit 0, s.st.fifoCredit 1) = (4, 0)) ∧
    (∃ s tr, runs step (init twoFifos) (passed 2 3) = some (s, tr) ∧
      (s.st.fifoCredit 0, s.st.fifoCredit 1) = (3, 0)) ∧
    ∃ s tr, runs step (init twoFifos) (passed 2 3 ++ [.txcompleteFailed 0 true]) = some (s, tr) ∧
      (s.st.fifoCredit 0, s.st.fifoCredit 1) = (4, 0) :=
  ⟨⟨_, _, rfl, rfl, rfl, rfl⟩, ⟨_, _, rfl, rfl⟩, ⟨_, _, rfl, rfl⟩, ⟨_, _, rfl, rfl⟩⟩

end Bcmdhd.Wlfc.Discard
