import Bcmdhd.Lib.Ledger
import Bcmdhd.Lib.Runs

/-!
# FIFO credits of the transmit path (`dhd_wlfc_transfer_packets`)

A packet that is committed to the bus takes a credit of its FIFO, or one borrowed from another
FIFO, unless its station is asleep; the credit comes back with the status of the packet
(implied mode) or by an indication of its own (explicit mode), to a lender first.

    runs (step cfg) (init cfg) es = some (s, tr) →  no OPEN station is served from the list of
      requests while its FIFO has no credit →  credits are conserved         (fifo_credits_conserved)
-/

namespace Bcmdhd.Wlfc.Credits

open Runs Loans

/-! ## Algorithm -/

/-- The four access categories, bc/mc and ATIM. -/
abbrev Fifo := Fin 6

/-- `AC_COUNT`: bc/mc traffic -/
def acCount : Fifo := 4

/-- Lenders from the lowest priority on. -/
def lenders : List Fifo := [0, 1, 2, 3, 4]

inductive FcMode
  | implied | explicit
  deriving DecidableEq

/-- What is fixed in a run; the credit map has no credit for the ATIM FIFO. -/
structure Cfg where
  mode : FcMode
  initFifoCredit : Fifo → Nat
  atim : initFifoCredit 5 = 0
  maxReleaseCount : Nat

inductive MacState
  | opened | closed
  deriving DecidableEq

/-- `wlfc_mac_descriptor_t`, with the lengths of its suppressed and delayed queues. -/
structure Entry where
  occupied : Bool
  interfaceId : Nat
  p2pGo : Bool
  state : MacState
  acBitmap : BitVec 8
  requestedCredit : Nat
  requestedPacket : Nat
  transitCount : Nat
  transitMaxcount : Nat
  suppressed : Bool
  supLen : Fifo → Nat
  dlyLen : Fifo → Nat
  releaseCount : Fifo → Nat

/-- A packet at the firmware, with its bits CREDITCHECK and ONETIMEPKTRQST. -/
structure Sent where
  entry : Nat
  fifo : Fifo
  creditcheck : Bool
  onetime : Bool

/-- The two loops of a pass: packets of `ac`, `sent` so far, the lower categories after it; then
packets of the only category there is, with all credits borrowed. -/
inductive Phase
  | perAc (ac : Fifo) (rest : List Fifo) (sent : Nat)
  | borrowAll (ac : Fifo)

/-- Local variables of `dhd_wlfc_transfer_packets` -/
structure Pass where
  phase : Phase
  rxRecent : Fifo → Bool
  rxMap : Nat
  txMap : Nat
  packetsMap : Nat
  singleAc : Nat

structure State where
  fifoCredit : Fifo → Int
  creditsBorrowed : Fifo → Fifo → Int
  /-- nodes from 0, interfaces from 32, other at 48 -/
  entry : Nat → Entry
  active : List Nat
  requested : List Nat
  pktCntPerAc : Fifo → Int
  bcmcCreditSupported : Bool
  borrowAllowed : Bool
  allowCreditBorrow : Bool
  singleAc : Nat
  pass : Option Pass
  flight : List Sent
  /-- packets that took a credit which has not come back -/
  charged : Fifo → Int
  /-- `ASSERT(FIFO_credit[ac] >= ac_fifo_credit_spent)` has failed -/
  assertFailed : Bool

def State.setEntry (s : State) (i : Nat) (e : Entry) : State :=
  { s with entry := Function.update s.entry i e }

/-- `_dhd_wlfc_borrow_credit` -/
def borrowLender (cfg : Cfg) (s : State) (all : Bool) : Option Fifo :=
  lenders.find? fun l => (if all then 0 else (cfg.initFifoCredit l : Int) / 4) < s.fifoCredit l

def borrowCredit (s : State) (lender borrower : Fifo) : State :=
  { s with
    fifoCredit := bump s.fifoCredit lender (-1)
    creditsBorrowed :=
      Function.update s.creditsBorrowed borrower (bump (s.creditsBorrowed borrower) lender 1) }

def returnCredit (s : State) (lender borrower : Fifo) : State :=
  { s with
    fifoCredit := bump s.fifoCredit lender 1
    creditsBorrowed :=
      Function.update s.creditsBorrowed borrower (bump (s.creditsBorrowed borrower) lender (-1)) }

def isDestinationOpen (s : State) (e : Entry) (prec : Fifo) : Bool :=
  if 16 ≤ e.interfaceId then true
  else if (s.entry (32 + e.interfaceId)).p2pGo ∧ e.state = .closed ∧ e.requestedCredit = 0 ∧
      e.requestedPacket = 0 then false
  else if ((e.state = .closed ∨ (s.entry (32 + e.interfaceId)).state = .closed) ∧
      e.requestedCredit = 0 ∧ e.requestedPacket = 0) ∨ ¬ e.acBitmap.getLsbD prec then false
  else true

/-- The entry is let through and has a packet. -/
def gives (s : State) (prec : Fifo) (i : Nat) : Bool :=
  let e := s.entry i
  e.occupied ∧ isDestinationOpen s e prec ∧ e.transitCount < e.transitMaxcount ∧
    e.transitCount < 0xff ∧ ¬ e.suppressed ∧ (0 < e.supLen prec ∨ 0 < e.dlyLen prec)

/-- What `_dhd_wlfc_deque_delayedq` hands out. -/
structure Dequeued where
  entry : Nat
  needsHdr : Bool
  creditSpent : Bool
  onetime : Bool

/-- A packet of entry `i` is taken: suppressed ones first, against a request if there is one. -/
def takeFrom (e : Entry) (prec : Fifo) : Entry :=
  let e := if 0 < e.supLen prec then { e with supLen := Function.update e.supLen prec (e.supLen prec - 1) }
    else { e with dlyLen := Function.update e.dlyLen prec (e.dlyLen prec - 1) }
  if 0 < e.requestedCredit then { e with requestedCredit := e.requestedCredit - 1 }
  else { e with requestedPacket := e.requestedPacket - 1 }

/-- The release count, and whether the next entry has its turn. -/
def release (cfg : Cfg) (e : Entry) (prec : Fifo) : Entry × Bool :=
  if e.state = .opened then
    let c := (e.releaseCount prec + 1) % 0x10000
    if c = cfg.maxReleaseCount ∨ e.supLen prec + e.dlyLen prec = 0 then
      ({ e with releaseCount := Function.update e.releaseCount prec 0 }, true)
    else ({ e with releaseCount := Function.update e.releaseCount prec c }, false)
  else (e, false)

def dequeDelayedq (cfg : Cfg) (s : State) (prec : Fifo) (onlyNoCredit : Bool) :
    State × Option Dequeued :=
  match (if onlyNoCredit then s.requested else s.active).find? (gives s prec) with
  | none => (s, none)
  | some i =>
    let e := s.entry i
    let r := release cfg (takeFrom e prec) prec
    -- the head of the active entries has moved up to the one that gave the packet
    let active := if onlyNoCredit then s.active else s.active.rotate (s.active.findIdx (gives s prec))
    ({ s.setEntry i r.1 with
        active := if r.2 then active.rotate 1 else active
        pktCntPerAc := bump s.pktCntPerAc prec (-1) },
      some {
        entry := i
        needsHdr := e.supLen prec = 0
        creditSpent := ¬ (prec = acCount ∧ ¬ s.bcmcCreditSupported) ∧ e.state = .opened
        onetime := e.requestedCredit = 0 ∧ 0 < e.requestedPacket })

/-- What `_dhd_wlfc_handle_packet_commit` comes to: on the bus (of an old generation or not), or
back in its queue, or dropped. -/
inductive Commit
  | ok (oldGeneration : Bool)
  | requeued
  | dropped

/-- The packet is on the bus. -/
def committed (s : State) (ac : Fifo) (d : Dequeued) (oldGeneration : Bool) : State :=
  let e := s.entry d.entry
  { s.setEntry d.entry { e with
        transitCount := e.transitCount + 1
        suppressed := e.suppressed || oldGeneration } with
    flight := s.flight ++ [⟨d.entry, ac, d.creditSpent, d.onetime⟩]
    charged := if d.creditSpent then bump s.charged ac 1 else s.charged }

/-- `_dhd_wlfc_rollback_packet_toq` -/
def rollbackPacketToq (s : State) (ac : Fifo) (d : Dequeued) (requeued : Bool) : State :=
  let e := s.entry d.entry
  let e := if ac ≠ acCount ∧ ¬ d.creditSpent then
    { e with requestedCredit := (e.requestedCredit + 1) % 0x100 } else e
  if requeued then
    let e := if d.needsHdr then { e with dlyLen := Function.update e.dlyLen ac (e.dlyLen ac + 1) }
      else { e with supLen := Function.update e.supLen ac (e.supLen ac + 1) }
    { s.setEntry d.entry e with pktCntPerAc := bump s.pktCntPerAc ac 1 }
  else s.setEntry d.entry e

inductive Outcome
  | empty | sent | failed

/-- One turn of either loop, with the lender if a credit was borrowed. -/
def turn (cfg : Cfg) (s : State) (ac : Fifo) (lender : Option Fifo) (onlyNoCredit : Bool)
    (res : Commit) : State × Outcome :=
  let borrowed := lender.elim s fun l => borrowCredit s l ac
  let r := dequeDelayedq cfg borrowed ac onlyNoCredit
  match r.2 with
  | none => (lender.elim r.1 fun l => returnCredit r.1 l ac, .empty)
  | some d =>
    let s := { r.1 with assertFailed := r.1.assertFailed ||
      (lender.isNone && decide (r.1.fifoCredit ac < if d.creditSpent then 1 else 0)) }
    match res with
    | .ok oldGeneration =>
      let s := committed s ac d oldGeneration
      match d.creditSpent, lender with
      | true, none => ({ s with fifoCredit := bump s.fifoCredit ac (-1) }, .sent)
      | false, some l => (returnCredit s l ac, .sent)
      | _, _ => (s, .sent)
    | .requeued =>
      let s := rollbackPacketToq s ac d true
      (lender.elim s fun l => returnCredit s l ac, .failed)
    | .dropped =>
      let s := rollbackPacketToq s ac d false
      (lender.elim s fun l => returnCredit s l ac, .failed)

/-! ## Passes -/

def bit (ac : Fifo) : Nat := 1 <<< ac.val

/-- No credit of its own for `ac`. -/
def noCredit (s : State) (ac : Fifo) : Bool :=
  ¬ (ac = acCount ∧ ¬ s.bcmcCreditSupported) ∧ s.fifoCredit ac < 1

/-- The lender of the next turn of the first loop. -/
def turnLender (cfg : Cfg) (s : State) (p : Pass) (ac : Fifo) : Option Fifo :=
  if noCredit s ac ∧ ac < acCount ∧ p.rxMap ≤ p.txMap ∧ s.borrowAllowed then
    borrowLender cfg s false
  else none

/-- Behind the first loop: all credits are borrowed if there is one category only, for long
enough. -/
def endPerAc (s : State) (p : Pass) (elapsed : Bool) : State :=
  if p.txMap = 0 then { s with pass := none }
  else if p.txMap &&& (p.txMap - 1) = 0 ∧ p.rxMap ≤ p.txMap then
    let go (s : State) : State :=
      if p.packetsMap = 0 then { s with pass := none }
      else { s with pass := some { p with phase := .borrowAll (Fin.ofNat 6 (p.singleAc - 1)) } }
    if p.singleAc = s.singleAc ∧ s.allowCreditBorrow then go s
    else if p.singleAc ≠ s.singleAc then
      { s with allowCreditBorrow := false, singleAc := p.singleAc, pass := none }
    else if elapsed then go { s with allowCreditBorrow := true }
    else { s with pass := none }
  else { s with allowCreditBorrow := false, singleAc := 0, pass := none }

/-- On to the next category that has packets. -/
def enterAc (s : State) (p : Pass) (elapsed : Bool) : List Fifo → State
  | [] => endPerAc s p elapsed
  | ac :: rest =>
    let rxMap := if p.rxRecent ac then p.rxMap ||| bit ac else p.rxMap
    if s.pktCntPerAc ac = 0 then enterAc s { p with rxMap := rxMap } elapsed rest
    else
      { s with pass := some { p with
          rxMap := rxMap
          txMap := p.txMap ||| bit ac
          singleAc := ac + 1
          phase := .perAc ac rest 0 } }

def leaveAc (s : State) (p : Pass) (elapsed : Bool) (ac : Fifo) (rest : List Fifo) : State :=
  enterAc s { p with packetsMap := if s.pktCntPerAc ac ≠ 0 then p.packetsMap ||| bit ac else p.packetsMap }
    elapsed rest

/-- What the pass meets: `proptxstatus_txoff`, the result of the commit, the time. -/
structure Inp where
  txoff : Bool
  res : Commit
  elapsed : Bool

/-- The head of the loop and, if it is entered, one turn of it. -/
def advance (cfg : Cfg) (s : State) (p : Pass) (inp : Inp) : State :=
  match p.phase with
  | .perAc ac rest sent =>
    if ¬ inp.txoff ∧ sent < cfg.maxReleaseCount then
      let lender := turnLender cfg s p ac
      let r := turn cfg s ac lender (noCredit s ac && lender.isNone) inp.res
      match r.2 with
      | .empty => leaveAc r.1 p inp.elapsed ac rest
      | .sent => { r.1 with pass := some { p with phase := .perAc ac rest (sent + 1) } }
      -- BUS_RETRIES is 1
      | .failed => { r.1 with pass := none }
    else leaveAc s p inp.elapsed ac rest
  | .borrowAll ac =>
    if ¬ inp.txoff ∧ s.borrowAllowed then
      match borrowLender cfg s true with
      | none => { s with pass := none }
      | some l =>
        let r := turn cfg s ac (some l) false inp.res
        match r.2 with
        | .sent => r.1
        | _ => { r.1 with pass := none }
    else { s with pass := none }

/-! ## Indications -/

/-- The lender of `_dhd_wlfc_return_implied_credit`: the highest priority first. -/
def creditor (s : State) (borrower : Fifo) : Option Fifo :=
  lenders.reverse.find? fun l => 0 < s.creditsBorrowed borrower l

def returnImpliedCredit (s : State) (fifo : Fifo) : State :=
  match creditor s fifo with
  | some l => returnCredit s l fifo
  | none => { s with fifoCredit := bump s.fifoCredit fifo 1 }

/-- The status of the packet `p`, from `_dhd_wlfc_compressed_txstatus_update` -/
def txstatus (cfg : Cfg) (s : State) (p : Sent) : State :=
  let e := s.entry p.entry
  let e := { e with transitCount := e.transitCount - 1 }
  if p.creditcheck then
    match cfg.mode with
    | .implied => returnImpliedCredit { s.setEntry p.entry e with charged := bump s.charged p.fifo (-1) } p.fifo
    | .explicit => s.setEntry p.entry e
  else if p.onetime then s.setEntry p.entry e
  else s.setEntry p.entry { e with requestedCredit := (e.requestedCredit + 1) % 0x100 }

/-- The loop over the lenders in `_dhd_wlfc_fifocreditback_indicate`, with `n` credits left. -/
def backToLenders (s : State) (i : Fifo) : List Fifo → Nat → State × Nat
  | [], n => (s, n)
  | l :: ls, n =>
    let owed := s.creditsBorrowed i l
    if 0 < n ∧ 0 < owed then
      let k : Nat := if owed ≤ n then owed.toNat else n
      backToLenders
        { s with
          fifoCredit := bump s.fifoCredit l k
          creditsBorrowed :=
            Function.update s.creditsBorrowed i (bump (s.creditsBorrowed i) l (-k)) }
        i ls (n - k)
    else backToLenders s i ls n

def fifocreditback (cfg : Cfg) (credits : Fifo → BitVec 8) (s : State) (i : Fifo) : State :=
  let r := backToLenders s i lenders.reverse (credits i).toNat
  let c := if 0 < r.2 then r.1.fifoCredit i + r.2 else r.1.fifoCredit i
  { r.1 with
    fifoCredit := Function.update r.1.fifoCredit i (if cfg.initFifoCredit i < c then cfg.initFifoCredit i else c)
    charged := bump s.charged i (-(credits i).toNat) }

/-- `WLFC_CTL_VALUE_LEN_FIFO_CREDITBACK` of them -/
def fifos : List Fifo := [0, 1, 2, 3, 4, 5]

/-- `_dhd_wlfc_add_requested_entry` -/
def addRequested (l : List Nat) (i : Nat) : List Nat := if i ∈ l then l else l ++ [i]

/-- `_dhd_wlfc_remove_requested_entry`: the last one takes the free place. -/
def removeRequested (l : List Nat) (i : Nat) : List Nat :=
  if i ∈ l then (l.set (l.idxOf i) (l.getLast?.getD i)).dropLast else l

/-- `_dhd_wlfc_psmode_update` -/
def psmodeUpdate (s : State) (i : Nat) (opened : Bool) : State :=
  let e := { s.entry i with releaseCount := fun _ => 0 }
  if e.occupied then
    if opened then
      { s.setEntry i { e with
          state := .opened
          acBitmap := 0xff#8
          requestedCredit := 0
          requestedPacket := 0 } with
        requested := removeRequested s.requested i }
    else s.setEntry i { e with state := .closed }
  else s

/-- `_dhd_wlfc_credit_request` and `_dhd_wlfc_packet_request`; bc/mc is not asked for. -/
def request (s : State) (i : Nat) (bmp : BitVec 8) (set : Entry → Entry) : State :=
  let e := s.entry i
  if e.occupied then
    { s.setEntry i (set { e with acBitmap := bmp &&& ~~~ 0x10#8 }) with
      requested := addRequested s.requested i }
  else s

/-! ## Steps -/

inductive Act
  | passBegin (rxRecent : Fifo → Bool)
  | advance (inp : Inp)
  | txstatus (k : Nat)
  | creditback (credits : Fifo → BitVec 8)
  | psmode (i : Nat) (opened : Bool)
  | creditRequest (i : Nat) (bmp : BitVec 8) (credit : Nat)
  | packetRequest (i : Nat) (bmp : BitVec 8) (count : Nat)
  | borrow (allowed : Bool)
  | bcmcCreditSupport
  /-- all that changes an entry, its queues and the lists otherwise -/
  | other (i : Nat) (e : Entry) (active requested : List Nat) (pktCntPerAc : Fifo → Int)

/-- One call under the lock, or one turn of the pass that holds it. -/
def step (cfg : Cfg) (s : State) (a : Act) : Option (State × Unit) :=
  match s.pass, a with
  | some p, .advance inp => some (advance cfg s p inp, ())
  | some _, _ => none
  | none, .advance _ => none
  | none, .passBegin rxRecent =>
    some (enterAc s ⟨.borrowAll 0, rxRecent, 0, 0, 0, 0⟩ false [4, 3, 2, 1, 0], ())
  | none, .txstatus k =>
    match s.flight[k]? with
    | none => none
    | some p => some ({ txstatus cfg s p with flight := s.flight.eraseIdx k }, ())
  | none, .creditback credits =>
    if ∀ f, ((credits f).toNat : Int) ≤ s.charged f then
      match cfg.mode with
      | .implied => some (s, ())
      | .explicit => some (fifos.foldl (fifocreditback cfg credits) s, ())
    else none
  | none, .psmode i opened => some (psmodeUpdate s (i % 0x20) opened, ())
  | none, .creditRequest i bmp credit =>
    some (request s (i % 0x20) bmp fun e => { e with requestedCredit := credit % 0x100 }, ())
  | none, .packetRequest i bmp count =>
    some (request s (i % 0x20) bmp fun e => { e with requestedPacket := count % 0x100 }, ())
  | none, .borrow allowed => some ({ s with borrowAllowed := allowed }, ())
  | none, .bcmcCreditSupport => some ({ s with bcmcCreditSupported := true }, ())
  | none, .other i e active requested pktCntPerAc =>
    some ({ s.setEntry i e with active := active, requested := requested, pktCntPerAc := pktCntPerAc }, ())

def noEntry : Entry where
  occupied := false
  interfaceId := 0
  p2pGo := false
  state := .opened
  acBitmap := 0
  requestedCredit := 0
  requestedPacket := 0
  transitCount := 0
  transitMaxcount := 0
  suppressed := false
  supLen := fun _ => 0
  dlyLen := fun _ => 0
  releaseCount := fun _ => 0

/-- The credit map has come in. -/
def init (cfg : Cfg) : State where
  fifoCredit := fun f => cfg.initFifoCredit f
  creditsBorrowed := fun _ _ => 0
  entry := fun _ => noEntry
  active := []
  requested := []
  pktCntPerAc := fun _ => 0
  bcmcCreditSupported := false
  borrowAllowed := true
  allowCreditBorrow := false
  singleAc := 0
  pass := none
  flight := []
  charged := fun _ => 0
  assertFailed := false

/-- Without a credit, own or borrowed, the list of requests does not give a packet of a station
that is OPEN. -/
def soundTurn (cfg : Cfg) (s : State) (p : Pass) (ac : Fifo) : Bool :=
  (noCredit s ac && (turnLender cfg s p ac).isNone) →
    ∀ i ∈ s.requested.find? (gives s ac), (s.entry i).state = .closed

/-- The condition on a step. -/
def sound (cfg : Cfg) (s : State) : Act → Bool
  | .advance inp =>
    match s.pass with
    | some p =>
      match p.phase with
      | .perAc ac _ sent => (¬ inp.txoff ∧ sent < cfg.maxReleaseCount) → soundTurn cfg s p ac
      | .borrowAll _ => true
    | none => true
  | _ => true

/-! ## Conservation -/

def State.ledger (s : State) : Ledger Fifo := ⟨s.fifoCredit, s.creditsBorrowed⟩

def Cfg.initial (cfg : Cfg) : Fifo → Int := fun f => cfg.initFifoCredit f

/-- Credits are where the claim says: own, lent, or with a packet that has no loan. -/
structure Conserved (cfg : Cfg) (s : State) : Prop where
  balanced : Balanced cfg.initial s.charged s.ledger
  counted : cfg.mode = .implied →
    ∀ f, s.charged f = s.flight.countP fun p => p.creditcheck && p.fifo == f
  assertHolds : s.assertFailed = false

structure Inv (cfg : Cfg) (s : State) : Prop extends Conserved cfg s where
  atim : ∀ b, s.creditsBorrowed b 5 = 0

/-- What the invariant is about is the same in both states. -/
structure SameCredits (s s' : State) : Prop where
  fifoCredit : s'.fifoCredit = s.fifoCredit
  creditsBorrowed : s'.creditsBorrowed = s.creditsBorrowed
  charged : s'.charged = s.charged
  flight : s'.flight = s.flight
  assertFailed : s'.assertFailed = s.assertFailed

/-- What holds in every run: credits and loans are accounted for, if with an overdraft. -/
structure Owed (cfg : Cfg) (s : State) : Prop where
  accounted : Accounted cfg.initial s.charged s.ledger
  counted : cfg.mode = .implied →
    ∀ f, s.charged f = s.flight.countP fun p => p.creditcheck && p.fifo == f
  atim : ∀ b, s.creditsBorrowed b 5 = 0

/-- No FIFO is overdrawn. -/
structure Solvent (s : State) : Prop where
  free_nonneg : ∀ l, 0 ≤ s.fifoCredit l
  assertHolds : s.assertFailed = false

variable {cfg : Cfg} {s s' : State} {p : Sent} {k : Nat}

theorem inv_iff : Inv cfg s ↔ Owed cfg s ∧ Solvent s := by
  constructor
  · intro h
    obtain ⟨haccounted, hfree⟩ := balanced_iff.mp h.balanced
    exact ⟨⟨haccounted, h.counted, h.atim⟩, hfree, h.assertHolds⟩
  · rintro ⟨h, hs⟩
    exact ⟨⟨balanced_iff.mpr ⟨h.accounted, hs.free_nonneg⟩, h.counted, hs.assertHolds⟩, h.atim⟩

theorem Owed.congr (h : Owed cfg s) (hs : SameCredits s s') :
    Owed cfg s' := by
  have hl : s'.ledger = s.ledger := by
    unfold State.ledger
    rw [hs.fifoCredit, hs.creditsBorrowed]
  refine ⟨?_, ?_, ?_⟩
  · rw [hl, hs.charged]
    exact h.accounted
  · rw [hs.charged, hs.flight]
    exact h.counted
  · rw [hs.creditsBorrowed]
    exact h.atim

theorem Solvent.congr (h : Solvent s) (hs : SameCredits s s') : Solvent s' := by
  refine ⟨?_, hs.assertFailed.trans h.assertHolds⟩
  rw [hs.fifoCredit]
  exact h.free_nonneg

theorem owed_init (cfg : Cfg) : Owed cfg (init cfg) where
  accounted := {
    total := by
      intro l
      simp [init, State.ledger, Ledger.lent, Ledger.debt, Cfg.initial]
    borrowed_nonneg := fun _ _ => Int.le_refl 0
    debt_le := by
      intro b
      simp [init, State.ledger, Ledger.debt] }
  counted := fun _ _ => rfl
  atim := fun _ => rfl

theorem inv_init (cfg : Cfg) : Inv cfg (init cfg) :=
  inv_iff.mpr ⟨owed_init cfg, fun _ => Int.natCast_nonneg _, rfl⟩

theorem atim_notMem : (5 : Fifo) ∉ lenders := by decide

/-! ## One turn of a pass -/

theorem borrowLender_spec {all : Bool} {l : Fifo} (h : borrowLender cfg s all = some l) :
    l ≠ 5 ∧ 1 ≤ s.fifoCredit l := by
  unfold borrowLender at h
  have hmem := List.mem_of_find?_eq_some h
  have hlt := List.find?_some h
  simp only [decide_eq_true_eq] at hlt
  refine ⟨?_, ?_⟩
  · rintro rfl
    exact atim_notMem hmem
  · split at hlt <;> omega

theorem dequeDelayedq_same (cfg : Cfg) (s : State) (prec : Fifo) (onlyNoCredit : Bool) :
    SameCredits s (dequeDelayedq cfg s prec onlyNoCredit).1 := by
  unfold dequeDelayedq
  split <;> exact ⟨rfl, rfl, rfl, rfl, rfl⟩

theorem rollback_same (s : State) (ac : Fifo) (d : Dequeued) (requeued : Bool) :
    SameCredits s (rollbackPacketToq s ac d requeued) := by
  unfold rollbackPacketToq
  dsimp only
  split <;> split <;> exact ⟨rfl, rfl, rfl, rfl, rfl⟩

theorem counted_append {ch : Fifo → Int} {l : List Sent} (p : Sent)
    (h : ∀ f, ch f = l.countP fun p => p.creditcheck && p.fifo == f) :
    ∀ f, (if p.creditcheck then bump ch p.fifo 1 else ch) f =
      (l ++ [p]).countP fun p => p.creditcheck && p.fifo == f := by
  intro f
  rw [List.countP_append, List.countP_singleton, Int.natCast_add, ← h f]
  unfold bump
  cases p.creditcheck with
  | false => simp
  | true =>
    by_cases hf : f = p.fifo
    · simp [hf]
    · simp [hf, Ne.symm hf]

/-- A packet that takes no credit. -/
theorem committed_free (h : Owed cfg s) (ac : Fifo) (d : Dequeued) (old : Bool)
    (hd : d.creditSpent = false) : Owed cfg (committed s ac d old) where
  accounted := by
    unfold committed
    rw [hd]
    exact h.accounted
  counted := fun hm => counted_append ⟨d.entry, ac, d.creditSpent, d.onetime⟩ (h.counted hm)
  atim := h.atim

/-- A packet that takes a credit of its FIFO. -/
theorem committed_own (h : Owed cfg s) (ac : Fifo) (d : Dequeued) (old : Bool)
    (hd : d.creditSpent = true) :
    Owed cfg { committed s ac d old with fifoCredit := bump s.fifoCredit ac (-1) } where
  accounted := by
    unfold committed
    rw [hd]
    have := h.accounted.debt_le ac
    exact h.accounted.spend ac 1 (by omega)
  counted := fun hm => counted_append ⟨d.entry, ac, d.creditSpent, d.onetime⟩ (h.counted hm)
  atim := h.atim

theorem SameCredits.trans {t u : State} (h : SameCredits s t) (h' : SameCredits t u) :
    SameCredits s u :=
  ⟨h'.fifoCredit.trans h.fifoCredit, h'.creditsBorrowed.trans h.creditsBorrowed,
    h'.charged.trans h.charged, h'.flight.trans h.flight, h'.assertFailed.trans h.assertFailed⟩

section

variable {cfg : Cfg} {s s' : State} {l ac : Fifo}

/-- A packet that takes the credit borrowed from `l`. -/
theorem committed_borrowed (h : Owed cfg s) (hs : SameCredits (borrowCredit s l ac) s')
    (d : Dequeued) (old : Bool) (hd : d.creditSpent = true) (hl : l ≠ 5) :
    Owed cfg (committed s' ac d old) where
  accounted := by
    have := h.accounted.borrowed_nonneg ac l
    have hb := h.accounted.lend ac l 1 (by omega)
    unfold committed State.ledger
    rw [hd]
    show Accounted _ (bump s'.charged ac 1) ⟨s'.fifoCredit, s'.creditsBorrowed⟩
    rw [hs.charged, hs.fifoCredit, hs.creditsBorrowed]
    exact hb
  counted := by
    intro hm
    have hc := h.counted hm
    refine counted_append ⟨d.entry, ac, d.creditSpent, d.onetime⟩ ?_
    rw [hs.charged, hs.flight]
    exact hc
  atim := by
    intro b
    have := h.atim b
    show s'.creditsBorrowed b 5 = 0
    rw [hs.creditsBorrowed]
    unfold borrowCredit
    dsimp only
    by_cases hb : b = ac
    · subst hb
      rw [Function.update_self, bump_ne _ _ hl.symm]
      exact this
    · rw [Function.update_of_ne hb]
      exact this

theorem returned_same (h : SameCredits (borrowCredit s l ac) s') :
    SameCredits s (returnCredit s' l ac) := by
  have hb : (returnCredit s' l ac).ledger = s.ledger := by
    have : (returnCredit s' l ac).ledger = s'.ledger.giveBack ac l 1 := rfl
    rw [this]
    have : s'.ledger = s.ledger.lend ac l 1 := by
      unfold State.ledger
      rw [h.fifoCredit, h.creditsBorrowed]
      rfl
    rw [this, Ledger.giveBack_lend]
  exact ⟨congrArg Ledger.free hb, congrArg Ledger.borrowed hb, h.charged, h.flight, h.assertFailed⟩

end

/-- Whether there was a credit does not matter to what is owed. -/
theorem Owed.asserting (h : Owed cfg s) (b : Bool) :
    Owed cfg { s with assertFailed := b } := ⟨h.accounted, h.counted, h.atim⟩

/-- **One turn**, with a lender or without. -/
theorem turn_owed (h : Owed cfg s) (ac : Fifo) (lender : Option Fifo) (onlyNoCredit : Bool)
    (res : Commit) (hl : ∀ l ∈ lender, l ≠ 5) :
    Owed cfg (turn cfg s ac lender onlyNoCredit res).1 := by
  unfold turn
  cases lender with
  | none =>
    dsimp only [Option.elim]
    have hsame := dequeDelayedq_same cfg s ac onlyNoCredit
    generalize dequeDelayedq cfg s ac onlyNoCredit = r at hsame
    obtain ⟨t, d⟩ := r
    have ht := h.congr hsame
    cases d with
    | none => exact ht
    | some d =>
      dsimp only at ht ⊢
      have ha := ht.asserting (t.assertFailed || ((none : Option Fifo).isNone &&
        decide (t.fifoCredit ac < if d.creditSpent then 1 else 0)))
      cases res with
      | ok old =>
        cases hd : d.creditSpent with
        | false =>
          rw [hd] at ha
          exact committed_free ha ac d old hd
        | true =>
          rw [hd] at ha
          exact committed_own ha ac d old hd
      | requeued => exact ha.congr (rollback_same _ ac d true)
      | dropped => exact ha.congr (rollback_same _ ac d false)
  | some l =>
    dsimp only [Option.elim]
    have hsame := dequeDelayedq_same cfg (borrowCredit s l ac) ac onlyNoCredit
    generalize dequeDelayedq cfg (borrowCredit s l ac) ac onlyNoCredit = r at hsame
    obtain ⟨t, d⟩ := r
    cases d with
    | none => exact h.congr (returned_same hsame)
    | some d =>
      dsimp only
      have hsame' : SameCredits (borrowCredit s l ac)
          { t with assertFailed := t.assertFailed ||
            ((some l).isNone && decide (t.fifoCredit ac < if d.creditSpent then 1 else 0)) } :=
        hsame.trans ⟨rfl, rfl, rfl, rfl, Bool.or_false _⟩
      cases res with
      | ok old =>
        cases hd : d.creditSpent with
        | false =>
          have hret := h.congr (returned_same hsame')
          rw [hd] at hret
          exact committed_free hret ac d old hd
        | true =>
          rw [hd] at hsame'
          exact committed_borrowed h hsame' d old hd (hl l rfl)
      | requeued => exact h.congr (returned_same (hsame'.trans (rollback_same _ ac d true)))
      | dropped => exact h.congr (returned_same (hsame'.trans (rollback_same _ ac d false)))

theorem bump_nonneg {f : Fifo → Int} (hf : ∀ l, 0 ≤ f l) {l : Fifo} {k : Int} (hk : 0 ≤ f l + k)
    (m : Fifo) : 0 ≤ bump f l k m := by
  unfold bump
  split
  · next hm =>
    subst hm
    exact hk
  · exact hf m

/-- With a lender that has a credit. -/
theorem turn_borrowed (hs : Solvent s) (ac l : Fifo) (onlyNoCredit : Bool) (res : Commit)
    (hc : 1 ≤ s.fifoCredit l) :
    Solvent (turn cfg s ac (some l) onlyNoCredit res).1 := by
  have hsame := dequeDelayedq_same cfg (borrowCredit s l ac) ac onlyNoCredit
  have hborrowed : Solvent (borrowCredit s l ac) :=
    ⟨bump_nonneg hs.free_nonneg (by omega), hs.assertHolds⟩
  unfold turn
  dsimp only [Option.elim]
  generalize dequeDelayedq cfg (borrowCredit s l ac) ac onlyNoCredit = r at hsame
  obtain ⟨t, d⟩ := r
  cases d with
  | none => exact hs.congr (returned_same hsame)
  | some d =>
    dsimp only
    have hsame' : SameCredits (borrowCredit s l ac)
        { t with assertFailed := t.assertFailed ||
          ((some l).isNone && decide (t.fifoCredit ac < if d.creditSpent then 1 else 0)) } :=
      hsame.trans ⟨rfl, rfl, rfl, rfl, Bool.or_false _⟩
    cases res with
    | ok old =>
      cases hd : d.creditSpent with
      | false =>
        have hret := hs.congr (returned_same hsame')
        rw [hd] at hret
        exact ⟨hret.free_nonneg, hret.assertHolds⟩
      | true =>
        have hpaid := hborrowed.congr hsame'
        rw [hd] at hpaid
        exact ⟨hpaid.free_nonneg, hpaid.assertHolds⟩
    | requeued => exact hs.congr (returned_same (hsame'.trans (rollback_same _ ac d true)))
    | dropped => exact hs.congr (returned_same (hsame'.trans (rollback_same _ ac d false)))

/-- Without a lender, if the FIFO has the credit that the packet takes. -/
theorem turn_own (hs : Solvent s) (ac : Fifo) (onlyNoCredit : Bool) (res : Commit)
    (hc : ∀ d, (dequeDelayedq cfg s ac onlyNoCredit).2 = some d → d.creditSpent = true →
      1 ≤ s.fifoCredit ac) :
    Solvent (turn cfg s ac none onlyNoCredit res).1 := by
  have hsame := dequeDelayedq_same cfg s ac onlyNoCredit
  unfold turn
  dsimp only [Option.elim]
  generalize dequeDelayedq cfg s ac onlyNoCredit = r at hsame hc
  obtain ⟨t, d⟩ := r
  have ht := hs.congr hsame
  cases d with
  | none => exact ht
  | some d =>
    have hcredit : d.creditSpent = true → 1 ≤ t.fifoCredit ac := by
      rw [hsame.fifoCredit]
      exact hc d rfl
    have hassert : decide (t.fifoCredit ac < if d.creditSpent then 1 else 0) = false := by
      rw [decide_eq_false_iff_not]
      have h0 : 0 ≤ t.fifoCredit ac := ht.free_nonneg ac
      split
      · next hd =>
        have := hcredit hd
        omega
      · omega
    have hsame' : SameCredits t { t with assertFailed := t.assertFailed ||
        ((none : Option Fifo).isNone &&
          decide (t.fifoCredit ac < if d.creditSpent then 1 else 0)) } := by
      rw [hassert]
      exact ⟨rfl, rfl, rfl, rfl, Bool.or_false _⟩
    have hs' := ht.congr hsame'
    dsimp only
    cases res with
    | ok old =>
      cases hd : d.creditSpent with
      | false =>
        rw [hd] at hs'
        exact ⟨hs'.free_nonneg, hs'.assertHolds⟩
      | true =>
        have hone := hcredit hd
        rw [hd] at hs'
        refine ⟨bump_nonneg hs'.free_nonneg ?_, hs'.assertHolds⟩
        show 0 ≤ t.fifoCredit ac + -1
        omega
    | requeued => exact hs'.congr (rollback_same _ ac d true)
    | dropped => exact hs'.congr (rollback_same _ ac d false)

/-- Without a lender, a packet that takes a credit finds one. -/
theorem credit_of_spent {p : Pass} {ac : Fifo} (hs : soundTurn cfg s p ac = true)
    (hl : turnLender cfg s p ac = none) (d : Dequeued)
    (h : (dequeDelayedq cfg s ac (noCredit s ac)).2 = some d) (hd : d.creditSpent = true) :
    1 ≤ s.fifoCredit ac := by
  unfold dequeDelayedq at h
  split at h
  · cases h
  · next i hfind =>
    cases h
    simp only [decide_eq_true_eq] at hd
    cases hn : noCredit s ac with
    | false =>
      unfold noCredit at hn
      rw [decide_eq_false_iff_not, not_and] at hn
      have := hn hd.1
      omega
    | true =>
      exfalso
      unfold soundTurn at hs
      rw [hl, hn] at hs
      simp only [Option.isNone_none, Bool.and_self, forall_const, decide_eq_true_eq] at hs
      rw [hn] at hfind
      have hclosed := hs i hfind
      rw [hclosed] at hd
      exact MacState.noConfusion hd.2

theorem endPerAc_same (s : State) (p : Pass) (elapsed : Bool) :
    SameCredits s (endPerAc s p elapsed) := by
  unfold endPerAc
  dsimp only
  split
  · exact ⟨rfl, rfl, rfl, rfl, rfl⟩
  · split
    · split
      · split <;> exact ⟨rfl, rfl, rfl, rfl, rfl⟩
      · split
        · exact ⟨rfl, rfl, rfl, rfl, rfl⟩
        · split
          · split <;> exact ⟨rfl, rfl, rfl, rfl, rfl⟩
          · exact ⟨rfl, rfl, rfl, rfl, rfl⟩
    · exact ⟨rfl, rfl, rfl, rfl, rfl⟩

theorem enterAc_same (s : State) (p : Pass) (elapsed : Bool) (l : List Fifo) :
    SameCredits s (enterAc s p elapsed l) := by
  induction l generalizing p with
  | nil => exact endPerAc_same s p elapsed
  | cons ac rest ih =>
    unfold enterAc
    dsimp only
    split
    · exact ih _
    · exact ⟨rfl, rfl, rfl, rfl, rfl⟩

theorem turnLender_spec {p : Pass} {ac l : Fifo} (h : turnLender cfg s p ac = some l) :
    l ≠ 5 ∧ 1 ≤ s.fifoCredit l := by
  unfold turnLender at h
  split at h
  · exact borrowLender_spec h
  · cases h

/-- What a pass does to the credits: what its turn does, if it takes one. -/
theorem advance_credits (cfg : Cfg) (s : State) (p : Pass) (inp : Inp) :
    SameCredits s (advance cfg s p inp) ∨
      (∃ ac rest sent, p.phase = .perAc ac rest sent ∧
        (¬ inp.txoff ∧ sent < cfg.maxReleaseCount) ∧
        SameCredits (turn cfg s ac (turnLender cfg s p ac)
          (noCredit s ac && (turnLender cfg s p ac).isNone) inp.res).1 (advance cfg s p inp)) ∨
      ∃ ac l, borrowLender cfg s true = some l ∧
        SameCredits (turn cfg s ac (some l) false inp.res).1 (advance cfg s p inp) := by
  unfold advance
  split
  · next ac rest sent hphase =>
    split
    · next hgo =>
      refine .inr (.inl ⟨ac, rest, sent, hphase, hgo, ?_⟩)
      dsimp only
      split
      · exact enterAc_same _ _ _ _
      · exact ⟨rfl, rfl, rfl, rfl, rfl⟩
      · exact ⟨rfl, rfl, rfl, rfl, rfl⟩
    · exact .inl (enterAc_same _ _ _ _)
  · next ac _ =>
    split
    · split
      · exact .inl ⟨rfl, rfl, rfl, rfl, rfl⟩
      · next l hl =>
        refine .inr (.inr ⟨ac, l, hl, ?_⟩)
        dsimp only
        split <;> exact ⟨rfl, rfl, rfl, rfl, rfl⟩
    · exact .inl ⟨rfl, rfl, rfl, rfl, rfl⟩

theorem advance_owed (p : Pass) (h : Owed cfg s) (inp : Inp) : Owed cfg (advance cfg s p inp) := by
  rcases advance_credits cfg s p inp with hsame | ⟨ac, rest, sent, -, -, hsame⟩ | ⟨ac, l, hl, hsame⟩
  · exact h.congr hsame
  · exact (turn_owed h ac _ _ inp.res fun l hl => (turnLender_spec hl).1).congr hsame
  · refine (turn_owed h ac (some l) false inp.res fun m hm => ?_).congr hsame
    exact Option.some.inj hm ▸ (borrowLender_spec hl).1

theorem advance_solvent {p : Pass} (h : Solvent s) (inp : Inp) (hp : s.pass = some p)
    (hc : sound cfg s (.advance inp) = true) : Solvent (advance cfg s p inp) := by
  rcases advance_credits cfg s p inp with hsame | ⟨ac, rest, sent, hphase, hgo, hsame⟩ |
    ⟨ac, l, hl, hsame⟩
  · exact h.congr hsame
  · refine Solvent.congr ?_ hsame
    unfold sound at hc
    rw [hp] at hc
    dsimp only at hc
    rw [hphase] at hc
    simp only [decide_eq_true_eq] at hc
    cases hl : turnLender cfg s p ac with
    | none =>
      refine turn_own h ac _ inp.res ?_
      rw [Option.isNone_none, Bool.and_true]
      exact credit_of_spent (hc hgo) hl
    | some l => exact turn_borrowed h ac l _ inp.res (turnLender_spec hl).2
  · exact (turn_borrowed h ac l false inp.res (borrowLender_spec hl).2).congr hsame

/-! ## Credits that come back -/

theorem creditor_some {f l : Fifo} (h : creditor s f = some l) :
    l ≠ 5 ∧ 0 < s.creditsBorrowed f l := by
  unfold creditor at h
  have hmem := List.mem_of_find?_eq_some h
  have hlt := List.find?_some h
  refine ⟨?_, of_decide_eq_true hlt⟩
  rintro rfl
  exact atim_notMem (List.mem_reverse.mp hmem)

theorem mem_lenders {f : Fifo} : f ∈ lenders ∨ f = 5 := by
  revert f
  decide

/-- Nothing is owed if there is no creditor. -/
theorem creditor_none (h : Owed cfg s) {f : Fifo} (hf : creditor s f = none) (l : Fifo) :
    s.creditsBorrowed f l = 0 := by
  rcases @mem_lenders l with hl | rfl
  · have h1 := List.find?_eq_none.mp hf l (List.mem_reverse.mpr hl)
    have h2 : 0 ≤ s.creditsBorrowed f l := h.accounted.borrowed_nonneg f l
    rw [decide_eq_true_iff] at h1
    omega
  · exact h.atim f

/-- A loan is given back, or the account gets what it paid itself. -/
theorem returnImpliedCredit_spec (h : Owed cfg s) (f : Fifo) (hf : 1 ≤ s.charged f) :
    Accounted cfg.initial (bump s.charged f (-1)) (returnImpliedCredit s f).ledger ∧
      ∀ b, (returnImpliedCredit s f).creditsBorrowed b 5 = 0 := by
  unfold returnImpliedCredit
  split
  · next l hl =>
    obtain ⟨h5, hpos⟩ := creditor_some hl
    refine ⟨h.accounted.giveBack f l 1 hpos, ?_⟩
    intro b
    have := h.atim b
    unfold returnCredit
    dsimp only
    by_cases hb : b = f
    · subst hb
      rw [Function.update_self, bump_ne _ _ h5.symm]
      exact this
    · rw [Function.update_of_ne hb]
      exact this
  · next hl => exact ⟨h.accounted.earn f 1 hf (creditor_none h hl), h.atim⟩

theorem returnImpliedCredit_solvent (h : Solvent s) (f : Fifo) :
    Solvent (returnImpliedCredit s f) := by
  have hmore : ∀ l, 0 ≤ s.fifoCredit l + 1 := by
    intro l
    have := h.free_nonneg l
    omega
  unfold returnImpliedCredit
  split
  · next l _ => exact ⟨bump_nonneg h.free_nonneg (hmore l), h.assertHolds⟩
  · exact ⟨bump_nonneg h.free_nonneg (hmore f), h.assertHolds⟩

theorem counted_erase {ch : Fifo → Int} {l : List Sent} (hk : l[k]? = some p)
    (h : ∀ f, ch f = l.countP fun p => p.creditcheck && p.fifo == f) (f : Fifo) :
    (if p.creditcheck then bump ch p.fifo (-1) else ch) f =
      (l.eraseIdx k).countP fun p => p.creditcheck && p.fifo == f := by
  obtain ⟨hlt, rfl⟩ := List.getElem?_eq_some_iff.mp hk
  have hperm := (List.getElem_cons_eraseIdx_perm hlt).countP_eq fun p => p.creditcheck && p.fifo == f
  rw [List.countP_cons] at hperm
  have := h f
  unfold bump
  cases hcr : l[k].creditcheck with
  | false =>
    simp only [hcr, Bool.false_and] at hperm ⊢
    simp only [Bool.false_eq_true, if_false] at hperm ⊢
    omega
  | true =>
    simp only [hcr, Bool.true_and, beq_iff_eq, if_true] at hperm ⊢
    by_cases hf : f = l[k].fifo
    · rw [if_pos hf.symm] at hperm
      rw [if_pos hf]
      omega
    · rw [if_neg (Ne.symm hf)] at hperm
      rw [if_neg hf]
      omega

theorem charged_pos {ch : Fifo → Int} {l : List Sent} (hk : l[k]? = some p)
    (hcr : p.creditcheck = true) (h : ∀ f, ch f = l.countP fun p => p.creditcheck && p.fifo == f) :
    1 ≤ ch p.fifo := by
  have hpos : 0 < l.countP fun q => q.creditcheck && q.fifo == p.fifo := by
    refine List.countP_pos_iff.mpr ⟨p, List.mem_of_getElem? hk, ?_⟩
    simp [hcr]
  have := h p.fifo
  omega

/-- The packet `p` has come to its end, and its credit is back if it was charged. -/
theorem Owed.leave (h : Owed cfg s) (hk : s.flight[k]? = some p)
    (hp : p.creditcheck = true → cfg.mode ≠ .implied) :
    Owed cfg { s with flight := s.flight.eraseIdx k } := by
  refine ⟨h.accounted, fun hm f => ?_, h.atim⟩
  have hfree : p.creditcheck = false := Bool.eq_false_iff.mpr fun hcr => hp hcr hm
  have hcount := counted_erase hk (h.counted hm) f
  rw [hfree] at hcount
  exact hcount

theorem Owed.comeBack (h : Owed cfg s) (hk : s.flight[k]? = some p) (hm : cfg.mode = .implied)
    (hp : p.creditcheck = true) :
    Owed cfg { returnImpliedCredit { s with charged := bump s.charged p.fifo (-1) } p.fifo with
      flight := s.flight.eraseIdx k } := by
  obtain ⟨hledger, hatim⟩ :=
    returnImpliedCredit_spec h p.fifo (charged_pos hk hp (h.counted hm))
  have hcount : ∀ f, bump s.charged p.fifo (-1) f =
      (s.flight.eraseIdx k).countP fun p => p.creditcheck && p.fifo == f := by
    intro f
    have hcount := counted_erase hk (h.counted hm) f
    rw [hp] at hcount
    exact hcount
  unfold returnImpliedCredit at hledger hatim ⊢
  unfold creditor at *
  dsimp only at *
  split
  · next l hl =>
    rw [hl] at hledger hatim
    exact ⟨hledger, fun _ => hcount, hatim⟩
  · next hl =>
    rw [hl] at hledger hatim
    exact ⟨hledger, fun _ => hcount, hatim⟩

theorem Owed.setEntry (h : Owed cfg s) (i : Nat) (e : Entry) :
    Owed cfg (s.setEntry i e) := ⟨h.accounted, h.counted, h.atim⟩

theorem txstatus_owed (h : Owed cfg s) (hk : s.flight[k]? = some p) :
    Owed cfg { txstatus cfg s p with flight := s.flight.eraseIdx k } := by
  unfold txstatus
  dsimp only
  cases hcr : p.creditcheck with
  | false =>
    simp only [Bool.false_eq_true, if_false]
    have hleave : ∀ e, Owed cfg { s.setEntry p.entry e with flight := s.flight.eraseIdx k } :=
      fun e => (h.setEntry p.entry e).leave hk fun hp => by rw [hcr] at hp; cases hp
    split <;> exact hleave _
  | true =>
    simp only [if_true]
    cases hm : cfg.mode with
    | implied => exact (h.setEntry p.entry _).comeBack hk hm hcr
    | explicit => exact (h.setEntry p.entry _).leave hk fun _ h => by rw [hm] at h; cases h

theorem txstatus_solvent (h : Solvent s) (p : Sent) :
    Solvent (txstatus cfg s p) := by
  unfold txstatus
  dsimp only
  split
  · split
    · refine returnImpliedCredit_solvent ?_ p.fifo
      exact ⟨h.free_nonneg, h.assertHolds⟩
    · exact ⟨h.free_nonneg, h.assertHolds⟩
  · split <;> exact ⟨h.free_nonneg, h.assertHolds⟩

/-- The loop over the lenders `ls` with `n` credits, from `s` to `r`, when the charges are `ch`. -/
structure Back (cfg : Cfg) (ch : Fifo → Int) (s : State) (i : Fifo) (ls : List Fifo) (n : Nat)
    (r : State × Nat) : Prop where
  left_le : r.2 ≤ n
  accounted : Accounted cfg.initial (bump ch i (-(n - r.2 : Int))) r.1.ledger
  paid : r.2 = 0 ∨ ∀ l ∈ ls, r.1.creditsBorrowed i l = 0
  frame : ∀ b l, l ∉ ls → r.1.creditsBorrowed b l = s.creditsBorrowed b l
  charged : r.1.charged = s.charged
  flight : r.1.flight = s.flight
  assertFailed : r.1.assertFailed = s.assertFailed

theorem backToLenders_spec (cfg : Cfg) (i : Fifo) (ls : List Fifo) (hnd : ls.Nodup)
    (ch : Fifo → Int) (s : State) (n : Nat) (hb : Accounted cfg.initial ch s.ledger) :
    Back cfg ch s i ls n (backToLenders s i ls n) := by
  induction ls generalizing ch s n with
  | nil =>
    refine ⟨Nat.le_refl n, ?_, Or.inr nofun, fun _ _ _ => rfl, rfl, rfl, rfl⟩
    have : (-((n : Int) - n)) = 0 := by omega
    unfold backToLenders
    rw [this, bump_zero]
    exact hb
  | cons l ls ih =>
    obtain ⟨hl, hnd'⟩ := List.nodup_cons.mp hnd
    have h0 : 0 ≤ s.creditsBorrowed i l := hb.borrowed_nonneg i l
    unfold backToLenders
    dsimp only
    split
    · next hgo =>
      -- the part of the loan that is given back
      generalize hk : (if s.creditsBorrowed i l ≤ n then (s.creditsBorrowed i l).toNat else n) = k
      have hkn : k ≤ n := by
        rw [← hk]
        split <;> omega
      have hkb : (k : Int) ≤ s.creditsBorrowed i l := by
        rw [← hk]
        split <;> omega
      have hback := hb.giveBack i l k hkb
      unfold Ledger.giveBack Ledger.lend at hback
      rw [Int.neg_neg] at hback
      have hrec := ih hnd' (bump ch i (-k))
        { s with
          fifoCredit := bump s.fifoCredit l k
          creditsBorrowed :=
            Function.update s.creditsBorrowed i (bump (s.creditsBorrowed i) l (-k)) }
        (n - k) hback
      refine ⟨Nat.le_trans hrec.left_le (Nat.sub_le n k), ?_, ?_, ?_, hrec.charged, hrec.flight,
        hrec.assertFailed⟩
      · have := hrec.accounted
        rw [bump_bump] at this
        have hle := hrec.left_le
        have e : ∀ m : Nat, -(k : Int) + -(((n - k : Nat) : Int) - m) = -((n : Int) - m) := by
          intro m
          omega
        rw [e] at this
        exact this
      · by_cases hz : (backToLenders
          { s with
            fifoCredit := bump s.fifoCredit l k
            creditsBorrowed :=
              Function.update s.creditsBorrowed i (bump (s.creditsBorrowed i) l (-k)) }
          i ls (n - k)).2 = 0
        · exact Or.inl hz
        · refine Or.inr ?_
          -- credits are left, so the whole loan was given back
          have hle := hrec.left_le
          have hall : s.creditsBorrowed i l = k := by
            rw [← hk]
            split
            · omega
            · next hlt =>
              rw [if_neg hlt] at hk
              omega
          intro m hm
          rcases List.mem_cons.mp hm with rfl | hm
          · rw [hrec.frame i m hl]
            dsimp only
            rw [Function.update_self, bump_self]
            omega
          · exact (hrec.paid.resolve_left hz) m hm
      · intro b m hm
        rw [List.mem_cons, not_or] at hm
        rw [hrec.frame b m hm.2]
        dsimp only
        by_cases hbi : b = i
        · subst hbi
          rw [Function.update_self, bump_ne _ _ hm.1]
        · rw [Function.update_of_ne hbi]
    · next hgo =>
      have hrec := ih hnd' ch s n hb
      refine ⟨hrec.left_le, hrec.accounted, ?_, ?_, hrec.charged, hrec.flight, hrec.assertFailed⟩
      · rcases Nat.eq_zero_or_pos n with rfl | hn
        · exact Or.inl (Nat.le_zero.mp hrec.left_le)
        · rcases hrec.paid with hz | hall
          · exact Or.inl hz
          · refine Or.inr ?_
            intro m hm
            rcases List.mem_cons.mp hm with rfl | hm
            · rw [hrec.frame i m hl]
              omega
            · exact hall m hm
      · intro b m hm
        rw [List.mem_cons, not_or] at hm
        exact hrec.frame b m hm.2

theorem lenders_nodup : lenders.reverse.Nodup := by decide

/-- Credits of FIFO `i` come back for packets at the firmware. -/
theorem fifocreditback_owed {credits : Fifo → BitVec 8} (h : Owed cfg s) (hm : cfg.mode = .explicit)
    (i : Fifo) (hn : ((credits i).toNat : Int) ≤ s.charged i) :
    Owed cfg (fifocreditback cfg credits s i) := by
  have hback := backToLenders_spec cfg i lenders.reverse lenders_nodup s.charged s
    (credits i).toNat h.accounted
  unfold fifocreditback
  generalize backToLenders s i lenders.reverse (credits i).toNat = r at hback
  obtain ⟨t, m⟩ := r
  have hle := hback.left_le
  have hb := hback.accounted
  dsimp only at hle hb ⊢
  have hatim : ∀ b, t.creditsBorrowed b 5 = 0 := by
    intro b
    rw [hback.frame b 5 fun h => atim_notMem (List.mem_reverse.mp h)]
    exact h.atim b
  -- what is left belongs to the FIFO itself
  have hrest : Accounted cfg.initial (bump s.charged i (-(credits i).toNat))
      ⟨Function.update t.fifoCredit i (t.fifoCredit i + m), t.creditsBorrowed⟩ := by
    have hearn : Accounted cfg.initial
        (bump (bump s.charged i (-((credits i).toNat - m : Int))) i (-m)) (t.ledger.spend i (-m)) := by
      rcases Nat.eq_zero_or_pos m with rfl | hpos
      · have h1 : bump (bump s.charged i (-((credits i).toNat - (0 : Nat) : Int))) i (-(0 : Nat)) =
            bump s.charged i (-((credits i).toNat - (0 : Nat) : Int)) := bump_zero _ _
        have h2 : t.ledger.spend i (-(0 : Nat)) = t.ledger := by
          have h3 : bump t.fifoCredit i 0 = t.fifoCredit := bump_zero _ _
          show Ledger.mk (bump t.fifoCredit i 0) t.creditsBorrowed = t.ledger
          rw [h3]
          rfl
        rw [h1, h2]
        exact hb
      · have hzero := hback.paid.resolve_left (Nat.ne_of_gt hpos)
        refine hb.earn i m ?_ ?_
        · rw [bump_self]
          omega
        · intro l
          rcases @mem_lenders l with hl | rfl
          · exact hzero l (List.mem_reverse.mpr hl)
          · exact hatim i
    rw [bump_bump] at hearn
    have e : -((credits i).toNat - m : Int) + -(m : Int) = -(credits i).toNat := by omega
    rw [e] at hearn
    have e' : t.ledger.spend i (-m) =
        ⟨Function.update t.fifoCredit i (t.fifoCredit i + m), t.creditsBorrowed⟩ := by
      unfold Ledger.spend State.ledger
      rw [Int.neg_neg, bump_eq_update]
    rw [e'] at hearn
    exact hearn
  have hclamp : (if (cfg.initFifoCredit i : Int) <
        (if 0 < m then t.fifoCredit i + m else t.fifoCredit i) then (cfg.initFifoCredit i : Int)
      else if 0 < m then t.fifoCredit i + m else t.fifoCredit i) = t.fifoCredit i + m := by
    have hfree : t.fifoCredit i + m ≤ cfg.initFifoCredit i := by
      have := hrest.free_le i
      dsimp only at this
      rw [Function.update_self] at this
      exact this
    split
    · split at * <;> omega
    · split <;> omega
  refine ⟨?_, ?_, hatim⟩
  · unfold State.ledger
    dsimp only
    rw [hclamp]
    exact hrest
  · intro hi
    rw [hm] at hi
    cases hi

theorem backToLenders_nonneg (i : Fifo) (ls : List Fifo) (n : Nat) (h : ∀ l, 0 ≤ s.fifoCredit l) :
    ∀ l, 0 ≤ (backToLenders s i ls n).1.fifoCredit l := by
  induction ls generalizing s n with
  | nil => exact h
  | cons m ls ih =>
    unfold backToLenders
    dsimp only
    split
    · refine ih _ (bump_nonneg h ?_)
      have := h m
      omega
    · exact ih n h

theorem fifocreditback_solvent {credits : Fifo → BitVec 8} (h : Owed cfg s) (hs : Solvent s)
    (i : Fifo) : Solvent (fifocreditback cfg credits s i) := by
  have hback := backToLenders_spec cfg i lenders.reverse lenders_nodup s.charged s
    (credits i).toNat h.accounted
  have hfree := backToLenders_nonneg i lenders.reverse (credits i).toNat hs.free_nonneg
  refine ⟨fun l => ?_, hback.assertFailed.trans hs.assertHolds⟩
  unfold fifocreditback
  generalize backToLenders s i lenders.reverse (credits i).toNat = r at hfree
  dsimp only
  by_cases hl : l = i
  · subst hl
    rw [Function.update_self]
    have := hfree l
    split <;> split <;> omega
  · rw [Function.update_of_ne hl]
    exact hfree l

theorem creditback_inv {credits : Fifo → BitVec 8} (hm : cfg.mode = .explicit) (l : List Fifo)
    (hnd : l.Nodup) (h : Owed cfg s) (hn : ∀ f ∈ l, ((credits f).toNat : Int) ≤ s.charged f) :
    Owed cfg (l.foldl (fifocreditback cfg credits) s) ∧
      (Solvent s → Solvent (l.foldl (fifocreditback cfg credits) s)) := by
  induction l generalizing s with
  | nil => exact ⟨h, id⟩
  | cons i l ih =>
    obtain ⟨hil, hnd'⟩ := List.nodup_cons.mp hnd
    have hleft : ∀ f ∈ l, ((credits f).toNat : Int) ≤ (fifocreditback cfg credits s i).charged f := by
      intro f hf
      show ((credits f).toNat : Int) ≤ bump s.charged i (-(credits i).toNat) f
      rw [bump_ne _ _ (ne_of_mem_of_not_mem hf hil)]
      exact hn f (List.mem_cons_of_mem i hf)
    obtain ⟨howed, hsolvent⟩ :=
      ih hnd' (fifocreditback_owed h hm i (hn i (List.mem_cons_self ..))) hleft
    exact ⟨howed, fun hs => hsolvent (fifocreditback_solvent h hs i)⟩

/-! ## Steps -/

theorem psmodeUpdate_same (s : State) (i : Nat) (opened : Bool) :
    SameCredits s (psmodeUpdate s i opened) := by
  unfold psmodeUpdate
  dsimp only
  split
  · split <;> exact ⟨rfl, rfl, rfl, rfl, rfl⟩
  · exact ⟨rfl, rfl, rfl, rfl, rfl⟩

theorem request_same (s : State) (i : Nat) (bmp : BitVec 8) (set : Entry → Entry) :
    SameCredits s (request s i bmp set) := by
  unfold request
  dsimp only
  split <;> exact ⟨rfl, rfl, rfl, rfl, rfl⟩

theorem fifos_nodup : fifos.Nodup := by decide

/-- What a step does to the credits. -/
theorem step_credits {a : Act} {u : Unit} (h : step cfg s a = some (s', u)) :
    SameCredits s s' ∨ (∃ p inp, s.pass = some p ∧ a = .advance inp ∧ s' = advance cfg s p inp) ∨
      (∃ k p, s.flight[k]? = some p ∧
        s' = { txstatus cfg s p with flight := s.flight.eraseIdx k }) ∨
      ∃ credits, cfg.mode = .explicit ∧ (∀ f, ((credits f).toNat : Int) ≤ s.charged f) ∧
        s' = fifos.foldl (fifocreditback cfg credits) s := by
  unfold step at h
  split at h
  · next p inp hp =>
    cases h
    exact .inr (.inl ⟨p, inp, hp, rfl, rfl⟩)
  · cases h
  · cases h
  · cases h
    exact .inl (enterAc_same _ _ _ _)
  · split at h
    · cases h
    · next p hk =>
      cases h
      exact .inr (.inr (.inl ⟨_, p, hk, rfl⟩))
  · split at h
    · next hn =>
      split at h
      · cases h
        exact .inl ⟨rfl, rfl, rfl, rfl, rfl⟩
      · next hm =>
        cases h
        exact .inr (.inr (.inr ⟨_, hm, hn, rfl⟩))
    · cases h
  · cases h
    exact .inl (psmodeUpdate_same _ _ _)
  · cases h
    exact .inl (request_same _ _ _ _)
  · cases h
    exact .inl (request_same _ _ _ _)
  all_goals
    cases h
    exact .inl ⟨rfl, rfl, rfl, rfl, rfl⟩

theorem step_owed {a : Act} {u : Unit} (hi : Owed cfg s) (h : step cfg s a = some (s', u)) :
    Owed cfg s' := by
  rcases step_credits h with hsame | ⟨p, inp, -, -, rfl⟩ | ⟨k, p, hk, rfl⟩ | ⟨_, hm, hn, rfl⟩
  · exact hi.congr hsame
  · exact advance_owed p hi inp
  · exact txstatus_owed hi hk
  · exact (creditback_inv hm fifos fifos_nodup hi fun f _ => hn f).1

/-- No FIFO is overdrawn if the list of requests gives no packet of an OPEN station. -/
theorem step_solvent {a : Act} {u : Unit} (ho : Owed cfg s) (hi : Solvent s)
    (hc : sound cfg s a = true) (h : step cfg s a = some (s', u)) : Solvent s' := by
  rcases step_credits h with hsame | ⟨p, inp, hp, rfl, rfl⟩ | ⟨k, p, -, rfl⟩ | ⟨_, hm, hn, rfl⟩
  · exact hi.congr hsame
  · exact advance_solvent hi inp hp hc
  · have hs : Solvent (txstatus cfg s p) := txstatus_solvent hi p
    exact ⟨hs.free_nonneg, hs.assertHolds⟩
  · exact (creditback_inv hm fifos fifos_nodup ho fun f _ => hn f).2 hi

theorem step_inv {a : Act} {u : Unit} (hi : Inv cfg s) (hc : sound cfg s a = true)
    (h : step cfg s a = some (s', u)) : Inv cfg s' := by
  obtain ⟨howed, hsolvent⟩ := inv_iff.mp hi
  exact inv_iff.mpr ⟨step_owed howed h, step_solvent howed hsolvent hc h⟩

/-! ## Top theorem -/

/-- **FIFO credits are conserved** in every run in which the list of requests gives no packet of an
OPEN station while the FIFO has no credit, own or borrowed. -/
theorem fifo_credits_conserved (cfg : Cfg) (es : List Act) (s : State) (tr : List (Act × Unit))
    (hm : meets (step cfg) (sound cfg) (init cfg) es = true)
    (h : runs (step cfg) (init cfg) es = some (s, tr)) :
    Conserved cfg s ∧ ∀ l, s.fifoCredit l ≤ cfg.initFifoCredit l := by
  have hinv : Inv cfg s := runs_inv_of_meets (step cfg) (sound cfg) (fun s _ => Inv cfg s)
    (fun _ _ _ _ _ hi hc hs => step_inv hi hc hs) (init cfg) s es tr (inv_init cfg) hm h
  exact ⟨hinv.toConserved, (inv_iff.mp hinv).1.accounted.free_le⟩

def goes : Inp := { txoff := false, res := .ok false, elapsed := false }

/-- `n` packets of category 1 wait at an entry. -/
def waiting (interfaceId n : Nat) : Entry :=
  { noEntry with
    occupied := true
    interfaceId := interfaceId
    acBitmap := 0xff#8
    transitMaxcount := 100
    dlyLen := Function.update (fun _ => 0) 1 n }

/-- Four credits in FIFO 0, one in FIFO 1. -/
def twoFifos : Cfg where
  mode := .implied
  initFifoCredit := fun f => if f = 0 then 4 else if f = 1 then 1 else 0
  atim := rfl
  maxReleaseCount := 16

/-- The second packet borrows from FIFO 0, and the first status gives that credit back. -/
def borrowing : List Act :=
  [.other 48 (waiting 0xff 2) [48] [] (Function.update (fun _ => 0) 1 2), .passBegin fun _ => false,
    .advance goes, .advance goes, .advance goes, .txstatus 0]

theorem fifo_credits_conserved_two :
    ∃ s tr, runs (step twoFifos) (init twoFifos) borrowing = some (s, tr) ∧
      (s.fifoCredit 0, s.fifoCredit 1, s.charged 1) = (4, 0, 1) ∧ Conserved twoFifos s := by
  obtain ⟨s, tr, h⟩ :
    ∃ s tr, runs (step twoFifos) (init twoFifos) borrowing = some (s, tr) := ⟨_, _, rfl⟩
  refine ⟨s, tr, h, ?_, (fifo_credits_conserved twoFifos _ s tr (by decide +kernel) h).1⟩
  cases h
  rfl

/-- One credit, in FIFO 1. -/
def oneCredit : Cfg where
  mode := .implied
  initFifoCredit := fun f => if f = 1 then 1 else 0
  atim := rfl
  maxReleaseCount := 16

/-- Two packets for station 0, which is OPEN and has requested a credit. -/
def requestOpen : List Act :=
  [.other 0 (waiting 0 2) [0] [] (Function.update (fun _ => 0) 1 2), .creditRequest 0 0xff#8 1,
    .passBegin fun _ => false, .advance goes, .advance goes]

/-- The second packet is sent on a credit that is not there. -/
theorem fifo_credits_conserved_fails :
    ∃ s tr, runs (step oneCredit) (init oneCredit) requestOpen = some (s, tr) ∧
      s.fifoCredit 1 = -1 ∧ s.assertFailed = true ∧ ¬ Conserved oneCredit s := by
  obtain ⟨s, tr, h⟩ :
    ∃ s tr, runs (step oneCredit) (init oneCredit) requestOpen = some (s, tr) := ⟨_, _, rfl⟩
  refine ⟨s, tr, h, ?_, ?_, ?_⟩
  · cases h
    rfl
  · cases h
    rfl
  · intro hc
    have := hc.assertHolds
    cases h
    cases this

end Bcmdhd.Wlfc.Credits
