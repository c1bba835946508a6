import Bcmdhd.Lib.Ledger

/-!
# Packets under host flow control (`dhd_wlfc.c`)

A packet passed to `dhd_wlfc_commit_packets` waits in the queue of delayed packets of its
destination, is handed to the bus, and is done with when the bus has completed it and the firmware
has sent its status.  A suppressed packet goes to a queue of its own, from which it is sent again.
Packets at the firmware are found through the hanger, or through the AFQ of their destination.

Which packet is taken next (credits, closed stations, the order of the active entries) is left
open here.
-/

namespace Bcmdhd.Wlfc

open Loans (bump)

/-! ## Data -/

abbrev Id := Nat

/-- The four access categories and bc/mc. -/
abbrev Ac := Fin 5

abbrev Ifid := Fin 16

/-- `destination_entries`: nodes from 0, interfaces from 32, other at 48 -/
abbrev Dest := Fin 49

theorem ifid_pos : 0 < 16 := by decide

theorem ac_pos : 0 < 5 := by decide

theorem dest_pos : 0 < 49 := by decide

theorem txprec_pos : 0 < 8 := by decide

/-- The primary interface. -/
def firstIf : Ifid := ⟨0, ifid_pos⟩

def firstAc : Ac := ⟨0, ac_pos⟩

def firstDest : Dest := ⟨0, dest_pos⟩

def firstTxprec : Fin 8 := ⟨0, txprec_pos⟩

/-- An item of the hanger, which has `WLFC_HANGER_MAXITEMS`. -/
abbrev Slot := Fin 3072

/-- A queue of an entry: `PSQ_DLY_IDX(ac)` or `PSQ_SUP_IDX(ac)`. -/
@[ext] structure Prec where
  ac : Ac
  sup : Bool
  deriving DecidableEq

def dly (ac : Ac) : Prec := ⟨ac, false⟩

def sup (ac : Ac) : Prec := ⟨ac, true⟩

def Prec.num (k : Prec) : Nat := 2 * k.ac.val + k.sup.toNat

/-- From the lowest one on. -/
def Prec.all : List Prec := (List.finRange 5).flatMap fun ac => [⟨ac, false⟩, ⟨ac, true⟩]

inductive Frag
  | none | first | middle | last
  deriving DecidableEq

/-- What does not change in a packet; `txprec` is its queue in `bus->txq`. -/
structure PktInfo where
  ifid : Ifid
  fifo : Ac
  entry : Dest
  txprec : Fin 8
  frag : Frag

/-- `H2DTAG` -/
structure Tag where
  hslot : Slot
  gen : Bool
  ctr : BitVec 8

structure Cfg where
  afq : Bool
  reorderSupp : Bool
  psqLen : Nat
  pkt : Id → PktInfo

inductive ItemState
  | free | inuse | inuseSuppressed | flushed
  deriving DecidableEq

/-- `wlfc_hanger_item_t` with the two bits of `pkt_state`; of a generation 0xff only the last bit
is ever used. -/
structure Item where
  state : ItemState
  gen : Bool
  txstatus : Bool
  busreturned : Bool
  pkt : Option Id

structure Entry where
  occupied : Bool
  generation : Bool
  transitCount : Nat
  supprTransitCount : Nat
  onbusPktsCount : Nat
  suppressed : Bool
  seq : Ac → BitVec 8

structure State where
  entry : Dest → Entry
  psq : Dest → Prec → List Id
  afq : Dest → Ac → List Id
  hanger : Slot → Item
  slotPos : Slot
  tag : Id → Tag
  pktCntInPsq : Int
  pktCntPerAc : Ac → Int
  pktCntInQ : Ifid × Ac → Int
  pktCntInDrv : Ifid × Ac → Int
  /-- handed to the bus and not completed -/
  bus : List Id
  /-- which of them are still in `bus->txq` -/
  inTxq : Id → Bool
  /-- handed to the bus, with their status outstanding -/
  air : List Id
  /-- passed to `dhd_wlfc_commit_packets` -/
  passed : List Id
  freed : List Id
  /-- the tail of some queue is a packet that has been freed -/
  staleTail : Bool

def State.setEntry (s : State) (d : Dest) (e : Entry) : State :=
  { s with entry := Function.update s.entry d e }

def Item.empty : Item where
  state := .free
  gen := false
  txstatus := false
  busreturned := false
  pkt := none

def Entry.empty (occupied : Bool) : Entry where
  occupied := occupied
  generation := false
  transitCount := 0
  supprTransitCount := 0
  onbusPktsCount := 0
  suppressed := false
  seq := fun _ => 0

/-- No packets; the entries in use are those of `occupied`. -/
def State.init (occupied : Dest → Bool) : State where
  entry := fun d => .empty (occupied d)
  psq := fun _ _ => []
  afq := fun _ _ => []
  hanger := fun _ => .empty
  slotPos := 0
  tag := fun _ => ⟨0, false, 0⟩
  pktCntInPsq := 0
  pktCntPerAc := fun _ => 0
  pktCntInQ := fun _ => 0
  pktCntInDrv := fun _ => 0
  bus := []
  inTxq := fun _ => false
  air := []
  passed := []
  freed := []
  staleTail := false

@[simp] theorem setEntry_self (s : State) (d : Dest) (e : Entry) : (s.setEntry d e).entry d = e := by
  show Function.update s.entry d e d = e
  rw [Function.update_self]

theorem setEntry_of_ne (s : State) {d d' : Dest} (e : Entry) (h : d' ≠ d) :
    (s.setEntry d e).entry d' = s.entry d' := by
  show Function.update s.entry d e d' = s.entry d'
  rw [Function.update_of_ne h]

theorem setEntry_occupied (s : State) (d d' : Dest) (e : Entry)
    (he : e.occupied = (s.entry d).occupied) :
    ((s.setEntry d e).entry d').occupied = (s.entry d').occupied := by
  by_cases h : d' = d
  · subst h
    rw [setEntry_self, he]
  · rw [setEntry_of_ne s e h]

def State.setPsq (s : State) (d : Dest) (k : Prec) (l : List Id) : State :=
  { s with psq := Function.update s.psq d (Function.update (s.psq d) k l) }

def State.setAfq (s : State) (d : Dest) (ac : Ac) (l : List Id) : State :=
  { s with afq := Function.update s.afq d (Function.update (s.afq d) ac l) }

def State.countPsq (cfg : Cfg) (s : State) (p : Id) (ac : Ac) (z : Int) : State :=
  { s with
    pktCntInQ := bump s.pktCntInQ ((cfg.pkt p).ifid, ac) z
    pktCntPerAc := bump s.pktCntPerAc ac z
    pktCntInPsq := s.pktCntInPsq + z }

def State.countDrv (cfg : Cfg) (s : State) (p : Id) (ac : Ac) (z : Int) : State :=
  { s with pktCntInDrv := bump s.pktCntInDrv ((cfg.pkt p).ifid, ac) z }

/-- `dhd_txcomplete`, `PKTFREE` -/
def State.free (s : State) (p : Id) : State := { s with freed := s.freed ++ [p] }

/-! ## Hanger -/

/-- The search goes once round, from the slot after the last one given out. -/
def freeSlotFrom (h : Slot → Item) : Nat → Slot → Option Slot
  | 0, _ => none
  | n + 1, i => if (h i).state = .free then some i else freeSlotFrom h n (i + 1)

def hangerGetFreeSlot (s : State) : Option Slot := freeSlotFrom s.hanger 3071 (s.slotPos + 1)

def hangerPushpkt (h : Slot → Item) (p : Id) (i : Slot) : (Slot → Item) × Bool :=
  if (h i).state = .free then
    (Function.update h i { h i with
        state := .inuse, txstatus := false, busreturned := false, pkt := some p }, true)
  else (h, false)

def hangerPoppkt (h : Slot → Item) (i : Slot) (removeFromHanger : Bool) :
    (Slot → Item) × Option Id :=
  if (h i).state ≠ .free then
    (if removeFromHanger then
        Function.update h i { h i with state := .free, gen := true, pkt := none }
      else h,
      (h i).pkt)
  else (h, none)

def hangerMarkSuppressed (h : Slot → Item) (i : Slot) (gen : Bool) : Slot → Item :=
  Function.update h i { h i with
    gen := gen
    state := if (h i).state = .inuse then .inuseSuppressed else (h i).state }

def hangerRemoveReference (h : Slot → Item) (p : Id) (i : Slot) : Slot → Item :=
  if (h i).pkt = some p ∧ (h i).state = .inuseSuppressed then
    Function.update h i { h i with state := .free, gen := true, pkt := none }
  else h

/-- `WLFC_HANGER_PKT_STATE_TXSTATUS`, `WLFC_HANGER_PKT_STATE_BUSRETURNED` -/
inductive PktState
  | txstatus | busreturned
  deriving DecidableEq

def Item.mark (it : Item) (b : PktState) : Item :=
  { it with
    txstatus := it.txstatus || b = .txstatus
    busreturned := it.busreturned || b = .busreturned }

def hangerFreePkt (cfg : Cfg) (s : State) (i : Slot) (b : PktState) : State :=
  match (s.hanger i).pkt with
  | some p =>
    let it := (s.hanger i).mark b
    let s := { s with hanger := Function.update s.hanger i it }
    if it.txstatus && it.busreturned then
      let s := { s with hanger := (hangerPoppkt s.hanger i true).1 }
      (s.countDrv cfg p (cfg.pkt p).fifo (-1)).free p
    else s
  | none => { s with hanger := Function.update s.hanger i { s.hanger i with state := .free } }

/-! ## Queues -/

def precDrop (cfg : Cfg) (k : Prec) (pktInQ : Bool) (s : State) (p : Id) : State :=
  let s := { s with hanger :=
    if ¬ cfg.afq ∧ k.sup then (hangerPoppkt s.hanger (s.tag p).hslot true).1 else s.hanger }
  let s := s.countPsq cfg p k.ac (if pktInQ then -1 else 0)
  (s.countDrv cfg p (cfg.pkt p).fifo (-1)).free p

/-- First packet dropped, and how many: the first one that is no fragment, or else the first whole
set of fragments, or else the head. -/
def dropRange (frag : Id → Frag) : List Id → Nat → Option Nat → Nat × Nat
  | [], _, _ => (0, 1)
  | p :: l, i, first =>
    match frag p, first with
    | .none, _ => (i, 1)
    | .first, some f => (f, i - f)
    | .first, none => dropRange frag l (i + 1) (some i)
    | .last, some f => (f, i + 1 - f)
    | _, _ => dropRange frag l (i + 1) first

/-- Start and length of what `dhd_prec_drop_pkts` drops. -/
def dropped (cfg : Cfg) (l : List Id) : Nat × Nat := dropRange (fun p => (cfg.pkt p).frag) l 0 none

def droppedPkts (cfg : Cfg) (l : List Id) : List Id := (l.drop (dropped cfg l).1).take (dropped cfg l).2

def keptPkts (cfg : Cfg) (l : List Id) : List Id :=
  l.take (dropped cfg l).1 ++ l.drop ((dropped cfg l).1 + (dropped cfg l).2)

def precDropPkts (cfg : Cfg) (s : State) (d : Dest) (k : Prec) : State :=
  (droppedPkts cfg (s.psq d k)).foldl (precDrop cfg k true) (s.setPsq d k (keptPkts cfg (s.psq d k)))

/-- `n_pkts_tot` -/
def psqTot (s : State) (d : Dest) : Nat :=
  Prec.all.foldl (fun n k => n + (s.psq d k).length) 0

/-- Precedence found by `pktq_peek_tail`. -/
def peekTail (s : State) (d : Dest) : Option Prec :=
  Prec.all.find? fun k => ¬ (s.psq d k).isEmpty

/-- What `_dhd_wlfc_prec_enq_with_drop` finds: room, a queue to evict from, or neither. -/
inductive Room
  | enough
  | evict (k : Prec)
  | refuse
  deriving DecidableEq

def room (cfg : Cfg) (s : State) (d : Dest) (k : Prec) : Room :=
  if (s.psq d k).length < cfg.psqLen ∧ psqTot s d < cfg.psqLen then .enough
  else if cfg.psqLen ≤ (s.psq d k).length then .evict k
  else
    match peekTail s d with
    | none => .refuse
    | some e =>
      if k.num < e.num then if (s.psq d k).isEmpty then .refuse else .evict k
      else .evict e

def adjustedSeq (s : State) (currentSeq : BitVec 8) (p : Id) : Nat :=
  if (s.tag p).ctr < currentSeq then (s.tag p).ctr.toNat + 256 else (s.tag p).ctr.toNat

/-- Before the first packet that is not older. -/
def insertBySeq (seq : Id → Nat) (p : Id) : List Id → List Id
  | [] => [p]
  | q :: l => if seq q < seq p then q :: insertBySeq seq p l else p :: q :: l

def precEnque (cfg : Cfg) (s : State) (d : Dest) (k : Prec) (p : Id) (qHead : Bool) : State :=
  let l := s.psq d k
  let seq := adjustedSeq s ((s.entry d).seq k.ac)
  s.setPsq d k <|
    if cfg.reorderSupp ∧ k.sup ∧
        (if qHead then seq (l.headD p) < seq p + 1 else seq p < seq (l.getLastD p) + 1) then
      insertBySeq seq p l
    else if qHead then p :: l else l ++ [p]

def precEnqWithDrop (cfg : Cfg) (s : State) (d : Dest) (k : Prec) (p : Id) (qHead : Bool) :
    State × Bool :=
  match room cfg s d k with
  | .refuse => (s, false)
  | .enough => ((precEnque cfg s d k p qHead).countPsq cfg p k.ac 1, true)
  | .evict e => ((precEnque cfg (precDropPkts cfg s d e) d k p qHead).countPsq cfg p k.ac 1, true)

/-- The entry that a slot number stands for in AFQ mode. -/
def entryOf (hslot : Nat) : Dest :=
  if h : hslot < 48 then ⟨hslot, Nat.lt_succ_of_lt h⟩ else 48

theorem dest_le_slots : 49 ≤ 3072 := by decide

/-- The slot number that a packet gets in AFQ mode. -/
def slotOf (d : Dest) : Slot := d.castLE dest_le_slots

/-- Both kinds of queues have `AC_COUNT + 1` FIFOs; the ones beyond are never used. -/
def acOf (fifo : Nat) : Option Ac := if h : fifo < 5 then some ⟨fifo, h⟩ else none

def enqueAfq (cfg : Cfg) (s : State) (p : Id) : State :=
  let d := entryOf (s.tag p).hslot
  s.setAfq d (cfg.pkt p).fifo (s.afq d (cfg.pkt p).fifo ++ [p])

def dequeAfq (s : State) (hslot fifo : Nat) (ctr : BitVec 8) : State × Option Id :=
  match acOf fifo with
  | none => (s, none)
  | some ac =>
    match (s.afq (entryOf hslot) ac).find? fun p => (s.tag p).ctr = ctr with
    | none => (s, none)
    | some p => (s.setAfq (entryOf hslot) ac ((s.afq (entryOf hslot) ac).erase p), some p)

/-! ## Commit -/

def commitPackets (cfg : Cfg) (s : State) (p : Id) : State :=
  let s := { s with passed := s.passed ++ [p] }
  let r := precEnqWithDrop cfg s (cfg.pkt p).entry (dly (cfg.pkt p).fifo) p false
  if r.2 then r.1.countDrv cfg p (cfg.pkt p).fifo 1
  else precDrop cfg (dly (cfg.pkt p).fifo) false r.1 p

/-- Suppressed packets first; the flag says that the packet needs a header. -/
def dequeDelayedq (cfg : Cfg) (s : State) (d : Dest) (ac : Ac) : Option (State × Id × Bool) :=
  match s.psq d (sup ac) with
  | p :: l => some ((s.setPsq d (sup ac) l).countPsq cfg p ac (-1), p, false)
  | [] =>
    match s.psq d (dly ac) with
    | p :: l => some ((s.setPsq d (dly ac) l).countPsq cfg p ac (-1), p, true)
    | [] => none

/-- A new header for a delayed packet, with a slot of its own. -/
def pretxNew (cfg : Cfg) (s : State) (d : Dest) (p : Id) : State × Bool :=
  let e := s.entry d
  let ac := (cfg.pkt p).fifo
  let incr := { e with seq := Function.update e.seq ac (e.seq ac + 1) }
  if cfg.afq then
    ({ s.setEntry d incr with
        tag := Function.update s.tag p ⟨slotOf d, e.generation, e.seq ac⟩ }, true)
  else
    match hangerGetFreeSlot s with
    | none => (s, false)
    | some i =>
      let s := { s with slotPos := i, tag := Function.update s.tag p ⟨i, e.generation, e.seq ac⟩ }
      let r := hangerPushpkt s.hanger p i
      let s := { s with hanger := r.1 }
      (if r.2 then s.setEntry d incr else s, r.2)

/-- A suppressed packet keeps its slot and its sequence number. -/
def pretxAgain (cfg : Cfg) (s : State) (d : Dest) (p : Id) : State :=
  let t := s.tag p
  let it := s.hanger t.hslot
  let gen :=
    if cfg.reorderSupp then (s.entry d).generation
    else if cfg.afq then t.gen
    else if it.state = .free then true else it.gen
  let s := { s with tag := Function.update s.tag p { t with gen := gen } }
  let it := { it with state := .inuse, txstatus := false, busreturned := false }
  if cfg.afq then s else { s with hanger := Function.update s.hanger t.hslot it }

def pretxPktprocess (cfg : Cfg) (s : State) (d : Dest) (p : Id) (headerNeeded : Bool) :
    State × Bool :=
  if headerNeeded then pretxNew cfg s d p else (pretxAgain cfg s d p, true)

/-- `pulled`: whether `_dhd_wlfc_pullheader` finds a header, or what it takes for one. -/
def rollbackPacketToq (cfg : Cfg) (s : State) (p : Id) (needsHdr pulled : Bool) : State :=
  let d := (cfg.pkt p).entry
  let e := s.entry d
  let ac := (cfg.pkt p).fifo
  if needsHdr then
    let s := s.setEntry d { e with seq := Function.update e.seq ac (e.seq ac - 1) }
    let r := if pulled then precEnqWithDrop cfg s d (dly ac) p true else (s, false)
    if r.2 then r.1 else precDrop cfg (dly ac) false r.1 p
  else
    let r := precEnqWithDrop cfg s d (sup ac) p true
    if r.2 then r.1 else precDrop cfg (sup ac) false r.1 p

/-- The packet is on the bus; one of an old generation will be suppressed. -/
def committed (s : State) (d : Dest) (p : Id) : State :=
  let e := s.entry d
  let e := if (s.tag p).gen ≠ e.generation then
    { e with suppressed := true, supprTransitCount := e.supprTransitCount + 1 } else e
  { s.setEntry d { e with
        transitCount := e.transitCount + 1, onbusPktsCount := e.onbusPktsCount + 1 } with
    bus := s.bus ++ [p]
    inTxq := Function.update s.inTxq p true
    air := s.air ++ [p] }

/-- `fcommit` is the answer of the bus, `pulled` that of `_dhd_wlfc_pullheader` for a packet that
has got no header. -/
def handlePacketCommit (cfg : Cfg) (s : State) (d : Dest) (p : Id) (needsHdr fcommit pulled : Bool) :
    State :=
  let r := pretxPktprocess cfg s d p needsHdr
  if r.2 then
    if fcommit then committed r.1 d p
    else
      let s := if needsHdr ∧ ¬ cfg.afq then
        { r.1 with hanger := (hangerPoppkt r.1.hanger (r.1.tag p).hslot true).1 } else r.1
      rollbackPacketToq cfg s p needsHdr true
  else rollbackPacketToq cfg r.1 p needsHdr pulled

/-- What `_dhd_wlfc_deque_delayedq` asks of an entry. -/
def Entry.gate (e : Entry) : Bool := e.occupied && e.transitCount < 0xff && !e.suppressed

/-- One packet of `dhd_wlfc_transfer_packets`. -/
def transferPacket (cfg : Cfg) (s : State) (d : Dest) (ac : Ac) (fcommit pulled : Bool) :
    Option State :=
  if (s.entry d).gate then
    match dequeDelayedq cfg s d ac with
    | none => none
    | some (s, p, needsHdr) => some (handlePacketCommit cfg s d p needsHdr fcommit pulled)
  else none

/-! ## Completion -/

def Entry.openGate (e : Entry) : Entry :=
  if e.suppressed ∧ e.onbusPktsCount = 0 ∧ e.supprTransitCount = 0 then
    { e with suppressed := false } else e

/-- A packet is back from the firmware side. -/
def Entry.back (e : Entry) : Entry :=
  let e := { e with transitCount := e.transitCount - 1 }
  if e.supprTransitCount ≠ 0 then
    Entry.openGate { e with supprTransitCount := e.supprTransitCount - 1 } else e

theorem Entry.openGate_occupied (e : Entry) : e.openGate.occupied = e.occupied := by
  unfold Entry.openGate
  split <;> rfl

theorem Entry.back_occupied (e : Entry) : e.back.occupied = e.occupied := by
  unfold Entry.back
  dsimp only
  split
  · exact Entry.openGate_occupied _
  · rfl

/-- A packet is back from the bus. -/
def Entry.offBus (e : Entry) : Entry :=
  Entry.openGate { e with onbusPktsCount := e.onbusPktsCount - 1 }

/-- `dhd_wlfc_txcomplete` -/
def txcomplete (cfg : Cfg) (s : State) (p : Id) (success : Bool) : State :=
  let d := (cfg.pkt p).entry
  let s :=
    if success then
      if cfg.afq then enqueAfq cfg s p else hangerFreePkt cfg s (s.tag p).hslot .busreturned
    else
      let s := if cfg.afq then s
        else { s with hanger := (hangerPoppkt s.hanger (s.tag p).hslot true).1 }
      let e := s.entry d
      let s := s.setEntry d { e with
        transitCount := e.transitCount - 1, supprTransitCount := e.supprTransitCount - 1 }
      { (s.countDrv cfg p (cfg.pkt p).fifo (-1)).free p with air := s.air.erase p }
  { s.setEntry d (s.entry d).offBus with bus := s.bus.erase p }

/-! ## Status -/

inductive Flag
  | discard | d11Suppress | wlSuppress | tossedByWlc | discardNoack | suppressAcked | expired
  | dropped | other
  deriving DecidableEq

def Flag.suppress (f : Flag) : Bool := f = .d11Suppress ∨ f = .wlSuppress

/-- A status as it comes from the firmware, with 16 bits for the slot and 3 for the FIFO. -/
structure TxStatus where
  /-- `status_flag_ori` -/
  flag : Flag
  hslot : Nat
  fifo : Nat
  ctr : BitVec 8
  gen : Bool
  /-- the packet before had been flushed, and has left `DISCARD` in `status_flag` -/
  flushed : Bool := false

/-- The slot number is used as the number of an entry in both modes. -/
def suppressedAckedUpdate (cfg : Cfg) (s : State) (st : TxStatus) : State :=
  let d := entryOf st.hslot
  match acOf st.fifo with
  | none => s
  | some ac =>
    match (s.psq d (sup ac)).find? fun p => (s.tag p).ctr = st.ctr with
    | none => s
    | some p =>
      let s := s.setPsq d (sup ac) ((s.psq d (sup ac)).erase p)
      let s := { s with
        pktCntInQ := bump s.pktCntInQ ((cfg.pkt p).ifid, ac) (-1)
        pktCntPerAc := bump s.pktCntPerAc ac (-1) }
      let s :=
        if cfg.afq then enqueAfq cfg s p
        else if h : st.hslot < 3072 then
          { s with hanger := (hangerPushpkt s.hanger p ⟨st.hslot, h⟩).1 }
        else s
      let e := s.entry d
      { s.setEntry d { e with transitCount := e.transitCount + 1 } with air := s.air ++ [p] }

/-- `status_flag` at the head of the loop is `SUPPRESS_ACKED`. -/
def TxStatus.acks (st : TxStatus) : Prop := st.flag = .suppressAcked ∧ st.flushed = false

instance (st : TxStatus) : Decidable st.acks :=
  inferInstanceAs (Decidable (st.flag = .suppressAcked ∧ st.flushed = false))

/-- The state in which one packet of a status is looked for. -/
def ackedFirst (cfg : Cfg) (s : State) (st : TxStatus) : State :=
  if st.acks then suppressedAckedUpdate cfg s st else s

/-- Where the packet goes: freed, or to the suppressed ones of its entry. -/
def statusMoves (cfg : Cfg) (s : State) (p : Id) (i : Slot) (suppress gen : Bool) : State :=
  let ac := (cfg.pkt p).fifo
  if suppress then
    let s := { s with tag := Function.update s.tag p { s.tag p with gen := gen } }
    let r := precEnqWithDrop cfg s (cfg.pkt p).entry (sup ac) p false
    if r.2 then
      if cfg.afq then r.1 else { r.1 with hanger := hangerMarkSuppressed r.1.hanger i gen }
    else precDrop cfg (sup ac) false r.1 p
  else if cfg.afq then (s.countDrv cfg p ac (-1)).free p
  else hangerFreePkt cfg s i .txstatus

/-- The packet of a status has been found (in slot `i`). -/
def statusOf (cfg : Cfg) (s : State) (p : Id) (i : Slot) (suppress gen : Bool) : State :=
  let d := (cfg.pkt p).entry
  let e := s.entry d
  let e := if suppress then
    { e with
      supprTransitCount := if e.suppressed then e.supprTransitCount else e.transitCount
      suppressed := true
      generation := gen } else e
  let s := statusMoves cfg { s.setEntry d e with air := s.air.erase p } p i suppress gen
  s.setEntry d (s.entry d).back

/-- One turn of the loop: the packet found, its slot (the one in its tag in AFQ mode), and whether
it is to be suppressed.  Outer `none`: an item beyond the hanger is read. -/
def statusFinds (cfg : Cfg) (s : State) (st : TxStatus) :
    Option (State × Option (Id × Slot × Bool)) :=
  if cfg.afq then
    match dequeAfq s st.hslot st.fifo st.ctr with
    | (s, none) => some (s, none)
    | (s, some p) => some (s, some (p, (s.tag p).hslot, st.flag.suppress))
  else if st.hslot = 3072 then some (s, none)
  else if h : st.hslot < 3072 then
    let i : Slot := ⟨st.hslot, h⟩
    match (hangerPoppkt s.hanger i false).2 with
    | none => some (hangerFreePkt cfg s i .txstatus, none)
    | some p => some (s, some (p, i, st.flag.suppress && (s.hanger i).state ≠ .flushed))
  else none

/-- The next packet of a compressed status. -/
def TxStatus.next (cfg : Cfg) (st : TxStatus) (fifo : Nat) (flushed : Bool) : TxStatus :=
  { st with
    hslot := if cfg.afq then st.hslot else (st.hslot + 1) % 0x10000
    ctr := st.ctr + 1
    fifo := fifo
    flushed := flushed }

/-- The state, the next packet, and the entry that has just become suppressed. -/
def txstatusOne (cfg : Cfg) (s : State) (st : TxStatus) :
    Option (State × TxStatus × Option Dest) :=
  match statusFinds cfg (ackedFirst cfg s st) st with
  | none => none
  | some (s, none) => some (s, st.next cfg st.fifo false, none)
  | some (s, some (p, i, suppress)) =>
    let d := (cfg.pkt p).entry
    let flushed := !cfg.afq && decide ((s.hanger i).state = .flushed)
    some (statusOf cfg s p i suppress st.gen, st.next cfg (cfg.pkt p).fifo.val flushed,
      if suppress && !(s.entry d).suppressed then some d else none)

/-- `_dhd_wlfc_compressed_txstatus_update` for `len` packets. -/
def compressedTxstatusUpdate (cfg : Cfg) :
    Nat → State → TxStatus → Option Dest → Option (State × Option Dest)
  | 0, s, _, mac => some (s, mac)
  | len + 1, s, st, mac =>
    match txstatusOne cfg s st with
    | none => none
    | some (s, st, m) => compressedTxstatusUpdate cfg len s st (m.or mac)

/-! ## Packets taken back -/

/-- `f_processpkt_t`: all packets, those of an interface, those of an entry -/
inductive PktFn
  | all
  | ifpkt (i : Ifid)
  | entrypkt (d : Dest)
  deriving DecidableEq

def PktFn.takes (cfg : Cfg) (fn : PktFn) (p : Id) : Bool :=
  match fn with
  | .all => true
  | .ifpkt i => (cfg.pkt p).ifid = i
  | .entrypkt d => (cfg.pkt p).entry = d

/-- The packets `_dhd_wlfc_pktq_pdeq_with_fn` takes from `bus->txq`, queue by queue. -/
def txqTaken (cfg : Cfg) (s : State) (fn : PktFn) : List Id :=
  (List.finRange 8).flatMap fun prec =>
    s.bus.filter fun p => s.inTxq p && (cfg.pkt p).txprec = prec && fn.takes cfg p

def State.leaveTxq (s : State) (l : List Id) : State :=
  { s with bus := s.bus.filter fun p => p ∉ l }

/-- A suppression is faked for a packet that has not left the host. -/
def suppressPkt (cfg : Cfg) (s : State) (p : Id) : Option State :=
  let d := (cfg.pkt p).entry
  let s := s.setEntry d (s.entry d).offBus
  let t := s.tag p
  let st : TxStatus := {
    flag := .wlSuppress, hslot := t.hslot, fifo := (cfg.pkt p).fifo, ctr := t.ctr,
    gen := (s.entry d).generation }
  let s := if cfg.afq then enqueAfq cfg s p else s
  (compressedTxstatusUpdate cfg 1 s st none).map Prod.fst

/-- `_dhd_wlfc_suppress_txq` for the packets of entry `d`. -/
def suppressTxq (cfg : Cfg) (s : State) (d : Dest) : Option State :=
  let l := txqTaken cfg s (.entrypkt d)
  l.foldlM (suppressPkt cfg) (s.leaveTxq l)

def cleanupTxqPkt (cfg : Cfg) (s : State) (p : Id) : State :=
  let d := (cfg.pkt p).entry
  let s := if cfg.afq then s
    else { s with hanger := hangerRemoveReference s.hanger p (s.tag p).hslot }
  let s := s.setEntry d (s.entry d).back
  { (s.countDrv cfg p (cfg.pkt p).fifo (-1)).free p with air := s.air.erase p }

def cleanupTxq (cfg : Cfg) (s : State) (fn : PktFn) : State :=
  let l := txqTaken cfg s fn
  l.foldl (cleanupTxqPkt cfg) (s.leaveTxq l)

/-- The tail pointer is not moved when the last packet is taken and others stay. -/
def leavesStaleTail (cfg : Cfg) (fn : PktFn) (l : List Id) : Bool :=
  match l.getLast? with
  | none => false
  | some p => fn.takes cfg p && l.any fun q => !fn.takes cfg q

/-- A packet of queue `k` is flushed (`Q_TYPE_PSQ`). -/
def flushPsqPkt (cfg : Cfg) (k : Prec) (s : State) (p : Id) : State :=
  let s := if ¬ cfg.afq ∧ k.sup then
    { s with hanger := hangerRemoveReference s.hanger p (s.tag p).hslot } else s
  ((s.countPsq cfg p k.ac (-1)).countDrv cfg p k.ac (-1)).free p

/-- `prec >> 1` -/
def halfOf (ac : Ac) : Ac := ⟨ac.val / 2, Nat.lt_of_le_of_lt (Nat.div_le_self _ _) ac.isLt⟩

/-- `pkt_cnt_in_drv` is indexed with half of the number of the queue here too. -/
def flushAfqPkt (cfg : Cfg) (ac : Ac) (s : State) (p : Id) : State :=
  let d := (cfg.pkt p).entry
  let s := s.setEntry d (s.entry d).back
  { (s.countDrv cfg p (halfOf ac) (-1)).free p with air := s.air.erase p }

/-- `_dhd_wlfc_pktq_flush` of one queue of `psq` -/
def flushPsq (cfg : Cfg) (fn : PktFn) (d : Dest) (s : State) (k : Prec) : State :=
  let l := s.psq d k
  (l.filter (fn.takes cfg)).foldl (flushPsqPkt cfg k)
    { s.setPsq d k (l.filter fun p => !fn.takes cfg p) with
      staleTail := s.staleTail || leavesStaleTail cfg fn l }

/-- `_dhd_wlfc_pktq_flush` of one queue of `afq` -/
def flushAfq (cfg : Cfg) (fn : PktFn) (d : Dest) (s : State) (ac : Ac) : State :=
  let l := s.afq d ac
  (l.filter (fn.takes cfg)).foldl (flushAfqPkt cfg ac)
    { s.setAfq d ac (l.filter fun p => !fn.takes cfg p) with
      staleTail := s.staleTail || leavesStaleTail cfg fn l }

/-- The queues of an entry, which is then given up if everything is flushed. -/
def cleanupEntry (cfg : Cfg) (fn : PktFn) (s : State) (d : Dest) : State :=
  if (s.entry d).occupied then
    let s := Prec.all.foldl (flushPsq cfg fn d) s
    let s := if cfg.afq then (List.finRange 5).foldl (flushAfq cfg fn d) s else s
    if fn = .all ∧ d ≠ 48 then s.setEntry d { s.entry d with occupied := false } else s
  else s

/-- Packets that stay in the hanger are at the firmware; their slots wait for the status. -/
def hangerFlush (cfg : Cfg) (fn : PktFn) (h : Slot → Item) : Slot → Item := fun i =>
  match (h i).state, (h i).pkt with
  | .inuse, some p | .inuseSuppressed, some p =>
    if fn.takes cfg p then { h i with state := .flushed } else h i
  | .inuse, none | .inuseSuppressed, none =>
    if fn = .all then { h i with state := .flushed } else h i
  | _, _ => h i

/-- `_dhd_wlfc_cleanup` -/
def cleanup (cfg : Cfg) (s : State) (fn : PktFn) : State :=
  let s := (List.finRange 49).foldl (cleanupEntry cfg fn) (cleanupTxq cfg s fn)
  if cfg.afq then s else { s with hanger := hangerFlush cfg fn s.hanger }

end Bcmdhd.Wlfc
