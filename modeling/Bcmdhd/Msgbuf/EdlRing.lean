import Bcmdhd.Msgbuf.D2HRing
import Bcmdhd.Msgbuf.D2HSync

/-!
# The event-log ring (`dhd_msgbuf.c`)

The interrupt side (`dhd_prot_process_msgbuf_edl`) stores the write index that the dongle
published.  A worker (`dhd_prot_process_edl_complete`) takes the work items up to it in batches
of at most ten and advances the read index behind the batch; it gives up when the DMA of an item
does not complete.

    meets step validWr (init …) es → runs step (init …) es = some (s, tr) →
      ((between calls, the items handled are the slots 0, 1, … modulo max_items, and rd is their
        number modulo max_items) ↔ meets step firstOrSynced (init …) es)    (edl_in_order_iff)

A call that returns at once (no ring, a hang was reported) is no step.
-/

namespace Bcmdhd.EdlRing

open Runs RingIndex D2HSync D2HRing

/-! ## Waiting for the DMA of a work item -/

/-- `MSG_TYPE_INFO_PYLD` -/
def msgTypeInfoPyld : Nat := 0x48

/-- `cmn_msg_hdr_t`, the fields that are looked at. -/
structure CmnMsgHdr where
  msgType : Nat
  epoch : Nat
  requestId : Nat
deriving DecidableEq, Repr

/-- `sizeof(cmn_msg_hdr_t)` -/
def cmnMsgHdrLen : Nat := 8

/-- What is seen of a work item: its header, and a trailer at a byte offset. -/
structure WorkItem where
  hdr : CmnMsgHdr
  trailer : Nat → CmnMsgHdr

/-- Header and trailer agree, and the trailer is in the item. -/
def validMsg (itemLen ringSeqnum : Nat) (msg : WorkItem) : Bool :=
  msg.hdr.epoch == ringSeqnum && msg.hdr.msgType == msgTypeInfoPyld &&
    decide (msg.hdr.requestId > 0) && decide (msg.hdr.requestId ≤ itemLen) &&
    -- proceed to check trailer only if header is valid
    let msglen := cmnMsgHdrLen + msg.hdr.requestId
    let trailer := msg.trailer msglen
    decide (msglen + cmnMsgHdrLen ≤ itemLen) && trailer.epoch == ringSeqnum &&
      trailer.msgType == msg.hdr.msgType && trailer.requestId == msg.hdr.requestId

/-- `dhd_prot_d2h_sync_edl`: the loops are those of `dhd_prot_d2h_sync_seqnum`, with another
test.  `look` is what is seen at each try. -/
def d2hSyncEdl (itemLen : Nat) (look : Nat → WorkItem) (induced : Nat → Bool) (s : Sync) :
    Sync × Bool :=
  let ringSeqnum := s.seqnum % epochModulo
  let done (t : Nat) : Msg := ⟨0, if validMsg itemLen ringSeqnum (look t) then 1 else 0⟩
  match syncTries 1 done induced (numOfSteps * waitTries) 0 s with
  | (s, some _) => (s, true)
  -- skip this message
  | (s, none) => (nextSeqnum s, false)

/-- `dhd_prot_d2h_sync_edl_none`; a message type other than 0 is not `BCME_OK`. -/
def d2hSyncEdlNone (look : Nat → WorkItem) (induced : Nat → Bool) (s : Sync) : Sync × Bool :=
  if induced 0 then (s, false)
  else (s, (look 0).hdr.msgType == msgTypeInfoPyld || (look 0).hdr.msgType == 0)

/-- The handlers that may be bound. -/
inductive SyncMode
  | edl
  | edlNone
deriving DecidableEq, Repr

def d2hEdlSyncCb : SyncMode → Nat → (Nat → WorkItem) → (Nat → Bool) → Sync → Sync × Bool
  | .edl, itemLen => d2hSyncEdl itemLen
  | .edlNone, _ => d2hSyncEdlNone

/-! ## Algorithm -/

/-- `DHD_EVENT_LOGTRACE_BOUND` -/
def eventLogtraceBound : Nat := 10

/-- `msgbuf_ring_t` of the EDL ring; `sync` is `ring->seqnum` and the statistics. -/
structure Ring where
  maxItems : Nat
  itemLen : Nat
  rd : Nat
  wr : Nat
  currRd : Nat
  sync : Sync
  itemLen_pos : 0 < itemLen
  rd_lt : rd < maxItems

/-- The variables of `dhd_prot_process_edl_complete`; the address is an offset in the ring. -/
structure Batch where
  wr : Nat
  msgAddr : Nat
  maxItemsToProcess : Nat
  n : Nat
  numItems : Nat
deriving DecidableEq, Repr

/-- Where the worker is. -/
inductive Work
  | idle
  | batch (b : Batch)
  /-- `rd` is advanced -/
  | advanced (b : Batch)
deriving DecidableEq, Repr

structure Sys where
  mode : SyncMode
  ring : Ring
  /-- the read index that the dongle was told -/
  tcmRd : Nat
  work : Work

inductive Ev
  /-- `dhd_prot_process_msgbuf_edl` with the index that the dongle published -/
  | publish (d2hWr : Nat)
  | start
  /-- one round of the loop -/
  | item (look : Nat → WorkItem) (induced : Nat → Bool)
  | advance (suspended : Bool)
  | finish

inductive Res
  | nothing
  /-- the work items that are there -/
  | items (n : Nat)
  /-- the item at this address was given to `dhd_event_logtrace_process_edl` -/
  | handled (addr : Nat)
  /-- what the worker's call returned -/
  | returned (n : Nat)
deriving DecidableEq, Repr

def nextRd (ring : Ring) (items : Nat) : Nat :=
  if ring.rd + items ≥ ring.maxItems then 0 else ring.rd + items

theorem nextRd_lt (ring : Ring) (items : Nat) : nextRd ring items < ring.maxItems := by
  have := ring.rd_lt
  unfold nextRd
  split <;> omega

def advanceRd (ring : Ring) (items : Nat) : Ring :=
  { ring with rd := nextRd ring items, rd_lt := nextRd_lt ring items }

def publish (s : Sys) (d2hWr : Nat) : Sys × Res :=
  ({ s with ring := { s.ring with wr := d2hWr } },
    .items (readAvailSpace d2hWr s.ring.rd s.ring.maxItems))

def start (s : Sys) : Sys × Res :=
  let ring := { s.ring with currRd := s.ring.rd }
  let numItems := readAvailSpace ring.wr ring.rd ring.maxItems
  if numItems = 0 then ({ s with ring }, .returned 0)
  else
    let maxItemsToProcess := min numItems eventLogtraceBound
    ({ s with
        ring
        work := .batch
          { wr := ring.wr
            msgAddr := ring.rd * ring.itemLen
            maxItemsToProcess
            n := maxItemsToProcess
            numItems } }, .nothing)

def item (s : Sys) (b : Batch) (look : Nat → WorkItem) (induced : Nat → Bool) : Sys × Res :=
  let (sync, ok) := d2hEdlSyncCb s.mode s.ring.itemLen look induced s.ring.sync
  let currRd := if s.ring.currRd + 1 ≥ s.ring.maxItems then 0 else s.ring.currRd + 1
  let ring := { s.ring with sync, currRd }
  if !ok then ({ s with ring, work := .idle }, .returned 0)
  else
    ({ s with ring, work := .batch { b with msgAddr := b.msgAddr + ring.itemLen, n := b.n - 1 } },
      .handled b.msgAddr)

/-- update host ring read pointer -/
def advance (s : Sys) (b : Batch) (suspended : Bool) : Sys :=
  let ring := advanceRd s.ring b.maxItemsToProcess
  { s with ring, tcmRd := if suspended then s.tcmRd else ring.rd, work := .advanced b }

/-- The items that are left, with those that were published since. -/
def finish (s : Sys) (b : Batch) : Sys × Res :=
  let numItems :=
    if b.numItems ≤ eventLogtraceBound ∧ b.wr ≠ s.ring.wr then
      b.numItems + readAvailSpace s.ring.wr s.ring.rd s.ring.maxItems
    else b.numItems
  ({ s with work := .idle },
    .returned (if b.maxItemsToProcess < numItems then numItems - b.maxItemsToProcess else 0))

def step (s : Sys) : Ev → Option (Sys × Res)
  | .publish d2hWr => some (publish s d2hWr)
  | .start =>
    match s.work with
    | .idle => some (start s)
    | _ => none
  | .item look induced =>
    match s.work with
    | .batch b => if b.n > 0 then some (item s b look induced) else none
    | _ => none
  | .advance suspended =>
    match s.work with
    | .batch b => if b.n > 0 then none else some (advance s b suspended, .nothing)
    | _ => none
  | .finish =>
    match s.work with
    | .advanced b => some (finish s b)
    | _ => none

/-- The ring at first. -/
def init (mode : SyncMode) (maxItems itemLen : Nat) (hmax : 0 < maxItems) (hlen : 0 < itemLen) :
    Sys where
  mode := mode
  ring := ⟨maxItems, itemLen, 0, 0, 0, ⟨epochInitVal, 0, 0⟩, hlen, hmax⟩
  tcmRd := 0
  work := .idle

/-! ## What should hold -/

abbrev Trace := List (Ev × Res)

/-- The slots of the items that were handled. -/
def handledSlots (itemLen : Nat) (tr : Trace) : List Nat :=
  tr.filterMap fun e =>
    match e.2 with
    | .handled addr => some (addr / itemLen)
    | _ => none

/-- Between calls, the items handled are those of the ring in order, each once, and the read
index counts them. -/
def inOrder (s : Sys) (tr : Trace) : Prop :=
  s.work = .idle →
    let slots := handledSlots s.ring.itemLen tr
    slots = (List.range slots.length).map (· % s.ring.maxItems) ∧
      s.ring.rd = slots.length % s.ring.maxItems

/-- The published index is one of the ring's. -/
def validWr (s : Sys) : Ev → Bool
  | .publish d2hWr => decide (d2hWr < s.ring.maxItems)
  | _ => true

/-- The DMA of every item completes, but for the first of a batch. -/
def firstOrSynced (s : Sys) : Ev → Bool
  | .item look induced =>
    match s.work with
    | .batch b => b.n == b.maxItemsToProcess ||
        (d2hEdlSyncCb s.mode s.ring.itemLen look induced s.ring.sync).2
    | _ => true
  | _ => true

/-! ## Lemmas -/

variable {maxItems itemLen : Nat} {s s' : Sys} {tr : Trace}

/-- The slots of the first `k` items. -/
def firstSlots (maxItems k : Nat) : List Nat := (List.range k).map (· % maxItems)

theorem firstSlots_succ (maxItems k : Nat) :
    firstSlots maxItems (k + 1) = firstSlots maxItems k ++ [k % maxItems] := by
  unfold firstSlots
  rw [List.range_succ, List.map_append]
  rfl

theorem handledSlots_append (itemLen : Nat) (tr tr' : Trace) :
    handledSlots itemLen (tr ++ tr') = handledSlots itemLen tr ++ handledSlots itemLen tr' :=
  List.filterMap_append

/-- How many items of the batch were handled. -/
def inBatch : Work → Nat
  | .batch b => b.maxItemsToProcess - b.n
  | _ => 0

/-- A batch lies before the end of the ring. -/
structure BatchOk (s : Sys) (b : Batch) : Prop where
  n_le : b.n ≤ b.maxItemsToProcess
  pos : 0 < b.maxItemsToProcess
  inside : s.ring.rd + b.maxItemsToProcess ≤ s.ring.maxItems
  msgAddr : b.msgAddr = (s.ring.rd + (b.maxItemsToProcess - b.n)) * s.ring.itemLen

/-- **The invariant**: `R` items were handled in batches that are done. -/
structure At (maxItems itemLen R : Nat) (s : Sys) (tr : Trace) : Prop where
  maxItems_eq : s.ring.maxItems = maxItems
  itemLen_eq : s.ring.itemLen = itemLen
  wr_lt : s.ring.wr < maxItems
  rd_eq : s.ring.rd = R % maxItems
  handled : handledSlots itemLen tr = firstSlots maxItems (R + inBatch s.work)
  batch : ∀ b, s.work = .batch b → BatchOk s b

def Inv (maxItems itemLen : Nat) (s : Sys) (tr : Trace) : Prop := ∃ R, At maxItems itemLen R s tr

/-- The items up to the write index, or to the end of the ring. -/
theorem readAvailSpace_le {wr rd depth : Nat} (hwr : wr < depth) (hrd : rd < depth) :
    rd + readAvailSpace wr rd depth ≤ depth := by
  unfold readAvailSpace
  split <;> omega

theorem publish_inv {R d2hWr : Nat} (h : At maxItems itemLen R s tr)
    (hwr : d2hWr < s.ring.maxItems) :
    At maxItems itemLen R (publish s d2hWr).1
      (tr ++ [(.publish d2hWr, (publish s d2hWr).2)]) where
  maxItems_eq := h.maxItems_eq
  itemLen_eq := h.itemLen_eq
  wr_lt := h.maxItems_eq ▸ hwr
  rd_eq := h.rd_eq
  handled := by
    rw [handledSlots_append, h.handled]
    exact List.append_nil _
  batch := fun b hb =>
    have hok := h.batch b hb
    ⟨hok.n_le, hok.pos, hok.inside, hok.msgAddr⟩

theorem start_inv {R : Nat} (h : At maxItems itemLen R s tr) (hidle : s.work = .idle) :
    At maxItems itemLen R (start s).1 (tr ++ [(.start, (start s).2)]) := by
  have hhandled : handledSlots itemLen tr = firstSlots maxItems R := by
    have := h.handled
    rw [hidle] at this
    exact this
  unfold start
  dsimp only
  by_cases h0 : readAvailSpace s.ring.wr s.ring.rd s.ring.maxItems = 0
  · rw [if_pos h0]
    refine ⟨h.maxItems_eq, h.itemLen_eq, h.wr_lt, h.rd_eq, ?_, fun b hb => ?_⟩
    · rw [handledSlots_append, hhandled]
      show firstSlots maxItems R ++ [] = firstSlots maxItems (R + inBatch s.work)
      rw [hidle, List.append_nil]
      rfl
    · exact absurd (hidle.symm.trans hb) nofun
  · rw [if_neg h0]
    have hle := readAvailSpace_le (h.maxItems_eq ▸ h.wr_lt) s.ring.rd_lt
    refine ⟨h.maxItems_eq, h.itemLen_eq, h.wr_lt, h.rd_eq, ?_, fun b hb => ?_⟩
    · rw [handledSlots_append, hhandled]
      show firstSlots maxItems R ++ [] = firstSlots maxItems (R + (_ - _))
      rw [Nat.sub_self, List.append_nil, Nat.add_zero]
    · cases hb
      refine ⟨Nat.le_refl _, ?_, ?_, ?_⟩
      · show 0 < min _ eventLogtraceBound
        unfold eventLogtraceBound
        omega
      · show s.ring.rd + min _ eventLogtraceBound ≤ s.ring.maxItems
        omega
      · show s.ring.rd * s.ring.itemLen = (s.ring.rd + (_ - _)) * s.ring.itemLen
        rw [Nat.sub_self, Nat.add_zero]

/-- The next item of a batch. -/
theorem At.next {R : Nat} {b : Batch} (h : At maxItems itemLen R s tr) (hb : s.work = .batch b)
    (hn : 0 < b.n) :
    (R + (b.maxItemsToProcess - b.n)) % maxItems =
        s.ring.rd + (b.maxItemsToProcess - b.n) ∧
      b.msgAddr / itemLen = s.ring.rd + (b.maxItemsToProcess - b.n) := by
  have hok := h.batch b hb
  have hin := hok.inside
  have hle := hok.n_le
  rw [h.maxItems_eq, h.rd_eq] at hin
  constructor
  · rw [add_mod_wrap (by omega), if_neg (by omega), h.rd_eq]
  · rw [hok.msgAddr, h.itemLen_eq, Nat.mul_div_cancel _ (h.itemLen_eq ▸ s.ring.itemLen_pos)]

/-- An item is handled, or the first of a batch is not there. -/
theorem item_inv {R : Nat} {b : Batch} {look : Nat → WorkItem} {induced : Nat → Bool}
    (h : At maxItems itemLen R s tr) (hb : s.work = .batch b) (hn : 0 < b.n)
    (hok : firstOrSynced s (.item look induced) = true) :
    At maxItems itemLen R (item s b look induced).1
      (tr ++ [(.item look induced, (item s b look induced).2)]) := by
  have hbatch := h.batch b hb
  have hle := hbatch.n_le
  have hhandled := h.handled
  rw [hb] at hhandled
  replace hhandled : handledSlots itemLen tr =
    firstSlots maxItems (R + (b.maxItemsToProcess - b.n)) := hhandled
  unfold item
  dsimp only
  cases hsync : (d2hEdlSyncCb s.mode s.ring.itemLen look induced s.ring.sync).2 with
  | false =>
    have hfirst : b.n = b.maxItemsToProcess := by
      simpa [firstOrSynced, hb, hsync] using hok
    rw [if_pos (by rfl)]
    refine ⟨h.maxItems_eq, h.itemLen_eq, h.wr_lt, h.rd_eq, ?_, fun _ => nofun⟩
    rw [handledSlots_append, hhandled, hfirst, Nat.sub_self]
    exact List.append_nil _
  | true =>
    obtain ⟨hmod, hslot⟩ := h.next hb hn
    rw [if_neg (by decide)]
    refine ⟨h.maxItems_eq, h.itemLen_eq, h.wr_lt, h.rd_eq, ?_, fun b' hb' => ?_⟩
    · rw [handledSlots_append, hhandled]
      show _ ++ [b.msgAddr / itemLen] =
        firstSlots maxItems (R + (b.maxItemsToProcess - (b.n - 1)))
      rw [hslot, ← hmod, ← firstSlots_succ]
      congr 1
      omega
    · cases hb'
      refine ⟨Nat.le_trans (Nat.sub_le _ _) hle, hbatch.pos, hbatch.inside, ?_⟩
      show b.msgAddr + s.ring.itemLen =
        (s.ring.rd + (b.maxItemsToProcess - (b.n - 1))) * s.ring.itemLen
      rw [hbatch.msgAddr, ← Nat.succ_mul]
      congr 1
      omega

theorem advance_inv {R : Nat} {b : Batch} (h : At maxItems itemLen R s tr)
    (hb : s.work = .batch b) (hn : b.n = 0) (suspended : Bool) :
    At maxItems itemLen (R + b.maxItemsToProcess) (advance s b suspended)
      (tr ++ [(.advance suspended, .nothing)]) where
  maxItems_eq := h.maxItems_eq
  itemLen_eq := h.itemLen_eq
  wr_lt := h.wr_lt
  rd_eq := by
    have hin := (h.batch b hb).inside
    rw [h.maxItems_eq, h.rd_eq] at hin
    show nextRd s.ring b.maxItemsToProcess = (R + b.maxItemsToProcess) % maxItems
    rw [add_mod_wrap hin]
    unfold nextRd
    rw [h.rd_eq, h.maxItems_eq]
    split <;> split <;> omega
  handled := by
    have hhandled := h.handled
    rw [hb] at hhandled
    rw [handledSlots_append, hhandled]
    show firstSlots maxItems (R + (b.maxItemsToProcess - b.n)) ++ [] = _
    rw [hn, List.append_nil]
    rfl
  batch := fun _ => nofun

theorem finish_inv {R : Nat} {b : Batch} (h : At maxItems itemLen R s tr)
    (hb : s.work = .advanced b) :
    At maxItems itemLen R (finish s b).1 (tr ++ [(.finish, (finish s b).2)]) where
  maxItems_eq := h.maxItems_eq
  itemLen_eq := h.itemLen_eq
  wr_lt := h.wr_lt
  rd_eq := h.rd_eq
  handled := by
    have hhandled := h.handled
    rw [hb] at hhandled
    rw [handledSlots_append, hhandled]
    exact List.append_nil _
  batch := fun _ => nofun

theorem step_inv (s : Sys) (tr : Trace) (ev : Ev) (s' : Sys) (res : Res)
    (h : Inv maxItems itemLen s tr) (hok : (validWr s ev && firstOrSynced s ev) = true)
    (hs : step s ev = some (s', res)) : Inv maxItems itemLen s' (tr ++ [(ev, res)]) := by
  obtain ⟨R, h⟩ := h
  rw [Bool.and_eq_true] at hok
  cases ev with
  | publish d2hWr =>
    cases hs
    exact ⟨R, publish_inv h (by simpa [validWr] using hok.1)⟩
  | start =>
    dsimp only [step] at hs
    split at hs
    · next hidle =>
      obtain ⟨rfl, rfl⟩ := Prod.ext_iff.mp (Option.some.inj hs)
      exact ⟨R, start_inv h hidle⟩
    · cases hs
  | item look induced =>
    dsimp only [step] at hs
    split at hs
    · next hb =>
      split at hs
      · next hn =>
        obtain ⟨rfl, rfl⟩ := Prod.ext_iff.mp (Option.some.inj hs)
        exact ⟨R, item_inv h hb hn hok.2⟩
      · cases hs
    · cases hs
  | advance suspended =>
    dsimp only [step] at hs
    split at hs
    · next b hb =>
      split at hs
      · cases hs
      · next hn =>
        cases hs
        exact ⟨R + b.maxItemsToProcess, advance_inv h hb (Nat.eq_zero_of_not_pos hn) suspended⟩
    · cases hs
  | finish =>
    dsimp only [step] at hs
    split at hs
    · next hb =>
      cases hs
      exact ⟨R, finish_inv h hb⟩
    · cases hs

theorem inv_init (mode : SyncMode) (hmax : 0 < maxItems) (hlen : 0 < itemLen) :
    Inv maxItems itemLen (init mode maxItems itemLen hmax hlen) [] :=
  ⟨0, rfl, rfl, hmax, (Nat.zero_mod _).symm, rfl, fun _ => nofun⟩

/-- Between calls the invariant says what should hold. -/
theorem Inv.inOrder (h : Inv maxItems itemLen s tr) : inOrder s tr := by
  obtain ⟨R, h⟩ := h
  intro hidle
  have hhandled := h.handled
  rw [hidle] at hhandled
  have hlen : (handledSlots itemLen tr).length = R := by
    rw [hhandled]
    simp [firstSlots, inBatch]
  dsimp only
  rw [h.itemLen_eq, h.maxItems_eq, hlen]
  exact ⟨hhandled, h.rd_eq⟩

/-- A later item that is not there: the items before it are handled, and not counted. -/
theorem not_inOrder_of_lost (s : Sys) (tr : Trace) (ev : Ev) (s' : Sys) (res : Res)
    (h : Inv maxItems itemLen s tr) (hbad : firstOrSynced s ev = false)
    (hs : step s ev = some (s', res)) : ¬ inOrder s' (tr ++ [(ev, res)]) := by
  obtain ⟨R, h⟩ := h
  cases ev with
  | item look induced =>
    dsimp only [step] at hs
    split at hs
    · next b hb =>
      split at hs
      · next hn =>
        obtain ⟨rfl, rfl⟩ := Prod.ext_iff.mp (Option.some.inj hs)
        simp only [firstOrSynced, hb, Bool.or_eq_false_iff, beq_eq_false_iff_ne] at hbad
        obtain ⟨hne, hsync⟩ := hbad
        have hle := (h.batch b hb).n_le
        obtain ⟨hmod, -⟩ := h.next hb hn
        have hhandled := h.handled
        rw [hb] at hhandled
        unfold item
        dsimp only
        rw [hsync, if_pos (by rfl)]
        intro hin
        have hcount := (hin rfl).2
        dsimp only at hcount
        rw [h.itemLen_eq, h.maxItems_eq, handledSlots_append, hhandled] at hcount
        have hlen : (firstSlots maxItems (R + inBatch (.batch b)) ++
            handledSlots itemLen [(Ev.item look induced, Res.returned 0)]).length =
            R + (b.maxItemsToProcess - b.n) := by
          simp [firstSlots, inBatch, handledSlots]
        rw [hlen, hmod] at hcount
        omega
      · cases hs
    · cases hs
  | publish d2hWr => cases hbad
  | start => cases hbad
  | advance suspended => cases hbad
  | finish => cases hbad

/-! ## Top theorem -/

/-- **The work items are handled in order, each once, exactly when** no item but the first of a
batch fails to arrive. -/
theorem edl_in_order_iff (mode : SyncMode) (maxItems itemLen : Nat) (hmax : 0 < maxItems)
    (hlen : 0 < itemLen) (es : List Ev) (s : Sys) (tr : Trace)
    (hv : meets step validWr (init mode maxItems itemLen hmax hlen) es = true)
    (hr : runs step (init mode maxItems itemLen hmax hlen) es = some (s, tr)) :
    (∀ es₁ es₂ s₁ tr₁, es₁ ++ es₂ = es →
        runs step (init mode maxItems itemLen hmax hlen) es₁ = some (s₁, tr₁) → inOrder s₁ tr₁) ↔
      meets step firstOrSynced (init mode maxItems itemLen hmax hlen) es = true := by
  constructor
  · exact meets_of_prefixes step validWr firstOrSynced (Inv maxItems itemLen) inOrder step_inv
      (fun s tr e s' r hi _ => not_inOrder_of_lost s tr e s' r hi) _ s es tr
      (inv_init mode hmax hlen) hv hr
  · rintro hok es₁ es₂ s₁ tr₁ rfl hr₁
    have hboth := meets_and step validWr firstOrSynced _ _ (meets_of_append _ _ _ _ _ hv)
      (meets_of_append _ _ _ _ _ hok)
    exact (runs_inv_of_meets step _ (Inv maxItems itemLen) step_inv _ s₁ es₁ tr₁
      (inv_init mode hmax hlen) hboth hr₁).inOrder

/-- A work item of 2048 bytes that is complete, with a payload of 100 bytes. -/
def complete (epoch : Nat) : Nat → WorkItem :=
  fun _ => ⟨⟨msgTypeInfoPyld, epoch, 100⟩, fun _ => ⟨msgTypeInfoPyld, epoch, 100⟩⟩

/-- A slot that holds another message. -/
def other : Nat → WorkItem := fun _ => ⟨⟨5, 0, 0⟩, fun _ => ⟨0, 0, 0⟩⟩

def never : Nat → Bool := fun _ => false

/-- A batch of two work items, and two more over the end of a ring of 3. -/
def overTheEnd : List Ev :=
  [.publish 2, .start, .item (complete 1) never, .item (complete 2) never, .advance false, .finish,
    .publish 1, .start, .item (complete 3) never, .advance false, .finish,
    .start, .item (complete 4) never, .advance false, .finish]

theorem edl_in_order_iff_overTheEnd : ∃ s tr,
    runs step (init .edl 3 2048 (by decide) (by decide)) overTheEnd = some (s, tr) ∧
    handledSlots 2048 tr = [0, 1, 2, 0] ∧
    ∀ es₁ es₂ s₁ tr₁, es₁ ++ es₂ = overTheEnd →
      runs step (init .edl 3 2048 (by decide) (by decide)) es₁ = some (s₁, tr₁) →
        inOrder s₁ tr₁ :=
  ⟨_, _, rfl, rfl, (edl_in_order_iff .edl 3 2048 (by decide) (by decide) overTheEnd _ _
    (by decide +kernel) rfl).mpr (by decide +kernel)⟩

/-- The second item of a batch is not there at first: then the first is handled twice. -/
theorem edl_in_order_fails :
    ¬ ∀ mode maxItems itemLen hmax hlen es s tr,
      meets step validWr (init mode maxItems itemLen hmax hlen) es = true →
      runs step (init mode maxItems itemLen hmax hlen) es = some (s, tr) → inOrder s tr := by
  intro h
  have hrun := h .edlNone 256 2048 (by decide) (by decide)
    [.publish 2, .start, .item (complete 0) never, .item other never,
      .start, .item (complete 0) never, .item (complete 0) never, .advance false, .finish]
    _ _ (by decide) rfl
  have hslots := (hrun rfl).1
  exact absurd hslots (by decide)

end Bcmdhd.EdlRing
