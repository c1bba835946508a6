import Bcmdhd.Msgbuf.PktIdMap
import Bcmdhd.Msgbuf.ProcessMsg
import Mathlib.Data.List.Chain

/-!
# Receive completions (`dhd_msgbuf.c`)

`dhd_prot_process_msgbuf_rxcpl` takes a batch of items, chains the packets of one interface, and
stops at a packet of another one: the items behind it are given back by moving `rd` back.  Then the
chain is delivered packet by packet.

    runs (step setup) (init …) es = some (s, tr) →
      (Delivers setup … es s tr ↔ meets (step setup) (noFrags setup) (init …) es)
                                                             (rxcpl_delivers_iff)

`Delivers` takes the items one after the other; batches, the chain and `rd` do not show in it.
Flow control of the load balancing and monitor mode are off.
-/

namespace Bcmdhd.RxCpl

open Runs RingIndex D2HRing PktIdMap ProcessMsg

/-! ## Data -/

/-- `host_rxbuf_cmpl_t`, as the host finds it -/
structure RxItem where
  /-- for each try of `d2h_sync_cb`, whether the whole message is there -/
  tries : List Bool
  msgType : Nat
  requestId : Nat
  ifId : Nat
  /-- `BCMPCIE_CMNHDR_FLAGS_WAKE_PACKET` -/
  wakePacket : Bool
  dataOffset : Nat
  dataLen : Nat
deriving DecidableEq, Repr

/-- What is in a packet: its link, the bytes pulled from its head, and its length. -/
structure Buf where
  next : Option Nat
  pulled : Nat
  len : Nat
deriving DecidableEq, Repr

/-- A packet that `dhd_prot_rxbuf_post` gets. -/
structure RxBuf where
  pkt : Nat
  buf : Buf
  pa : Nat
  secdma : Nat
deriving DecidableEq, Repr

structure Setup extends ProcessMsg.Setup where
  /-- DMA RX offset updated through shared area -/
  rxDataoffset : Nat
  maxRxbufpost : Nat
  rxBufpostThreshold : Nat

structure Prot where
  /-- `d2hring_rx_cpln` -/
  ring : MsgbufRing
  pktidRxMap : PktidMap
  buf : Nat → Buf
  rxbufpost : Nat
  totRxcpl : Nat
  rxWakeupPkt : Nat

/-- What one turn of the loop meets. -/
structure Turn where
  d2hWr : Nat
  contents : Nat → RxItem
  /-- `skb_shinfo(skb)->nr_frags` is not 0 -/
  nrFrags : Nat → Bool
  induce : InduceError
  /-- the buffers that `dhd_msgbuf_rxbuf_post` gets at the end of the turn -/
  posted : List RxBuf

/-- A packet as it is passed on. -/
structure Frame where
  pkt : Nat
  ifidx : Nat
  pulled : Nat
  len : Nat
deriving DecidableEq, Repr

inductive Event
  /-- the item of this slot goes through `d2h_sync_cb` -/
  | sync (idx : Nat)
  /-- `DHD_PKTID_TO_NATIVE` releases this id -/
  | release (pktid : Nat)
  /-- `dhd_prot_rx_frame` -/
  | rxFrame (frame : Frame)
  /-- `dhd_prot_return_rxbuf` -/
  | returnRxbuf (rxcnt : Nat)
deriving DecidableEq, Repr

/-! ## Algorithm -/

/-- The local variables of a turn. -/
structure Batch where
  p : Prot
  pktqhead : Option Nat
  prevpkt : Option Nat
  /-- not read before `pktqhead` is set -/
  ifidx : Nat
  pktCnt : Nat
  /-- `pkt_newidx` and `if_newidx` -/
  newidx : Option (Nat × Nat)
  events : List Event

/-- Offset and length of the data -/
def setData (setup : Setup) (buf : Nat → Buf) (item : RxItem) (pkt : Nat) : Nat → Buf :=
  Function.update buf pkt
    { buf pkt with
      pulled := (buf pkt).pulled +
        -- data offset given from dongle after split rx
        if item.dataOffset ≠ 0 then item.dataOffset else setup.rxDataoffset
      len := item.dataLen }

/-- `PKTSETNEXT` -/
def setNext (buf : Nat → Buf) (pkt : Nat) (next : Option Nat) : Nat → Buf :=
  Function.update buf pkt { buf pkt with next }

/-- A packet that is there; the result is whether the loop ends. -/
def chainPkt (setup : Setup) (b : Batch) (item : RxItem) (pkt : Nat) : Batch × Bool :=
  let buf := setData setup b.p.buf item pkt
  let p := { b.p with buf, totRxcpl := b.p.totRxcpl + 1 }
  match b.pktqhead, b.prevpkt with
  | some _, some prevpkt =>
    if b.ifidx ≠ item.ifId then ({ b with p, newidx := some (pkt, item.ifId) }, true)
    else
      ({ b with
          p := { p with buf := setNext buf prevpkt (some pkt) }
          prevpkt := some pkt
          pktCnt := b.pktCnt + 1 }, false)
  | _, _ =>
    ({ b with
        p
        pktqhead := some pkt
        prevpkt := some pkt
        ifidx := item.ifId
        pktCnt := b.pktCnt + 1 }, false)

/-- An item of the batch. -/
def processItem (setup : Setup) (t : Turn) (b : Batch) (idx : Nat) (item : RxItem) :
    Batch × Bool :=
  let r := d2hSyncCb setup.toSetup b.p.ring.seqnum ⟨item.tries, item.msgType, 0⟩
  let b :=
    { b with
      p := { b.p with ring := nextCurrRd { b.p.ring with seqnum := r.1 } }
      events := b.events ++ [.sync idx] }
  if r.2 = msgTypeInvalid then (b, false)
  else
    let f := free t.induce b.p.pktidRxMap item.requestId .dataRx false
    let b :=
      { b with
        p := { b.p with
          pktidRxMap := f.1
          rxWakeupPkt := b.p.rxWakeupPkt + if item.wakePacket then 1 else 0 }
        events := b.events ++ if f.2.2.isSome then [.release item.requestId] else [] }
    match f.2.1 with
    | none => (b, false)
    | some pkt =>
      -- `dhd_check_shinfo_nrfrags` frees the packet, or takes a memory dump
      if t.nrFrags pkt then (b, false) else chainPkt setup b item pkt

/-- The loop over a batch; the second component is what is left of it. -/
def rxLoop (setup : Setup) (t : Turn) (b : Batch) :
    List (Nat × RxItem) → Batch × List (Nat × RxItem)
  | [] => (b, [])
  | (idx, item) :: rest =>
    let r := processItem setup t b idx item
    if r.2 then (r.1, rest) else rxLoop setup t r.1 rest

/-- `rd` for `left` unprocessed messages -/
def rolledBack (ring : MsgbufRing) (left : Nat) : Nat :=
  if left > 0 then if ring.rd < left then ring.maxItems - left else ring.rd - left else ring.rd

theorem rolledBack_lt (ring : MsgbufRing) (left : Nat) : rolledBack ring left < ring.maxItems := by
  have := ring.rd_lt
  unfold rolledBack
  split
  · split <;> omega
  · exact this

/-- roll back read pointer for unprocessed message -/
def rollBack (ring : MsgbufRing) (left : Nat) : MsgbufRing :=
  { ring with rd := rolledBack ring left, rd_lt := rolledBack_lt ring left }

def frameOf (buf : Nat → Buf) (pkt ifidx : Nat) : Frame := ⟨pkt, ifidx, (buf pkt).pulled, (buf pkt).len⟩

/-- The loop over the chain, for at most as many packets. -/
def rxFrames (ifidx : Nat) : Nat → Option Nat → (Nat → Buf) → (Nat → Buf) × List Frame
  | 0, _, buf => (buf, [])
  | _ + 1, none, buf => (buf, [])
  | cnt + 1, some pkt, buf =>
    let r := rxFrames ifidx cnt (buf pkt).next (setNext buf pkt none)
    (r.1, frameOf buf pkt ifidx :: r.2)

/-- The chain, then the packet of the other interface -/
def passOn (b : Batch) : (Nat → Buf) × List Frame :=
  let f := rxFrames b.ifidx b.pktCnt b.pktqhead b.p.buf
  (f.1, f.2 ++ (b.newidx.map fun x => frameOf f.1 x.1 x.2).toList)

/-- `pkt_cnt += pkt_cnt_newidx` -/
def totalCnt (b : Batch) : Nat := b.pktCnt + if b.newidx.isSome then 1 else 0

/-- `dhd_prot_rxbuf_post`: the buffers get ids until there are none. -/
def rxbufPost (induce : InduceError) (p : Prot) : List RxBuf → Prot
  | [] => p
  | b :: bs =>
    -- `DMA_RX`, and no handle
    let r := alloc induce p.pktidRxMap ⟨2, .dataRx, b.buf.len, some b.pkt, b.pa, 0, b.secdma⟩
    if r.2 = pktidInvalid then { p with pktidRxMap := r.1 }
    else
      rxbufPost induce
        { p with
          pktidRxMap := r.1
          buf := Function.update p.buf b.pkt b.buf
          rxbufpost := p.rxbufpost + 1 } bs

/-- `dhd_prot_return_rxbuf` -/
def returnRxbuf (setup : Setup) (induce : InduceError) (p : Prot) (posted : List RxBuf)
    (rxcnt : Nat) : Prot :=
  let p := { p with rxbufpost := if p.rxbufpost ≥ rxcnt then p.rxbufpost - rxcnt else 0 }
  if p.rxbufpost + setup.rxBufpostThreshold ≤ setup.maxRxbufpost then rxbufPost induce p posted
  else p

/-! ## Calls -/

structure State where
  p : Prot
  /-- `rx_cpl_post_bound` -/
  bound : Nat
  n : Nat
  /-- the loop has ended -/
  ended : Bool

structure Result where
  consumed : List (Nat × RxItem)
  events : List Event
deriving DecidableEq

inductive Ev
  /-- `dhd_msgbuf_rxbuf_post`, from elsewhere -/
  | post (induce : InduceError) (posted : List RxBuf)
  /-- `dhd_prot_process_msgbuf_rxcpl` is called -/
  | call (bound : Nat)
  /-- its loop makes a turn -/
  | turn (t : Turn)
  /-- its loop ends before a turn, because of an error of the device or the bus -/
  | error

/-- No buffer is posted that the map has already. -/
def newBufs (m : PktidMap) (posted : List RxBuf) : Bool :=
  decide ((posted.map RxBuf.pkt).Nodup) &&
    posted.all fun b => (List.range' 1 m.items).all fun k =>
      (m.lockers k).state == .free || (m.lockers k).pkt != some b.pkt

/-- The batch that a turn takes from the ring, before any item is looked at. -/
def itemsAt (ring : MsgbufRing) (region : Nat × Nat) (contents : Nat → RxItem) :
    List (Nat × RxItem) :=
  (itemsIn ring.itemLen (some region)).map fun idx => (idx, contents idx)

def startBatch (p : Prot) : Batch := ⟨p, none, none, 0, 0, none, []⟩

/-- A turn with a batch: the packets are passed on, and as many buffers returned. -/
def processBatch (setup : Setup) (s : State) (p : Prot) (t : Turn) (items : List (Nat × RxItem)) :
    State × Result :=
  let r := rxLoop setup t (startBatch p) items
  let b := r.1
  let ring := rollBack b.p.ring r.2.length
  let f := passOn b
  let pktCnt := totalCnt b
  let p := returnRxbuf setup t.induce { b.p with ring, buf := f.1 } t.posted pktCnt
  let n := s.n + pktCnt
  ({ s with p, n, ended := decide (n ≥ s.bound) },
    { consumed := items.take (items.length - r.2.length)
      events := b.events ++ f.2.map .rxFrame ++ [.returnRxbuf pktCnt] })

def turn (setup : Setup) (s : State) (t : Turn) : State × Result :=
  match getReadAddr s.p.ring t.d2hWr (s.bound - s.n) with
  | (ring, none) => ({ s with p := { s.p with ring }, ended := true }, ⟨[], []⟩)
  | (ring, some region) =>
    processBatch setup s { s.p with ring } t (itemsAt ring region t.contents)

/-- The dongle publishes an index of the ring, and a buffer that is posted is a new one. -/
def step (setup : Setup) (s : State) : Ev → Option (State × Result)
  | .post induce posted =>
    if newBufs s.p.pktidRxMap posted then
      some ({ s with p := rxbufPost induce s.p posted }, ⟨[], []⟩)
    else none
  | .call bound => if s.ended then some ({ s with bound, n := 0, ended := false }, ⟨[], []⟩) else none
  | .turn t =>
    if s.ended = false ∧ t.d2hWr ≤ s.p.ring.maxItems ∧
        newBufs (turn setup s { t with posted := [] }).1.p.pktidRxMap t.posted = true then
      some (turn setup s t)
    else none
  | .error => if s.ended then none else some ({ s with ended := true }, ⟨[], []⟩)

def init (ring : MsgbufRing) (items : Nat) (uninit : Contents) (buf : Nat → Buf) : State where
  p := ⟨ring, PktIdMap.init items uninit, buf, 0, 0, 0⟩
  bound := 0
  n := 0
  ended := true

/-! ## Item after item -/

/-- What the host finds out about an item. -/
inductive Outcome
  /-- `d2h_sync_cb` gives it up -/
  | skipped
  /-- the map has no packet for its id -/
  | unknown
  /-- its packet has fragments -/
  | fragmented (pkt : Nat)
  | good (pkt : Nat)
deriving DecidableEq, Repr

/-- Whether `d2h_sync_cb` takes the item. -/
def synced (setup : Setup) (item : RxItem) : Bool :=
  syncedType setup.toSetup ⟨item.tries, item.msgType, 0⟩ != msgTypeInvalid

/-- The item is looked up, if it is synced. -/
def lookAt (setup : Setup) (t : Turn) (m : PktidMap) (item : RxItem) : PktidMap × Outcome :=
  if synced setup item then
    let f := free t.induce m item.requestId .dataRx false
    match f.2.1 with
    | none => (f.1, .unknown)
    | some pkt => (f.1, if t.nrFrags pkt then .fragmented pkt else .good pkt)
  else (m, .skipped)

/-- An item of the ring and what is found out about it. -/
structure Seen where
  idx : Nat
  item : RxItem
  outcome : Outcome
deriving DecidableEq, Repr

/-- The items, one after the other. -/
def seen (setup : Setup) (t : Turn) (m : PktidMap) : List (Nat × RxItem) → List Seen
  | [] => []
  | (idx, item) :: rest =>
    let r := lookAt setup t m item
    ⟨idx, item, r.2⟩ :: seen setup t r.1 rest

/-- The items up to the first good one of another interface than the good ones before it. -/
def throughChange : Option Nat → List Seen → List Seen
  | _, [] => []
  | first, e :: rest =>
    match e.outcome, first with
    | .good _, none => e :: throughChange (some e.item.ifId) rest
    | .good _, some ifidx =>
      if e.item.ifId = ifidx then e :: throughChange first rest else [e]
    | _, _ => e :: throughChange first rest

/-- The items that a turn offers. -/
def offered (s : State) (t : Turn) : List (Nat × RxItem) :=
  match getReadAddr s.p.ring t.d2hWr (s.bound - s.n) with
  | (_, none) => []
  | (ring, some region) => itemsAt ring region t.contents

/-- The items that it should consume. -/
def batch (setup : Setup) (s : State) (t : Turn) : List Seen :=
  throughChange none (seen setup t s.p.pktidRxMap (offered s t))

/-- Packet, interface and length that an item stands for. -/
def Seen.delivery (e : Seen) : Option (Nat × Nat × Nat) :=
  match e.outcome with
  | .good pkt => some (pkt, e.item.ifId, e.item.dataLen)
  | _ => none

def Frame.delivery (f : Frame) : Nat × Nat × Nat := (f.pkt, f.ifidx, f.len)

def Event.frame? : Event → Option Frame
  | .rxFrame frame => some frame
  | _ => none

def Event.sync? : Event → Option Nat
  | .sync idx => some idx
  | _ => none

def Event.release? : Event → Option Nat
  | .release pktid => some pktid
  | _ => none

def Event.returned : Event → Nat
  | .returnRxbuf rxcnt => rxcnt
  | _ => 0

/-- How many ids the events release. -/
def releases (evs : List Event) : Nat := (evs.filterMap Event.release?).length

/-- How many buffers they return. -/
def returns (evs : List Event) : Nat := evs.foldr (fun e n => e.returned + n) 0

/-- A turn consumes what it should, and passes each packet on for the interface of its item. -/
structure TurnOk (setup : Setup) (s : State) (t : Turn) (r : Result) : Prop where
  consumed : r.consumed = (batch setup s t).map fun e => (e.idx, e.item)
  frames : (r.events.filterMap Event.frame?).map Frame.delivery =
    (batch setup s t).filterMap Seen.delivery

def consumed (tr : List (Ev × Result)) : List (Nat × RxItem) := tr.flatMap fun e => e.2.consumed

def events (tr : List (Ev × Result)) : List Event := tr.flatMap fun e => e.2.events

def released (tr : List (Ev × Result)) : Nat := releases (events tr)

def returned (tr : List (Ev × Result)) : Nat := returns (events tr)

/-- What a run should do. -/
structure Delivers (setup : Setup) (s₀ : State) (es : List Ev) (s : State)
    (tr : List (Ev × Result)) : Prop where
  turns : ∀ es₁ es₂ t s₁ tr₁ s₂ r, es₁ ++ .turn t :: es₂ = es →
    runs (step setup) s₀ es₁ = some (s₁, tr₁) → step setup s₁ (.turn t) = some (s₂, r) →
    TurnOk setup s₁ t r
  /-- every item consumed goes through `d2h_sync_cb` once -/
  synced : (events tr).filterMap Event.sync? = (consumed tr).map Prod.fst
  /-- the items consumed are those of the slots from `rd` on, and `rd` is behind them -/
  slots : (consumed tr).map Prod.fst =
    (List.range (consumed tr).length).map fun j => (s₀.p.ring.rd + j) % s₀.p.ring.maxItems
  rd : s.p.ring.rd = (s₀.p.ring.rd + (consumed tr).length) % s₀.p.ring.maxItems
  returned : returned tr = released tr

def Seen.isFragmented (e : Seen) : Bool :=
  match e.outcome with
  | .fragmented _ => true
  | _ => false

/-- No packet of the batch has fragments. -/
def noFrags (setup : Setup) (s : State) : Ev → Bool
  | .turn t => (batch setup s t).all fun e => !e.isFragmented
  | _ => true

/-! ## The map -/

variable {setup : Setup} {t : Turn} {m m' : PktidMap}

/-- An id in use has the packet. -/
def Held (m : PktidMap) (pkt : Nat) : Prop :=
  ∃ k, 1 ≤ k ∧ k ≤ m.items ∧ (m.lockers k).state ≠ .free ∧ (m.lockers k).pkt = some pkt

/-- The ids in use have packets, each its own. -/
structure MapOk (m : PktidMap) : Prop where
  inv : ∃ uninit tr, PktIdMap.Inv m.items uninit m tr
  pkt : ∀ k, 1 ≤ k → k ≤ m.items → (m.lockers k).state ≠ .free → (m.lockers k).pkt.isSome = true
  inj : ∀ j k, 1 ≤ j → j ≤ m.items → 1 ≤ k → k ≤ m.items → (m.lockers j).state ≠ .free →
    (m.lockers k).state ≠ .free → (m.lockers j).pkt = (m.lockers k).pkt → j = k

theorem init_mapOk (items : Nat) (uninit : Contents) : MapOk (PktIdMap.init items uninit) where
  inv := ⟨uninit, [], PktIdMap.inv_init items uninit⟩
  pkt := by
    intro k hk _ hbusy
    exact absurd (if_neg (by unfold pktidInvalid; omega)) hbusy
  inj := by
    intro j k hj _ _ _ hbusy
    exact absurd (if_neg (by unfold pktidInvalid; omega)) hbusy

/-- A free is refused, or gives a packet that no id has any more. -/
theorem free_ok (h : MapOk m) (induce : InduceError) (pktid : Nat) :
    free induce m pktid .dataRx false = (m, none, none) ∨
    ∃ m' pkt out, free induce m pktid .dataRx false = (m', some pkt, some out) ∧ MapOk m' ∧
      Held m pkt ∧ ¬ Held m' pkt ∧ ∀ q, Held m' q → Held m q := by
  cases hr : rejected induce m pktid .dataRx with
  | true => exact .inl (free_of_rejected hr)
  | false =>
    have hf := @free_of_accepted m induce pktid .dataRx false hr
    obtain ⟨uninit, tr, hinv⟩ := h.inv
    have hinv' := free_inv hinv induce pktid .dataRx false
    unfold rejected at hr
    simp only [Bool.or_eq_false_iff, beq_eq_false_iff_ne] at hr
    obtain ⟨⟨⟨hkey, -⟩, hbusy⟩, -⟩ := hr
    obtain ⟨h1, h2⟩ := invalidKey_eq_false.mp hkey
    obtain ⟨pkt, hpkt⟩ := Option.isSome_iff_exists.mp (h.pkt pktid h1 h2 hbusy)
    rw [hpkt] at hf
    rw [hf] at hinv'
    refine .inr ⟨_, pkt, _, hf, ?_⟩
    -- the locker is free, and the others are as they were
    have hother : ∀ {k : Nat} {locker : Locker}, locker.state = .free →
        (Function.update m.lockers pktid locker k).state ≠ .free →
        k ≠ pktid ∧ Function.update m.lockers pktid locker k = m.lockers k := by
      intro k locker hfree hk
      have hne : k ≠ pktid := by
        rintro rfl
        rw [Function.update_self] at hk
        exact hk hfree
      exact ⟨hne, Function.update_of_ne hne _ _⟩
    refine ⟨⟨⟨uninit, _, hinv'⟩, ?_, ?_⟩, ⟨pktid, h1, h2, hbusy, hpkt⟩, ?_, ?_⟩
    · intro k hk1 hk2 hk
      obtain ⟨-, heq⟩ := hother rfl hk
      dsimp only at hk ⊢
      rw [heq] at hk ⊢
      exact h.pkt k hk1 hk2 hk
    · intro j k hj1 hj2 hk1 hk2 hj hk heq
      obtain ⟨-, hjeq⟩ := hother rfl hj
      obtain ⟨-, hkeq⟩ := hother rfl hk
      dsimp only at hj hk heq
      rw [hjeq] at hj heq
      rw [hkeq] at hk heq
      exact h.inj j k hj1 hj2 hk1 hk2 hj hk heq
    · rintro ⟨k, hk1, hk2, hk, hq⟩
      obtain ⟨hne, heq⟩ := hother rfl hk
      dsimp only at hk hq
      rw [heq] at hk hq
      exact hne (h.inj k pktid hk1 hk2 h1 h2 hk hbusy (hq.trans hpkt.symm))
    · rintro q ⟨k, hk1, hk2, hk, hq⟩
      obtain ⟨-, heq⟩ := hother rfl hk
      dsimp only at hk hq
      rw [heq] at hk hq
      exact ⟨k, hk1, hk2, hk, hq⟩

/-- A packet that no id has gets one, or none. -/
theorem alloc_ok (h : MapOk m) (induce : InduceError) {c : Contents} {pkt : Nat}
    (hc : c.pkt = some pkt) (hnew : ¬ Held m pkt) :
    MapOk (alloc induce m c).1 ∧ ∀ q, Held (alloc induce m c).1 q → Held m q ∨ q = pkt := by
  obtain ⟨uninit, tr, hinv⟩ := h.inv
  have hinv' := alloc_inv hinv induce c
  rcases alloc_cases hinv induce c with hr | ⟨nkey, h1, h2, hfree, -, hr⟩
  · rw [hr] at hinv' ⊢
    exact ⟨⟨⟨uninit, _, hinv'⟩, h.pkt, h.inj⟩, fun q hq => .inl hq⟩
  · rw [hr] at hinv' ⊢
    dsimp only at hinv' ⊢
    have hlocker : ∀ l : Locker, l = (if induce = .pktidInvalidSave then
        { m.lockers nkey with pkt := c.pkt, len := 0, state := .busy }
        else { stored c with state := .busy }) → l.pkt = some pkt := by
      intro l hl
      rw [hl]
      split
      · exact hc
      · exact hc
    generalize (if induce = .pktidInvalidSave then
        { m.lockers nkey with pkt := c.pkt, len := 0, state := .busy }
        else { stored c with state := .busy } : Locker) = l at hinv' hlocker ⊢
    have hpkt := hlocker l rfl
    -- the other lockers are as they were, and have other packets
    have hother : ∀ {k : Nat}, k ≠ nkey → 1 ≤ k → k ≤ m.items →
        (Function.update m.lockers nkey l k).state ≠ .free →
        Function.update m.lockers nkey l k = m.lockers k ∧ (m.lockers k).pkt ≠ some pkt := by
      intro k hne hk1 hk2 hk
      have heq : Function.update m.lockers nkey l k = m.lockers k := Function.update_of_ne hne _ _
      rw [heq] at hk
      exact ⟨heq, fun hpk => hnew ⟨k, hk1, hk2, hk, hpk⟩⟩
    refine ⟨⟨⟨uninit, _, hinv'⟩, ?_, ?_⟩, ?_⟩
    · intro k hk1 hk2 hk
      dsimp only at hk ⊢
      by_cases hne : k = nkey
      · rw [hne, Function.update_self, hpkt]
        rfl
      · obtain ⟨heq, -⟩ := hother hne hk1 hk2 hk
        rw [heq] at hk ⊢
        exact h.pkt k hk1 hk2 hk
    · intro j k hj1 hj2 hk1 hk2 hj hk heq
      dsimp only at hj hk heq
      by_cases hjn : j = nkey
      · by_cases hkn : k = nkey
        · rw [hjn, hkn]
        · obtain ⟨hkeq, hkp⟩ := hother hkn hk1 hk2 hk
          rw [hjn, Function.update_self, hkeq, hpkt] at heq
          exact absurd heq.symm hkp
      · obtain ⟨hjeq, hjp⟩ := hother hjn hj1 hj2 hj
        by_cases hkn : k = nkey
        · rw [hkn, Function.update_self, hjeq, hpkt] at heq
          exact absurd heq hjp
        · obtain ⟨hkeq, -⟩ := hother hkn hk1 hk2 hk
          rw [hjeq] at hj heq
          rw [hkeq] at hk heq
          exact h.inj j k hj1 hj2 hk1 hk2 hj hk heq
    · rintro q ⟨k, hk1, hk2, hk, hq⟩
      dsimp only at hk hq
      by_cases hne : k = nkey
      · rw [hne, Function.update_self, hpkt] at hq
        exact .inr (Option.some.inj hq).symm
      · obtain ⟨heq, -⟩ := hother hne hk1 hk2 hk
        rw [heq] at hk hq
        exact .inl ⟨k, hk1, hk2, hk, hq⟩

theorem rxbufPost_ring (induce : InduceError) (p : Prot) (bs : List RxBuf) :
    (rxbufPost induce p bs).ring = p.ring := by
  induction bs generalizing p with
  | nil => rfl
  | cons b bs ih =>
    unfold rxbufPost
    dsimp only
    split
    · rfl
    · exact ih _

theorem rxbufPost_ok {p : Prot} (h : MapOk p.pktidRxMap) (induce : InduceError) {bs : List RxBuf}
    (hnodup : (bs.map RxBuf.pkt).Nodup) (hnew : ∀ b ∈ bs, ¬ Held p.pktidRxMap b.pkt) :
    MapOk (rxbufPost induce p bs).pktidRxMap := by
  induction bs generalizing p with
  | nil => exact h
  | cons b bs ih =>
    rw [List.map_cons, List.nodup_cons] at hnodup
    obtain ⟨hok, hheld⟩ := @alloc_ok _ h induce
      ⟨2, .dataRx, b.buf.len, some b.pkt, b.pa, 0, b.secdma⟩ b.pkt rfl (hnew b List.mem_cons_self)
    unfold rxbufPost
    dsimp only
    split
    · exact hok
    · refine ih hok hnodup.2 fun b' hb' hq => ?_
      rcases hheld _ hq with hq | heq
      · exact hnew b' (List.mem_cons_of_mem _ hb') hq
      · exact hnodup.1 (heq ▸ List.mem_map_of_mem hb')

theorem newBufs_iff {posted : List RxBuf} :
    newBufs m posted = true ↔ (posted.map RxBuf.pkt).Nodup ∧ ∀ b ∈ posted, ¬ Held m b.pkt := by
  unfold newBufs Held
  simp only [Bool.and_eq_true, decide_eq_true_eq, List.all_eq_true, List.mem_range'_1,
    Bool.or_eq_true, beq_iff_eq, bne_iff_ne]
  refine and_congr_right fun _ => forall₂_congr fun b _ => ?_
  constructor
  · rintro h ⟨k, hk1, hk2, hk, hpkt⟩
    rcases h k ⟨hk1, by omega⟩ with hfree | hne
    · exact hk hfree
    · exact hne hpkt
  · rintro h k ⟨hk1, hk2⟩
    by_cases hfree : (m.lockers k).state = .free
    · exact .inl hfree
    · exact .inr fun hpkt => h ⟨k, hk1, by omega, hfree, hpkt⟩

/-! ## The chain -/

/-- The packets `ds`, with their interface and length, are chained. -/
structure Chained (b : Batch) (ds : List (Nat × Nat × Nat)) : Prop where
  head : b.pktqhead = (ds.map Prod.fst).head?
  last : b.prevpkt = (ds.map Prod.fst).getLast?
  cnt : b.pktCnt = ds.length
  links : (ds.map Prod.fst).IsChain fun x y => (b.p.buf x).next = some y
  nodup : (ds.map Prod.fst).Nodup
  data : ∀ d ∈ ds, d.2.1 = b.ifidx ∧ (b.p.buf d.1).len = d.2.2

theorem isChain_congr {buf buf' : Nat → Buf} {l : List Nat}
    (h : l.IsChain fun x y => (buf x).next = some y) (heq : ∀ x ∈ l, (buf' x).next = (buf x).next) :
    l.IsChain fun x y => (buf' x).next = some y := by
  induction l with
  | nil => exact List.IsChain.nil
  | cons x l ih =>
    rw [List.isChain_cons] at h ⊢
    refine ⟨fun y hy => ?_, ih h.2 fun z hz => heq z (List.mem_cons_of_mem _ hz)⟩
    rw [heq x List.mem_cons_self]
    exact h.1 y hy

@[simp] theorem setNext_len (buf : Nat → Buf) (pkt : Nat) (next : Option Nat) (k : Nat) :
    (setNext buf pkt next k).len = (buf k).len := by
  unfold setNext
  by_cases hk : k = pkt
  · rw [hk, Function.update_self]
  · rw [Function.update_of_ne hk]

theorem rxFrames_len (ifidx cnt : Nat) (pkt : Option Nat) (buf : Nat → Buf) (k : Nat) :
    ((rxFrames ifidx cnt pkt buf).1 k).len = (buf k).len := by
  induction cnt generalizing pkt buf with
  | zero => rfl
  | succ cnt ih =>
    cases pkt with
    | none => rfl
    | some pkt =>
      show ((rxFrames ifidx cnt (buf pkt).next (setNext buf pkt none)).1 k).len = _
      rw [ih, setNext_len]

/-- The loop over the chain passes on its packets. -/
theorem rxFrames_chain {buf : Nat → Buf} {ifidx : Nat} {ds : List (Nat × Nat × Nat)}
    (hlinks : (ds.map Prod.fst).IsChain fun x y => (buf x).next = some y)
    (hnodup : (ds.map Prod.fst).Nodup)
    (hdata : ∀ d ∈ ds, d.2.1 = ifidx ∧ (buf d.1).len = d.2.2) :
    (rxFrames ifidx ds.length (ds.map Prod.fst).head? buf).2.map Frame.delivery = ds := by
  induction ds generalizing buf with
  | nil => rfl
  | cons d ds ih =>
    obtain ⟨pkt, ifid, len⟩ := d
    rw [List.map_cons, List.isChain_cons] at hlinks
    rw [List.map_cons, List.nodup_cons] at hnodup
    obtain ⟨hif, hlen⟩ := hdata _ List.mem_cons_self
    have hrest := @ih (setNext buf pkt none)
      (isChain_congr hlinks.2 fun x hx => by
        have hne : x ≠ pkt := fun heq => hnodup.1 (heq ▸ hx)
        unfold setNext
        rw [Function.update_of_ne hne])
      hnodup.2
      (fun d hd => by
        rw [setNext_len]
        exact hdata d (List.mem_cons_of_mem _ hd))
    show (frameOf buf pkt ifidx).delivery :: List.map Frame.delivery
      (rxFrames ifidx ds.length (buf pkt).next (setNext buf pkt none)).2 = _
    cases hds : ds with
    | nil =>
      dsimp only at hif hlen
      rw [hif, ← hlen]
      rfl
    | cons d' ds' =>
      have hnext := hlinks.1 d'.1 (by rw [hds]; rfl)
      rw [hds] at hrest
      rw [hnext]
      dsimp only at hif hlen
      rw [hif, ← hlen]
      exact congrArg _ hrest

/-- The link of the last packet is not one of the chain. -/
theorem isChain_setNext {buf : Nat → Buf} {l : List Nat}
    (h : l.IsChain fun x y => (buf x).next = some y) (hnodup : l.Nodup) {last : Nat}
    (hlast : l.getLast? = some last) (next : Option Nat) :
    l.IsChain fun x y => (setNext buf last next x).next = some y := by
  induction l with
  | nil => exact List.IsChain.nil
  | cons x l ih =>
    cases l with
    | nil => exact List.IsChain.singleton _
    | cons y l =>
      rw [List.getLast?_cons_cons] at hlast
      rw [List.nodup_cons] at hnodup
      have hne : x ≠ last := fun heq => hnodup.1 (heq ▸ List.mem_of_getLast? hlast)
      rw [List.isChain_cons_cons] at h ⊢
      refine ⟨?_, ih h.2 hnodup.2 hlast⟩
      unfold setNext
      rw [Function.update_of_ne hne]
      exact h.1

/-- A packet that is there is chained, or is the one of another interface that ends the loop. -/
theorem chainPkt_spec (setup : Setup) {b : Batch} {ds : List (Nat × Nat × Nat)} (hc : Chained b ds)
    (item : RxItem) {pkt : Nat} (hnew : pkt ∉ ds.map Prod.fst) :
    ∃ b' last, chainPkt setup b item pkt = (b', last) ∧ b'.p.ring = b.p.ring ∧
      b'.p.pktidRxMap = b.p.pktidRxMap ∧ b'.events = b.events ∧
      ((last = false ∧ b'.newidx = b.newidx ∧ (ds = [] ∨ item.ifId = b.ifidx) ∧
          b'.ifidx = item.ifId ∧ Chained b' (ds ++ [(pkt, item.ifId, item.dataLen)])) ∨
        (last = true ∧ ds ≠ [] ∧ item.ifId ≠ b.ifidx ∧ b'.newidx = some (pkt, item.ifId) ∧
          (b'.p.buf pkt).len = item.dataLen ∧ Chained b' ds)) := by
  have hlen : (setData setup b.p.buf item pkt pkt).len = item.dataLen := by
    unfold setData
    rw [Function.update_self]
  -- the data of other packets stay
  have hother : ∀ x, x ≠ pkt → setData setup b.p.buf item pkt x = b.p.buf x := by
    intro x hx
    exact Function.update_of_ne hx _ _
  have hmem : ∀ d ∈ ds, d.1 ≠ pkt := fun d hd heq => hnew (heq ▸ List.mem_map_of_mem hd)
  have hsame : ∀ x ∈ ds.map Prod.fst,
      (setData setup b.p.buf item pkt x).next = (b.p.buf x).next := by
    intro x hx
    rw [hother x fun heq => hnew (heq ▸ hx)]
  cases hds : ds with
  | nil =>
    rw [hds] at hc
    unfold chainPkt
    rw [hc.head, List.map_nil, List.head?_nil]
    refine ⟨_, _, rfl, rfl, rfl, rfl, .inl ⟨rfl, rfl, .inl rfl, rfl, ?_⟩⟩
    refine ⟨rfl, rfl, ?_, List.IsChain.singleton _, List.nodup_singleton _, ?_⟩
    · show b.pktCnt + 1 = 1
      rw [hc.cnt]
      rfl
    · intro d hd
      rw [List.mem_singleton.mp hd]
      exact ⟨rfl, hlen⟩
  | cons d rest =>
    rw [← hds]
    obtain ⟨prevpkt, hprev⟩ : ∃ x, (ds.map Prod.fst).getLast? = some x :=
      Option.isSome_iff_exists.mp (by simp [hds])
    have hhead : b.pktqhead = some d.1 := by rw [hc.head, hds, List.map_cons, List.head?_cons]
    have hlast : b.prevpkt = some prevpkt := by rw [hc.last, hprev]
    unfold chainPkt
    rw [hhead, hlast]
    dsimp only
    by_cases hif : b.ifidx = item.ifId
    · rw [if_neg (not_not.mpr hif)]
      refine ⟨_, _, rfl, rfl, rfl, rfl, .inl ⟨rfl, rfl, .inr hif.symm, hif, ?_⟩⟩
      refine ⟨?_, ?_, ?_, ?_, ?_, ?_⟩
      · dsimp only
        rw [hds, List.cons_append, List.map_cons, List.head?_cons]
      · rw [List.map_append, List.map_singleton, List.getLast?_concat]
      · show b.pktCnt + 1 = _
        rw [hc.cnt, List.length_append]
        rfl
      · rw [List.map_append, List.isChain_append]
        refine ⟨?_, List.IsChain.singleton _, ?_⟩
        · exact isChain_setNext (isChain_congr hc.links hsame) hc.nodup hprev _
        · intro x hx y hy
          rw [hprev, Option.mem_some_iff] at hx
          rw [List.map_singleton, List.head?_cons, Option.mem_some_iff] at hy
          subst hx hy
          unfold setNext
          dsimp only
          rw [Function.update_self]
      · rw [List.map_append]
        exact List.nodup_append_comm.mp (List.nodup_cons.mpr ⟨hnew, hc.nodup⟩)
      · intro x hx
        dsimp only
        rw [setNext_len]
        rcases List.mem_append.mp hx with hx | hx
        · rw [hother _ (hmem x hx)]
          exact hc.data x hx
        · rw [List.mem_singleton.mp hx]
          exact ⟨hif.symm, hlen⟩
    · rw [if_pos hif]
      refine ⟨_, _, rfl, rfl, rfl, rfl,
        .inr ⟨rfl, ?_, fun heq => hif heq.symm, rfl, hlen, ?_⟩⟩
      · rw [hds]
        nofun
      · refine ⟨?_, ?_, hc.cnt, isChain_congr hc.links hsame, hc.nodup, ?_⟩
        · exact hhead.symm.trans hc.head
        · exact hlast.symm.trans hc.last
        · intro x hx
          dsimp only
          rw [hother _ (hmem x hx)]
          exact hc.data x hx

/-! ## One item -/

/-- The events of an item. -/
def Seen.events (e : Seen) : List Event :=
  .sync e.idx ::
    match e.outcome with
    | .fragmented _ | .good _ => [.release e.item.requestId]
    | _ => []

/-- What looking an item up does to the map. -/
theorem lookAt_ok (setup : Setup) (t : Turn) (h : MapOk m) (item : RxItem) :
    MapOk (lookAt setup t m item).1 ∧
      (∀ q, Held (lookAt setup t m item).1 q → Held m q) ∧
      ∀ pkt, (lookAt setup t m item).2 = .good pkt →
        Held m pkt ∧ ¬ Held (lookAt setup t m item).1 pkt := by
  unfold lookAt
  split
  · rcases free_ok h t.induce item.requestId with hf | ⟨m', pkt, out, hf, hok, hheld, hgone, hsub⟩
    · rw [hf]
      exact ⟨h, fun q hq => hq, nofun⟩
    · rw [hf]
      refine ⟨hok, hsub, ?_⟩
      intro pkt' heq
      dsimp only at heq
      split at heq
      · cases heq
      · cases heq
        exact ⟨hheld, hgone⟩
  · exact ⟨h, fun q hq => hq, nofun⟩

/-- The state of the loop when an item has been looked up. -/
structure Looked (setup : Setup) (t : Turn) (b b' : Batch) (idx : Nat) (item : RxItem) : Prop where
  rd : b'.p.ring.rd = b.p.ring.rd
  maxItems : b'.p.ring.maxItems = b.p.ring.maxItems
  map : b'.p.pktidRxMap = (lookAt setup t b.p.pktidRxMap item).1
  events : b'.events =
    b.events ++ (Seen.mk idx item (lookAt setup t b.p.pktidRxMap item).2).events

/-- An item is looked up, and its packet chained if it is good. -/
theorem processItem_cases (setup : Setup) (t : Turn) {b : Batch} (h : MapOk b.p.pktidRxMap)
    {ds : List (Nat × Nat × Nat)} (hc : Chained b ds) (idx : Nat) (item : RxItem) :
    ∃ b', ((∃ pkt, processItem setup t b idx item = chainPkt setup b' item pkt ∧
          (lookAt setup t b.p.pktidRxMap item).2 = .good pkt) ∨
        (processItem setup t b idx item = (b', false) ∧
          ∀ pkt, (lookAt setup t b.p.pktidRxMap item).2 ≠ .good pkt)) ∧
      Looked setup t b b' idx item ∧ Chained b' ds ∧ b'.ifidx = b.ifidx ∧
      b'.newidx = b.newidx := by
  have hsync := d2hSyncCb_type setup.toSetup b.p.ring.seqnum ⟨item.tries, item.msgType, 0⟩
  by_cases hno : syncedType setup.toSetup ⟨item.tries, item.msgType, 0⟩ = msgTypeInvalid
  · have hlook : lookAt setup t b.p.pktidRxMap item = (b.p.pktidRxMap, .skipped) := by
      unfold lookAt synced
      rw [hno]
      rfl
    rw [hlook]
    unfold processItem
    dsimp only
    rw [hsync, if_pos hno]
    refine ⟨_, .inr ⟨rfl, nofun⟩, ⟨rfl, rfl, ?_, ?_⟩, ⟨hc.1, hc.2, hc.3, hc.4, hc.5, hc.6⟩, rfl, rfl⟩
    · rw [hlook]
    · rw [hlook]
      rfl
  · have hyes : synced setup item = true := bne_iff_ne.mpr hno
    unfold processItem
    dsimp only
    rw [hsync, if_neg hno]
    rcases free_ok h t.induce item.requestId with hf | ⟨m', pkt, out, hf, -⟩
    · have hlook : lookAt setup t b.p.pktidRxMap item = (b.p.pktidRxMap, .unknown) := by
        unfold lookAt
        rw [if_pos hyes, hf]
      rw [hf, hlook]
      refine ⟨_, .inr ⟨rfl, nofun⟩, ⟨rfl, rfl, ?_, ?_⟩, ⟨hc.1, hc.2, hc.3, hc.4, hc.5, hc.6⟩, rfl, rfl⟩
      · rw [hlook]
      · rw [hlook]
        exact List.append_nil _
    · have hlook : lookAt setup t b.p.pktidRxMap item =
          (m', if t.nrFrags pkt then .fragmented pkt else .good pkt) := by
        unfold lookAt
        rw [if_pos hyes, hf]
      rw [hf, hlook]
      dsimp only
      cases hfrag : t.nrFrags pkt with
      | true =>
        refine ⟨_, .inr ⟨rfl, nofun⟩, ⟨rfl, rfl, ?_, ?_⟩, ⟨hc.1, hc.2, hc.3, hc.4, hc.5, hc.6⟩,
          rfl, rfl⟩
        · rw [hlook]
        · rw [hlook, hfrag]
          exact List.append_assoc _ _ _
      | false =>
        refine ⟨_, .inl ⟨pkt, rfl, rfl⟩, ⟨rfl, rfl, ?_, ?_⟩, ⟨hc.1, hc.2, hc.3, hc.4, hc.5, hc.6⟩,
          rfl, rfl⟩
        · rw [hlook]
        · rw [hlook, hfrag]
          exact List.append_assoc _ _ _

/-! ## The loop -/

/-- The items `es` have been consumed, and their packets are on the chain or behind it. -/
structure Looped (b b' : Batch) (ds : List (Nat × Nat × Nat)) (es : List Seen) : Prop where
  rd : b'.p.ring.rd = b.p.ring.rd
  maxItems : b'.p.ring.maxItems = b.p.ring.maxItems
  map : MapOk b'.p.pktidRxMap
  events : b'.events = b.events ++ es.flatMap Seen.events
  frames : (passOn b').2.map Frame.delivery = ds ++ es.filterMap Seen.delivery
  total : totalCnt b' = (ds ++ es.filterMap Seen.delivery).length

theorem passOn_chained {b : Batch} {ds : List (Nat × Nat × Nat)} (hc : Chained b ds)
    (hnew : b.newidx = none) :
    (passOn b).2.map Frame.delivery = ds ∧ totalCnt b = ds.length := by
  unfold passOn totalCnt
  dsimp only
  rw [hnew, hc.cnt, hc.head]
  exact ⟨by rw [Option.map_none, Option.toList_none, List.append_nil,
    rxFrames_chain hc.links hc.nodup hc.data], rfl⟩

theorem passOn_changed {b : Batch} {ds : List (Nat × Nat × Nat)} (hc : Chained b ds) {pkt ifidx : Nat}
    (hnew : b.newidx = some (pkt, ifidx)) :
    (passOn b).2.map Frame.delivery = ds ++ [(pkt, ifidx, (b.p.buf pkt).len)] ∧
      totalCnt b = ds.length + 1 := by
  unfold passOn totalCnt
  dsimp only
  rw [hnew, hc.cnt, hc.head, Option.map_some, Option.toList_some, List.map_append,
    rxFrames_chain hc.links hc.nodup hc.data]
  refine ⟨congrArg (ds ++ [·]) ?_, rfl⟩
  unfold frameOf Frame.delivery
  dsimp only
  rw [rxFrames_len]

theorem throughChange_bad {e : Seen} (h : ∀ pkt, e.outcome ≠ .good pkt) (first : Option Nat)
    (rest : List Seen) : throughChange first (e :: rest) = e :: throughChange first rest := by
  conv => lhs; unfold throughChange
  split
  · next pkt hgood => exact absurd hgood (h pkt)
  · next pkt _ hgood => exact absurd hgood (h pkt)
  · rfl

theorem throughChange_good {e : Seen} {pkt : Nat} (h : e.outcome = .good pkt) (first : Option Nat)
    (rest : List Seen) :
    throughChange first (e :: rest) =
      if first = none ∨ first = some e.item.ifId then
        e :: throughChange (some e.item.ifId) rest
      else [e] := by
  conv => lhs; unfold throughChange
  rw [h]
  cases first with
  | none =>
    rw [if_pos (.inl rfl)]
  | some ifidx =>
    by_cases hif : e.item.ifId = ifidx
    · dsimp only
      rw [if_pos hif, if_pos (.inr (congrArg some hif.symm)), hif]
    · dsimp only
      rw [if_neg hif, if_neg]
      rintro (hno | heq)
      · cases hno
      · exact hif (Option.some.inj heq).symm

/-- An item before the rest of the loop. -/
theorem Looped.cons {b b' b'' : Batch} {idx : Nat} {item : RxItem} {ds : List (Nat × Nat × Nat)}
    {es : List Seen} (hlook : Looked setup t b b' idx item) (h : Looped b' b''
      (ds ++ (Seen.mk idx item (lookAt setup t b.p.pktidRxMap item).2).delivery.toList) es) :
    Looped b b'' ds (⟨idx, item, (lookAt setup t b.p.pktidRxMap item).2⟩ :: es) := by
  have hds : ds ++ (Seen.mk idx item (lookAt setup t b.p.pktidRxMap item).2 :: es).filterMap
        Seen.delivery =
      ds ++ (Seen.mk idx item (lookAt setup t b.p.pktidRxMap item).2).delivery.toList ++
        es.filterMap Seen.delivery := by
    rw [List.filterMap_cons, List.append_assoc]
    cases (Seen.mk idx item (lookAt setup t b.p.pktidRxMap item).2).delivery <;> rfl
  refine ⟨h.rd.trans hlook.rd, h.maxItems.trans hlook.maxItems, h.map, ?_, ?_, ?_⟩
  · rw [h.events, hlook.events, List.flatMap_cons, List.append_assoc]
  · rw [hds]
    exact h.frames
  · rw [hds]
    exact h.total

theorem rxLoop_cons {b b' : Batch} {idx : Nat} {item : RxItem} {last : Bool}
    (h : processItem setup t b idx item = (b', last)) (rest : List (Nat × RxItem)) :
    rxLoop setup t b ((idx, item) :: rest) = if last then (b', rest) else rxLoop setup t b' rest := by
  conv => lhs; unfold rxLoop
  rw [h]

/-- **One loop** consumes the items up to the first good one of another interface. -/
theorem rxLoop_spec (setup : Setup) (t : Turn) (items : List (Nat × RxItem)) {b : Batch}
    {ds : List (Nat × Nat × Nat)} (h : MapOk b.p.pktidRxMap) (hc : Chained b ds)
    (hnew : b.newidx = none) (hgone : ∀ d ∈ ds, ¬ Held b.p.pktidRxMap d.1) :
    ∃ es, throughChange (if ds = [] then none else some b.ifidx)
        (seen setup t b.p.pktidRxMap items) = es ∧
      Looped b (rxLoop setup t b items).1 ds es ∧
      (rxLoop setup t b items).2.length + es.length = items.length := by
  induction items generalizing b ds with
  | nil =>
    refine ⟨[], rfl, ?_, rfl⟩
    obtain ⟨hframes, htotal⟩ := passOn_chained hc hnew
    refine ⟨rfl, rfl, h, (List.append_nil _).symm, ?_, ?_⟩
    · rw [List.filterMap_nil, List.append_nil]
      exact hframes
    · rw [List.filterMap_nil, List.append_nil]
      exact htotal
  | cons e rest ih =>
    obtain ⟨idx, item⟩ := e
    obtain ⟨hok, hsub, hgood⟩ := lookAt_ok setup t h item
    obtain ⟨b', hcases, hlook, hc', hif, hnew'⟩ := processItem_cases setup t h hc idx item
    have hmap := hlook.map
    rcases hcases with ⟨pkt, hproc, hout⟩ | ⟨hproc, hbad⟩
    · obtain ⟨hheld, hfree⟩ := hgood pkt hout
      have hpkt : pkt ∉ ds.map Prod.fst := by
        intro hmem
        obtain ⟨d, hd, rfl⟩ := List.mem_map.mp hmem
        exact hgone d hd hheld
      have hdel : (Seen.mk idx item (lookAt setup t b.p.pktidRxMap item).2).delivery =
          some (pkt, item.ifId, item.dataLen) := by
        unfold Seen.delivery
        rw [hout]
      obtain ⟨b'', last, hchain, hring, hmap', hevents, hends⟩ := chainPkt_spec setup hc' item hpkt
      rw [rxLoop_cons (hproc.trans hchain)]
      have hlook' : Looked setup t b b'' idx item :=
        ⟨by rw [hring]; exact hlook.rd, by rw [hring]; exact hlook.maxItems, hmap'.trans hmap,
          hevents.trans hlook.events⟩
      have hfirst : ds = [] ∨ item.ifId = b.ifidx ↔ (if ds = [] then none else some b.ifidx) = none ∨
          (if ds = [] then none else some b.ifidx) = some item.ifId := by
        by_cases hds : ds = []
        · simp [hds]
        · simp [hds, eq_comm]
      unfold seen
      rw [throughChange_good hout]
      rcases hends with ⟨rfl, hnone, hsame, hifidx, hc''⟩ | ⟨rfl, hne, hdiff, hsome, hlen, hc''⟩
      · -- the packet is chained
        rw [hif] at hsame
        rw [if_pos (hfirst.mp hsame), if_neg Bool.false_ne_true]
        obtain ⟨es, hes, hlooped, hlength⟩ := @ih b'' (ds ++ [(pkt, item.ifId, item.dataLen)])
          (by rw [hmap', hmap]; exact hok) hc'' (hnone.trans (hnew'.trans hnew))
          (by
            rw [hmap', hmap]
            intro d hd hq
            rcases List.mem_append.mp hd with hd | hd
            · exact hgone d hd (hsub _ hq)
            · rw [List.mem_singleton.mp hd] at hq
              exact hfree hq)
        rw [if_neg (by simp), hifidx, hmap', hmap] at hes
        refine ⟨_, rfl, ?_, ?_⟩
        · rw [hes]
          refine Looped.cons hlook' ?_
          rw [hdel]
          exact hlooped
        · rw [hes, List.length_cons, List.length_cons]
          omega
      · -- the packet is of another interface
        rw [hif] at hdiff
        rw [if_neg fun hc => (hfirst.mpr hc).elim hne hdiff, if_pos rfl]
        obtain ⟨hframes, htotal⟩ := passOn_changed hc'' hsome
        rw [hlen] at hframes
        refine ⟨_, rfl, Looped.cons hlook' ⟨rfl, rfl, ?_, ?_, ?_, ?_⟩, rfl⟩
        · rw [hmap', hmap]
          exact hok
        · exact (List.append_nil _).symm
        · rw [hdel, List.filterMap_nil, List.append_nil]
          exact hframes
        · rw [hdel, List.filterMap_nil, List.append_nil, htotal, List.length_append]
          rfl
    · -- no packet to pass on
      rw [rxLoop_cons hproc, if_neg Bool.false_ne_true]
      have hdel : (Seen.mk idx item (lookAt setup t b.p.pktidRxMap item).2).delivery = none := by
        unfold Seen.delivery
        split
        · next pkt hout => exact absurd hout (hbad pkt)
        · rfl
      obtain ⟨es, hes, hlooped, hlength⟩ := @ih b' ds (by rw [hmap]; exact hok) hc'
        (hnew'.trans hnew) (by
          rw [hmap]
          exact fun d hd hq => hgone d hd (hsub _ hq))
      rw [hif, hmap] at hes
      unfold seen
      rw [throughChange_bad hbad, hes]
      refine ⟨_, rfl, Looped.cons hlook ?_, ?_⟩
      · rw [hdel, Option.toList_none, List.append_nil]
        exact hlooped
      · rw [List.length_cons, List.length_cons]
        omega

/-! ## A turn -/

theorem seen_items (setup : Setup) (t : Turn) (m : PktidMap) (items : List (Nat × RxItem)) :
    (seen setup t m items).map (fun e => (e.idx, e.item)) = items := by
  induction items generalizing m with
  | nil => rfl
  | cons e rest ih =>
    unfold seen
    rw [List.map_cons, ih]

theorem throughChange_take (first : Option Nat) (l : List Seen) :
    throughChange first l = l.take (throughChange first l).length := by
  induction l generalizing first with
  | nil => rfl
  | cons e rest ih =>
    by_cases hgood : ∃ pkt, e.outcome = .good pkt
    · obtain ⟨pkt, hout⟩ := hgood
      rw [throughChange_good hout]
      split
      · rw [List.length_cons, List.take_succ_cons, ← ih]
      · rfl
    · rw [throughChange_bad fun pkt hout => hgood ⟨pkt, hout⟩, List.length_cons,
        List.take_succ_cons, ← ih]

/-- Moving `rd` back to behind the item consumed last. -/
theorem rolledBack_eq {ring ring' : MsgbufRing} {k left c : Nat} (hin : ring.rd + k ≤ ring.maxItems)
    (hmax : ring'.maxItems = ring.maxItems) (hrd : ring'.rd = nextRd ring k) (hleft : left + c = k) :
    rolledBack ring' left = (ring.rd + c) % ring.maxItems := by
  have hlt := ring.rd_lt
  unfold rolledBack
  rw [hmax, hrd]
  unfold nextRd
  by_cases hk : ring.rd + k ≥ ring.maxItems
  · rw [if_pos hk]
    by_cases hl : left > 0
    · rw [if_pos hl, if_pos hl, Nat.mod_eq_of_lt (by omega)]
      omega
    · rw [if_neg hl, show ring.rd + c = ring.maxItems by omega, Nat.mod_self]
  · rw [if_neg hk, Nat.mod_eq_of_lt (by omega)]
    split
    · rw [if_neg (by omega)]
      omega
    · omega

theorem returns_append (evs evs' : List Event) :
    returns (evs ++ evs') = returns evs + returns evs' := by
  induction evs with
  | nil => exact (Nat.zero_add _).symm
  | cons e evs ih =>
    show e.returned + returns (evs ++ evs') = e.returned + returns evs + returns evs'
    rw [ih, Nat.add_assoc]

theorem releases_append (evs evs' : List Event) :
    releases (evs ++ evs') = releases evs + releases evs' := by
  unfold releases
  rw [List.filterMap_append, List.length_append]

/-- The events of the items: each is synced, and those whose packet is found release it. -/
theorem seenEvents (es : List Seen) :
    (es.flatMap Seen.events).filterMap Event.sync? = es.map Seen.idx ∧
      (es.flatMap Seen.events).filterMap Event.frame? = [] ∧
      returns (es.flatMap Seen.events) = 0 ∧
      releases (es.flatMap Seen.events) =
        (es.filterMap Seen.delivery).length + es.countP Seen.isFragmented := by
  induction es with
  | nil => exact ⟨rfl, rfl, rfl, rfl⟩
  | cons e es ih =>
    obtain ⟨h1, h2, h3, h4⟩ := ih
    rw [List.flatMap_cons, List.filterMap_append, List.filterMap_append, returns_append,
      releases_append, h1, h2, h3, h4, List.filterMap_cons, List.countP_cons]
    obtain ⟨idx, item, outcome⟩ := e
    cases outcome with
    | skipped => exact ⟨rfl, rfl, rfl, Nat.zero_add _⟩
    | unknown => exact ⟨rfl, rfl, rfl, Nat.zero_add _⟩
    | fragmented pkt =>
      refine ⟨rfl, rfl, rfl, ?_⟩
      show 1 + ((es.filterMap Seen.delivery).length + es.countP Seen.isFragmented) =
        (es.filterMap Seen.delivery).length + (es.countP Seen.isFragmented + 1)
      omega
    | good pkt =>
      refine ⟨rfl, rfl, rfl, ?_⟩
      show 1 + ((es.filterMap Seen.delivery).length + es.countP Seen.isFragmented) =
        ((es.filterMap Seen.delivery).length + 1) + es.countP Seen.isFragmented
      omega

/-- The events that pass packets on. -/
theorem frameEvents (frames : List Frame) :
    (frames.map Event.rxFrame).filterMap Event.sync? = [] ∧
      (frames.map Event.rxFrame).filterMap Event.frame? = frames ∧
      returns (frames.map Event.rxFrame) = 0 ∧ releases (frames.map Event.rxFrame) = 0 := by
  induction frames with
  | nil => exact ⟨rfl, rfl, rfl, rfl⟩
  | cons f frames ih =>
    obtain ⟨h1, h2, h3, h4⟩ := ih
    refine ⟨?_, ?_, ?_, ?_⟩
    · rw [List.map_cons, List.filterMap_cons]
      exact h1
    · rw [List.map_cons, List.filterMap_cons]
      exact congrArg _ h2
    · exact (Nat.zero_add _).trans h3
    · unfold releases at h4 ⊢
      rw [List.map_cons, List.filterMap_cons]
      exact h4

/-- What a turn does. -/
structure TurnSpec (setup : Setup) (s : State) (t : Turn) (s' : State) (r : Result) : Prop where
  ok : TurnOk setup s t r
  synced : r.events.filterMap Event.sync? = r.consumed.map Prod.fst
  slots : r.consumed.map Prod.fst = List.range' s.p.ring.rd r.consumed.length
  inside : s.p.ring.rd + r.consumed.length ≤ s.p.ring.maxItems
  rd : s'.p.ring.rd = (s.p.ring.rd + r.consumed.length) % s.p.ring.maxItems
  maxItems : s'.p.ring.maxItems = s.p.ring.maxItems
  counts : releases r.events = returns r.events + (batch setup s t).countP Seen.isFragmented

/-- Returning buffers moves no ring, and posts new packets only. -/
theorem returnRxbuf_spec (setup : Setup) (induce : InduceError) (p : Prot) (posted : List RxBuf)
    (rxcnt : Nat) : (returnRxbuf setup induce p posted rxcnt).ring = p.ring ∧
      (MapOk p.pktidRxMap → newBufs p.pktidRxMap posted = true →
        MapOk (returnRxbuf setup induce p posted rxcnt).pktidRxMap) := by
  unfold returnRxbuf
  dsimp only
  generalize (if p.rxbufpost ≥ rxcnt then p.rxbufpost - rxcnt else 0) = rxbufpost
  split
  · refine ⟨rxbufPost_ring _ _ _, fun h hnew => ?_⟩
    obtain ⟨hnodup, hheld⟩ := newBufs_iff.mp hnew
    exact @rxbufPost_ok { p with rxbufpost } h induce posted hnodup hheld
  · exact ⟨rfl, fun h _ => h⟩

theorem returnRxbuf_nil (setup : Setup) (induce : InduceError) (p : Prot) (rxcnt : Nat) :
    (returnRxbuf setup induce p [] rxcnt).pktidRxMap = p.pktidRxMap := by
  unfold returnRxbuf
  dsimp only
  generalize (if p.rxbufpost ≥ rxcnt then p.rxbufpost - rxcnt else 0) = rxbufpost
  split <;> rfl

/-- The buffers to be posted do not matter for the loop. -/
theorem rxLoop_posted (setup : Setup) (t : Turn) (posted : List RxBuf) (b : Batch)
    (items : List (Nat × RxItem)) :
    rxLoop setup { t with posted } b items = rxLoop setup t b items := by
  induction items generalizing b with
  | nil => rfl
  | cons e rest ih =>
    obtain ⟨idx, item⟩ := e
    have hitem : processItem setup { t with posted } b idx item = processItem setup t b idx item :=
      rfl
    rw [rxLoop_cons hitem, rxLoop_cons rfl, ih]

theorem chained_nil (p : Prot) : Chained (startBatch p) [] :=
  ⟨rfl, rfl, rfl, List.IsChain.nil, List.nodup_nil, fun _ hd => absurd hd List.not_mem_nil⟩

/-- A turn with a batch of `k` items from `rd` on. -/
theorem processBatch_spec (setup : Setup) (s : State) (t : Turn) {k : Nat}
    (h : MapOk s.p.pktidRxMap) (hin : s.p.ring.rd + k ≤ s.p.ring.maxItems) {p : Prot}
    (hmap : p.pktidRxMap = s.p.pktidRxMap) (hmax : p.ring.maxItems = s.p.ring.maxItems)
    (hrd : p.ring.rd = nextRd s.p.ring k) {items : List (Nat × RxItem)}
    (hitems : items.map Prod.fst = List.range' s.p.ring.rd k)
    (hbatch : batch setup s t = throughChange none (seen setup t s.p.pktidRxMap items)) :
    TurnSpec setup s t (processBatch setup s p t items).1 (processBatch setup s p t items).2 ∧
      (newBufs (rxLoop setup t (startBatch p) items).1.p.pktidRxMap t.posted = true →
        MapOk (processBatch setup s p t items).1.p.pktidRxMap) := by
  obtain ⟨es, hes, hlooped, hlength⟩ := @rxLoop_spec setup t items (startBatch p) []
    (by rw [show (startBatch p).p = p from rfl, hmap]; exact h) (chained_nil p) rfl
    (fun _ hd => absurd hd List.not_mem_nil)
  rw [if_pos rfl, show (startBatch p).p = p from rfl, hmap, ← hbatch] at hes
  have hk : items.length = k := by
    have hlen := congrArg List.length hitems
    rwa [List.length_map, List.length_range'] at hlen
  have htake : items.take (items.length - (rxLoop setup t (startBatch p) items).2.length) =
      es.map fun e => (e.idx, e.item) := by
    have heq := throughChange_take none (seen setup t s.p.pktidRxMap items)
    rw [← hbatch, hes] at heq
    conv => rhs; rw [heq]
    rw [List.map_take, seen_items, show items.length -
      (rxLoop setup t (startBatch p) items).2.length = es.length by omega]
  have htake' : items.take (items.length - (rxLoop setup t (startBatch p) items).2.length) =
      items.take es.length := by
    rw [show items.length - (rxLoop setup t (startBatch p) items).2.length = es.length by omega]
  have hlen : (items.take (items.length -
      (rxLoop setup t (startBatch p) items).2.length)).length = es.length := by
    rw [htake, List.length_map]
  have hring := (returnRxbuf_spec setup t.induce
    { (rxLoop setup t (startBatch p) items).1.p with
      ring := rollBack (rxLoop setup t (startBatch p) items).1.p.ring
        (rxLoop setup t (startBatch p) items).2.length
      buf := (passOn (rxLoop setup t (startBatch p) items).1).1 } t.posted
    (totalCnt (rxLoop setup t (startBatch p) items).1))
  obtain ⟨hs1, hs2, hs3, hs4⟩ := seenEvents es
  obtain ⟨hf1, hf2, hf3, hf4⟩ := frameEvents (passOn (rxLoop setup t (startBatch p) items).1).2
  have hevents := hlooped.events
  rw [show (startBatch p).events = [] from rfl, List.nil_append] at hevents
  have hframes := hlooped.frames
  have htotal := hlooped.total
  rw [List.nil_append] at hframes htotal
  have hbmax : (rxLoop setup t (startBatch p) items).1.p.ring.maxItems = s.p.ring.maxItems :=
    hlooped.maxItems.trans hmax
  have hbrd : (rxLoop setup t (startBatch p) items).1.p.ring.rd = nextRd s.p.ring k :=
    hlooped.rd.trans hrd
  have hbmap := hlooped.map
  unfold processBatch
  dsimp only
  generalize rxLoop setup t (startBatch p) items = r at *
  refine ⟨⟨⟨?_, ?_⟩, ?_, ?_, ?_, ?_, ?_, ?_⟩, ?_⟩
  · rw [htake, hes]
  · dsimp only
    rw [List.filterMap_append, List.filterMap_append, hevents, hs2, hf2, List.nil_append, hes]
    exact (congrArg _ (List.append_nil _)).trans hframes
  · dsimp only
    rw [htake, List.filterMap_append, List.filterMap_append, hevents, hs1, hf1, List.map_map]
    exact (List.append_nil _).trans (List.append_nil _)
  · dsimp only
    rw [hlen, htake', List.map_take, hitems, List.take_range'_of_length_ge (by omega)]
  · dsimp only
    rw [hlen]
    omega
  · dsimp only
    rw [hlen, hring.1]
    exact rolledBack_eq hin hbmax hbrd (hlength.trans hk)
  · rw [hring.1]
    exact hbmax
  · dsimp only
    rw [releases_append, releases_append, returns_append, returns_append, hevents, hs3, hs4, hf3,
      hf4, hes]
    show _ + 0 + 0 = 0 + 0 + (totalCnt r.1 + 0) + _
    omega
  · exact hring.2 hbmap

theorem turn_spec (setup : Setup) {s : State} {t : Turn} (h : MapOk s.p.pktidRxMap)
    (hwr : t.d2hWr ≤ s.p.ring.maxItems) :
    TurnSpec setup s t (turn setup s t).1 (turn setup s t).2 ∧
      (newBufs (turn setup s { t with posted := [] }).1.p.pktidRxMap t.posted = true →
        MapOk (turn setup s t).1.p.pktidRxMap) := by
  have hlt := s.p.ring.rd_lt
  rcases getReadAddr_cases s.p.ring t.d2hWr (s.bound - s.n) with ⟨hg, -⟩ | ⟨k, hg, -, -, -, hav⟩
  · have hbatch : batch setup s t = [] := by
      unfold batch offered
      rw [hg]
      rfl
    unfold turn
    rw [hg]
    refine ⟨⟨⟨?_, ?_⟩, rfl, rfl, ?_, ?_, rfl, ?_⟩, fun _ => h⟩
    · rw [hbatch]
      rfl
    · rw [hbatch]
      rfl
    · exact Nat.le_of_lt hlt
    · exact (Nat.mod_eq_of_lt hlt).symm
    · rw [hbatch]
      rfl
  · have hin : s.p.ring.rd + k ≤ s.p.ring.maxItems := by
      unfold readAvailSpace at hav
      split at hav <;> omega
    have hbatch : batch setup s t = throughChange none (seen setup t s.p.pktidRxMap
        (itemsAt (advanceRd { s.p.ring with currRd := s.p.ring.rd, wr := t.d2hWr } k)
          (s.p.ring.rd * s.p.ring.itemLen, k * s.p.ring.itemLen) t.contents)) := by
      unfold batch offered
      rw [hg]
    have hitems : (itemsAt (advanceRd { s.p.ring with currRd := s.p.ring.rd, wr := t.d2hWr } k)
        (s.p.ring.rd * s.p.ring.itemLen, k * s.p.ring.itemLen) t.contents).map Prod.fst =
        List.range' s.p.ring.rd k := by
      unfold itemsAt
      rw [show (advanceRd { s.p.ring with currRd := s.p.ring.rd, wr := t.d2hWr } k).itemLen =
        s.p.ring.itemLen from rfl, itemsIn_region s.p.ring.itemLen_pos, List.map_map]
      exact List.map_id' _
    have hspec := processBatch_spec setup s t h hin
      (p := { s.p with ring := advanceRd { s.p.ring with currRd := s.p.ring.rd, wr := t.d2hWr } k })
      rfl rfl rfl hitems hbatch
    unfold turn
    rw [hg]
    refine ⟨hspec.1, fun hnew => hspec.2 ?_⟩
    unfold processBatch at hnew
    dsimp only at hnew
    rw [returnRxbuf_nil, rxLoop_posted] at hnew
    exact hnew

/-! ## Runs -/

/-- How many packets with fragments a call finds. -/
def fragments (setup : Setup) (s : State) : Ev → Nat
  | .turn t => (batch setup s t).countP Seen.isFragmented
  | _ => 0

theorem noFrags_iff (setup : Setup) (s : State) (e : Ev) :
    noFrags setup s e = true ↔ fragments setup s e = 0 := by
  cases e with
  | turn t =>
    unfold noFrags fragments
    rw [List.countP_eq_zero, List.all_eq_true]
    simp only [Bool.not_eq_true']
    exact forall₂_congr fun x _ => by rw [Bool.not_eq_true]
  | _ => exact ⟨fun _ => rfl, fun _ => rfl⟩

/-- What a call does. -/
structure StepSpec (setup : Setup) (s : State) (e : Ev) (s' : State) (r : Result) : Prop where
  map : MapOk s'.p.pktidRxMap
  turn : ∀ t, e = .turn t → TurnOk setup s t r
  synced : r.events.filterMap Event.sync? = r.consumed.map Prod.fst
  slots : r.consumed.map Prod.fst = List.range' s.p.ring.rd r.consumed.length
  inside : s.p.ring.rd + r.consumed.length ≤ s.p.ring.maxItems
  rd : s'.p.ring.rd = (s.p.ring.rd + r.consumed.length) % s.p.ring.maxItems
  maxItems : s'.p.ring.maxItems = s.p.ring.maxItems
  counts : releases r.events = returns r.events + fragments setup s e

/-- A call that consumes nothing. -/
theorem StepSpec.idle {s s' : State} {e : Ev} (hmap : MapOk s'.p.pktidRxMap)
    (hring : s'.p.ring = s.p.ring) (he : ∀ t, e ≠ .turn t) : StepSpec setup s e s' ⟨[], []⟩ where
  map := hmap
  turn := fun t heq => absurd heq (he t)
  synced := rfl
  slots := rfl
  inside := Nat.le_of_lt s.p.ring.rd_lt
  rd := by rw [hring]; exact (Nat.mod_eq_of_lt s.p.ring.rd_lt).symm
  maxItems := by rw [hring]
  counts := by
    cases e with
    | turn t => exact absurd rfl (he t)
    | _ => rfl

theorem step_spec {s s' : State} {e : Ev} {r : Result} (h : MapOk s.p.pktidRxMap)
    (hs : step setup s e = some (s', r)) : StepSpec setup s e s' r := by
  cases e with
  | post induce posted =>
    dsimp only [step] at hs
    split at hs
    · next hnew =>
      cases hs
      obtain ⟨hnodup, hheld⟩ := newBufs_iff.mp hnew
      exact StepSpec.idle (rxbufPost_ok h induce hnodup hheld) (rxbufPost_ring _ _ _) nofun
    · cases hs
  | call bound =>
    dsimp only [step] at hs
    split at hs
    · cases hs
      exact StepSpec.idle h rfl nofun
    · cases hs
  | turn t =>
    dsimp only [step] at hs
    split at hs
    · next hpre =>
      obtain ⟨rfl, rfl⟩ := Prod.ext_iff.mp (Option.some.inj hs)
      obtain ⟨hspec, hmap⟩ := turn_spec setup h hpre.2.1
      refine ⟨hmap hpre.2.2, ?_, hspec.synced, hspec.slots, hspec.inside, hspec.rd, hspec.maxItems,
        hspec.counts⟩
      intro t' heq
      cases heq
      exact hspec.ok
    · cases hs
  | error =>
    dsimp only [step] at hs
    split at hs
    · cases hs
    · cases hs
      exact StepSpec.idle h rfl nofun

/-- The invariant of the runs from `s₀`. -/
structure Inv (s₀ s : State) (tr : List (Ev × Result)) : Prop where
  map : MapOk s.p.pktidRxMap
  maxItems : s.p.ring.maxItems = s₀.p.ring.maxItems
  synced : (events tr).filterMap Event.sync? = (consumed tr).map Prod.fst
  slots : (consumed tr).map Prod.fst =
    (List.range (consumed tr).length).map fun j => (s₀.p.ring.rd + j) % s₀.p.ring.maxItems
  rd : s.p.ring.rd = (s₀.p.ring.rd + (consumed tr).length) % s₀.p.ring.maxItems

theorem step_inv {s₀ s s' : State} {tr : List (Ev × Result)} {e : Ev} {r : Result} (h : Inv s₀ s tr)
    (hs : step setup s e = some (s', r)) : Inv s₀ s' (tr ++ [(e, r)]) := by
  have hspec := step_spec h.map hs
  have hmax := hspec.maxItems.trans h.maxItems
  have hcons : consumed (tr ++ [(e, r)]) = consumed tr ++ r.consumed := by
    unfold consumed
    rw [List.flatMap_append, List.flatMap_singleton]
  have hev : events (tr ++ [(e, r)]) = events tr ++ r.events := by
    unfold events
    rw [List.flatMap_append, List.flatMap_singleton]
  refine ⟨hspec.map, hmax, ?_, ?_, ?_⟩
  · rw [hcons, hev, List.filterMap_append, List.map_append, h.synced, hspec.synced]
  · have hin := hspec.inside
    rw [h.maxItems, h.rd] at hin
    rw [hcons, List.map_append, List.length_append, List.range_add, List.map_append, ← h.slots,
      hspec.slots, h.rd, range'_mod hin, ← List.map_add_range' (a := s₀.p.ring.rd),
      List.range'_eq_map_range, List.map_map, List.map_map, List.map_map]
    rfl
  · rw [hspec.rd, h.maxItems, h.rd, hcons, List.length_append, Nat.mod_add_mod, Nat.add_assoc]

/-- As many buffers are returned as ids were released exactly if no packet with fragments is
found. -/
theorem counts_iff {s s' : State} {es : List Ev} {tr : List (Ev × Result)}
    (h : MapOk s.p.pktidRxMap) (hr : runs (step setup) s es = some (s', tr)) :
    returned tr ≤ released tr ∧
      (returned tr = released tr ↔ meets (step setup) (noFrags setup) s es = true) := by
  induction es generalizing s tr with
  | nil =>
    cases hr
    exact ⟨Nat.le_refl _, iff_of_true rfl rfl⟩
  | cons e es ih =>
    obtain ⟨s₁, r, tr', hs, hr', rfl⟩ := (runs_cons_eq_some _ _ _ _ _ _).mp hr
    have hspec := step_spec h hs
    obtain ⟨hle, hiff⟩ := ih hspec.map hr'
    have hret : returned ((e, r) :: tr') = returns r.events + returned tr' := by
      unfold returned events
      rw [List.flatMap_cons, returns_append]
    have hrel : released ((e, r) :: tr') = releases r.events + released tr' := by
      unfold released events
      rw [List.flatMap_cons, releases_append]
    have hcounts := hspec.counts
    rw [hret, hrel, meets_cons (step setup) (noFrags setup) s s₁ e es r hs, noFrags_iff, ← hiff]
    omega

/-! ## Top theorem -/

/-- **The packets of a run are delivered as if its items came one by one, and as many buffers are
returned as ids are released, if and only if no packet has fragments.** -/
theorem rxcpl_delivers_iff (setup : Setup) (ring : MsgbufRing) (items : Nat) (uninit : Contents)
    (buf : Nat → Buf) (es : List Ev) (s : State) (tr : List (Ev × Result))
    (h : runs (step setup) (init ring items uninit buf) es = some (s, tr)) :
    Delivers setup (init ring items uninit buf) es s tr ↔
      meets (step setup) (noFrags setup) (init ring items uninit buf) es = true := by
  have hinit : Inv (init ring items uninit buf) (init ring items uninit buf) [] :=
    ⟨init_mapOk items uninit, rfl, rfl, rfl, (Nat.mod_eq_of_lt ring.rd_lt).symm⟩
  have hkeep : ∀ es s tr, runs (step setup) (init ring items uninit buf) es = some (s, tr) →
      Inv (init ring items uninit buf) s tr := fun es s tr hr =>
    runs_inv (step setup) (Inv (init ring items uninit buf)) (fun _ _ _ _ _ hi hs => step_inv hi hs)
      _ s es tr hinit hr
  obtain ⟨-, hiff⟩ := counts_iff (init_mapOk items uninit) h
  constructor
  · exact fun hd => hiff.mp hd.returned
  · intro hmeets
    have hinv := hkeep es s tr h
    refine ⟨?_, hinv.synced, hinv.slots, hinv.rd, hiff.mpr hmeets⟩
    intro es₁ es₂ t s₁ tr₁ s₂ r _ hr₁ hs
    exact (step_spec (hkeep es₁ s₁ tr₁ hr₁).map hs).turn t rfl

theorem rxRing_itemLen : 0 < 8 := by decide

theorem rxRing_rd : 0 < 4 := by decide

def rxRing : MsgbufRing := ⟨4, 8, 0, 0, 0, 0, rxRing_itemLen, rxRing_rd⟩

def rxSetup : Setup where
  isInfoCpln := false
  maxInfobufpost := 0
  syncMode := .seqnum
  induceLivelock := false
  rxDataoffset := 0
  maxRxbufpost := 2
  rxBufpostThreshold := 2

def rxBufAt (pkt : Nat) : RxBuf := ⟨pkt, ⟨none, 0, 2048⟩, 0, 0⟩

/-- Item 0 is of packet id 2 and interface 0, item 1 of packet id 1 and interface 1, and item 2 of
a packet id that the map does not have. -/
def rxItems (idx : Nat) : RxItem := ⟨[true], 18, 2 - idx, idx, false, 0, 100⟩

/-- Packets 7 and 8 are posted, and three items come; the second one ends a batch. -/
def rxCalls (frags : Nat → Bool) : List Ev :=
  [.post .none [rxBufAt 7, rxBufAt 8], .call 8, .turn ⟨3, rxItems, frags, .none, []⟩,
    .turn ⟨3, rxItems, frags, .none, []⟩]

def noContents : Contents := ⟨0, .dataRx, 0, none, 0, 0, 0⟩

def rxStart : State := init rxRing 2 noContents fun _ => ⟨none, 0, 0⟩

theorem rxcpl_delivers_iff_three : ∃ s tr,
    runs (step rxSetup) rxStart (rxCalls fun _ => false) = some (s, tr) ∧
      Delivers rxSetup rxStart (rxCalls fun _ => false) s tr :=
  ⟨_, _, rfl, (rxcpl_delivers_iff rxSetup rxRing 2 noContents _ _ _ _ rfl).mpr (by decide)⟩

/-- Where packet 7 has fragments, its id is released and one buffer less is returned. -/
theorem rxcpl_delivers_fails :
    ¬ ∀ setup ring items uninit buf es s tr,
      runs (step setup) (init ring items uninit buf) es = some (s, tr) →
        Delivers setup (init ring items uninit buf) es s tr := by
  intro h
  have hdel := h rxSetup rxRing 2 noContents (fun _ => ⟨none, 0, 0⟩) (rxCalls fun pkt => pkt == 7)
    _ _ rfl
  exact absurd hdel.returned (by decide)

end Bcmdhd.RxCpl
