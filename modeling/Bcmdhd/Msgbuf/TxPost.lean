import Bcmdhd.Msgbuf.Phase
import Bcmdhd.Msgbuf.PktIdMap

/-!
# Posting a packet to its flow ring (`dhd_msgbuf.c`)

`dhd_prot_txdata` takes a packet id, an item of the flow ring and DMA mappings, and unwinds
through three labels when one of them cannot be had.  The caller then puts the packet back
at the head of its queue, to try again.

    (whenever `BCME_NORESOURCE` is returned, `wr`, `current_phase`, `pend_items_count`, the
      outstanding packet ids and the packet are as before) ↔ unwinds env dhd pkt
                                                                      (txdata_unwinds_iff)

Buffers and DMA addresses are opaque numbers; the address 0 is a mapping that failed.
-/

namespace Bcmdhd.TxPost

open H2DRing PktIdMap

/-! ## Packets -/

/-- An `sk_buff`: `buf` is from `head` on, the frame is `len` bytes behind the headroom. -/
structure Pkt where
  skb : Nat
  buf : List UInt8
  headroom : Nat
  len : Nat
deriving DecidableEq, Repr

def pktData (pkt : Pkt) : List UInt8 := pkt.buf.drop pkt.headroom

/-- `PKTPULL`, which is `skb_pull`: no change when the packet is shorter. -/
def pktPull (n : Nat) (pkt : Pkt) : Pkt :=
  if n ≤ pkt.len then { pkt with headroom := pkt.headroom + n, len := pkt.len - n } else pkt

/-- `PKTPUSH`, which is `skb_push`: `none` is the panic of an underrun. -/
def pktPush (n : Nat) (pkt : Pkt) : Option Pkt :=
  if n ≤ pkt.headroom then some { pkt with headroom := pkt.headroom - n, len := pkt.len + n }
  else none

/-! ## The driver -/

def BCME_OK : Int := 0

def BCME_NORESOURCE : Int := -22

def etherHdrLen : Nat := 14

/-- `DHD_PKTID_DEPLETED_MAX_COUNT` -/
def pktidDepletedMaxCount : Nat := 1024

def dmaTx : Nat := 1

/-- The values of `dhd->dhd_induce_error` that are looked at. -/
inductive Induce
  | clear
  /-- the packet is replaced by a big one, if `PKTGET` has it -/
  | txBigPkt (bigPktbuf : Option Pkt)
  | pktidInvalidSave
  | pktidInvalidFree
deriving DecidableEq, Repr

/-- What the packet-id map sees of it. -/
def Induce.map : Induce → InduceError
  | .pktidInvalidSave => .pktidInvalidSave
  | .pktidInvalidFree => .pktidInvalidFree
  | _ => .none

/-- What a call reads, and what it is answered. -/
structure Env where
  /-- `dhd->flow_ring_table` is there -/
  flowRingTable : Bool
  induce : Induce
  /-- `DHD_PKTID_AVAIL` before the lock is taken; others may take ids until then -/
  availAtEntry : Nat
  /-- the read index that the host gets if it has to refresh its copy -/
  fresh : Nat
  frPhaseNibble : Bool
  /-- `DMA_MAP` of the data -/
  pa : Nat
  /-- `DMA_MAP` of the metadata -/
  metaPa : Nat
  secdma : Nat
  txMetadataOffset : Nat
  hostSfhllcSupported : Bool
  txpThreshold : Nat
  ifidx : Nat
  prio : Nat
  igmp : Bool

/-- `host_txbuf_post_t` -/
structure TxDesc where
  ifId : Nat
  cmnFlags : Nat
  requestId : Nat
  txhdr : List UInt8
  flags : Nat
  segCnt : Nat
  metadataBufAddr : Nat
  dataBufAddr : Nat
  metadataBufLen : Nat
  dataLen : Nat
  extFlags : Nat

/-- The transmit side of `dhd_prot_t` and the flow ring of the packet. -/
structure Dhd where
  pktidTxMap : PktidMap
  pktidDepletedCnt : Nat
  pktidTxqStopCnt : Nat
  noTxResource : Bool
  /-- the network queues are stopped (`dhd_txflowcontrol`) -/
  txOff : Bool
  activeTxCount : Int
  ring : MsgbufRing
  /-- the items posted, by slot -/
  items : Nat → TxDesc
  pendItemsCount : Nat
  /-- the slot of `start_addr` -/
  startAddr : Option Nat
  /-- the write index that the dongle was told -/
  publishedWr : Nat

/-! ## Algorithm -/

/-- The test before the lock is taken: transmit is stopped when there were no ids
`pktidDepletedMaxCount` times. -/
def checkPktids (env : Env) (dhd : Dhd) : Dhd × Bool :=
  if env.availAtEntry = 0 then
    let dhd :=
      if dhd.pktidDepletedCnt = pktidDepletedMaxCount then
        { dhd with
          pktidTxqStopCnt := (dhd.pktidTxqStopCnt + 1) % 0x100
          txOff := true
          noTxResource := true }
      else dhd
    ({ dhd with pktidDepletedCnt := (dhd.pktidDepletedCnt + 1) % 0x100000000 }, false)
  else ({ dhd with pktidDepletedCnt := 0 }, true)

/-- `err_free_pktid`: physaddr and pktlen will be garbage. -/
def freePktid (env : Env) (dhd : Dhd) (pktid : Nat) : Dhd :=
  { dhd with pktidTxMap := (PktIdMap.free env.induce.map dhd.pktidTxMap pktid .noCheck false).1 }

/-- `err_rollback_idx` -/
def rollbackIdx (env : Env) (dhd : Dhd) (pktid : Nat) : Dhd :=
  freePktid env { dhd with ring := Phase.rollbackOne dhd.ring } pktid

/-- `dhd_prot_txdata_write_flush` -/
def txdataWriteFlush (dhd : Dhd) : Dhd :=
  if dhd.pendItemsCount ≠ 0 then
    { dhd with publishedWr := dhd.ring.wr, pendItemsCount := 0, startAddr := none }
  else dhd

/-- The rest of a call that has all it needs. -/
def postTxdesc (env : Env) (dhd : Dhd) (slot : Nat) (txdesc : TxDesc) : Dhd :=
  let dhd := { dhd with items := Function.update dhd.items slot txdesc }
  let dhd :=
    if dhd.pendItemsCount = env.txpThreshold ∨ slot = dhd.ring.maxItems - 1 then
      txdataWriteFlush dhd
    else dhd
  { dhd with activeTxCount := dhd.activeTxCount + 1 }

/-- The header is back on the packet: metadata, then the post. -/
def mapMetadata (env : Env) (dhd : Dhd) (pkt : Pkt) (pktid slot : Nat) (txdesc : TxDesc) :
    Option (Dhd × Pkt × Int) :=
  let headroom := pkt.headroom % 0x10000
  if env.txMetadataOffset ≠ 0 ∧ headroom ≥ env.txMetadataOffset then
    (pktPush env.txMetadataOffset pkt).map fun pkt =>
      if env.metaPa = 0 then
        (rollbackIdx env { dhd with pendItemsCount := dhd.pendItemsCount - 1 } pktid, pkt,
          BCME_NORESOURCE)
      else
        let pkt := pktPull env.txMetadataOffset pkt
        let txdesc :=
          { txdesc with
            metadataBufLen := env.txMetadataOffset
            metadataBufAddr := env.metaPa }
        (postTxdesc env dhd slot txdesc, pkt, BCME_OK)
  else some (postTxdesc env dhd slot txdesc, pkt, BCME_OK)

/-- The item is reserved: the data, without the Ethernet header, is mapped. -/
def mapData (env : Env) (dhd : Dhd) (pkt : Pkt) (pktid slot : Nat) : Option (Dhd × Pkt × Int) :=
  let txhdr := (pktData pkt).take etherHdrLen
  let pktlen := (pkt.len + 0x100000000 - etherHdrLen) % 0x100000000
  let pkt := pktPull etherHdrLen pkt
  if env.pa = 0 then some (rollbackIdx env dhd pktid, pkt, BCME_NORESOURCE)
  else
    let dhd :=
      { dhd with
        pktidTxMap := PktIdMap.save env.induce.map dhd.pktidTxMap
          ⟨dmaTx, .dataTx, pktlen, some pkt.skb, env.pa, 0, env.secdma⟩ pktid
        startAddr := if dhd.pendItemsCount = 0 then some slot else dhd.startAddr
        pendItemsCount := dhd.pendItemsCount + 1 }
    let txdesc : TxDesc :=
      { ifId := env.ifidx
        cmnFlags := dhd.ring.currentPhase
        requestId := pktid
        txhdr
        flags := 0x01 ||| (env.prio % 8) * 0x20
        segCnt := 1
        metadataBufAddr := 0
        dataBufAddr := env.pa
        metadataBufLen := 0
        dataLen := pktlen % 0x10000
        extFlags := if env.igmp then 0x10 else 0 }
    -- Move data pointer to keep ether header in local PKTBUF for later reference
    let pushed := if env.hostSfhllcSupported then some pkt else pktPush etherHdrLen pkt
    pushed.bind fun pkt => mapMetadata env dhd pkt pktid slot txdesc

/-- What is done under the ring lock. -/
def txdataLocked (env : Env) (dhd : Dhd) (pkt : Pkt) : Option (Dhd × Pkt × Int) :=
  let (m, pktid) := PktIdMap.reserve dhd.pktidTxMap (some pkt.skb)
  let dhd := { dhd with pktidTxMap := m }
  if pktid = pktidInvalid then some (dhd, pkt, BCME_NORESOURCE)
  else
    match allocRingSpace env.frPhaseNibble dhd.ring 1 false env.fresh with
    | (ring, none) => some (freePktid env { dhd with ring } pktid, pkt, BCME_NORESOURCE)
    | (ring, some (slot, _)) => mapData env { dhd with ring } pkt pktid slot

/-- `dhd_prot_txdata`; `none` is a panic.  The caller's packet is `none` if it was freed. -/
def txdata (env : Env) (dhd : Dhd) (pkt : Pkt) : Option (Dhd × Option Pkt × Int) :=
  if !env.flowRingTable then some (dhd, some pkt, BCME_NORESOURCE)
  else
    let (dhd, avail) := checkPktids env dhd
    if !avail then some (dhd, some pkt, BCME_NORESOURCE)
    else
      match env.induce with
      | .txBigPkt none => some (dhd, some pkt, BCME_NORESOURCE)
      | .txBigPkt (some bigPktbuf) =>
        (txdataLocked env dhd bigPktbuf).map fun (dhd, _, ret) => (dhd, none, ret)
      | _ => (txdataLocked env dhd pkt).map fun (dhd, pkt, ret) => (dhd, some pkt, ret)

/-! ## What a failure should leave -/

/-- The ids that are handed out. -/
def outstandingIds (m : PktidMap) : Set Nat :=
  { k | 1 ≤ k ∧ k ≤ m.items ∧ (m.lockers k).state ≠ .free }

/-- No trace of the call. -/
structure Same (dhd : Dhd) (pkt : Pkt) (dhd' : Dhd) (pkt' : Option Pkt) : Prop where
  wr : dhd'.ring.wr = dhd.ring.wr
  currentPhase : dhd'.ring.currentPhase = dhd.ring.currentPhase
  pendItemsCount : dhd'.pendItemsCount = dhd.pendItemsCount
  ids : outstandingIds dhd'.pktidTxMap = outstandingIds dhd.pktidTxMap
  pkt : pkt' = some pkt

/-- A failed call leaves no trace. -/
def leavesNoTrace (env : Env) (dhd : Dhd) (pkt : Pkt) : Prop :=
  ∀ dhd' pkt', txdata env dhd pkt = some (dhd', pkt', BCME_NORESOURCE) → Same dhd pkt dhd' pkt'

/-- The map has an id to give. -/
def hasId (m : PktidMap) : Bool := decide (0 < m.avail ∧ m.avail < 0x80000000)

/-- The rollback of one item gives back the phase: slot 0 was not entered, or its flip is the
one the rollback makes. -/
def phaseRolledBack (env : Env) (ring : MsgbufRing) : Bool :=
  decide (ring.wr ≠ 0) ||
    (decide (ring.maxItems ≠ 1) &&
      (ring.currentPhase == 0 ||
        (!(ring.isFlowring && env.frPhaseNibble) && ring.currentPhase == phaseBitInit)))

/-- The packet when its header is back, or would be. -/
def pushedHeadroom (env : Env) (pkt : Pkt) : Nat :=
  if etherHdrLen ≤ pkt.len then
    if env.hostSfhllcSupported then pkt.headroom + etherHdrLen else pkt.headroom
  else if env.hostSfhllcSupported then pkt.headroom
  else pkt.headroom - etherHdrLen

/-- The call comes to the mapping of the metadata. -/
def mapsMetadata (env : Env) (pkt : Pkt) : Bool :=
  decide (env.txMetadataOffset ≠ 0 ∧ pushedHeadroom env pkt % 0x10000 ≥ env.txMetadataOffset) &&
    (env.hostSfhllcSupported || decide (etherHdrLen ≤ pkt.len) ||
      decide (etherHdrLen ≤ pkt.headroom))

/-- The call gets its id, its item and its mappings. -/
def getsAll (env : Env) (dhd : Dhd) (pkt : Pkt) : Bool :=
  hasId dhd.pktidTxMap && hasSpace dhd.ring env.fresh && env.pa != 0 &&
    !(mapsMetadata env pkt && env.metaPa == 0)

/-- What is undone below the lock: the lack of an id; of an item, if the id can be freed; and,
if also the phase comes back, the mapping of the data of a frame shorter than its header, or of
metadata as long as a header that is left off. -/
def unwindsLocked (env : Env) (dhd : Dhd) (pkt : Pkt) : Bool :=
  getsAll env dhd pkt || !hasId dhd.pktidTxMap ||
    (env.induce != .pktidInvalidFree &&
      (!hasSpace dhd.ring env.fresh ||
        (phaseRolledBack env dhd.ring &&
          if env.pa = 0 then decide (pkt.len < etherHdrLen)
          else env.hostSfhllcSupported && decide (etherHdrLen ≤ pkt.len) &&
            env.txMetadataOffset == etherHdrLen)))

/-- The failures that leave no trace: those before the lock, those that are undone below it, and
none when the packet was replaced. -/
def unwinds (env : Env) (dhd : Dhd) (pkt : Pkt) : Bool :=
  !env.flowRingTable || env.availAtEntry == 0 ||
    match env.induce with
    | .txBigPkt none => true
    | .txBigPkt (some bigPktbuf) => getsAll env dhd bigPktbuf
    | _ => unwindsLocked env dhd pkt

/-! ## The ring -/

variable {env : Env} {dhd : Dhd} {pkt : Pkt}

theorem flipPhase_ne (nib : Bool) (ring : MsgbufRing) :
    flipPhase nib ring ≠ ring.currentPhase := by
  unfold flipPhase phaseNibbleInit phaseNibbleWrap phaseBitInit
  split
  · split <;> omega
  · split <;> omega

/-- The flip of the rollback undoes that of the reservation. -/
theorem flip_back (nib : Bool) (ring : MsgbufRing) :
    (if flipPhase nib ring ≠ 0 then 0 else phaseBitInit) = ring.currentPhase ↔
      (ring.currentPhase == 0 ||
        (!(ring.isFlowring && nib) && ring.currentPhase == phaseBitInit)) = true := by
  unfold flipPhase phaseNibbleInit phaseNibbleWrap phaseBitInit
  generalize ring.currentPhase = p
  cases ring.isFlowring && nib with
  | true =>
    by_cases hp : p = 0xA0
    · simp [hp]
    · simp only [if_neg hp]
      simp
      omega
  | false =>
    by_cases hp : p = 0
    · simp [hp]
    · simp [hp]
      omega

/-- The rollback of a reservation gives back the write index, and the phase just when
`phaseRolledBack` says so. -/
theorem rollbackOne_iff (env : Env) (dhd : Dhd) (rd : Nat) {ring : MsgbufRing}
    (hr : ring = Phase.rollbackOne (setPhase env.frPhaseNibble
      { dhd.ring with rd, wr := nextWr dhd.ring } dhd.ring.wr)) :
    ring.wr = dhd.ring.wr ∧
      (ring.currentPhase = dhd.ring.currentPhase ↔ phaseRolledBack env dhd.ring = true) := by
  subst hr
  by_cases h0 : dhd.ring.wr = 0
  · have hset : setPhase env.frPhaseNibble { dhd.ring with rd, wr := nextWr dhd.ring } dhd.ring.wr =
        { dhd.ring with
          rd, wr := nextWr dhd.ring
          currentPhase := flipPhase env.frPhaseNibble dhd.ring } := if_pos h0
    rw [hset]
    by_cases h1 : dhd.ring.maxItems = 1
    · -- a ring of one item: the write index stays, the phase is flipped once
      simp [Phase.rollbackOne, nextWr, phaseRolledBack, h0, h1, flipPhase_ne]
    · have hnext : nextWr dhd.ring = 1 := by
        unfold nextWr
        rw [if_neg (by omega), h0]
      have hback : phaseRolledBack env dhd.ring = (dhd.ring.currentPhase == 0 ||
          (!(dhd.ring.isFlowring && env.frPhaseNibble) &&
            dhd.ring.currentPhase == phaseBitInit)) := by
        simp [phaseRolledBack, h0, h1]
      rw [hnext, hback, ← flip_back]
      exact ⟨h0.symm, Iff.rfl⟩
  · have hset : setPhase env.frPhaseNibble { dhd.ring with rd, wr := nextWr dhd.ring } dhd.ring.wr =
        { dhd.ring with rd, wr := nextWr dhd.ring } := if_neg h0
    rw [hset]
    have hback : phaseRolledBack env dhd.ring = true := by simp [phaseRolledBack, h0]
    rw [hback]
    by_cases hend : dhd.ring.wr + 1 = dhd.ring.maxItems
    · rw [show nextWr dhd.ring = 0 from if_pos hend]
      refine ⟨?_, iff_of_true rfl rfl⟩
      show dhd.ring.maxItems - 1 = dhd.ring.wr
      omega
    · rw [show nextWr dhd.ring = dhd.ring.wr + 1 from if_neg hend]
      unfold Phase.rollbackOne
      dsimp only
      rw [if_neg (Nat.succ_ne_zero _), Nat.add_sub_cancel, if_neg h0]
      exact ⟨rfl, iff_of_true rfl rfl⟩

/-! ## The packet-id map -/

/-- `nkey` was free in `m`, and is the only id taken since. -/
structure Reserved (m m₂ : PktidMap) (nkey : Nat) : Prop where
  one_le : 1 ≤ nkey
  le_items : nkey ≤ m.items
  free : (m.lockers nkey).state = .free
  items : m₂.items = m.items
  others : ∀ k, k ≠ nkey → (m₂.lockers k).state = (m.lockers k).state
  busy : (m₂.lockers nkey).state = .busy

theorem reserved_of_hasId {items : Nat} {uninit : Contents} {tr : Trace} {m : PktidMap}
    (h : PktIdMap.Inv items uninit m tr) (hid : hasId m = true) (skb : Option Nat) :
    ∃ m₁ nkey, reserve m skb = (m₁, nkey) ∧ Reserved m m₁ nkey := by
  unfold hasId at hid
  rw [decide_eq_true_eq] at hid
  obtain ⟨nkey, h1, h2, hfree, -, hr⟩ := reserve_of_avail h skb (by omega)
  refine ⟨_, _, hr, h1, h.items_eq ▸ h2, hfree, rfl, fun k hk => ?_, ?_⟩
  · exact congrArg Locker.state (Function.update_of_ne hk _ _)
  · dsimp only
    rw [Function.update_self]

theorem reserve_of_noId {m : PktidMap} (hid : hasId m = false) (skb : Option Nat) :
    reserve m skb = ({ m with failures := m.failures + 1 }, pktidInvalid) := by
  unfold hasId at hid
  rw [decide_eq_false_iff_not] at hid
  unfold reserve
  rw [if_pos (by omega)]

theorem Reserved.save {m m₂ : PktidMap} {nkey : Nat} (h : Reserved m m₂ nkey)
    (induce : InduceError) (c : Contents) : Reserved m (save induce m₂ c nkey) nkey := by
  unfold PktIdMap.save
  split
  · exact h
  · refine ⟨h.one_le, h.le_items, h.free, h.items, fun k hk => ?_, ?_⟩
    · rw [← h.others k hk]
      exact congrArg Locker.state (Function.update_of_ne hk _ _)
    · dsimp only
      rw [Function.update_self]

/-- The id is free again, unless the free is made to fail. -/
theorem Reserved.free_ids {m m₂ : PktidMap} {nkey : Nat} (h : Reserved m m₂ nkey)
    (induce : InduceError) :
    outstandingIds (PktIdMap.free induce m₂ nkey .noCheck false).1 = outstandingIds m ↔
      induce ≠ .pktidInvalidFree := by
  have hkey : invalidKey m₂ nkey = false :=
    invalidKey_eq_false.mpr ⟨h.one_le, h.items ▸ h.le_items⟩
  have hrej : rejected induce m₂ nkey .noCheck = (induce == .pktidInvalidFree) := by
    unfold rejected matchesType
    rw [hkey, h.busy]
    simp
  cases he : induce == .pktidInvalidFree with
  | true =>
    rw [he] at hrej
    rw [free_of_rejected hrej]
    refine iff_of_false (fun heq => ?_) (by simpa using he)
    -- the id stays out
    have hmem : nkey ∈ outstandingIds m₂ :=
      ⟨h.one_le, h.items ▸ h.le_items, by rw [h.busy]; nofun⟩
    dsimp only at heq
    rw [heq] at hmem
    exact hmem.2.2 h.free
  | false =>
    rw [he] at hrej
    rw [free_of_accepted hrej]
    refine iff_of_true ?_ (by simpa using he)
    ext k
    unfold outstandingIds
    simp only [Set.mem_ofPred_eq, Bool.false_eq_true, if_false, Function.update_apply, h.items]
    by_cases hk : k = nkey
    · subst hk
      rw [if_pos rfl]
      simp [h.free]
    · rw [if_neg hk, h.others k hk]

/-! ## The packet -/

theorem pktPull_eq_iff (pkt : Pkt) : pktPull etherHdrLen pkt = pkt ↔ pkt.len < etherHdrLen := by
  unfold pktPull etherHdrLen
  split
  · next hle =>
    refine iff_of_false (fun heq => ?_) (by omega)
    have hlen := congrArg Pkt.len heq
    dsimp only at hlen
    omega
  · next hlt => exact iff_of_true rfl (by omega)

/-- The packet after the Ethernet header was put back, or left off. -/
def pushed (env : Env) (pkt : Pkt) : Option Pkt :=
  if env.hostSfhllcSupported then some (pktPull etherHdrLen pkt)
  else pktPush etherHdrLen (pktPull etherHdrLen pkt)

/-- How the packet was moved, by the header's length back or forth, or not at all. -/
theorem pushed_cases (env : Env) (pkt : Pkt) :
    (env.hostSfhllcSupported = true ∧ etherHdrLen ≤ pkt.len ∧ pushed env pkt =
      some { pkt with headroom := pkt.headroom + etherHdrLen, len := pkt.len - etherHdrLen }) ∨
    ((env.hostSfhllcSupported = true ↔ pkt.len < etherHdrLen) ∧ pushed env pkt = some pkt) ∨
    (env.hostSfhllcSupported = false ∧ pkt.len < etherHdrLen ∧ etherHdrLen ≤ pkt.headroom ∧
      pushed env pkt =
        some { pkt with headroom := pkt.headroom - etherHdrLen, len := pkt.len + etherHdrLen }) ∨
    (env.hostSfhllcSupported = false ∧ pkt.len < etherHdrLen ∧ pkt.headroom < etherHdrLen ∧
      pushed env pkt = none) := by
  unfold pushed pktPull pktPush
  by_cases hlen : etherHdrLen ≤ pkt.len
  · cases env.hostSfhllcSupported with
    | true => exact .inl ⟨rfl, hlen, by simp [hlen]⟩
    | false => exact .inr (.inl ⟨by simp [hlen], by simp [hlen]⟩)
  · have hlt : pkt.len < etherHdrLen := Nat.lt_of_not_le hlen
    cases env.hostSfhllcSupported with
    | true => exact .inr (.inl ⟨by simp [hlt], by simp [hlen]⟩)
    | false =>
      refine .inr (.inr ?_)
      by_cases hroom : etherHdrLen ≤ pkt.headroom
      · exact .inl ⟨rfl, hlt, hroom, by simp [hlen, hroom]⟩
      · exact .inr ⟨rfl, hlt, Nat.lt_of_not_le hroom, by simp [hlen, hroom]⟩

/-- The headroom that the metadata find. -/
theorem pushed_headroom {pkt₁ : Pkt} (hp : pushed env pkt = some pkt₁) :
    pkt₁.headroom = pushedHeadroom env pkt ∧ (mapsMetadata env pkt = true ↔
      (env.txMetadataOffset ≠ 0 ∧ pkt₁.headroom % 0x10000 ≥ env.txMetadataOffset)) := by
  have hroom : pkt₁.headroom = pushedHeadroom env pkt ∧
      (env.hostSfhllcSupported || decide (etherHdrLen ≤ pkt.len) ||
        decide (etherHdrLen ≤ pkt.headroom)) = true := by
    unfold pushedHeadroom
    rcases pushed_cases env pkt with ⟨hs, hl, h⟩ | ⟨hiff, h⟩ | ⟨hs, hl, hr, h⟩ | ⟨hs, hl, hr, h⟩
    · rw [hp] at h
      cases h
      simp [hs, hl]
    · rw [hp] at h
      cases h
      cases hs : env.hostSfhllcSupported with
      | true =>
        rw [hs] at hiff
        have hl := hiff.mp rfl
        simp [Nat.not_le.mpr hl]
      | false =>
        rw [hs] at hiff
        have hl : etherHdrLen ≤ pkt.len := Nat.le_of_not_lt fun hl => Bool.noConfusion (hiff.mpr hl)
        simp [hl]
    · rw [hp] at h
      cases h
      simp [hs, Nat.not_le.mpr hl, hr]
    · rw [hp] at h
      cases h
  refine ⟨hroom.1, ?_⟩
  unfold mapsMetadata
  rw [hroom.2, hroom.1, Bool.and_true, decide_eq_true_eq]

/-- The metadata are mapped in front of the packet, which stays moved unless they are as long as
a header that was left off. -/
theorem pushed_metadata {pkt₁ : Pkt} (hp : pushed env pkt = some pkt₁)
    (hoff : env.txMetadataOffset ≠ 0 ∧ pkt₁.headroom % 0x10000 ≥ env.txMetadataOffset) :
    ∃ pkt₂, pktPush env.txMetadataOffset pkt₁ = some pkt₂ ∧
      (pkt₂ = pkt ↔ (env.hostSfhllcSupported && decide (etherHdrLen ≤ pkt.len) &&
        env.txMetadataOffset == etherHdrLen) = true) := by
  obtain ⟨hpos, hroom⟩ := hoff
  have hle : env.txMetadataOffset ≤ pkt₁.headroom :=
    Nat.le_trans hroom (Nat.mod_le _ _)
  refine ⟨_, if_pos hle, ?_⟩
  simp only [Bool.and_eq_true, decide_eq_true_eq, beq_iff_eq]
  rcases pushed_cases env pkt with ⟨hs, hl, h⟩ | ⟨hiff, h⟩ | ⟨hs, hl, hr, h⟩ | ⟨hs, hl, hr, h⟩
  · rw [hp] at h
    cases h
    dsimp only at hle
    constructor
    · intro heq
      have hlen := congrArg Pkt.len heq
      dsimp only at hlen
      exact ⟨⟨hs, hl⟩, by omega⟩
    · rintro ⟨-, hoff⟩
      rw [hoff]
      cases pkt
      simp only [Pkt.mk.injEq, true_and]
      dsimp only at hl
      omega
  · rw [hp] at h
    cases h
    refine iff_of_false (fun heq => ?_) ?_
    · have hlen := congrArg Pkt.len heq
      dsimp only at hlen
      omega
    · rintro ⟨⟨hs, hl⟩, -⟩
      have := hiff.mp hs
      omega
  · rw [hp] at h
    cases h
    refine iff_of_false (fun heq => ?_) (fun h => ?_)
    · have hlen := congrArg Pkt.len heq
      dsimp only at hlen
      omega
    · omega
  · rw [hp] at h
    cases h

/-! ## Outcomes -/

/-- With its item reserved, a call fails for a mapping and is rolled back, or it does not fail. -/
theorem mapData_cases (env : Env) (dhd : Dhd) (pkt : Pkt) (pktid slot : Nat) :
    (env.pa = 0 ∧ mapData env dhd pkt pktid slot =
      some (rollbackIdx env dhd pktid, pktPull etherHdrLen pkt, BCME_NORESOURCE)) ∨
    (env.pa ≠ 0 ∧ (mapsMetadata env pkt && env.metaPa == 0) = true ∧ ∃ c startAddr pkt',
      mapData env dhd pkt pktid slot =
        some (rollbackIdx env
          { dhd with
            pktidTxMap := PktIdMap.save env.induce.map dhd.pktidTxMap c pktid
            startAddr } pktid, pkt', BCME_NORESOURCE) ∧
      (pkt' = pkt ↔ (env.hostSfhllcSupported && decide (etherHdrLen ≤ pkt.len) &&
        env.txMetadataOffset == etherHdrLen) = true)) ∨
    (env.pa ≠ 0 ∧ (mapsMetadata env pkt && env.metaPa == 0) = false ∧
      ∀ dhd' pkt' ret, mapData env dhd pkt pktid slot = some (dhd', pkt', ret) → ret = BCME_OK) := by
  unfold mapData
  dsimp only
  by_cases hpa : env.pa = 0
  · exact .inl ⟨hpa, if_pos hpa⟩
  · rw [if_neg hpa, show (if env.hostSfhllcSupported = true then some (pktPull etherHdrLen pkt)
      else pktPush etherHdrLen (pktPull etherHdrLen pkt)) = pushed env pkt from rfl]
    refine .inr ?_
    cases hp : pushed env pkt with
    | none =>
      -- the push panics
      have hno : mapsMetadata env pkt = false := by
        rcases pushed_cases env pkt with ⟨-, -, h⟩ | ⟨-, h⟩ | ⟨-, -, -, h⟩ | ⟨hs, hl, hr, -⟩
        · rw [hp] at h
          cases h
        · rw [hp] at h
          cases h
        · rw [hp] at h
          cases h
        · simp [mapsMetadata, hs, Nat.not_le.mpr hl, Nat.not_le.mpr hr]
      exact .inr ⟨hpa, by rw [hno]; rfl, nofun⟩
    | some pkt₁ =>
      obtain ⟨-, hiff⟩ := pushed_headroom hp
      rw [Option.bind_some]
      unfold mapMetadata
      dsimp only
      cases hmap : mapsMetadata env pkt with
      | true =>
        have hoff := hiff.mp hmap
        obtain ⟨pkt₂, hpush, hpkt⟩ := pushed_metadata hp hoff
        rw [if_pos hoff, hpush, Option.map_some]
        cases hmeta : env.metaPa == 0 with
        | true =>
          rw [if_pos (by simpa using hmeta)]
          exact .inl ⟨hpa, rfl, _, _, _, rfl, hpkt⟩
        | false =>
          rw [if_neg (by simpa using hmeta)]
          refine .inr ⟨hpa, rfl, fun dhd' pkt' ret h => ?_⟩
          cases h
          rfl
      | false =>
        have hoff : ¬ (env.txMetadataOffset ≠ 0 ∧
            pkt₁.headroom % 0x10000 ≥ env.txMetadataOffset) := by
          intro hoff
          rw [hiff.mpr hoff] at hmap
          cases hmap
        rw [if_neg hoff]
        refine .inr ⟨hpa, rfl, fun dhd' pkt' ret h => ?_⟩
        cases h
        rfl

/-- A failed call leaves no trace below the lock. -/
def leavesNoTraceLocked (env : Env) (dhd : Dhd) (pkt : Pkt) : Prop :=
  ∀ dhd' pkt', txdataLocked env dhd pkt = some (dhd', pkt', BCME_NORESOURCE) →
    Same dhd pkt dhd' (some pkt')

theorem induce_map_ne (induce : Induce) :
    induce.map ≠ .pktidInvalidFree ↔ (induce != .pktidInvalidFree) = true := by
  cases induce <;> simp [Induce.map]

section Locked

variable {items : Nat} {uninit : Contents} {tr : PktIdMap.Trace}

/-- What a failure leaves, when the ring and the map are rolled back. -/
theorem same_iff {m₂ : PktidMap} {nkey : Nat} (hres : Reserved dhd.pktidTxMap m₂ nkey)
    (dhd₂ : Dhd) {pkt' : Pkt} (hmap : dhd₂.pktidTxMap = m₂) (hwr : dhd₂.ring.wr = dhd.ring.wr)
    (hpend : dhd₂.pendItemsCount = dhd.pendItemsCount) :
    Same dhd pkt (freePktid env dhd₂ nkey) (some pkt') ↔
      (env.induce != .pktidInvalidFree) = true ∧
        dhd₂.ring.currentPhase = dhd.ring.currentPhase ∧ pkt' = pkt := by
  have hids := hres.free_ids env.induce.map
  rw [induce_map_ne] at hids
  subst hmap
  constructor
  · intro h
    exact ⟨hids.mp h.ids, h.currentPhase, Option.some.inj h.pkt⟩
  · rintro ⟨hind, hphase, rfl⟩
    exact ⟨hwr, hphase, hpend, hids.mpr hind, rfl⟩

/-- A call that fails so leaves no trace just when this is the same. -/
theorem leavesNoTraceLocked_of {dhd' : Dhd} {pkt' : Pkt}
    (h : txdataLocked env dhd pkt = some (dhd', pkt', BCME_NORESOURCE)) :
    leavesNoTraceLocked env dhd pkt ↔ Same dhd pkt dhd' (some pkt') := by
  unfold leavesNoTraceLocked
  rw [h]
  constructor
  · exact fun hall => hall dhd' pkt' rfl
  · intro hsame d p heq
    cases heq
    exact hsame

/-- The call fails below the lock. -/
def failsLocked (env : Env) (dhd : Dhd) (pkt : Pkt) : Prop :=
  ∃ dhd' pkt', txdataLocked env dhd pkt = some (dhd', pkt', BCME_NORESOURCE)

/-- **Below the lock**, every outcome. -/
theorem txdataLocked_iff (hinv : PktIdMap.Inv items uninit dhd.pktidTxMap tr)
    (hwr : WrInside dhd.ring) (env : Env) (pkt : Pkt) :
    (leavesNoTraceLocked env dhd pkt ↔ unwindsLocked env dhd pkt = true) ∧
      (failsLocked env dhd pkt ↔ getsAll env dhd pkt = false) := by
  cases hid : hasId dhd.pktidTxMap with
  | false =>
    have hr : txdataLocked env dhd pkt = some ({ dhd with
        pktidTxMap := { dhd.pktidTxMap with failures := dhd.pktidTxMap.failures + 1 } }, pkt,
        BCME_NORESOURCE) := by
      unfold txdataLocked
      rw [reserve_of_noId hid]
      exact if_pos rfl
    refine ⟨(leavesNoTraceLocked_of hr).trans (iff_of_true ⟨rfl, rfl, rfl, rfl, rfl⟩ ?_),
      iff_of_true ⟨_, _, hr⟩ ?_⟩
    · simp [unwindsLocked, hid]
    · simp [getsAll, hid]
  | true =>
    obtain ⟨m₁, nkey, hreserve, hres⟩ := reserved_of_hasId hinv hid (some pkt.skb)
    have hkey : nkey ≠ pktidInvalid := Nat.ne_of_gt hres.one_le
    rcases allocRingSpace_one hwr env.frPhaseNibble env.fresh with
      ⟨hspace, halloc⟩ | ⟨hspace, rd, halloc⟩
    · have hr : txdataLocked env dhd pkt = some (freePktid env { dhd with
          pktidTxMap := m₁
          ring := { dhd.ring with rd := env.fresh } } nkey, pkt, BCME_NORESOURCE) := by
        unfold txdataLocked
        rw [hreserve]
        dsimp only
        rw [if_neg hkey, halloc]
      refine ⟨(leavesNoTraceLocked_of hr).trans ?_, iff_of_true ⟨_, _, hr⟩ ?_⟩
      · refine (same_iff hres { dhd with
          pktidTxMap := m₁, ring := { dhd.ring with rd := env.fresh } } rfl rfl rfl).trans ?_
        simp [unwindsLocked, getsAll, hid, hspace]
      · simp [getsAll, hspace]
    · let dhd₁ : Dhd := { dhd with
        pktidTxMap := m₁
        ring := setPhase env.frPhaseNibble { dhd.ring with rd, wr := nextWr dhd.ring }
          dhd.ring.wr }
      have hr : txdataLocked env dhd pkt = mapData env dhd₁ pkt nkey dhd.ring.wr := by
        unfold txdataLocked
        rw [hreserve]
        dsimp only
        rw [if_neg hkey, halloc]
      obtain ⟨hback, hphase⟩ := rollbackOne_iff env dhd rd rfl
      rcases mapData_cases env dhd₁ pkt nkey dhd.ring.wr with
        ⟨hpa, hm⟩ | ⟨hpa, hmeta, c, startAddr, pkt', hm, hpkt⟩ | ⟨hpa, hmeta, hm⟩
      · rw [hm] at hr
        refine ⟨(leavesNoTraceLocked_of hr).trans ?_, iff_of_true ⟨_, _, hr⟩ ?_⟩
        · unfold rollbackIdx
          refine (same_iff hres { dhd₁ with ring := Phase.rollbackOne dhd₁.ring } rfl hback
            rfl).trans ?_
          rw [hphase, pktPull_eq_iff]
          simp [unwindsLocked, getsAll, hid, hspace, hpa]
        · simp [getsAll, hpa]
      · rw [hm] at hr
        refine ⟨(leavesNoTraceLocked_of hr).trans ?_, iff_of_true ⟨_, _, hr⟩ ?_⟩
        · unfold rollbackIdx
          refine (same_iff (hres.save env.induce.map c) { dhd₁ with
            pktidTxMap := PktIdMap.save env.induce.map m₁ c nkey, startAddr
            ring := Phase.rollbackOne dhd₁.ring } rfl hback rfl).trans ?_
          rw [hphase, hpkt]
          simp [unwindsLocked, getsAll, hid, hspace, hpa, hmeta]
        · simp [getsAll, hmeta]
      · have hgets : getsAll env dhd pkt = true := by simp [getsAll, hid, hspace, hpa, hmeta]
        have hno : ¬ failsLocked env dhd pkt := by
          rintro ⟨dhd', pkt', h⟩
          rw [hr] at h
          have := hm dhd' pkt' _ h
          cases this
        refine ⟨iff_of_true (fun d p h => absurd ⟨d, p, h⟩ hno) ?_, iff_of_false hno ?_⟩
        · simp [unwindsLocked, hgets]
        · simp [hgets]

/-! ## Top theorem -/

/-- A failed test leaves no trace; a test that is passed clears the counter of failures. -/
theorem checkPktids_cases (env : Env) (dhd : Dhd) :
    (env.availAtEntry = 0 ∧ ∃ dhd₁, checkPktids env dhd = (dhd₁, false) ∧
      ∀ pkt, Same dhd pkt dhd₁ (some pkt)) ∨
    (env.availAtEntry ≠ 0 ∧ checkPktids env dhd = ({ dhd with pktidDepletedCnt := 0 }, true)) := by
  unfold checkPktids
  by_cases h : env.availAtEntry = 0
  · rw [if_pos h]
    refine .inl ⟨h, _, rfl, fun pkt => ?_⟩
    split
    · exact ⟨rfl, rfl, rfl, rfl, rfl⟩
    · exact ⟨rfl, rfl, rfl, rfl, rfl⟩
  · exact .inr ⟨h, if_neg h⟩

/-- Under the lock, a call of the packet itself. -/
theorem txdata_own (hinv : PktIdMap.Inv items uninit dhd.pktidTxMap tr) (hwr : WrInside dhd.ring)
    (env : Env) (pkt : Pkt) :
    (∀ dhd' pkt', (txdataLocked env { dhd with pktidDepletedCnt := 0 } pkt).map
        (fun (dhd, pkt, ret) => (dhd, some pkt, ret)) = some (dhd', pkt', BCME_NORESOURCE) →
      Same dhd pkt dhd' pkt') ↔ unwindsLocked env dhd pkt = true := by
  have hlocked := (@txdataLocked_iff { dhd with pktidDepletedCnt := 0 } items uninit tr hinv hwr
    env pkt).1
  refine Iff.trans ⟨fun h d p hd => ?_, fun h d p hd => ?_⟩ hlocked
  · have hs := h d (some p) (by rw [hd]; rfl)
    exact ⟨hs.wr, hs.currentPhase, hs.pendItemsCount, hs.ids, hs.pkt⟩
  · obtain ⟨⟨d₁, p₁, ret⟩, hr, heq⟩ := Option.map_eq_some_iff.mp hd
    cases heq
    have hs := h d p₁ hr
    exact ⟨hs.wr, hs.currentPhase, hs.pendItemsCount, hs.ids, hs.pkt⟩

/-- **A failed `dhd_prot_txdata` leaves no trace exactly when** it failed before the lock, for want
of an id or an item, or in one of the few mappings that `unwindsLocked` names. -/
theorem txdata_unwinds_iff (hinv : PktIdMap.Inv items uninit dhd.pktidTxMap tr)
    (hwr : WrInside dhd.ring) (env : Env) (pkt : Pkt) :
    leavesNoTrace env dhd pkt ↔ unwinds env dhd pkt = true := by
  unfold leavesNoTrace unwinds txdata
  cases hft : env.flowRingTable with
  | false =>
    refine iff_of_true (fun d p h => ?_) rfl
    cases h
    exact ⟨rfl, rfl, rfl, rfl, rfl⟩
  | true =>
    rw [if_neg (by decide)]
    rcases checkPktids_cases env dhd with ⟨h0, dhd₁, hcheck, hsame⟩ | ⟨h0, hcheck⟩
    · rw [hcheck]
      refine iff_of_true (fun d p h => ?_) (by simp [h0])
      cases h
      exact hsame pkt
    · rw [hcheck]
      have hbeq : (env.availAtEntry == 0) = false := by simpa using h0
      rw [hbeq]
      dsimp only
      rw [if_neg (by decide)]
      have hown := txdata_own hinv hwr env pkt
      cases hind : env.induce with
      | clear => exact hown
      | pktidInvalidSave => exact hown
      | pktidInvalidFree => exact hown
      | txBigPkt bigPktbuf =>
        cases bigPktbuf with
        | none =>
          refine iff_of_true (fun d p h => ?_) rfl
          cases h
          exact ⟨rfl, rfl, rfl, rfl, rfl⟩
        | some big =>
          have hfails := (@txdataLocked_iff { dhd with pktidDepletedCnt := 0 } items uninit tr hinv
            hwr env big).2
          constructor
          · intro h
            by_contra hno
            obtain ⟨d, p, hr⟩ := hfails.mpr (Bool.eq_false_iff.mpr hno)
            have hs := h d none (by dsimp only; rw [hr]; rfl)
            cases hs.pkt
          · intro hgets d p h
            obtain ⟨⟨d₁, p₁, ret⟩, hr, heq⟩ := Option.map_eq_some_iff.mp h
            cases heq
            have hno := hfails.mp ⟨_, _, hr⟩
            exact Bool.noConfusion (hgets.symm.trans hno)

end Locked

/-- Four ids, all free, and an empty flow ring of four items. -/
def idleDhd : Dhd where
  pktidTxMap := PktIdMap.init 4 ⟨0, .dataTx, 0, none, 0, 0, 0⟩
  pktidDepletedCnt := 0
  pktidTxqStopCnt := 0
  noTxResource := false
  txOff := false
  activeTxCount := 0
  ring := ⟨4, true, 0, 1, 0x80⟩
  items := fun _ => ⟨0, 0, 0, [], 0, 0, 0, 0, 0, 0, 0⟩
  pendItemsCount := 0
  startAddr := none
  publishedWr := 1

/-- Transmission without metadata; `fresh` and `pa` are what the call is answered. -/
def envOf (fresh pa : Nat) : Env :=
  ⟨true, .clear, 4, fresh, false, pa, 0, 0, 0, false, 48, 0, 0, false⟩

/-- A frame of 60 bytes behind a headroom of 64. -/
def frame : Pkt := ⟨1, List.replicate 124 0, 64, 60⟩

/-- The ring is full: `rd` is behind `wr`. -/
theorem txdata_unwinds_iff_full :
    leavesNoTrace (envOf 2 0x1000) { idleDhd with ring := ⟨4, true, 2, 1, 0x80⟩ } frame :=
  (@txdata_unwinds_iff { idleDhd with ring := ⟨4, true, 2, 1, 0x80⟩ } 4
    ⟨0, .dataTx, 0, none, 0, 0, 0⟩ [] (PktIdMap.inv_init 4 _) (show 1 < 4 by decide)
    (envOf 2 0x1000) frame).mpr (by decide)

/-- `DMA_MAP` of the data fails: the packet comes back without its Ethernet header. -/
theorem txdata_unwinds_fails : ¬ leavesNoTrace (envOf 0 0) idleDhd frame := by
  intro h
  have hpkt := (h _ _ rfl).pkt
  have hlen := congrArg Pkt.len (Option.some.inj hpkt)
  exact absurd hlen (by decide)

end Bcmdhd.TxPost
