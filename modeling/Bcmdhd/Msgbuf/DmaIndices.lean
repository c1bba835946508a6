import Bcmdhd.Lib.Records

/-!
# DMA index arrays (`dhd_msgbuf.c`)

The host writes its ring indices into arrays that the dongle fetches whole.  A ring id is
turned into a slot of its array by `DHD_H2D_RING_OFFSET` or `DHD_D2H_RING_OFFSET`; common
rings and flow rings have fixed ids, the info, EDL and metadata rings are numbered behind
the counts that the dongle advertises.

    (for every attached ring, `set` succeeds, `get` returns the value, and every other
      ring of the direction reads as before) ↔ roomFor bus            (setGet_iff)
-/

namespace Bcmdhd.DmaIndices

open Records

/-! ## Algorithm -/

/-- What `dhdpcie_readshared` keeps of `ring_info_t` and of the shared flags; it fails on a
zero count. -/
structure Bus where
  fwRev : Nat
  maxTxFlowrings : Nat
  maxSubmissionRings : Nat
  maxCompletionRings : Nat
  rwIndexSz : Nat
  dongleEdlSupport : Bool
  mdringCapable : Bool
  flowrings_pos : 0 < maxTxFlowrings
  flowrings_lt : maxTxFlowrings < 0x10000
  submission_pos : 0 < maxSubmissionRings
  submission_lt : maxSubmissionRings < 0x10000
  completion_pos : 0 < maxCompletionRings
  completion_lt : maxCompletionRings < 0x10000
  /-- before `PCIE_SHARED_VERSION_6` the dongle tells one count only -/
  old_counts : fwRev < 6 → maxSubmissionRings = maxTxFlowrings ∧ maxCompletionRings = 3
  indexSz : rwIndexSz = 2 ∨ rwIndexSz = 4

/-- `dhd_get_max_flow_rings`, a `uint16`. -/
def getMaxFlowRings (bus : Bus) : Nat :=
  if 6 ≤ bus.fwRev then bus.maxTxFlowrings else (bus.maxTxFlowrings + 0x10000 - 2) % 0x10000

/-- `DHD_H2D_RING_OFFSET` -/
def h2dRingOffset (ringid : Nat) : Nat := if ringid ≥ 5 then 2 + (ringid - 5) else ringid

/-- `DHD_H2D_FRM_FLOW_RING_OFFSET`, stored in a `uint16` -/
def h2dFrmFlowRingOffset (ringid : Nat) : Nat := (ringid + 0x10000 - 5) % 0x10000

/-- `DHD_D2H_RING_OFFSET`, stored in a `uint16` -/
def d2hRingOffset (ringid maxH2dRings : Nat) : Nat :=
  if ringid > maxH2dRings then ringid - maxH2dRings else (ringid + 0x10000 - 2) % 0x10000

/-- A `dhd_dma_buf_t` of `len` bytes; the padding behind them is not part of the array. -/
structure DmaBuf (len : Nat) where
  va : Nat → UInt8

def htol16 (v : Nat) : List UInt8 := [UInt8.ofNat (v % 0x100), UInt8.ofNat (v / 0x100)]

def ltoh16 : List UInt8 → Nat
  | [lo, hi] => lo.toNat + 0x100 * hi.toNat
  | _ => 0

/-- `*(uint16*)ptr = htol16(new_index)`; `none` outside the array. -/
def storeIndex {len : Nat} (buf : DmaBuf len) (ptr newIndex : Nat) : Option (DmaBuf len) :=
  if ptr + 2 ≤ len then some ⟨writeAt buf.va ptr (htol16 newIndex)⟩ else none

/-- `LTOH16(*((uint16*)ptr))`; `none` outside the array. -/
def loadIndex {len : Nat} (buf : DmaBuf len) (ptr : Nat) : Option Nat :=
  if ptr + 2 ≤ len then some (ltoh16 (readAt buf.va ptr 2)) else none

/-- The arrays, as `dhd_prot_dma_indx_init` sizes them. -/
structure Prot (bus : Bus) where
  h2dDmaIndxWrBuf : DmaBuf (bus.rwIndexSz * bus.maxSubmissionRings)
  h2dDmaIndxRdBuf : DmaBuf (bus.rwIndexSz * bus.maxSubmissionRings)
  d2hDmaIndxWrBuf : DmaBuf (bus.rwIndexSz * bus.maxCompletionRings)
  d2hDmaIndxRdBuf : DmaBuf (bus.rwIndexSz * bus.maxCompletionRings)
  h2dIfrmIndxWrBuf : DmaBuf (bus.rwIndexSz * bus.maxTxFlowrings)

/-- All arrays zero. -/
def zeros (bus : Bus) : Prot bus :=
  ⟨⟨fun _ => 0⟩, ⟨fun _ => 0⟩, ⟨fun _ => 0⟩, ⟨fun _ => 0⟩, ⟨fun _ => 0⟩⟩

/-- The `type` argument. -/
inductive IndxUpd
  | h2dDmaIndxWr
  | h2dDmaIndxRd
  | d2hDmaIndxWr
  | d2hDmaIndxRd
  | h2dIfrmIndxWr
deriving DecidableEq, Repr

/-- `dhd_prot_dma_indx_set` -/
def dmaIndxSet (bus : Bus) (prot : Prot bus) (newIndex : Nat) (type : IndxUpd) (ringid : Nat) :
    Option (Prot bus) :=
  match type with
  | .h2dDmaIndxWr =>
    (storeIndex prot.h2dDmaIndxWrBuf (h2dRingOffset ringid * bus.rwIndexSz) newIndex).map
      fun buf => { prot with h2dDmaIndxWrBuf := buf }
  | .d2hDmaIndxRd =>
    (storeIndex prot.d2hDmaIndxRdBuf
      (d2hRingOffset ringid bus.maxSubmissionRings * bus.rwIndexSz) newIndex).map
      fun buf => { prot with d2hDmaIndxRdBuf := buf }
  | .h2dIfrmIndxWr =>
    (storeIndex prot.h2dIfrmIndxWrBuf (h2dFrmFlowRingOffset ringid * bus.rwIndexSz) newIndex).map
      fun buf => { prot with h2dIfrmIndxWrBuf := buf }
  -- the dongle's indices: an invalid option
  | .h2dDmaIndxRd => some prot
  | .d2hDmaIndxWr => some prot

/-- `dhd_prot_dma_indx_get` -/
def dmaIndxGet (bus : Bus) (prot : Prot bus) (type : IndxUpd) (ringid : Nat) : Option Nat :=
  match type with
  | .h2dDmaIndxWr => loadIndex prot.h2dDmaIndxWrBuf (h2dRingOffset ringid * bus.rwIndexSz)
  | .h2dDmaIndxRd => loadIndex prot.h2dDmaIndxRdBuf (h2dRingOffset ringid * bus.rwIndexSz)
  | .d2hDmaIndxWr =>
    loadIndex prot.d2hDmaIndxWrBuf (d2hRingOffset ringid bus.maxSubmissionRings * bus.rwIndexSz)
  | .d2hDmaIndxRd =>
    loadIndex prot.d2hDmaIndxRdBuf (d2hRingOffset ringid bus.maxSubmissionRings * bus.rwIndexSz)
  | .h2dIfrmIndxWr => some 0

/-! ## Rings -/

inductive Ring
  | controlSubmit
  | rxpostSubmit
  | flow (flowid : Nat)
  | infoSubmit
  | controlComplete
  | txComplete
  | rxComplete
  | infoComplete
  | edl
  | mdComplete
deriving DecidableEq, Repr

/-- The rings that `dhd_prot_attach` and `dhd_prot_init` create. -/
def attached (bus : Bus) : Ring → Bool
  | .flow flowid => decide (2 ≤ flowid ∧ flowid < getMaxFlowRings bus + 2)
  | .infoSubmit => decide (6 ≤ bus.fwRev) && !bus.dongleEdlSupport
  | .infoComplete => decide (6 ≤ bus.fwRev) && !bus.dongleEdlSupport
  | .edl => bus.dongleEdlSupport
  | .mdComplete => decide (7 ≤ bus.fwRev) && bus.mdringCapable
  | _ => true

/-- `ring->idx`, a `uint16`. -/
def idx (bus : Bus) : Ring → Nat
  | .controlSubmit => 0
  | .rxpostSubmit => 1
  | .controlComplete => 2
  | .txComplete => 3
  | .rxComplete => 4
  | .flow flowid => (5 + (flowid - 2)) % 0x10000
  | .infoSubmit => (bus.maxSubmissionRings + 2) % 0x10000
  | .infoComplete => (bus.maxSubmissionRings + 3) % 0x10000
  | .edl => (bus.maxSubmissionRings + 3) % 0x10000
  | .mdComplete => (bus.maxSubmissionRings + bus.maxCompletionRings - 1) % 0x10000

inductive Dir
  | h2d
  | d2h
deriving DecidableEq, Repr

def dir : Ring → Dir
  | .controlSubmit => .h2d
  | .rxpostSubmit => .h2d
  | .flow _ => .h2d
  | .infoSubmit => .h2d
  | _ => .d2h

/-- The index of a direction that the host writes and can read back. -/
def hostUpd : Dir → IndxUpd
  | .h2d => .h2dDmaIndxWr
  | .d2h => .d2hDmaIndxRd

/-- `r`'s index can be set: it is read back as set, and no other ring's index changes. -/
def SetGet (bus : Bus) (r : Ring) : Prop :=
  ∀ prot : Prot bus, ∀ newIndex < 0x10000,
    ∃ prot', dmaIndxSet bus prot newIndex (hostUpd (dir r)) (idx bus r) = some prot' ∧
      dmaIndxGet bus prot' (hostUpd (dir r)) (idx bus r) = some newIndex ∧
      ∀ r', attached bus r' = true → dir r' = dir r → r' ≠ r →
        dmaIndxGet bus prot' (hostUpd (dir r)) (idx bus r') =
          dmaIndxGet bus prot (hostUpd (dir r)) (idx bus r')

/-- The counts leave every ring a slot of its own.  Ids beyond `0xffff` wrap. -/
def roomFor (bus : Bus) : Prop :=
  if 6 ≤ bus.fwRev then
    bus.maxTxFlowrings + (if bus.dongleEdlSupport then 2 else 3) ≤ bus.maxSubmissionRings ∧
    4 ≤ bus.maxSubmissionRings ∧ 4 ≤ bus.maxCompletionRings ∧
    (bus.maxSubmissionRings ≤ 0xfffc ∨
      bus.maxSubmissionRings = 0xfffd ∧ bus.maxCompletionRings = 0xffff) ∧
    (attached bus .mdComplete = true →
      5 ≤ bus.maxCompletionRings ∧ bus.maxSubmissionRings + bus.maxCompletionRings ≤ 0x10000 ∨
      0x10007 ≤ bus.maxSubmissionRings + bus.maxCompletionRings)
  else
    bus.dongleEdlSupport = false ∧
    (bus.maxTxFlowrings = 2 ∨ 4 ≤ bus.maxTxFlowrings ∧ bus.maxTxFlowrings ≤ 0xfffd)

instance (bus : Bus) : Decidable (roomFor bus) := by
  unfold roomFor
  infer_instance

/-! ## Lemmas -/

@[simp] theorem htol16_length (v : Nat) : (htol16 v).length = 2 := rfl

theorem ltoh16_htol16 {v : Nat} (hv : v < 0x10000) : ltoh16 (htol16 v) = v := by
  have hdiv : v / 0x100 < 0x100 := by omega
  show (UInt8.ofNat (v % 0x100)).toNat + 0x100 * (UInt8.ofNat (v / 0x100)).toNat = v
  rw [UInt8.toNat_ofNat', UInt8.toNat_ofNat', Nat.mod_mod_of_dvd _ (by decide),
    Nat.mod_eq_of_lt hdiv]
  omega

section DmaBuf

variable {len : Nat} {buf buf' : DmaBuf len} {p q v : Nat}

theorem storeIndex_isSome (buf : DmaBuf len) (v : Nat) :
    (storeIndex buf p v).isSome ↔ p + 2 ≤ len := by
  unfold storeIndex
  split <;> simp_all

theorem storeIndex_inside (h : storeIndex buf p v = some buf') : p + 2 ≤ len := by
  rw [← storeIndex_isSome buf v, h]
  rfl

theorem loadIndex_stored (hv : v < 0x10000) (h : storeIndex buf p v = some buf') :
    loadIndex buf' p = some v := by
  have hin := storeIndex_inside h
  unfold storeIndex at h
  rw [if_pos hin] at h
  cases h
  unfold loadIndex
  rw [if_pos hin]
  have hread := readAt_writeAt buf.va p (htol16 v)
  rw [htol16_length] at hread
  rw [hread, ltoh16_htol16 hv]

theorem loadIndex_other (h : storeIndex buf p v = some buf') (hoff : q + 2 ≤ p ∨ p + 2 ≤ q) :
    loadIndex buf' q = loadIndex buf q := by
  have hin := storeIndex_inside h
  unfold storeIndex at h
  rw [if_pos hin] at h
  cases h
  unfold loadIndex
  split
  · rw [readAt_writeAt_of_off]
    exact hoff
  · rfl

end DmaBuf

/-! ## One array a direction -/

/-- The advertised count of a direction. -/
def slots (bus : Bus) : Dir → Nat
  | .h2d => bus.maxSubmissionRings
  | .d2h => bus.maxCompletionRings

/-- The slot of a ring in its direction's arrays. -/
def slot (bus : Bus) (r : Ring) : Nat :=
  match dir r with
  | .h2d => h2dRingOffset (idx bus r)
  | .d2h => d2hRingOffset (idx bus r) bus.maxSubmissionRings

def hostBuf {bus : Bus} (prot : Prot bus) : (d : Dir) → DmaBuf (bus.rwIndexSz * slots bus d)
  | .h2d => prot.h2dDmaIndxWrBuf
  | .d2h => prot.d2hDmaIndxRdBuf

def setHostBuf {bus : Bus} (prot : Prot bus) :
    (d : Dir) → DmaBuf (bus.rwIndexSz * slots bus d) → Prot bus
  | .h2d, buf => { prot with h2dDmaIndxWrBuf := buf }
  | .d2h, buf => { prot with d2hDmaIndxRdBuf := buf }

variable {bus : Bus} {prot : Prot bus}

@[simp] theorem hostBuf_set (d : Dir) (buf : DmaBuf (bus.rwIndexSz * slots bus d)) :
    hostBuf (setHostBuf prot d buf) d = buf := by
  cases d <;> rfl

theorem dmaIndxSet_eq (r : Ring) (v : Nat) :
    dmaIndxSet bus prot v (hostUpd (dir r)) (idx bus r) =
      (storeIndex (hostBuf prot (dir r)) (slot bus r * bus.rwIndexSz) v).map
        (setHostBuf prot (dir r)) := by
  unfold slot
  generalize dir r = d
  cases d <;> rfl

theorem dmaIndxGet_eq {r r' : Ring} (h : dir r' = dir r) :
    dmaIndxGet bus prot (hostUpd (dir r)) (idx bus r') =
      loadIndex (hostBuf prot (dir r)) (slot bus r' * bus.rwIndexSz) := by
  unfold slot
  rw [h]
  generalize dir r = d
  cases d <;> rfl

/-- Slots do not overlap. -/
theorem slots_apart {i j : Nat} (h : i ≠ j) :
    i * bus.rwIndexSz + 2 ≤ j * bus.rwIndexSz ∨ j * bus.rwIndexSz + 2 ≤ i * bus.rwIndexSz := by
  rcases bus.indexSz with hsz | hsz <;> rw [hsz] <;> omega

theorem slot_inside {i n : Nat} : i * bus.rwIndexSz + 2 ≤ bus.rwIndexSz * n ↔ i < n := by
  rcases bus.indexSz with hsz | hsz <;> rw [hsz] <;> omega

/-- A ring's index can be set when its slot is in the array and its own. -/
theorem setGet_iff_slot (r : Ring) : SetGet bus r ↔
    slot bus r < slots bus (dir r) ∧
      ∀ r', attached bus r' = true → dir r' = dir r → r' ≠ r → slot bus r' ≠ slot bus r := by
  constructor
  · intro h
    obtain ⟨prot', hset, -, hother⟩ := h (zeros bus) 1 (by decide)
    rw [dmaIndxSet_eq, Option.map_eq_some_iff] at hset
    obtain ⟨buf, hstore, rfl⟩ := hset
    have hin := storeIndex_inside hstore
    refine ⟨slot_inside.mp hin, fun r' ha hd hne heq => ?_⟩
    have hsame := hother r' ha hd hne
    rw [dmaIndxGet_eq hd, dmaIndxGet_eq hd, heq, hostBuf_set,
      loadIndex_stored (by decide) hstore] at hsame
    have hzero : loadIndex (hostBuf (zeros bus) (dir r)) (slot bus r * bus.rwIndexSz) = some 0 := by
      unfold loadIndex
      rw [if_pos hin]
      cases dir r <;> rfl
    rw [hzero] at hsame
    cases hsame
  · rintro ⟨hin, hown⟩ prot v hv
    obtain ⟨buf, hstore⟩ := Option.isSome_iff_exists.mp
      ((storeIndex_isSome (hostBuf prot (dir r)) v).mpr (slot_inside.mpr hin))
    refine ⟨setHostBuf prot (dir r) buf, by rw [dmaIndxSet_eq, hstore]; rfl, ?_, ?_⟩
    · rw [dmaIndxGet_eq rfl, hostBuf_set, loadIndex_stored hv hstore]
    · intro r' ha hd hne
      rw [dmaIndxGet_eq hd, dmaIndxGet_eq hd, hostBuf_set]
      exact loadIndex_other hstore (slots_apart (hown r' ha hd hne))

/-! ## Room -/

theorem h2dRingOffset_cases (ringid : Nat) :
    (5 ≤ ringid ∧ h2dRingOffset ringid + 3 = ringid) ∨
      (ringid < 5 ∧ h2dRingOffset ringid = ringid) := by
  unfold h2dRingOffset
  split <;> omega

theorem d2hRingOffset_cases (ringid maxH2dRings : Nat) :
    (maxH2dRings < ringid ∧ d2hRingOffset ringid maxH2dRings = ringid - maxH2dRings) ∨
      (ringid ≤ maxH2dRings ∧ d2hRingOffset ringid maxH2dRings = (ringid + 0x10000 - 2) % 0x10000) := by
  unfold d2hRingOffset
  split <;> omega

/-- Every attached ring has a slot in its array, and no two share one. -/
def SlotsApart (bus : Bus) : Prop :=
  ∀ r, attached bus r = true → slot bus r < slots bus (dir r) ∧
    ∀ r', attached bus r' = true → dir r' = dir r → r' ≠ r → slot bus r' ≠ slot bus r

section

variable (h : SlotsApart bus)

include h

theorem SlotsApart.inside {r : Ring} (ha : attached bus r = true) :
    slot bus r < slots bus (dir r) :=
  (h r ha).1

theorem SlotsApart.ne {r r' : Ring} (ha : attached bus r = true) (ha' : attached bus r' = true)
    (hd : dir r' = dir r) (hne : r' ≠ r) : slot bus r' ≠ slot bus r :=
  (h r ha).2 r' ha' hd hne

/-- What the host-to-dongle rings ask for. -/
theorem SlotsApart.submission (hfw : 6 ≤ bus.fwRev) :
    bus.maxTxFlowrings + (if bus.dongleEdlSupport then 2 else 3) ≤ bus.maxSubmissionRings ∧
      (bus.dongleEdlSupport = false → bus.maxSubmissionRings ≤ 0xfffd) := by
  have hT := bus.flowrings_pos
  have hSlt := bus.submission_lt
  have hflow : ∀ f, 2 ≤ f → f < bus.maxTxFlowrings + 2 → attached bus (.flow f) = true := by
    intro f h2 hf
    simp only [attached, getMaxFlowRings, if_pos hfw, decide_eq_true_eq]
    exact ⟨h2, hf⟩
  -- flow ring 0xfffd would have the control ring's id
  have hTle : bus.maxTxFlowrings ≤ 0xfffb := by
    apply Nat.le_of_not_gt
    intro hgt
    exact h.ne (r := .controlSubmit) rfl (hflow 0xfffd (by omega) (by omega)) rfl nofun rfl
  have ha := hflow (bus.maxTxFlowrings + 1) (by omega) (by omega)
  have hlast : h2dRingOffset ((5 + (bus.maxTxFlowrings + 1 - 2)) % 0x10000) <
      bus.maxSubmissionRings := h.inside ha
  have hcases := h2dRingOffset_cases ((5 + (bus.maxTxFlowrings + 1 - 2)) % 0x10000)
  cases hedl : bus.dongleEdlSupport with
  | true => exact ⟨by rw [if_pos rfl]; omega, nofun⟩
  | false =>
    have hi : attached bus .infoSubmit = true := by simp [attached, hfw, hedl]
    have h0 : h2dRingOffset ((bus.maxSubmissionRings + 2) % 0x10000) ≠ h2dRingOffset 0 :=
      h.ne (r := .controlSubmit) rfl hi rfl nofun
    have h1 : h2dRingOffset ((bus.maxSubmissionRings + 2) % 0x10000) ≠ h2dRingOffset 1 :=
      h.ne (r := .rxpostSubmit) rfl hi rfl nofun
    have hl : h2dRingOffset ((bus.maxSubmissionRings + 2) % 0x10000) ≠
        h2dRingOffset ((5 + (bus.maxTxFlowrings + 1 - 2)) % 0x10000) :=
      h.ne ha hi rfl nofun
    have c0 := h2dRingOffset_cases 0
    have c1 := h2dRingOffset_cases 1
    have ci := h2dRingOffset_cases ((bus.maxSubmissionRings + 2) % 0x10000)
    refine ⟨?_, fun _ => ?_⟩
    · rw [if_neg nofun]
      omega
    · omega

/-- What the dongle-to-host common rings ask for. -/
theorem SlotsApart.common (hS : 2 < bus.maxSubmissionRings) :
    4 ≤ bus.maxSubmissionRings ∧ 3 ≤ bus.maxCompletionRings := by
  have hlast : d2hRingOffset 4 bus.maxSubmissionRings < bus.maxCompletionRings :=
    h.inside (r := .rxComplete) rfl
  have hne : d2hRingOffset 4 bus.maxSubmissionRings ≠ d2hRingOffset 3 bus.maxSubmissionRings :=
    @SlotsApart.ne bus h .txComplete .rxComplete rfl rfl rfl nofun
  have c3 := d2hRingOffset_cases 3 bus.maxSubmissionRings
  have c4 := d2hRingOffset_cases 4 bus.maxSubmissionRings
  omega

/-- What the ring behind the common ones asks for, the info ring's or the EDL ring. -/
theorem SlotsApart.info {r : Ring} (hr : r = .infoComplete ∨ r = .edl)
    (ha : attached bus r = true) (hS : 4 ≤ bus.maxSubmissionRings) :
    4 ≤ bus.maxCompletionRings ∧ (bus.maxSubmissionRings ≤ 0xfffc ∨
      bus.maxSubmissionRings = 0xfffd ∧ bus.maxCompletionRings = 0xffff) := by
  have hSlt := bus.submission_lt
  have hClt := bus.completion_lt
  have hslot : slot bus r =
      d2hRingOffset ((bus.maxSubmissionRings + 3) % 0x10000) bus.maxSubmissionRings := by
    rcases hr with rfl | rfl <;> rfl
  have hdir : dir r = .d2h := by rcases hr with rfl | rfl <;> rfl
  have hin := h.inside ha
  rw [hslot, hdir] at hin
  have h2 : slot bus r ≠ d2hRingOffset 2 bus.maxSubmissionRings :=
    h.ne (r := .controlComplete) rfl ha hdir (by rcases hr with rfl | rfl <;> nofun)
  rw [hslot] at h2
  have c2 := d2hRingOffset_cases 2 bus.maxSubmissionRings
  have ci := d2hRingOffset_cases ((bus.maxSubmissionRings + 3) % 0x10000) bus.maxSubmissionRings
  simp only [slots] at hin
  omega

/-- What the metadata ring asks for, the last of its direction. -/
theorem SlotsApart.metadata {r : Ring} (hr : r = .infoComplete ∨ r = .edl)
    (ha : attached bus r = true) (hm : attached bus .mdComplete = true)
    (hS : 4 ≤ bus.maxSubmissionRings) :
    5 ≤ bus.maxCompletionRings ∧ bus.maxSubmissionRings + bus.maxCompletionRings ≤ 0x10000 ∨
      0x10007 ≤ bus.maxSubmissionRings + bus.maxCompletionRings := by
  obtain ⟨hC, hSle⟩ := h.info hr ha hS
  have hClt := bus.completion_lt
  have hslot : slot bus r =
      d2hRingOffset ((bus.maxSubmissionRings + 3) % 0x10000) bus.maxSubmissionRings := by
    rcases hr with rfl | rfl <;> rfl
  let md := d2hRingOffset ((bus.maxSubmissionRings + bus.maxCompletionRings - 1) % 0x10000)
    bus.maxSubmissionRings
  have hin : md < bus.maxCompletionRings := h.inside hm
  have h0 : md ≠ d2hRingOffset 2 bus.maxSubmissionRings :=
    h.ne (r := .controlComplete) rfl hm rfl nofun
  have h1 : md ≠ d2hRingOffset 3 bus.maxSubmissionRings :=
    h.ne (r := .txComplete) rfl hm rfl nofun
  have h2 : md ≠ d2hRingOffset 4 bus.maxSubmissionRings :=
    h.ne (r := .rxComplete) rfl hm rfl nofun
  have hi : md ≠ slot bus r :=
    h.ne ha hm (by rcases hr with rfl | rfl <;> rfl) (by rcases hr with rfl | rfl <;> nofun)
  rw [hslot] at hi
  have c0 := d2hRingOffset_cases 2 bus.maxSubmissionRings
  have c1 := d2hRingOffset_cases 3 bus.maxSubmissionRings
  have c2 := d2hRingOffset_cases 4 bus.maxSubmissionRings
  have ci := d2hRingOffset_cases ((bus.maxSubmissionRings + 3) % 0x10000) bus.maxSubmissionRings
  have cm := d2hRingOffset_cases
    ((bus.maxSubmissionRings + bus.maxCompletionRings - 1) % 0x10000) bus.maxSubmissionRings
  omega

/-- The one count of the old firmware. -/
theorem SlotsApart.old (hfw : bus.fwRev < 6) :
    bus.dongleEdlSupport = false ∧
      (bus.maxTxFlowrings = 2 ∨ 4 ≤ bus.maxTxFlowrings ∧ bus.maxTxFlowrings ≤ 0xfffd) := by
  obtain ⟨hS, hC⟩ := bus.old_counts hfw
  have hTlt := bus.flowrings_lt
  have hrx : h2dRingOffset 1 < bus.maxSubmissionRings := h.inside (r := .rxpostSubmit) rfl
  have c1 := h2dRingOffset_cases 1
  have hTle : bus.maxTxFlowrings ≤ 0xfffd := by
    apply Nat.le_of_not_gt
    intro hgt
    have ha : attached bus (.flow 0xfffd) = true := by
      simp only [attached, getMaxFlowRings, if_neg (Nat.not_le.mpr hfw), decide_eq_true_eq]
      omega
    exact h.ne (r := .controlSubmit) rfl ha rfl nofun rfl
  have hcommon : bus.maxTxFlowrings = 2 ∨ 4 ≤ bus.maxTxFlowrings := by
    by_cases h2 : 2 < bus.maxSubmissionRings
    · exact .inr (hS ▸ (h.common h2).1)
    · omega
  refine ⟨?_, by omega⟩
  -- three completion slots: none for the EDL ring
  cases hedl : bus.dongleEdlSupport with
  | false => rfl
  | true =>
    have hin : d2hRingOffset ((bus.maxSubmissionRings + 3) % 0x10000) bus.maxSubmissionRings <
        bus.maxCompletionRings := h.inside (r := .edl) hedl
    have ci :=
      d2hRingOffset_cases ((bus.maxSubmissionRings + 3) % 0x10000) bus.maxSubmissionRings
    omega

theorem SlotsApart.roomFor : roomFor bus := by
  unfold DmaIndices.roomFor
  split
  · next hfw =>
    obtain ⟨hflow, -⟩ := h.submission hfw
    have hT := bus.flowrings_pos
    have h2 : 2 < bus.maxSubmissionRings := by
      split at hflow <;> omega
    obtain ⟨hS, -⟩ := h.common h2
    have hinfo : ∃ r, (r = .infoComplete ∨ r = .edl) ∧ attached bus r = true := by
      cases hedl : bus.dongleEdlSupport with
      | true => exact ⟨.edl, .inr rfl, hedl⟩
      | false => exact ⟨.infoComplete, .inl rfl, by simp [attached, hfw, hedl]⟩
    obtain ⟨r, hr, ha⟩ := hinfo
    obtain ⟨hC, hSle⟩ := h.info hr ha hS
    exact ⟨hflow, hS, hC, hSle, fun hm => h.metadata hr ha hm hS⟩
  · next hfw => exact h.old (Nat.lt_of_not_le hfw)

end

/-- The slots when there is room. -/
def place (bus : Bus) : Ring → Nat
  | .controlSubmit => 0
  | .rxpostSubmit => 1
  | .flow flowid => flowid
  | .infoSubmit => bus.maxSubmissionRings - 1
  | .controlComplete => 0
  | .txComplete => 1
  | .rxComplete => 2
  | .infoComplete => if bus.maxSubmissionRings ≤ 0xfffc then 3 else 0xfffe
  | .edl => if bus.maxSubmissionRings ≤ 0xfffc then 3 else 0xfffe
  | .mdComplete =>
    if bus.maxSubmissionRings + bus.maxCompletionRings ≤ 0x10000 then bus.maxCompletionRings - 1
    else bus.maxSubmissionRings + bus.maxCompletionRings - 0x10003

/-- The ring of a slot. -/
def ringAt (bus : Bus) : Dir → Nat → Ring
  | .h2d, s =>
    if s = 0 then .controlSubmit else if s = 1 then .rxpostSubmit
    else if attached bus .infoSubmit ∧ s = place bus .infoSubmit then .infoSubmit
    else .flow s
  | .d2h, s =>
    if s = 0 then .controlComplete else if s = 1 then .txComplete
    else if s = 2 then .rxComplete
    else if attached bus .mdComplete ∧ s = place bus .mdComplete then .mdComplete
    else if bus.dongleEdlSupport then .edl else .infoComplete

section

variable {r r' : Ring} (h : roomFor bus) (ha : attached bus r = true)

include h

/-- The counts with room, for new and old firmware. -/
theorem roomFor.counts :
    getMaxFlowRings bus + 2 ≤ bus.maxSubmissionRings ∧ getMaxFlowRings bus ≤ 0xfffb ∧
      3 ≤ bus.maxCompletionRings ∧
      (bus.maxSubmissionRings = 2 ∨ 4 ≤ bus.maxSubmissionRings) := by
  have hSlt := bus.submission_lt
  unfold roomFor at h
  unfold getMaxFlowRings
  split at h
  · next hfw =>
    obtain ⟨hT, hS, hC, hSle, -⟩ := h
    rw [if_pos hfw]
    split at hT <;> omega
  · next hfw =>
    obtain ⟨-, hT⟩ := h
    obtain ⟨hS, hC⟩ := bus.old_counts (Nat.lt_of_not_le hfw)
    rw [if_neg hfw]
    omega

theorem roomFor.new (hfw : 6 ≤ bus.fwRev) :
    bus.maxTxFlowrings + (if bus.dongleEdlSupport then 2 else 3) ≤ bus.maxSubmissionRings ∧
    4 ≤ bus.maxSubmissionRings ∧ 4 ≤ bus.maxCompletionRings ∧
    (bus.maxSubmissionRings ≤ 0xfffc ∨
      bus.maxSubmissionRings = 0xfffd ∧ bus.maxCompletionRings = 0xffff) ∧
    (attached bus .mdComplete = true →
      5 ≤ bus.maxCompletionRings ∧ bus.maxSubmissionRings + bus.maxCompletionRings ≤ 0x10000 ∨
      0x10007 ≤ bus.maxSubmissionRings + bus.maxCompletionRings) := by
  unfold roomFor at h
  rwa [if_pos hfw] at h

/-- The EDL ring needs a fourth completion slot, which old firmware has not. -/
theorem roomFor.edl (hedl : bus.dongleEdlSupport = true) : 6 ≤ bus.fwRev := by
  apply Nat.le_of_not_lt
  intro hfw
  unfold roomFor at h
  rw [if_neg (Nat.not_le.mpr hfw), hedl] at h
  exact Bool.noConfusion h.1

include ha

/-- A dynamic ring is one of the new firmware's. -/
theorem roomFor.dynamic
    (hr : r = .infoSubmit ∨ r = .infoComplete ∨ r = .edl ∨ r = .mdComplete) : 6 ≤ bus.fwRev := by
  rcases hr with rfl | rfl | rfl | rfl
  · simp only [attached, Bool.and_eq_true, decide_eq_true_eq] at ha
    exact ha.1
  · simp only [attached, Bool.and_eq_true, decide_eq_true_eq] at ha
    exact ha.1
  · exact h.edl ha
  · simp only [attached, Bool.and_eq_true, decide_eq_true_eq] at ha
    omega

theorem slot_eq_place : slot bus r = place bus r := by
  have hSlt := bus.submission_lt
  have hClt := bus.completion_lt
  obtain ⟨hT, hTle, hC, hS⟩ := h.counts
  cases r with
  | controlSubmit => rfl
  | rxpostSubmit => rfl
  | flow f =>
    simp only [attached, decide_eq_true_eq] at ha
    have c := h2dRingOffset_cases ((5 + (f - 2)) % 0x10000)
    show h2dRingOffset ((5 + (f - 2)) % 0x10000) = f
    omega
  | infoSubmit =>
    have hnew := h.new (h.dynamic ha (.inl rfl))
    have c := h2dRingOffset_cases ((bus.maxSubmissionRings + 2) % 0x10000)
    show h2dRingOffset ((bus.maxSubmissionRings + 2) % 0x10000) = bus.maxSubmissionRings - 1
    omega
  | controlComplete =>
    have c := d2hRingOffset_cases 2 bus.maxSubmissionRings
    show d2hRingOffset 2 bus.maxSubmissionRings = 0
    omega
  | txComplete =>
    have c := d2hRingOffset_cases 3 bus.maxSubmissionRings
    show d2hRingOffset 3 bus.maxSubmissionRings = 1
    omega
  | rxComplete =>
    have c := d2hRingOffset_cases 4 bus.maxSubmissionRings
    show d2hRingOffset 4 bus.maxSubmissionRings = 2
    omega
  | infoComplete =>
    have hnew := h.new (h.dynamic ha (.inr (.inl rfl)))
    have c := d2hRingOffset_cases ((bus.maxSubmissionRings + 3) % 0x10000) bus.maxSubmissionRings
    show d2hRingOffset ((bus.maxSubmissionRings + 3) % 0x10000) bus.maxSubmissionRings =
      if bus.maxSubmissionRings ≤ 0xfffc then 3 else 0xfffe
    split <;> omega
  | edl =>
    have hnew := h.new (h.dynamic ha (.inr (.inr (.inl rfl))))
    have c := d2hRingOffset_cases ((bus.maxSubmissionRings + 3) % 0x10000) bus.maxSubmissionRings
    show d2hRingOffset ((bus.maxSubmissionRings + 3) % 0x10000) bus.maxSubmissionRings =
      if bus.maxSubmissionRings ≤ 0xfffc then 3 else 0xfffe
    split <;> omega
  | mdComplete =>
    have hnew := h.new (h.dynamic ha (.inr (.inr (.inr rfl))))
    have hmd := hnew.2.2.2.2 ha
    have c := d2hRingOffset_cases
      ((bus.maxSubmissionRings + bus.maxCompletionRings - 1) % 0x10000) bus.maxSubmissionRings
    show d2hRingOffset ((bus.maxSubmissionRings + bus.maxCompletionRings - 1) % 0x10000)
      bus.maxSubmissionRings = if bus.maxSubmissionRings + bus.maxCompletionRings ≤ 0x10000
        then bus.maxCompletionRings - 1
        else bus.maxSubmissionRings + bus.maxCompletionRings - 0x10003
    split <;> omega

theorem place_inside : place bus r < slots bus (dir r) := by
  have hSlt := bus.submission_lt
  have hClt := bus.completion_lt
  obtain ⟨hT, hTle, hC, hS⟩ := h.counts
  cases r with
  | flow f =>
    simp only [attached, decide_eq_true_eq] at ha
    simp only [place, dir, slots]
    omega
  | infoComplete =>
    have hnew := h.new (h.dynamic ha (.inr (.inl rfl)))
    simp only [place, dir, slots]
    split <;> omega
  | edl =>
    have hnew := h.new (h.dynamic ha (.inr (.inr (.inl rfl))))
    simp only [place, dir, slots]
    split <;> omega
  | mdComplete =>
    simp only [place, dir, slots]
    split <;> omega
  | _ =>
    simp only [place, dir, slots]
    omega

/-- Flow rings lie between the common rings and the info ring. -/
theorem place_flow {f : Nat} (hr : r = .flow f) :
    2 ≤ place bus r ∧ (attached bus .infoSubmit = true → place bus r < place bus .infoSubmit) := by
  subst hr
  have hT := h.counts.1
  simp only [attached, decide_eq_true_eq] at ha
  refine ⟨ha.1, fun hi => ?_⟩
  have hfw := h.dynamic hi (.inl rfl)
  have hroom := (h.new hfw).1
  simp only [attached, Bool.and_eq_true, Bool.not_eq_true'] at hi
  rw [hi.2, if_neg nofun] at hroom
  simp only [getMaxFlowRings, if_pos hfw] at ha
  simp only [place]
  omega

/-- The ring behind the common completion rings, and the metadata ring behind it. -/
theorem place_info (hr : r = .infoComplete ∨ r = .edl) :
    3 ≤ place bus r ∧ (attached bus .mdComplete = true → place bus r < place bus .mdComplete ∨
      place bus .mdComplete + 3 < place bus r) := by
  have hfw := h.dynamic ha (.inr (hr.imp_right .inl))
  obtain ⟨-, hS, hC, hSle, hmd⟩ := h.new hfw
  have hClt := bus.completion_lt
  have hplace : place bus r = if bus.maxSubmissionRings ≤ 0xfffc then 3 else 0xfffe := by
    rcases hr with rfl | rfl <;> rfl
  rw [hplace]
  refine ⟨by split <;> omega, fun hm => ?_⟩
  have := hmd hm
  simp only [place]
  split <;> split <;> omega

theorem place_metadata (hr : r = .mdComplete) : 3 ≤ place bus r := by
  subst hr
  obtain ⟨-, hS, hC, -, hmd⟩ := h.new (h.dynamic ha (.inr (.inr (.inr rfl))))
  have := hmd ha
  simp only [place]
  split <;> omega

/-- With room, a slot determines its ring. -/
theorem ringAt_place : ringAt bus (dir r) (place bus r) = r := by
  have hinfo : (r = .infoComplete ∨ r = .edl) →
      ringAt bus .d2h (place bus r) = if bus.dongleEdlSupport then .edl else .infoComplete := by
    intro hr
    obtain ⟨h3, hmd⟩ := place_info h ha hr
    simp only [ringAt]
    rw [if_neg (by omega), if_neg (by omega), if_neg (by omega), if_neg]
    rintro ⟨hm, heq⟩
    have := hmd hm
    omega
  cases r with
  | flow f =>
    obtain ⟨h2, hi⟩ := place_flow h ha rfl
    simp only [dir, ringAt]
    rw [if_neg (by omega), if_neg (by omega), if_neg]
    · rfl
    · rintro ⟨hinfo, heq⟩
      have := hi hinfo
      omega
  | infoSubmit =>
    have hroom := (h.new (h.dynamic ha (.inl rfl))).2.1
    simp only [dir, ringAt, place]
    rw [if_neg (by omega), if_neg (by omega), if_pos ⟨ha, trivial⟩]
  | infoComplete =>
    simp only [attached, Bool.and_eq_true, Bool.not_eq_true'] at ha
    rw [show dir .infoComplete = .d2h from rfl, hinfo (.inl rfl), ha.2]
    rfl
  | edl =>
    rw [show dir .edl = .d2h from rfl, hinfo (.inr rfl), show bus.dongleEdlSupport = true from ha]
    rfl
  | mdComplete =>
    have h3 := place_metadata h ha rfl
    simp only [dir, ringAt]
    rw [if_neg (by omega), if_neg (by omega), if_neg (by omega), if_pos ⟨ha, trivial⟩]
  | _ => rfl

/-- With room, the rings of a direction keep apart. -/
theorem place_ne (ha' : attached bus r' = true) (hd : dir r' = dir r) (hne : r' ≠ r) :
    place bus r' ≠ place bus r := by
  intro heq
  apply hne
  rw [← ringAt_place h ha', ← ringAt_place h ha, hd, heq]

end

theorem slotsApart_iff : SlotsApart bus ↔ roomFor bus := by
  constructor
  · exact SlotsApart.roomFor
  · intro h r ha
    refine ⟨?_, fun r' ha' hd hne => ?_⟩
    · rw [slot_eq_place h ha]
      exact place_inside h ha
    · rw [slot_eq_place h ha, slot_eq_place h ha']
      exact place_ne h ha ha' hd hne

/-! ## Top theorem -/

/-- **Every index reads back, and no other changes, exactly when** the advertised counts
leave room: the info ring behind the flow rings, five completion slots with a metadata ring,
four without. -/
theorem setGet_iff (bus : Bus) :
    (∀ r, attached bus r = true → SetGet bus r) ↔ roomFor bus := by
  rw [← slotsApart_iff]
  constructor
  · intro h r ha
    exact (setGet_iff_slot r).mp (h r ha)
  · intro h r ha
    exact (setGet_iff_slot r).mpr (h r ha)

theorem fourCompletions_flowrings : 0 < 8 := by decide

theorem fourCompletions_completion : 0 < 4 := by decide

/-- Eight flow rings and twelve submission rings, but four completion rings: the metadata ring
has the slot of the info ring. -/
def fourCompletions : Bus :=
  ⟨7, 8, 12, 4, 4, false, true, fourCompletions_flowrings, by decide, by decide, by decide,
    fourCompletions_completion, by decide, by decide, by decide⟩

/-- With these counts, setting the metadata ring's index changes the info ring's; and an
implicit-DMA index is never read back. -/
theorem setGet_fails :
    (attached fourCompletions .infoComplete = true ∧ attached fourCompletions .mdComplete = true ∧
      dmaIndxGet fourCompletions (zeros _) .d2hDmaIndxRd (idx fourCompletions .infoComplete) =
        some 0 ∧
      (dmaIndxSet fourCompletions (zeros _) 7 .d2hDmaIndxRd (idx fourCompletions .mdComplete)).bind
        (fun prot => dmaIndxGet fourCompletions prot .d2hDmaIndxRd
          (idx fourCompletions .infoComplete)) = some 7) ∧
    (dmaIndxSet fourCompletions (zeros _) 7 .h2dIfrmIndxWr (idx fourCompletions (.flow 2))).bind
      (fun prot => dmaIndxGet fourCompletions prot .h2dIfrmIndxWr
        (idx fourCompletions (.flow 2))) = some 0 := by
  decide

end Bcmdhd.DmaIndices
