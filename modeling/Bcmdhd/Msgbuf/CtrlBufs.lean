import Bcmdhd.Lib.Bits
import Bcmdhd.Msgbuf.PktIdMap

/-!
# Posted control buffers (`dhd_msgbuf.c`)

Buffers for ioctl responses, events and info messages are posted to the dongle, each under an id
of `pktid_ctrl_map`, and come back with a completion that names the id.  A counter for each type
says how many are posted.

    runs (step cfg) (init uninit) es = some (s, tr) →
      counters do not exceed their bounds ∧ the ioctl counter is the number of ids outstanding ∧
      so are the other two, if the completions name ids outstanding    (ctrl_bufs_conserved)
-/

namespace Bcmdhd.CtrlBufs

open Runs Bits
open PktIdMap (PktidMap PktType Contents pktidInvalid invalidKey matchesType rejected)

/-! ## Posting -/

def maxPktidCtrl : Nat := 1024

def dhdFlowringMaxEventbufPost : Nat := 32

def dhdFlowringMaxIoctlrespbufPost : Nat := 8

def dhdH2dInforingMaxBufPost : Nat := 32

structure Cfg where
  /-- `H2DRING_CTRL_SUB_MAX_ITEM` -/
  h2dringCtrlSubMaxItem : Nat
  /-- what `dhdpcie_get_max_eventbufpost` returns -/
  eventBufPool : Nat

/-- `max_ioctlrespbufpost`, `max_eventbufpost` and `max_infobufpost` -/
def maxPost (cfg : Cfg) : PktType → Nat
  | .ioctlRx => dhdFlowringMaxIoctlrespbufPost
  | .eventRx =>
    if cfg.eventBufPool + dhdFlowringMaxIoctlrespbufPost ≥ cfg.h2dringCtrlSubMaxItem then
      dhdFlowringMaxEventbufPost
    else cfg.eventBufPool
  | .infoRx => dhdH2dInforingMaxBufPost
  | _ => 0

structure Prot where
  pktidCtrlMap : PktidMap
  /-- `cur_ioctlresp_bufs_posted`, `cur_event_bufs_posted` and `infobufpost` -/
  posted : PktType → Nat

/-- `uninit` is what the lockers of the map hold before their first use. -/
def init (uninit : Contents) : Prot := ⟨PktIdMap.init maxPktidCtrl uninit, fun _ => 0⟩

/-- A buffer that was allocated and mapped. -/
structure Buffer where
  pkt : Nat
  pa : Nat
  len : Nat
  dmah : Nat
  secdma : Nat
deriving DecidableEq, Repr

/-- `DMA_RX` -/
def dmaRx : Nat := 2

def contentsOf (b : Buffer) (pkttype : PktType) : Contents where
  dir := dmaRx
  pkttype := pkttype
  len := b.len
  pkt := some b.pkt
  pa := b.pa
  dmah := b.dmah
  secdma := b.secdma

/-- At most `maxToPost` buffers are posted.  `bufs` are those that memory and the ring have room
for; there are none when the bus is down.  The loop ends where there is no id. -/
def postBufs (m : PktidMap) (pkttype : PktType) : Nat → List Buffer → PktidMap × Nat
  | 0, _ => (m, 0)
  | _, [] => (m, 0)
  | maxToPost + 1, b :: bufs =>
    let r := PktIdMap.alloc .none m (contentsOf b pkttype)
    if r.2 = pktidInvalid then (r.1, 0)
    else
      let q := postBufs r.1 pkttype maxToPost bufs
      (q.1, q.2 + 1)

/-- Buffers of one type are posted up to the bound. -/
def postMore (cfg : Cfg) (s : Prot) (pkttype : PktType) (bufs : List Buffer) : Prot :=
  let r := postBufs s.pktidCtrlMap pkttype (maxPost cfg pkttype - s.posted pkttype) bufs
  { pktidCtrlMap := r.1
    posted := Function.update s.posted pkttype (s.posted pkttype + r.2) }

def rxbufPostIoctlrespBufs (cfg : Cfg) (s : Prot) (bufs : List Buffer) : Prot :=
  postMore cfg s .ioctlRx bufs

def rxbufPostEventBufs (cfg : Cfg) (s : Prot) (bufs : List Buffer) : Prot :=
  postMore cfg s .eventRx bufs

def infobufpost (cfg : Cfg) (s : Prot) (bufs : List Buffer) : Prot := postMore cfg s .infoRx bufs

/-! ## Completions -/

/-- `dhd_prot_packet_get`, which frees the id -/
def packetGet (m : PktidMap) (pktid : Nat) (pkttype : PktType) : PktidMap × Option Nat :=
  let r := PktIdMap.free .none m pktid pkttype false
  (r.1, r.2.1)

/-- The counter is decremented unless it is 0. -/
def decPosted (s : Prot) (pkttype : PktType) : Prot :=
  { s with posted := Function.update s.posted pkttype (s.posted pkttype - 1) }

/-- `ackPending` and `respPending` are the bits of `ioctl_state`. -/
def ioctcmpltProcess (cfg : Cfg) (s : Prot) (ackPending respPending : Bool) (pktId : Nat)
    (bufs : List Buffer) : Prot :=
  if ackPending || !respPending then s
  else
    let r := packetGet s.pktidCtrlMap pktId .ioctlRx
    match r.2 with
    | none => { s with pktidCtrlMap := r.1 }
    | some _ =>
      -- post another ioctl buf to the device
      rxbufPostIoctlrespBufs cfg (decPosted { s with pktidCtrlMap := r.1 } .ioctlRx) bufs

/-- A buffer is posted in return before the id is looked up. -/
def repostThenGet (cfg : Cfg) (s : Prot) (pkttype : PktType) (pktid : Nat)
    (bufs : List Buffer) : Prot :=
  let s := postMore cfg (decPosted s pkttype) pkttype bufs
  { s with pktidCtrlMap := (packetGet s.pktidCtrlMap pktid pkttype).1 }

def eventProcess (cfg : Cfg) (s : Prot) (bufid : Nat) (bufs : List Buffer) : Prot :=
  repostThenGet cfg s .eventRx bufid bufs

/-- The case `MSG_TYPE_INFO_BUF_CMPLT` of `dhd_prot_process_msgtype` -/
def infobufComplete (cfg : Cfg) (s : Prot) (pktid : Nat) (bufs : List Buffer) : Prot :=
  -- infobuf posted are zero, but there is a completion
  if s.posted .infoRx = 0 then s else repostThenGet cfg s .infoRx pktid bufs

/-! ## Steps -/

inductive Call
  | postIoctl (bufs : List Buffer)
  | postEvent (bufs : List Buffer)
  | postInfo (bufs : List Buffer)
  | ioctlCmplt (ackPending respPending : Bool) (pktId : Nat) (bufs : List Buffer)
  | event (bufid : Nat) (bufs : List Buffer)
  | info (pktid : Nat) (bufs : List Buffer)
deriving DecidableEq, Repr

def step (cfg : Cfg) (s : Prot) : Call → Option (Prot × Unit)
  | .postIoctl bufs => some (rxbufPostIoctlrespBufs cfg s bufs, ())
  | .postEvent bufs => some (rxbufPostEventBufs cfg s bufs, ())
  | .postInfo bufs => some (infobufpost cfg s bufs, ())
  | .ioctlCmplt ackPending respPending pktId bufs =>
    some (ioctcmpltProcess cfg s ackPending respPending pktId bufs, ())
  | .event bufid bufs => some (eventProcess cfg s bufid bufs, ())
  | .info pktid bufs => some (infobufComplete cfg s pktid bufs, ())

/-- The id is that of an outstanding buffer of this type. -/
def held (m : PktidMap) (pktid : Nat) (pkttype : PktType) : Bool :=
  !invalidKey m pktid && (m.lockers pktid).state != .free && (m.lockers pktid).pkttype == pkttype

/-- The number of ids of this type that are outstanding. -/
def outstanding (m : PktidMap) (pkttype : PktType) : Nat :=
  count (fun pktid => held m pktid pkttype) (maxPktidCtrl + 1)

/-- The ids that the next `n` allocations take. -/
def issued (m : PktidMap) (n : Nat) : List Nat := (PktIdMap.freeKeys m).reverse.take n

/-- The id is outstanding, or is given to a buffer that is posted in return. -/
def namesHeld (cfg : Cfg) (s : Prot) (pktid : Nat) (pkttype : PktType) (bufs : List Buffer) :
    Bool :=
  held s.pktidCtrlMap pktid pkttype ||
    (issued s.pktidCtrlMap
      (min (maxPost cfg pkttype - (s.posted pkttype - 1)) bufs.length)).contains pktid

/-- An event completion names an event buffer that is outstanding.  When the counter is 0 it
names none, since no counter is decremented then. -/
def eventsHeld (cfg : Cfg) (s : Prot) : Call → Bool
  | .event bufid bufs => namesHeld cfg s bufid .eventRx bufs == (s.posted .eventRx != 0)
  | _ => true

/-- An info completion names an info buffer that is outstanding.  When the counter is 0 it is
not looked at. -/
def infosHeld (cfg : Cfg) (s : Prot) : Call → Bool
  | .info pktid bufs => s.posted .infoRx == 0 || namesHeld cfg s pktid .infoRx bufs
  | _ => true

/-! ## The map -/

/-- Every id outstanding has a packet. -/
structure MapOk (m : PktidMap) : Prop where
  inv : ∃ uninit tr, PktIdMap.Inv maxPktidCtrl uninit m tr
  pkt : ∀ pktid, invalidKey m pktid = false → (m.lockers pktid).state ≠ .free →
    (m.lockers pktid).pkt ≠ none

variable {m m' : PktidMap} {pkttype : PktType} {cfg : Cfg} {s : Prot}

theorem MapOk.items_eq (h : MapOk m) : m.items = maxPktidCtrl := by
  obtain ⟨uninit, tr, hinv⟩ := h.inv
  exact hinv.items_eq

theorem mapOk_init (uninit : Contents) : MapOk (init uninit).pktidCtrlMap where
  inv := ⟨uninit, [], PktIdMap.inv_init _ _⟩
  pkt := by
    intro pktid hvalid hstate
    obtain ⟨h1, -⟩ := PktIdMap.invalidKey_eq_false.1 hvalid
    have hne : pktid ≠ pktidInvalid := Nat.ne_of_gt h1
    exact absurd (if_neg hne) hstate

theorem held_iff {pktid : Nat} :
    held m pktid pkttype = true ↔ invalidKey m pktid = false ∧
      (m.lockers pktid).state ≠ .free ∧ (m.lockers pktid).pkttype = pkttype := by
  unfold held
  rw [Bool.and_eq_true, Bool.and_eq_true, Bool.not_eq_true', bne_iff_ne, beq_iff_eq, and_assoc]

theorem rejected_eq {pktid : Nat} (hty : pkttype ≠ .noCheck) :
    rejected .none m pktid pkttype = !held m pktid pkttype := by
  unfold rejected held matchesType
  rw [beq_eq_false_iff_ne.2 hty, Bool.false_or]
  cases invalidKey m pktid with
  | true => rfl
  | false =>
    cases hs : (m.lockers pktid).state with
    | free => rfl
    | _ =>
      cases (m.lockers pktid).pkttype == pkttype with
      | true => rfl
      | false => rfl

/-- Ids are counted below any bound, since the bound itself is a large numeral. -/
def heldBelow (m : PktidMap) (pkttype : PktType) (n : Nat) : Nat :=
  count (fun pktid => held m pktid pkttype) n

theorem outstanding_eq (m : PktidMap) (pkttype : PktType) :
    outstanding m pkttype = heldBelow m pkttype (maxPktidCtrl + 1) := rfl

/-- One id changes hands: it is held in `m'` under `pkttype`, and free in `m`. -/
theorem heldBelow_update {nkey n : Nat} (hn : nkey < n) (hbefore : (m.lockers nkey).state = .free)
    (hafter : held m' nkey pkttype = true) (hother : ∀ j, j ≠ nkey → ∀ t, held m' j t = held m j t)
    (t : PktType) :
    heldBelow m' t n = heldBelow m t n + if t = pkttype then 1 else 0 := by
  have hwas : held m nkey t = false := by
    unfold held
    rw [hbefore]
    simp
  unfold heldBelow
  by_cases ht : t = pkttype
  · subst ht
    rw [if_pos rfl]
    exact count_update hn hafter hwas fun j _ hj => hother j hj t
  · rw [if_neg ht, Nat.add_zero]
    apply count_congr
    intro j _
    by_cases hj : j = nkey
    · obtain ⟨-, -, hty⟩ := held_iff.1 hafter
      rw [hj, hwas, ← Bool.not_eq_true, held_iff, hty]
      rintro ⟨-, -, heq⟩
      exact ht heq.symm
    · exact hother j hj t

theorem held_congr {j : Nat} (hitems : m'.items = m.items) (hl : m'.lockers j = m.lockers j)
    (t : PktType) : held m' j t = held m j t := by
  unfold held invalidKey
  rw [hitems, hl]

/-- Another map is as good when one id of it has a packet, if outstanding, and no other id
changes. -/
theorem MapOk.congr {uninit : Contents} {tr : PktIdMap.Trace} (h : MapOk m)
    (hinv : PktIdMap.Inv maxPktidCtrl uninit m' tr) (hitems : m'.items = m.items) (nkey : Nat)
    (hother : ∀ j, j ≠ nkey → m'.lockers j = m.lockers j)
    (hself : invalidKey m' nkey = false → (m'.lockers nkey).state ≠ .free →
      (m'.lockers nkey).pkt ≠ none) : MapOk m' := by
  refine ⟨⟨uninit, tr, hinv⟩, ?_⟩
  intro j hv hs
  by_cases hj : j = nkey
  · subst hj
    exact hself hv hs
  · unfold invalidKey at hv
    rw [hitems] at hv
    rw [hother j hj] at hs ⊢
    exact h.pkt j hv hs

theorem alloc_fails (h : MapOk m) {c : Contents}
    (ha : PktIdMap.alloc .none m c = (m', pktidInvalid)) : PktIdMap.freeKeys m = [] := by
  obtain ⟨uninit, tr, hinv⟩ := h.inv
  have hle := hinv.avail_le
  by_contra hne
  have hpos : m.avail ≠ 0 := fun h0 => hne (by unfold PktIdMap.freeKeys; rw [h0]; rfl)
  have hmem : m.keys m.avail ∈ PktIdMap.freeKeys m := by
    unfold PktIdMap.freeKeys ArrayStack.cells
    refine List.mem_map.2 ⟨m.avail, ?_, rfl⟩
    rw [List.mem_range'_1]
    omega
  obtain ⟨h1, h2, -⟩ := (hinv.mem_iff _).1 hmem
  have hlow : ¬ (m.avail = 0 ∨ m.avail ≥ 0x80000000) := by
    unfold maxPktidCtrl at hle
    omega
  have hin : ¬ (m.avail > m.items ∨ m.keys m.avail > m.items) := by
    rw [hinv.items_eq]
    omega
  have hkey : m.keys m.avail ≠ pktidInvalid := Nat.ne_of_gt h1
  unfold PktIdMap.alloc PktIdMap.reserve at ha
  rw [if_neg hlow] at ha
  dsimp only at ha
  rw [if_neg hin] at ha
  dsimp only at ha
  rw [if_pos hkey] at ha
  exact hkey (Prod.mk.inj ha).2

/-- An allocation fails and changes no locker, or makes the next free id outstanding. -/
theorem alloc_cases {nkey : Nat} (h : MapOk m) (b : Buffer) (pkttype : PktType)
    (ha : PktIdMap.alloc .none m (contentsOf b pkttype) = (m', nkey)) :
    MapOk m' ∧
    ((nkey = pktidInvalid ∧ PktIdMap.freeKeys m = [] ∧ ∀ j t, held m' j t = held m j t) ∨
      (nkey ≠ pktidInvalid ∧ nkey < maxPktidCtrl + 1 ∧ (m.lockers nkey).state = .free ∧
        held m' nkey pkttype = true ∧ PktIdMap.freeKeys m = PktIdMap.freeKeys m' ++ [nkey] ∧
        ∀ j, j ≠ nkey → ∀ t, held m' j t = held m j t)) := by
  obtain ⟨uninit, tr, hinv⟩ := h.inv
  have hinv' := PktIdMap.alloc_inv hinv .none (contentsOf b pkttype)
  rw [ha] at hinv'
  rcases PktIdMap.alloc_cases hinv .none (contentsOf b pkttype) with
    hr | ⟨nkey', h1, h2, hfree, hpop, hr⟩
  · rw [ha] at hr
    obtain ⟨hm, rfl⟩ := Prod.mk.inj hr
    have hl : ∀ j, m'.lockers j = m.lockers j := by
      intro j
      rw [hm]
    have hitems : m'.items = m.items := by
      rw [hm]
    refine ⟨h.congr hinv' hitems pktidInvalid (fun j _ => hl j) nofun, .inl ⟨rfl, ?_, ?_⟩⟩
    · exact alloc_fails h ha
    · exact fun j t => held_congr hitems (hl j) t
  · rw [ha, if_neg nofun] at hr
    obtain ⟨hm, rfl⟩ := Prod.mk.inj hr
    have hitems : m'.items = m.items := by
      rw [hm]
    have hself : m'.lockers nkey =
        { PktIdMap.stored (contentsOf b pkttype) with state := .busy } := by
      rw [hm]
      exact Function.update_self ..
    have hother : ∀ j, j ≠ nkey → m'.lockers j = m.lockers j := by
      intro j hj
      rw [hm]
      exact Function.update_of_ne hj ..
    have hvalid : invalidKey m' nkey = false :=
      PktIdMap.invalidKey_eq_false.2 ⟨h1, by rw [hitems, h.items_eq]; exact h2⟩
    have hpkt : (m'.lockers nkey).pkt ≠ none := by
      rw [hself]
      nofun
    refine ⟨h.congr hinv' hitems nkey hother fun _ _ => hpkt, .inr ⟨Nat.ne_of_gt h1,
      Nat.lt_succ_of_le h2, hfree, held_iff.2 ⟨hvalid, ?_, ?_⟩, ?_, ?_⟩⟩
    · rw [hself]
      nofun
    · rw [hself]
      rfl
    · rw [hpop, hm]
      rfl
    · exact fun j hj t => held_congr hitems (hother j hj) t

theorem alloc_outstanding {nkey : Nat} (h : MapOk m) (b : Buffer) (pkttype : PktType)
    (ha : PktIdMap.alloc .none m (contentsOf b pkttype) = (m', nkey)) (t : PktType) :
    outstanding m' t = outstanding m t + if t = pkttype ∧ nkey ≠ pktidInvalid then 1 else 0 := by
  obtain ⟨-, ⟨hkey, -, hheld⟩ | ⟨hkey, hn, hfree, hnow, -, hother⟩⟩ := alloc_cases h b pkttype ha
  · rw [if_neg fun hc => hc.2 hkey, Nat.add_zero, outstanding_eq, outstanding_eq]
    exact count_congr fun j _ => hheld j t
  · rw [outstanding_eq, outstanding_eq, heldBelow_update hn hfree hnow hother t]
    simp only [ne_eq, hkey, not_false_eq_true, and_true]

/-- An id of an outstanding buffer is freed when it is looked up; no other id frees anything. -/
theorem packetGet_spec (h : MapOk m) {pktid : Nat} {pkt : Option Nat} (hty : pkttype ≠ .noCheck)
    (hget : packetGet m pktid pkttype = (m', pkt)) :
    MapOk m' ∧ pkt.isSome = held m pktid pkttype ∧
    ∀ t, outstanding m t =
      outstanding m' t + if t = pkttype ∧ held m pktid pkttype = true then 1 else 0 := by
  obtain ⟨uninit, tr, hinv⟩ := h.inv
  have hinv' := PktIdMap.free_inv hinv .none pktid pkttype false
  unfold packetGet at hget
  cases hh : held m pktid pkttype with
  | false =>
    have hr : rejected .none m pktid pkttype = true := by
      rw [rejected_eq hty, hh]
      rfl
    rw [PktIdMap.free_of_rejected hr] at hget
    obtain ⟨rfl, rfl⟩ := Prod.mk.inj hget
    refine ⟨h, rfl, fun t => ?_⟩
    rw [if_neg nofun, Nat.add_zero]
  | true =>
    have hr : rejected .none m pktid pkttype = false := by
      rw [rejected_eq hty, hh]
      rfl
    obtain ⟨hvalid, hstate, htype⟩ := held_iff.1 hh
    obtain ⟨h1, h2⟩ := PktIdMap.invalidKey_eq_false.1 hvalid
    rw [PktIdMap.free_of_accepted hr] at hinv' hget
    obtain ⟨hm, hpkt⟩ := Prod.mk.inj hget
    dsimp only at hm hpkt hinv'
    rw [hm] at hinv'
    have hitems : m'.items = m.items := by
      rw [← hm]
    have hself : (m'.lockers pktid).state = .free := by
      rw [← hm]
      simp
    have hother : ∀ j, j ≠ pktid → m'.lockers j = m.lockers j := by
      intro j hj
      rw [← hm]
      exact Function.update_of_ne hj _ _
    refine ⟨h.congr hinv' hitems pktid hother fun _ hs => absurd hself hs, ?_, ?_⟩
    · rw [← hpkt]
      exact Option.isSome_iff_ne_none.2 (h.pkt pktid hvalid hstate)
    · intro t
      rw [h.items_eq] at h2
      have hcount := heldBelow_update (Nat.lt_succ_of_le h2) hself hh
        (fun j hj t => held_congr hitems.symm (hother j hj).symm t) t
      rw [outstanding_eq, outstanding_eq, hcount]
      simp only [and_true]

/-! ## Posting and completing -/

/-- Buffers posted become outstanding. -/
theorem postBufs_spec (pkttype : PktType) (maxToPost : Nat) (bufs : List Buffer) :
    ∀ {m m' : PktidMap} {k : Nat}, MapOk m → postBufs m pkttype maxToPost bufs = (m', k) →
      MapOk m' ∧ k ≤ maxToPost ∧
      ∀ t, outstanding m' t = outstanding m t + if t = pkttype then k else 0 := by
  induction maxToPost generalizing bufs with
  | zero =>
    intro m m' k h hp
    obtain ⟨rfl, rfl⟩ := Prod.mk.inj hp
    exact ⟨h, Nat.le_refl 0, fun t => by rw [ite_self, Nat.add_zero]⟩
  | succ n ih =>
    intro m m' k h hp
    cases bufs with
    | nil =>
      obtain ⟨rfl, rfl⟩ := Prod.mk.inj hp
      exact ⟨h, Nat.zero_le _, fun t => by rw [ite_self, Nat.add_zero]⟩
    | cons b bufs =>
      obtain ⟨m₁, nkey, ha⟩ : ∃ m₁ nkey, PktIdMap.alloc .none m (contentsOf b pkttype) =
        (m₁, nkey) := ⟨_, _, rfl⟩
      have hok := (alloc_cases h b pkttype ha).1
      have hcount := alloc_outstanding h b pkttype ha
      rw [postBufs, ha] at hp
      dsimp only at hp
      split at hp
      · next hinvalid =>
        obtain ⟨rfl, rfl⟩ := Prod.mk.inj hp
        refine ⟨hok, Nat.zero_le _, fun t => ?_⟩
        rw [hcount t, if_neg fun hc => hc.2 hinvalid, ite_self]
      · next hvalid =>
        obtain ⟨m₂, j, hq⟩ : ∃ m₂ j, postBufs m₁ pkttype n bufs = (m₂, j) := ⟨_, _, rfl⟩
        rw [hq] at hp
        dsimp only at hp
        obtain ⟨rfl, rfl⟩ := Prod.mk.inj hp
        obtain ⟨hok', hle, hrest⟩ := ih bufs hok hq
        refine ⟨hok', Nat.succ_le_succ hle, fun t => ?_⟩
        have hfirst := hcount t
        have hothers := hrest t
        by_cases ht : t = pkttype
        · rw [if_pos ⟨ht, hvalid⟩] at hfirst
          rw [if_pos ht] at hothers ⊢
          omega
        · rw [if_neg fun hc => ht hc.1] at hfirst
          rw [if_neg ht] at hothers ⊢
          omega

/-- The ids held after posting, of the type posted, are those held before and those issued. -/
theorem postBufs_held (pkttype : PktType) (maxToPost : Nat) (bufs : List Buffer) :
    ∀ {m m' : PktidMap} {k : Nat}, MapOk m → postBufs m pkttype maxToPost bufs = (m', k) →
      ∀ j, held m' j pkttype =
        (held m j pkttype || (issued m (min maxToPost bufs.length)).contains j) := by
  induction maxToPost generalizing bufs with
  | zero =>
    intro m m' k h hp j
    obtain ⟨rfl, rfl⟩ := Prod.mk.inj hp
    unfold issued
    rw [Nat.zero_min, List.take_zero, List.contains_nil, Bool.or_false]
  | succ n ih =>
    intro m m' k h hp j
    cases bufs with
    | nil =>
      obtain ⟨rfl, rfl⟩ := Prod.mk.inj hp
      unfold issued
      rw [List.length_nil, Nat.min_zero, List.take_zero, List.contains_nil, Bool.or_false]
    | cons b bufs =>
      obtain ⟨m₁, nkey, ha⟩ : ∃ m₁ nkey, PktIdMap.alloc .none m (contentsOf b pkttype) =
        (m₁, nkey) := ⟨_, _, rfl⟩
      rw [postBufs, ha] at hp
      dsimp only at hp
      obtain ⟨hok, ⟨hkey, hnil, hheld⟩ | ⟨hkey, hn, hfree, hnow, hpop, hother⟩⟩ :=
        alloc_cases h b pkttype ha
      · rw [if_pos hkey] at hp
        obtain ⟨rfl, rfl⟩ := Prod.mk.inj hp
        unfold issued
        rw [hheld, hnil, List.reverse_nil, List.take_nil, List.contains_nil, Bool.or_false]
      · rw [if_neg hkey] at hp
        obtain ⟨m₂, i, hq⟩ : ∃ m₂ i, postBufs m₁ pkttype n bufs = (m₂, i) := ⟨_, _, rfl⟩
        rw [hq] at hp
        dsimp only at hp
        obtain ⟨rfl, rfl⟩ := Prod.mk.inj hp
        have hissued : issued m (min (n + 1) (b :: bufs).length) =
            nkey :: issued m₁ (min n bufs.length) := by
          unfold issued
          rw [hpop, List.reverse_append, List.reverse_singleton, List.singleton_append,
            List.length_cons, Nat.succ_min_succ, List.take_succ_cons]
        rw [ih bufs hok hq j, hissued, List.contains_cons]
        by_cases hj : j = nkey
        · rw [hj, hnow, beq_self_eq_true, Bool.true_or, Bool.or_true]
        · rw [hother j hj, beq_eq_false_iff_ne.2 hj, Bool.false_or]

/-- **The invariant.** -/
structure Inv (cfg : Cfg) (s : Prot) : Prop where
  map : MapOk s.pktidCtrlMap
  posted_le : ∀ t, s.posted t ≤ maxPost cfg t

/-- The counter is the number of ids outstanding. -/
def Balanced (s : Prot) (t : PktType) : Prop := s.posted t = outstanding s.pktidCtrlMap t

theorem inv_init (cfg : Cfg) (uninit : Contents) : Inv cfg (init uninit) where
  map := mapOk_init uninit
  posted_le := fun _ => Nat.zero_le _

theorem balanced_init (uninit : Contents) (t : PktType) : Balanced (init uninit) t := by
  show 0 = outstanding (init uninit).pktidCtrlMap t
  rw [outstanding_eq]
  refine (count_eq_zero.2 fun j _ => ?_).symm
  rw [← Bool.not_eq_true, held_iff]
  rintro ⟨hvalid, hstate, -⟩
  obtain ⟨h1, -⟩ := PktIdMap.invalidKey_eq_false.1 hvalid
  exact hstate (if_neg (Nat.ne_of_gt h1))

/-- A counter grows as the number of ids outstanding. -/
theorem postMore_spec (h : Inv cfg s) (pkttype : PktType) (bufs : List Buffer) :
    Inv cfg (postMore cfg s pkttype bufs) ∧
    ∀ t, (postMore cfg s pkttype bufs).posted t + outstanding s.pktidCtrlMap t =
      s.posted t + outstanding (postMore cfg s pkttype bufs).pktidCtrlMap t := by
  obtain ⟨m', k, hp⟩ : ∃ m' k, postBufs s.pktidCtrlMap pkttype
    (maxPost cfg pkttype - s.posted pkttype) bufs = (m', k) := ⟨_, _, rfl⟩
  obtain ⟨hok, hle, hcount⟩ := postBufs_spec pkttype _ bufs h.map hp
  have hbound := h.posted_le pkttype
  unfold postMore
  rw [hp]
  dsimp only
  refine ⟨⟨hok, fun t => ?_⟩, fun t => ?_⟩
  · show Function.update s.posted pkttype (s.posted pkttype + k) t ≤ maxPost cfg t
    by_cases ht : t = pkttype
    · rw [ht, Function.update_self]
      omega
    · rw [Function.update_of_ne ht]
      exact h.posted_le t
  · rw [hcount t]
    by_cases ht : t = pkttype
    · rw [ht, Function.update_self, if_pos rfl]
      omega
    · rw [Function.update_of_ne ht, if_neg ht, Nat.add_zero]

theorem postMore_balanced (h : Inv cfg s) (pkttype : PktType) (bufs : List Buffer) {t : PktType}
    (hb : Balanced s t) :
    Balanced (postMore cfg s pkttype bufs) t := by
  have hsum := (postMore_spec h pkttype bufs).2 t
  unfold Balanced at hb ⊢
  omega

theorem decPosted_inv (h : Inv cfg s) (pkttype : PktType) :
    Inv cfg (decPosted s pkttype) where
  map := h.map
  posted_le := by
    intro t
    have hle := h.posted_le t
    show Function.update s.posted pkttype (s.posted pkttype - 1) t ≤ maxPost cfg t
    by_cases ht : t = pkttype
    · rw [ht] at hle ⊢
      rw [Function.update_self]
      omega
    · rw [Function.update_of_ne ht]
      exact hle

theorem decPosted_posted (s : Prot) (pkttype t : PktType) :
    (decPosted s pkttype).posted t = s.posted t - if t = pkttype then 1 else 0 := by
  show Function.update s.posted pkttype (s.posted pkttype - 1) t = _
  by_cases ht : t = pkttype
  · rw [ht, Function.update_self, if_pos rfl]
  · rw [Function.update_of_ne ht, if_neg ht, Nat.sub_zero]

/-- The order of an event or info completion: the counter of its type stays right exactly when
it is decremented for an id that is outstanding. -/
theorem repostThenGet_spec (h : Inv cfg s) (hty : pkttype ≠ .noCheck) (pktid : Nat)
    (bufs : List Buffer) :
    Inv cfg (repostThenGet cfg s pkttype pktid bufs) ∧
    (∀ t, t ≠ pkttype → Balanced s t → Balanced (repostThenGet cfg s pkttype pktid bufs) t) ∧
    (Balanced s pkttype →
      (Balanced (repostThenGet cfg s pkttype pktid bufs) pkttype ↔
        namesHeld cfg s pktid pkttype bufs = (s.posted pkttype != 0))) := by
  have hdec := decPosted_inv h pkttype
  obtain ⟨hinv, hsum⟩ := postMore_spec hdec pkttype bufs
  have hheld := postBufs_held pkttype
    (maxPost cfg pkttype - (decPosted s pkttype).posted pkttype) bufs hdec.map rfl pktid
  obtain ⟨s₁, hs₁⟩ : ∃ s₁, postMore cfg (decPosted s pkttype) pkttype bufs = s₁ := ⟨_, rfl⟩
  obtain ⟨m', pkt, hget⟩ : ∃ m' pkt, packetGet s₁.pktidCtrlMap pktid pkttype = (m', pkt) :=
    ⟨_, _, rfl⟩
  have hnames : held s₁.pktidCtrlMap pktid pkttype = namesHeld cfg s pktid pkttype bufs := by
    rw [decPosted_posted, if_pos rfl] at hheld
    rw [← hs₁]
    unfold postMore namesHeld
    rw [decPosted_posted, if_pos rfl]
    exact hheld
  have hresult : repostThenGet cfg s pkttype pktid bufs = { s₁ with pktidCtrlMap := m' } := by
    unfold repostThenGet
    rw [hs₁]
    dsimp only
    rw [hget]
  rw [hs₁] at hinv hsum
  obtain ⟨hok, -, hcount⟩ := packetGet_spec hinv.map hty hget
  rw [hresult]
  refine ⟨⟨hok, hinv.posted_le⟩, fun t ht hb => ?_, fun hb => ?_⟩
  · have h1 := hsum t
    have h2 := hcount t
    rw [decPosted_posted, if_neg ht, Nat.sub_zero] at h1
    rw [if_neg fun hc => ht hc.1] at h2
    unfold Balanced at hb ⊢
    show s₁.posted t = outstanding m' t
    have hmap : outstanding (decPosted s pkttype).pktidCtrlMap t = outstanding s.pktidCtrlMap t :=
      rfl
    omega
  · have h1 := hsum pkttype
    have h2 := hcount pkttype
    rw [decPosted_posted, if_pos rfl] at h1
    rw [hnames] at h2
    unfold Balanced at hb ⊢
    show s₁.posted pkttype = outstanding m' pkttype ↔ _
    have hmap : outstanding (decPosted s pkttype).pktidCtrlMap pkttype =
      outstanding s.pktidCtrlMap pkttype := rfl
    cases hn : namesHeld cfg s pktid pkttype bufs with
    | true =>
      rw [hn, if_pos ⟨rfl, rfl⟩] at h2
      rw [Bool.true_eq, bne_iff_ne]
      constructor
      · intro heq
        omega
      · intro hpos
        omega
    | false =>
      rw [hn, if_neg nofun] at h2
      rw [Bool.false_eq, bne_eq_false_iff_eq]
      constructor
      · intro heq
        omega
      · intro hzero
        omega

/-- An ioctl completion looks its id up first: every counter stays right. -/
theorem ioctcmpltProcess_spec (h : Inv cfg s) (ackPending respPending : Bool) (pktId : Nat)
    (bufs : List Buffer) :
    Inv cfg (ioctcmpltProcess cfg s ackPending respPending pktId bufs) ∧
    ∀ t, Balanced s t → Balanced (ioctcmpltProcess cfg s ackPending respPending pktId bufs) t := by
  unfold ioctcmpltProcess
  split
  · exact ⟨h, fun _ hb => hb⟩
  · obtain ⟨m', pkt, hget⟩ : ∃ m' pkt, packetGet s.pktidCtrlMap pktId .ioctlRx = (m', pkt) :=
      ⟨_, _, rfl⟩
    obtain ⟨hok, hpkt, hcount⟩ := packetGet_spec h.map (nofun : PktType.ioctlRx ≠ .noCheck) hget
    have h' : Inv cfg { s with pktidCtrlMap := m' } := ⟨hok, h.posted_le⟩
    rw [hget]
    cases pkt with
    | none =>
      refine ⟨h', fun t hb => ?_⟩
      have hsame := hcount t
      rw [← hpkt, if_neg nofun, Nat.add_zero] at hsame
      exact hb.trans hsame
    | some p =>
      have hdec := decPosted_inv h' .ioctlRx
      refine ⟨(postMore_spec hdec .ioctlRx bufs).1, fun t hb => postMore_balanced hdec _ _ ?_⟩
      have hless := hcount t
      rw [← hpkt] at hless
      unfold Balanced at hb ⊢
      rw [decPosted_posted]
      show s.posted t - _ = outstanding m' t
      by_cases ht : t = .ioctlRx
      · rw [if_pos ⟨ht, rfl⟩] at hless
        rw [if_pos ht]
        omega
      · rw [if_neg fun hc => ht hc.1] at hless
        rw [if_neg ht]
        omega

/-- The condition on a step that keeps a counter right. -/
def stepHeld (cfg : Cfg) (t : PktType) (s : Prot) (e : Call) : Bool :=
  match t with
  | .eventRx => eventsHeld cfg s e
  | .infoRx => infosHeld cfg s e
  | _ => true

/-- **One step** keeps the counters below their bounds, and keeps a counter right under its
condition. -/
theorem step_inv {s' : Prot} {e : Call} {r : Unit} (h : Inv cfg s)
    (hs : step cfg s e = some (s', r)) :
    Inv cfg s' ∧ ∀ t, stepHeld cfg t s e = true → Balanced s t → Balanced s' t := by
  cases e with
  | postIoctl bufs =>
    cases hs
    exact ⟨(postMore_spec h .ioctlRx bufs).1, fun t _ hb => postMore_balanced h _ _ hb⟩
  | postEvent bufs =>
    cases hs
    exact ⟨(postMore_spec h .eventRx bufs).1, fun t _ hb => postMore_balanced h _ _ hb⟩
  | postInfo bufs =>
    cases hs
    exact ⟨(postMore_spec h .infoRx bufs).1, fun t _ hb => postMore_balanced h _ _ hb⟩
  | ioctlCmplt ackPending respPending pktId bufs =>
    cases hs
    obtain ⟨hinv, hbal⟩ := ioctcmpltProcess_spec h ackPending respPending pktId bufs
    exact ⟨hinv, fun t _ hb => hbal t hb⟩
  | event bufid bufs =>
    cases hs
    obtain ⟨hinv, hother, hiff⟩ :=
      repostThenGet_spec h (nofun : PktType.eventRx ≠ .noCheck) bufid bufs
    refine ⟨hinv, fun t hcond hb => ?_⟩
    by_cases ht : t = .eventRx
    · subst ht
      exact (hiff hb).2 (beq_iff_eq.1 hcond)
    · exact hother t ht hb
  | info pktid bufs =>
    cases hs
    obtain ⟨hinv, hother, hiff⟩ :=
      repostThenGet_spec h (nofun : PktType.infoRx ≠ .noCheck) pktid bufs
    unfold infobufComplete
    split
    · exact ⟨h, fun _ _ hb => hb⟩
    · next hpos =>
      refine ⟨hinv, fun t hcond hb => ?_⟩
      by_cases ht : t = .infoRx
      · subst ht
        have hnames := (Bool.or_eq_true _ _).mp hcond
        rw [beq_iff_eq] at hnames
        refine (hiff hb).2 ((hnames.resolve_left hpos).trans ?_)
        exact (bne_iff_ne.2 hpos).symm
      · exact hother t ht hb

theorem runs_keep_inv (cfg : Cfg) (uninit : Contents) (es : List Call) (s : Prot)
    (tr : List (Call × Unit)) (h : runs (step cfg) (init uninit) es = some (s, tr)) :
    Inv cfg s :=
  runs_inv (step cfg) (fun s _ => Inv cfg s) (fun _ _ _ _ _ hi hs => (step_inv hi hs).1)
    (init uninit) s es tr (inv_init cfg uninit) h

/-- A counter is right after every run whose steps meet its condition. -/
theorem runs_balanced (cfg : Cfg) (uninit : Contents) (t : PktType) (es : List Call) (s : Prot)
    (tr : List (Call × Unit)) (hm : meets (step cfg) (stepHeld cfg t) (init uninit) es = true)
    (h : runs (step cfg) (init uninit) es = some (s, tr)) : Balanced s t := by
  have hboth : Inv cfg s ∧ Balanced s t := by
    refine runs_inv_of_meets (step cfg) (stepHeld cfg t) (fun s _ => Inv cfg s ∧ Balanced s t)
      ?_ (init uninit) s es tr ⟨inv_init cfg uninit, balanced_init uninit t⟩ hm h
    intro s _ e s' r ⟨hinv, hb⟩ hcond hs
    obtain ⟨hinv', hbal⟩ := step_inv hinv hs
    exact ⟨hinv', hbal t hcond hb⟩
  exact hboth.2

/-! ## Top theorem -/

/-- **The posted control buffers.**  No counter exceeds its bound, and the ioctl counter is the
number of ids outstanding, whatever the completions name.  The event and the info counter are
too, in a run whose completions of that type name buffers that are outstanding. -/
theorem ctrl_bufs_conserved (cfg : Cfg) (uninit : Contents) (es : List Call) (s : Prot)
    (tr : List (Call × Unit)) (h : runs (step cfg) (init uninit) es = some (s, tr)) :
    (∀ t, s.posted t ≤ maxPost cfg t) ∧
    s.posted .ioctlRx = outstanding s.pktidCtrlMap .ioctlRx ∧
    (meets (step cfg) (eventsHeld cfg) (init uninit) es = true →
      s.posted .eventRx = outstanding s.pktidCtrlMap .eventRx) ∧
    (meets (step cfg) (infosHeld cfg) (init uninit) es = true →
      s.posted .infoRx = outstanding s.pktidCtrlMap .infoRx) :=
  ⟨(runs_keep_inv cfg uninit es s tr h).posted_le,
    runs_balanced cfg uninit .ioctlRx es s tr (meets_true (step cfg) _ es) h,
    fun hm => runs_balanced cfg uninit .eventRx es s tr hm h,
    fun hm => runs_balanced cfg uninit .infoRx es s tr hm h⟩

def cfg₀ : Cfg := ⟨64, 20⟩

def uninit₀ : Contents := ⟨0, .dataTx, 0, none, 0, 0, 0⟩

def buffer₀ : Buffer := ⟨5, 4096, 2048, 0, 0⟩

theorem ctrl_bufs_conserved_two :
    ∃ s tr, runs (step cfg₀) (init uninit₀)
        [.postEvent [buffer₀], .event 1024 [buffer₀]] = some (s, tr) ∧
      (∀ t, s.posted t ≤ maxPost cfg₀ t) ∧
      s.posted .eventRx = outstanding s.pktidCtrlMap .eventRx := by
  have hm : meets (step cfg₀) (eventsHeld cfg₀) (init uninit₀)
    [.postEvent [buffer₀], .event 1024 [buffer₀]] = true := by rfl
  obtain ⟨s, tr, h⟩ : ∃ s tr, runs (step cfg₀) (init uninit₀)
    [.postEvent [buffer₀], .event 1024 [buffer₀]] = some (s, tr) := ⟨_, _, rfl⟩
  have hall := ctrl_bufs_conserved cfg₀ uninit₀ _ s tr h
  exact ⟨s, tr, h, hall.1, hall.2.2.1 hm⟩

/-- An event completion with an id that was never issued: the counter is one less than the
number of buffers outstanding. -/
theorem ctrl_bufs_conserved_fails :
    ∃ s tr, runs (step cfg₀) (init uninit₀)
        [.postEvent [buffer₀, buffer₀], .event 7 []] = some (s, tr) ∧
      s.posted .eventRx = 1 ∧ outstanding s.pktidCtrlMap .eventRx = 2 :=
  ⟨_, _, rfl, by rfl, by decide +kernel⟩

end Bcmdhd.CtrlBufs
