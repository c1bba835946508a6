import Bcmdhd.Lib.Runs
import Bcmdhd.Tcpack.Frame
import Mathlib.Data.List.Nodup
import Mathlib.Data.List.Perm.Basic

/-!
# TCP ACKs replaced in the queue (`dhd_tcpack_suppress`)

`tcpack_info_tbl` points to queued ACKs, one of a flow.  A newer ACK of the flow is copied over
the one in the queue and freed; `dhd_tcpack_check_xmit` takes a packet that leaves the queue out of
the table.

    runs (step mode) init es = some (s, tr) →  a packet copied has both headers →
      the table holds queued packets of different flows ∧
      the highest ACK number of a flow is in the queue or has left it   (tcpack_suppress_carries)
-/

namespace Bcmdhd.Tcpack.Suppress

open Runs Records

/-! ## Algorithm -/

/-- `pkt_in_q` of the entries of `tcpack_info_tbl`, and `tcpack_info_cnt`. -/
structure Module where
  tbl : List (Option Nat)
  cnt : Nat

/-- The queued packets with their frames. -/
abbrev Queue := List (Nat × Frame)

def frameAt : Queue → Nat → Option Frame
  | [], _ => none
  | x :: queue, pkt => if x.1 = pkt then some x.2 else frameAt queue pkt

def setFrame (queue : Queue) (pkt : Nat) (f : Frame) : Queue :=
  queue.map fun x => if x.1 = pkt then (pkt, f) else x

/-- Outcome of the loop over the table. -/
inductive Scan
  | unexpected
  | same (old : Nat) (f : Frame)
  | absent

/-- `none`: an entry points to a packet that is not queued any more. -/
def scan (queue : Queue) (new : Frame) : List (Option Nat) → Option Scan
  | [] => some .absent
  | none :: _ => some .unexpected
  | some old :: tbl =>
    match frameAt queue old with
    | none => none
    | some f => if f.flow = new.flow then some (.same old f) else scan queue new tbl

/-- `bcopy(new_ip_hdr, old_ip_hdr, new_ip_total_len)` -/
def copyHeaders (new old : Frame) : Frame :=
  { old with data := writeAt old.data ETHER_HDR_LEN (readAt new.data ETHER_HDR_LEN new.ipTotalLen) }

def sameHdrLens (new old : Frame) : Bool :=
  new.ipHdrLen = old.ipHdrLen ∧ new.tcpHdrLen = old.tcpHdrLen

/-- The module, the queue, and whether the packet was freed. -/
def tcpackSuppress (mode : Mode) (m : Module) (queue : Queue) (pkt : Nat) (new : Frame) :
    Option (Module × Queue × Bool) :=
  if mode ≠ .off ∧ new.isTcpack then
    match scan queue new (m.tbl.take m.cnt) with
    | none => none
    | some (.same old f) =>
      if tcpseqGt new.tcpAckNum f.tcpAckNum ∧ sameHdrLens new f then
        some (m, setFrame queue old (copyHeaders new f), true)
      else some (m, queue, false)
    | some .absent =>
      if m.cnt < TCPACK_INFO_MAXNUM then
        some ({ tbl := m.tbl.set m.cnt (some pkt), cnt := m.cnt + 1 }, queue, false)
      else some (m, queue, false)
    | some .unexpected => some (m, queue, false)
  else some (m, queue, false)

/-- The last entry moves to place `i`. -/
def removeAt (m : Module) (i : Nat) : Module :=
  let last := m.cnt - 1
  let tbl := if i < last then m.tbl.set i (m.tbl[last]?).join else m.tbl
  { tbl := tbl.set last none, cnt := last }

/-- `pktlen` is without the header of the protocol. -/
def tcpackCheckXmit (mode : Mode) (m : Module) (pkt pktlen : Nat) : Module :=
  if mode = .off then m
  else if pktlen < TCPACKSZMIN ∨ pktlen > TCPACKSZMAX then m
  else
    match (m.tbl.take m.cnt).findIdx? fun e => e = some pkt with
    | none => m
    | some i => removeAt m i

/-! ## Runs -/

inductive Call
  | suppress (pkt : Nat) (f : Frame)
  | leave (pkt : Nat)

/-- The module, the queue, what left it, and what was submitted. -/
structure State where
  mod : Module
  queue : Queue
  left : Queue
  submitted : Queue

def init : State where
  mod := { tbl := List.replicate TCPACK_INFO_MAXNUM none, cnt := 0 }
  queue := []
  left := []
  submitted := []

/-- A packet is submitted once; it is queued if `dhd_tcpack_suppress` returns FALSE.  A packet that
leaves the queue is passed to `dhd_tcpack_check_xmit`. -/
def step (mode : Mode) (s : State) : Call → Option (State × Bool)
  | .suppress pkt f =>
    if pkt ∈ s.submitted.map Prod.fst then none
    else
      (tcpackSuppress mode s.mod s.queue pkt f).map fun r =>
        ({ mod := r.1, queue := if r.2.2 then r.2.1 else (pkt, f) :: r.2.1, left := s.left,
           submitted := (pkt, f) :: s.submitted }, r.2.2)
  | .leave pkt =>
    (frameAt s.queue pkt).map fun f =>
      ({ s with mod := tcpackCheckXmit mode s.mod pkt f.len,
                queue := s.queue.filter fun x => x.1 ≠ pkt,
                left := (pkt, f) :: s.left }, false)

/-- The packet that `new` is copied over. -/
def replaced (mode : Mode) (s : State) (new : Frame) : Option Frame :=
  if mode ≠ .off ∧ new.isTcpack then
    match scan s.queue new (s.mod.tbl.take s.mod.cnt) with
    | some (.same _ f) =>
      if tcpseqGt new.tcpAckNum f.tcpAckNum ∧ sameHdrLens new f then some f else none
    | _ => none
  else none

/-- The IP length covers both headers, and the TCP header its ACK number. -/
def wholeHeaders (f : Frame) : Bool := f.ipHdrLen + f.tcpHdrLen ≤ f.ipTotalLen ∧ 12 ≤ f.tcpHdrLen

/-- What is copied has both headers. -/
def copies (mode : Mode) (s : State) : Call → Bool
  | .suppress _ f => (replaced mode s f).isNone || wholeHeaders f
  | .leave _ => true

/-! ## The copy -/

section Copy

variable {new old : Frame}

theorem copy_data (new old : Frame) (i : Nat) :
    (copyHeaders new old).data i =
      if ETHER_HDR_LEN ≤ i ∧ i < ETHER_HDR_LEN + new.ipTotalLen then new.data i
      else old.data i := by
  unfold copyHeaders writeAt readAt
  dsimp only
  by_cases h1 : ETHER_HDR_LEN ≤ i
  · rw [if_pos h1]
    by_cases h2 : i < ETHER_HDR_LEN + new.ipTotalLen
    · rw [if_pos ⟨h1, h2⟩, List.getElem?_map, List.getElem?_range (by omega)]
      show new.data (ETHER_HDR_LEN + (i - ETHER_HDR_LEN)) = _
      rw [Nat.add_sub_cancel' h1]
    · rw [if_neg fun h => h2 h.2, List.getElem?_eq_none]
      · rfl
      · rw [List.length_map, List.length_range]
        omega
  · rw [if_neg h1, if_neg fun h => h1 h.1]

/-- A byte that both have is not changed. -/
theorem copy_same {i : Nat} (h : new.data i = old.data i) :
    (copyHeaders new old).data i = old.data i := by
  rw [copy_data]
  split
  · exact h
  · rfl

theorem copy_or (new old : Frame) (i : Nat) :
    (copyHeaders new old).byte i = new.byte i ∨ (copyHeaders new old).byte i = old.byte i := by
  unfold Frame.byte
  rw [copy_data]
  split
  · exact Or.inl rfl
  · exact Or.inr rfl

theorem copy_ipHdrLen (h : new.ipHdrLen = old.ipHdrLen) :
    (copyHeaders new old).ipHdrLen = old.ipHdrLen := by
  unfold Frame.ipHdrLen at *
  rcases copy_or new old ETHER_HDR_LEN with hb | hb
  · rw [hb, h]
  · rw [hb]

theorem copy_tcpHdr (h : new.ipHdrLen = old.ipHdrLen) :
    (copyHeaders new old).tcpHdr = old.tcpHdr ∧ new.tcpHdr = old.tcpHdr := by
  unfold Frame.tcpHdr
  rw [copy_ipHdrLen h, h]
  exact ⟨rfl, rfl⟩

theorem readAt_eq {d d' : Nat → UInt8} {p n : Nat} (h : readAt d p n = readAt d' p n) {i : Nat}
    (hp : p ≤ i) (hi : i < p + n) : d i = d' i := by
  unfold readAt at h
  have hmem : i - p ∈ List.range n := List.mem_range.mpr (by omega)
  have heq := List.map_inj_left.mp h (i - p) hmem
  rwa [Nat.add_sub_cancel' hp] at heq

theorem copy_flow (h : new.ipHdrLen = old.ipHdrLen) (hflow : old.flow = new.flow) :
    (copyHeaders new old).flow = old.flow := by
  obtain ⟨h1, h2⟩ := copy_tcpHdr h
  unfold Frame.flow at *
  rw [Prod.mk.injEq, h2] at hflow
  rw [h1]
  congr 1
  · apply readAt_congr
    intro i hp hi
    exact copy_same (readAt_eq hflow.1 hp hi).symm
  · apply readAt_congr
    intro i hp hi
    exact copy_same (readAt_eq hflow.2 hp hi).symm

/-- The headers, if the IP length covers them. -/
theorem copy_headers (hw : wholeHeaders new = true) {i : Nat} (hp : ETHER_HDR_LEN ≤ i)
    (hi : i < ETHER_HDR_LEN + (new.ipHdrLen + new.tcpHdrLen)) :
    (copyHeaders new old).data i = new.data i := by
  obtain ⟨h1, -⟩ := of_decide_eq_true hw
  rw [copy_data, if_pos ⟨hp, by omega⟩]

theorem copy_ackNum (h : new.ipHdrLen = old.ipHdrLen) (hw : wholeHeaders new = true) :
    (copyHeaders new old).tcpAckNum = new.tcpAckNum := by
  obtain ⟨-, h12⟩ := of_decide_eq_true hw
  obtain ⟨h1, h2⟩ := copy_tcpHdr h
  have hb : ∀ i, i < 4 → (copyHeaders new old).byte (old.tcpHdr + 8 + i) =
      new.byte (old.tcpHdr + 8 + i) := by
    intro i hi
    unfold Frame.byte
    rw [copy_headers hw]
    · unfold Frame.tcpHdr
      omega
    · rw [← h2]
      unfold Frame.tcpHdr
      omega
  unfold Frame.tcpAckNum Frame.ntoh32 Frame.ntoh16
  rw [h1, h2, hb 0 (by omega), hb 1 (by omega), hb 2 (by omega)]
  rw [show old.tcpHdr + 8 + 2 + 1 = old.tcpHdr + 8 + 3 from rfl, hb 3 (by omega)]

end Copy

/-! ## The queue -/

section Lookup

variable {queue : Queue} {pkt id : Nat} {f g : Frame}

theorem frameAt_mem (h : frameAt queue pkt = some f) : (pkt, f) ∈ queue := by
  induction queue with
  | nil => cases h
  | cons x queue ih =>
    unfold frameAt at h
    split at h
    · next hx =>
      cases h
      rw [← hx]
      exact List.mem_cons_self
    · exact List.mem_cons_of_mem x (ih h)

theorem frameAt_of_mem (hnd : (queue.map Prod.fst).Nodup) (h : (pkt, f) ∈ queue) :
    frameAt queue pkt = some f := by
  induction queue with
  | nil => cases h
  | cons x queue ih =>
    rw [List.map_cons, List.nodup_cons] at hnd
    unfold frameAt
    rcases List.mem_cons.mp h with rfl | h
    · exact if_pos rfl
    · have hne : x.1 ≠ pkt := fun he => hnd.1 (he ▸ List.mem_map.mpr ⟨_, h, rfl⟩)
      rw [if_neg hne]
      exact ih hnd.2 h

theorem frameAt_cons_ne (h : id ≠ pkt) : frameAt ((pkt, f) :: queue) id = frameAt queue id :=
  if_neg fun he => h he.symm

theorem frameAt_cons_self : frameAt ((pkt, f) :: queue) pkt = some f := if_pos rfl

theorem setFrame_fst (queue : Queue) (pkt : Nat) (f : Frame) :
    (setFrame queue pkt f).map Prod.fst = queue.map Prod.fst := by
  unfold setFrame
  rw [List.map_map]
  apply List.map_congr_left
  intro x _
  show (if x.1 = pkt then (pkt, f) else x).1 = x.1
  split
  · next h => exact h.symm
  · rfl

theorem mem_setFrame {x : Nat × Frame} :
    x ∈ setFrame queue pkt f ↔ x ∈ queue ∧ x.1 ≠ pkt ∨ x = (pkt, f) ∧ pkt ∈ queue.map Prod.fst := by
  unfold setFrame
  rw [List.mem_map, List.mem_map]
  constructor
  · rintro ⟨y, hy, rfl⟩
    split
    · next h => exact Or.inr ⟨rfl, y, hy, h⟩
    · next h => exact Or.inl ⟨hy, h⟩
  · rintro (⟨hx, hne⟩ | ⟨rfl, y, hy, he⟩)
    · exact ⟨x, hx, if_neg hne⟩
    · exact ⟨y, hy, if_pos he⟩

theorem frameAt_setFrame_self (hnd : (queue.map Prod.fst).Nodup) (h : frameAt queue pkt = some g) :
    frameAt (setFrame queue pkt f) pkt = some f := by
  apply frameAt_of_mem
  · rwa [setFrame_fst]
  · exact mem_setFrame.mpr (Or.inr ⟨rfl, List.mem_map.mpr ⟨_, frameAt_mem h, rfl⟩⟩)

theorem frameAt_setFrame_ne (h : id ≠ pkt) :
    frameAt (setFrame queue pkt f) id = frameAt queue id := by
  induction queue with
  | nil => rfl
  | cons x queue ih =>
    show frameAt ((if x.1 = pkt then (pkt, f) else x) :: setFrame queue pkt f) id = _
    unfold frameAt
    rw [ih]
    by_cases hx : x.1 = pkt
    · rw [if_pos hx, if_neg fun he => h he.symm, if_neg fun he => h (he.symm.trans hx)]
    · rw [if_neg hx]

theorem frameAt_filter (h : id ≠ pkt) :
    frameAt (queue.filter fun x => x.1 ≠ pkt) id = frameAt queue id := by
  induction queue with
  | nil => rfl
  | cons x queue ih =>
    by_cases hx : x.1 = pkt
    · rw [List.filter_cons_of_neg (by simpa using hx), ih]
      exact (if_neg fun he => h (he.symm.trans hx)).symm
    · rw [List.filter_cons_of_pos (by simpa using hx)]
      unfold frameAt
      rw [ih]

end Lookup

/-! ## The table -/

/-- The first entries hold `l`, the others are empty. -/
structure Table (m : Module) (l : List Nat) : Prop where
  tbl : m.tbl = l.map some ++ List.replicate (TCPACK_INFO_MAXNUM - l.length) none
  cnt : m.cnt = l.length
  length_le : l.length ≤ TCPACK_INFO_MAXNUM

section TableLemmas

variable {m : Module} {l : List Nat} {pkt i : Nat}

theorem Table.take (h : Table m l) : m.tbl.take m.cnt = l.map some := by
  rw [h.tbl, h.cnt]
  exact List.take_left' (List.length_map _)

theorem Table.add (h : Table m l) (hlt : m.cnt < TCPACK_INFO_MAXNUM) :
    Table { tbl := m.tbl.set m.cnt (some pkt), cnt := m.cnt + 1 } (l ++ [pkt]) := by
  have hcnt := h.cnt
  refine ⟨?_, ?_, ?_⟩
  · obtain ⟨k, hk⟩ : ∃ k, TCPACK_INFO_MAXNUM - l.length = k + 1 :=
      ⟨TCPACK_INFO_MAXNUM - l.length - 1, by omega⟩
    show m.tbl.set m.cnt (some pkt) = _
    rw [h.tbl, hcnt, hk, List.replicate_succ, List.set_append_right _ _ (by rw [List.length_map]),
      List.length_map, Nat.sub_self, List.set_cons_zero, List.map_append, List.length_append,
      show TCPACK_INFO_MAXNUM - (l.length + [pkt].length) = k by
        rw [List.length_singleton]
        omega,
      List.append_assoc]
    rfl
  · rw [List.length_append, List.length_singleton, ← hcnt]
  · rw [List.length_append, List.length_singleton]
    omega

/-- Removal leaves the other entries. -/
theorem Table.remove (h : Table m l) (hi : l[i]? = some pkt) :
    ∃ l', Table (removeAt m i) l' ∧ (pkt :: l').Perm l := by
  have hcnt := h.cnt
  have htbl := h.tbl
  have hle := h.length_le
  have hilt := (List.getElem?_eq_some_iff.mp hi).1
  obtain ⟨l, z, rfl⟩ := (List.eq_nil_or_concat l).resolve_left (by
    rintro rfl
    exact absurd hilt (Nat.not_lt_zero i))
  rw [List.concat_eq_append] at hcnt htbl hle hilt hi ⊢
  rw [List.length_append, List.length_singleton] at hcnt hilt hle
  have hrep : TCPACK_INFO_MAXNUM - (l ++ [z]).length + 1 = TCPACK_INFO_MAXNUM - l.length := by
    rw [List.length_append, List.length_singleton]
    omega
  rw [List.map_append, List.append_assoc] at htbl
  have hlast : m.cnt - 1 = l.length := by omega
  have hset : ∀ l' : List Nat, l'.length = l.length →
      (l'.map some ++ ([z].map some ++
        List.replicate (TCPACK_INFO_MAXNUM - (l ++ [z]).length) none)).set l.length none =
      l'.map some ++ List.replicate (TCPACK_INFO_MAXNUM - l'.length) none := by
    intro l' hl'
    rw [List.set_append_right _ _ (by rw [List.length_map]; omega), List.length_map, hl',
      Nat.sub_self, ← hrep, List.replicate_succ]
    rfl
  unfold removeAt
  dsimp only
  rw [hlast]
  by_cases hlt : i < l.length
  · have hz : m.tbl[l.length]? = some (some z) := by
      rw [htbl, List.getElem?_append_right (by rw [List.length_map]), List.length_map, Nat.sub_self]
      rfl
    rw [if_pos hlt, hz]
    refine ⟨l.set i z, ⟨?_, List.length_set.symm, by rw [List.length_set]; omega⟩, ?_⟩
    · show (m.tbl.set i (some z)).set l.length none = _
      rw [htbl, List.set_append_left _ _ (by rwa [List.length_map]), ← List.map_set]
      exact hset _ List.length_set
    · rw [List.getElem?_append_left hlt, List.getElem?_eq_getElem hlt, Option.some.injEq] at hi
      have hperm := List.getElem_cons_eraseIdx_perm hlt
      rw [hi] at hperm
      exact ((List.set_perm_cons_eraseIdx hlt z).cons pkt).trans
        ((List.Perm.swap z pkt _).trans ((hperm.cons z).trans
          (List.perm_append_singleton z l).symm))
  · have hil : i = l.length := by omega
    rw [if_neg hlt]
    refine ⟨l, ⟨?_, rfl, by omega⟩, ?_⟩
    · show m.tbl.set l.length none = _
      rw [htbl]
      exact hset l rfl
    · rw [hil, List.getElem?_append_right (Nat.le_refl _), Nat.sub_self] at hi
      cases hi
      exact (List.perm_append_singleton pkt l).symm

end TableLemmas

/-! ## What holds in every state -/

/-- The packets of the table are queued ACKs of different flows. -/
structure Entries (queue : Queue) (l : List Nat) : Prop where
  nodup : l.Nodup
  queued : ∀ id ∈ l, ∃ f, frameAt queue id = some f ∧ TCPACKSZMIN ≤ f.len ∧ f.len ≤ TCPACKSZMAX
  flows : ∀ a ∈ l, ∀ b ∈ l, ∀ f g, frameAt queue a = some f → frameAt queue b = some g →
    f.flow = g.flow → a = b

/-- A frame that is in the queue or has left it. -/
def Carried (s : State) (g : Frame) : Prop := ∃ id, (id, g) ∈ s.queue ∨ (id, g) ∈ s.left

/-- The ACK numbers submitted for `flow` lie in the half of the sequence space from `base`. -/
def InHalf (s : State) (flow : List UInt8 × List UInt8) (base : Nat) : Prop :=
  ∀ x ∈ s.submitted, x.2.flow = flow → seqOff base x.2.tcpAckNum < 0x80000000

structure Inv (mode : Mode) (s : State) : Prop where
  table : ∃ l, Table s.mod l ∧ Entries s.queue l ∧ (mode = .off → l = [])
  nodup : (s.queue.map Prod.fst).Nodup
  known : ∀ id ∈ s.queue.map Prod.fst, id ∈ s.submitted.map Prod.fst
  source : ∀ g, Carried s g → ∃ x ∈ s.submitted, x.2.flow = g.flow ∧ x.2.tcpAckNum = g.tcpAckNum
  carried : ∀ flow base, base < 0x100000000 → InHalf s flow base → ∀ x ∈ s.submitted,
    x.2.flow = flow → ∃ g, Carried s g ∧ g.flow = flow ∧
      seqOff base x.2.tcpAckNum ≤ seqOff base g.tcpAckNum

theorem inv_init (mode : Mode) : Inv mode init := by
  refine ⟨⟨[], ⟨rfl, rfl, Nat.zero_le _⟩, ⟨List.nodup_nil, nofun, nofun⟩, fun _ => rfl⟩,
    List.nodup_nil, nofun, ?_, nofun⟩
  rintro g ⟨id, h | h⟩ <;> cases h

variable {queue : Queue} {l : List Nat} {mode : Mode} {s : State} {f new : Frame} {pkt : Nat}

/-- What the loop finds, when the entries are queued. -/
theorem scan_cases (h : ∀ id ∈ l, ∃ f, frameAt queue id = some f) (new : Frame) :
    (∃ old ∈ l, ∃ f, scan queue new (l.map some) = some (.same old f) ∧
      frameAt queue old = some f ∧ f.flow = new.flow) ∨
    (scan queue new (l.map some) = some .absent ∧
      ∀ id ∈ l, ∀ f, frameAt queue id = some f → f.flow ≠ new.flow) := by
  induction l with
  | nil => exact Or.inr ⟨rfl, nofun⟩
  | cons a l ih =>
    obtain ⟨f, hf⟩ := h a List.mem_cons_self
    rw [List.map_cons]
    unfold scan
    rw [hf]
    dsimp only
    by_cases hflow : f.flow = new.flow
    · rw [if_pos hflow]
      exact Or.inl ⟨a, List.mem_cons_self, f, rfl, hf, hflow⟩
    · rw [if_neg hflow]
      rcases ih fun id hid => h id (List.mem_cons_of_mem a hid) with ⟨old, ho, g, h1⟩ | ⟨h1, h2⟩
      · exact Or.inl ⟨old, List.mem_cons_of_mem a ho, g, h1⟩
      · refine Or.inr ⟨h1, fun id hid g hg => ?_⟩
        rcases List.mem_cons.mp hid with rfl | hid
        · rw [hf] at hg
          cases hg
          exact hflow
        · exact h2 id hid g hg

/-- What `dhd_tcpack_suppress` can do. -/
inductive Moves (mode : Mode) (s : State) (pkt : Nat) (new : Frame) : Module → Queue → Bool → Prop
  | passes : Moves mode s pkt new s.mod s.queue false
  | adds (l : List Nat) (ht : Table s.mod l) (he : Entries s.queue l)
      (hlt : s.mod.cnt < TCPACK_INFO_MAXNUM) (hack : new.isTcpack = true) (hmode : mode ≠ .off)
      (hflow : ∀ id ∈ l, ∀ f, frameAt s.queue id = some f → f.flow ≠ new.flow) :
      Moves mode s pkt new { tbl := s.mod.tbl.set s.mod.cnt (some pkt), cnt := s.mod.cnt + 1 }
        s.queue false
  | copies (old : Nat) (f : Frame) (hf : frameAt s.queue old = some f) (hflow : f.flow = new.flow)
      (hgt : tcpseqGt new.tcpAckNum f.tcpAckNum = true) (hlen : sameHdrLens new f = true)
      (hr : replaced mode s new = some f) :
      Moves mode s pkt new s.mod (setFrame s.queue old (copyHeaders new f)) true

theorem tcpackSuppress_moves (h : Inv mode s) (pkt : Nat) (new : Frame) :
    ∃ m queue ret, tcpackSuppress mode s.mod s.queue pkt new = some (m, queue, ret) ∧
      Moves mode s pkt new m queue ret := by
  obtain ⟨l, ht, he, -⟩ := h.table
  have hqueued : ∀ id ∈ l, ∃ f, frameAt s.queue id = some f := by
    intro id hid
    obtain ⟨f, hf, -⟩ := he.queued id hid
    exact ⟨f, hf⟩
  unfold tcpackSuppress
  by_cases hack : mode ≠ .off ∧ new.isTcpack = true
  · rw [if_pos hack, ht.take]
    rcases scan_cases hqueued new with ⟨old, -, f, hscan, hf, hflow⟩ | ⟨hscan, hflow⟩
    · rw [hscan]
      dsimp only
      by_cases hcopy : tcpseqGt new.tcpAckNum f.tcpAckNum = true ∧ sameHdrLens new f = true
      · rw [if_pos hcopy]
        refine ⟨_, _, _, rfl, .copies old f hf hflow hcopy.1 hcopy.2 ?_⟩
        unfold replaced
        rw [if_pos hack, ht.take, hscan]
        exact if_pos hcopy
      · rw [if_neg hcopy]
        exact ⟨_, _, _, rfl, .passes⟩
    · rw [hscan]
      dsimp only
      by_cases hlt : s.mod.cnt < TCPACK_INFO_MAXNUM
      · rw [if_pos hlt]
        exact ⟨_, _, _, rfl, .adds l ht he hlt hack.2 hack.1 hflow⟩
      · rw [if_neg hlt]
        exact ⟨_, _, _, rfl, .passes⟩
  · rw [if_neg hack]
    exact ⟨_, _, _, rfl, .passes⟩

theorem isTcpack_len (h : f.isTcpack = true) :
    TCPACKSZMIN ≤ f.len ∧ f.len ≤ TCPACKSZMAX := by
  obtain ⟨h1, h2, -⟩ := of_decide_eq_true h
  exact ⟨h1, h2⟩

/-- A new packet in the queue does not disturb the entries. -/
theorem Entries.cons (h : Entries queue l) (hnew : pkt ∉ queue.map Prod.fst) (f : Frame) :
    Entries ((pkt, f) :: queue) l := by
  have hne : ∀ id ∈ l, id ≠ pkt := by
    rintro id hid rfl
    obtain ⟨g, hg, -⟩ := h.queued id hid
    exact hnew (List.mem_map.mpr ⟨_, frameAt_mem hg, rfl⟩)
  refine ⟨h.nodup, ?_, ?_⟩
  · intro id hid
    rw [frameAt_cons_ne (hne id hid)]
    exact h.queued id hid
  · intro a ha b hb
    rw [frameAt_cons_ne (hne a ha), frameAt_cons_ne (hne b hb)]
    exact h.flows a ha b hb

/-- The new packet is an entry of a flow of its own. -/
theorem Entries.add (h : Entries queue l) (hnew : pkt ∉ queue.map Prod.fst)
    (hack : new.isTcpack = true)
    (hflow : ∀ id ∈ l, ∀ f, frameAt queue id = some f → f.flow ≠ new.flow) :
    Entries ((pkt, new) :: queue) (l ++ [pkt]) := by
  have hne : ∀ id ∈ l, id ≠ pkt := by
    rintro id hid rfl
    obtain ⟨g, hg, -⟩ := h.queued id hid
    exact hnew (List.mem_map.mpr ⟨_, frameAt_mem hg, rfl⟩)
  have hcons := h.cons hnew new
  refine ⟨?_, ?_, ?_⟩
  · refine (List.perm_append_singleton pkt l).nodup_iff.mpr (List.nodup_cons.mpr ⟨?_, h.nodup⟩)
    exact fun hin => hne pkt hin rfl
  · intro id hid
    rcases List.mem_append.mp hid with hid | hid
    · exact hcons.queued id hid
    · cases List.mem_singleton.mp hid
      exact ⟨new, frameAt_cons_self, isTcpack_len hack⟩
  · intro a ha b hb f g hf hg heq
    rcases List.mem_append.mp ha with ha | ha <;> rcases List.mem_append.mp hb with hb | hb
    · exact hcons.flows a ha b hb f g hf hg heq
    · cases List.mem_singleton.mp hb
      rw [frameAt_cons_ne (hne a ha)] at hf
      rw [frameAt_cons_self] at hg
      cases hg
      exact absurd heq (hflow a ha f hf)
    · cases List.mem_singleton.mp ha
      rw [frameAt_cons_ne (hne b hb)] at hg
      rw [frameAt_cons_self] at hf
      cases hf
      exact absurd heq.symm (hflow b hb g hg)
    · rw [List.mem_singleton.mp ha, List.mem_singleton.mp hb]

/-- A frame of the same flow and length in its place. -/
theorem Entries.setFrame (h : Entries queue l) (hnd : (queue.map Prod.fst).Nodup) {old : Nat}
    {g : Frame} (hf : frameAt queue old = some f) (hflow : g.flow = f.flow) (hlen : g.len = f.len) :
    Entries (setFrame queue old g) l := by
  have hsame : ∀ id e, frameAt (Suppress.setFrame queue old g) id = some e →
      ∃ e', frameAt queue id = some e' ∧ e.flow = e'.flow := by
    intro id e he
    by_cases hid : id = old
    · subst hid
      rw [frameAt_setFrame_self hnd hf] at he
      cases he
      exact ⟨f, hf, hflow⟩
    · rw [frameAt_setFrame_ne hid] at he
      exact ⟨e, he, rfl⟩
  refine ⟨h.nodup, ?_, ?_⟩
  · intro id hid
    by_cases ho : id = old
    · subst ho
      obtain ⟨f', hf', h1, h2⟩ := h.queued id hid
      rw [hf] at hf'
      cases hf'
      exact ⟨g, frameAt_setFrame_self hnd hf, hlen ▸ h1, hlen ▸ h2⟩
    · rw [frameAt_setFrame_ne ho]
      exact h.queued id hid
  · intro a ha b hb e e' he he' heq
    obtain ⟨e₁, h1, h2⟩ := hsame a e he
    obtain ⟨e₂, h3, h4⟩ := hsame b e' he'
    exact h.flows a ha b hb e₁ e₂ h1 h3 (by rw [← h2, ← h4, heq])

/-- Without a packet that is no entry. -/
theorem Entries.filter (h : Entries queue l) (hnot : pkt ∉ l) :
    Entries (queue.filter fun x => x.1 ≠ pkt) l := by
  have hne : ∀ id ∈ l, id ≠ pkt := by
    rintro id hid rfl
    exact hnot hid
  refine ⟨h.nodup, ?_, ?_⟩
  · intro id hid
    rw [frameAt_filter (hne id hid)]
    exact h.queued id hid
  · intro a ha b hb
    rw [frameAt_filter (hne a ha), frameAt_filter (hne b hb)]
    exact h.flows a ha b hb

theorem Entries.perm {l' : List Nat} (h : Entries queue l) (pkt : Nat) (hp : (pkt :: l').Perm l) :
    Entries queue l' ∧ pkt ∉ l' := by
  have hnd := hp.nodup_iff.mpr h.nodup
  rw [List.nodup_cons] at hnd
  have hsub : ∀ id ∈ l', id ∈ l := fun id hid => hp.subset (List.mem_cons_of_mem pkt hid)
  exact ⟨⟨hnd.2, fun id hid => h.queued id (hsub id hid),
    fun a ha b hb => h.flows a (hsub a ha) b (hsub b hb)⟩, hnd.1⟩

/-- **A packet that leaves the queue** leaves the table. -/
theorem tcpackCheckXmit_spec {m : Module} (ht : Table m l) (he : Entries queue l)
    (hoff : mode = .off → l = []) (hf : frameAt queue pkt = some f) :
    ∃ l', Table (tcpackCheckXmit mode m pkt f.len) l' ∧
      Entries (queue.filter fun x => x.1 ≠ pkt) l' ∧ (mode = .off → l' = []) := by
  unfold tcpackCheckXmit
  by_cases hmode : mode = .off
  · rw [if_pos hmode]
    refine ⟨l, ht, he.filter ?_, hoff⟩
    rw [hoff hmode]
    exact List.not_mem_nil
  · rw [if_neg hmode]
    by_cases hlen : f.len < TCPACKSZMIN ∨ f.len > TCPACKSZMAX
    · rw [if_pos hlen]
      refine ⟨l, ht, he.filter ?_, hoff⟩
      intro hin
      obtain ⟨g, hg, h1, h2⟩ := he.queued pkt hin
      rw [hf] at hg
      cases hg
      omega
    · rw [if_neg hlen, ht.take]
      cases hfind : (l.map some).findIdx? fun e => e = some pkt with
      | none =>
        refine ⟨l, ht, he.filter ?_, hoff⟩
        intro hin
        rw [List.findIdx?_eq_none_iff] at hfind
        have hno := hfind (some pkt) (List.mem_map.mpr ⟨pkt, hin, rfl⟩)
        exact absurd rfl (of_decide_eq_false hno)
      | some i =>
        obtain ⟨hlt, hi, -⟩ := List.findIdx?_eq_some_iff_getElem.mp hfind
        rw [List.getElem_map, decide_eq_true_iff, Option.some.injEq] at hi
        rw [List.length_map] at hlt
        obtain ⟨l', ht', hperm⟩ := ht.remove (List.getElem?_eq_some_iff.mpr ⟨hlt, hi⟩)
        obtain ⟨he', hnot⟩ := he.perm pkt hperm
        exact ⟨l', ht', he'.filter hnot, fun h => absurd h hmode⟩

/-- What is carried stays so, or makes way for a higher ACK number of its flow. -/
theorem carried_of {s' : State} (h : Inv mode s) (hsub : s'.submitted = (pkt, new) :: s.submitted)
    (hold : ∀ g, Carried s g → ∃ g', Carried s' g' ∧ g'.flow = g.flow ∧
      ∀ base, base < 0x100000000 → InHalf s' g.flow base →
        seqOff base g.tcpAckNum ≤ seqOff base g'.tcpAckNum)
    (hnew : ∃ g', Carried s' g' ∧ g'.flow = new.flow ∧ g'.tcpAckNum = new.tcpAckNum) :
    ∀ flow base, base < 0x100000000 → InHalf s' flow base → ∀ x ∈ s'.submitted,
      x.2.flow = flow → ∃ g, Carried s' g ∧ g.flow = flow ∧
        seqOff base x.2.tcpAckNum ≤ seqOff base g.tcpAckNum := by
  intro flow base hbase hhalf x hx hflow
  rw [hsub] at hx
  rcases List.mem_cons.mp hx with rfl | hx
  · obtain ⟨g', hc, hf, ha⟩ := hnew
    exact ⟨g', hc, hf.trans hflow, Nat.le_of_eq (congrArg _ ha.symm)⟩
  · have hhalf' : InHalf s flow base := by
      intro y hy
      exact hhalf y (hsub ▸ List.mem_cons_of_mem _ hy)
    obtain ⟨g, hc, hf, hle⟩ := h.carried flow base hbase hhalf' x hx hflow
    obtain ⟨g', hc', hf', hle'⟩ := hold g hc
    exact ⟨g', hc', hf'.trans hf, hle.trans (hle' base hbase (hf ▸ hhalf))⟩

/-- The state after `dhd_tcpack_suppress`. -/
def State.after (s : State) (pkt : Nat) (new : Frame) (m : Module) (queue : Queue) (ret : Bool) :
    State :=
  { mod := m, queue := if ret then queue else (pkt, new) :: queue, left := s.left,
    submitted := (pkt, new) :: s.submitted }

/-- A packet that is queued carries its own ACK number. -/
theorem queued_inv (h : Inv mode s) (hnew : pkt ∉ s.submitted.map Prod.fst) {m : Module}
    (htable : ∃ l, Table m l ∧ Entries ((pkt, new) :: s.queue) l ∧ (mode = .off → l = [])) :
    Inv mode (s.after pkt new m s.queue false) := by
  have hcarried : ∀ g, Carried (s.after pkt new m s.queue false) g ↔ g = new ∨ Carried s g := by
    intro g
    constructor
    · rintro ⟨id, hq | hl⟩
      · rcases List.mem_cons.mp hq with hq | hq
        · cases hq
          exact Or.inl rfl
        · exact Or.inr ⟨id, Or.inl hq⟩
      · exact Or.inr ⟨id, Or.inr hl⟩
    · rintro (rfl | ⟨id, hq | hl⟩)
      · exact ⟨pkt, Or.inl List.mem_cons_self⟩
      · exact ⟨id, Or.inl (List.mem_cons_of_mem _ hq)⟩
      · exact ⟨id, Or.inr hl⟩
  refine ⟨htable, ?_, ?_, ?_, ?_⟩
  · exact List.nodup_cons.mpr ⟨fun hin => hnew (h.known pkt hin), h.nodup⟩
  · intro id hid
    rcases List.mem_cons.mp hid with rfl | hid
    · exact List.mem_cons_self
    · exact List.mem_cons_of_mem _ (h.known id hid)
  · intro g hg
    rcases (hcarried g).mp hg with rfl | hg
    · exact ⟨(pkt, g), List.mem_cons_self, rfl, rfl⟩
    · obtain ⟨x, hx, heq⟩ := h.source g hg
      exact ⟨x, List.mem_cons_of_mem _ hx, heq⟩
  · apply carried_of h rfl
    · intro g hg
      exact ⟨g, (hcarried g).mpr (Or.inr hg), rfl, fun _ _ _ => Nat.le_refl _⟩
    · exact ⟨new, (hcarried new).mpr (Or.inl rfl), rfl, rfl⟩

/-- A packet that is copied: its ACK number is carried by the packet in the queue. -/
theorem copied_inv (h : Inv mode s) {old : Nat} (hf : frameAt s.queue old = some f)
    (hflow : f.flow = new.flow) (hgt : tcpseqGt new.tcpAckNum f.tcpAckNum = true)
    (hlen : sameHdrLens new f = true) (hwhole : wholeHeaders new = true) :
    Inv mode (s.after pkt new s.mod (setFrame s.queue old (copyHeaders new f)) true) := by
  obtain ⟨hip, -⟩ := of_decide_eq_true hlen
  have hcflow := copy_flow hip hflow
  have hcack := copy_ackNum hip hwhole
  have hold := frameAt_mem hf
  have hin : old ∈ s.queue.map Prod.fst := List.mem_map.mpr ⟨_, hold, rfl⟩
  have hcopy : Carried (s.after pkt new s.mod (setFrame s.queue old (copyHeaders new f)) true)
      (copyHeaders new f) := ⟨old, Or.inl (mem_setFrame.mpr (Or.inr ⟨rfl, hin⟩))⟩
  obtain ⟨l, ht, he, hoff⟩ := h.table
  refine ⟨⟨l, ht, he.setFrame h.nodup hf hcflow rfl, hoff⟩, ?_, ?_, ?_, ?_⟩
  · show ((setFrame s.queue old (copyHeaders new f)).map Prod.fst).Nodup
    rw [setFrame_fst]
    exact h.nodup
  · intro id hid
    have hid : id ∈ (setFrame s.queue old (copyHeaders new f)).map Prod.fst := hid
    rw [setFrame_fst] at hid
    exact List.mem_cons_of_mem _ (h.known id hid)
  · rintro g ⟨id, hq | hl⟩
    · rcases mem_setFrame.mp hq with ⟨hq, -⟩ | ⟨hq, -⟩
      · obtain ⟨x, hx, heq⟩ := h.source g ⟨id, Or.inl hq⟩
        exact ⟨x, List.mem_cons_of_mem _ hx, heq⟩
      · cases hq
        exact ⟨(pkt, new), List.mem_cons_self, (hcflow.trans hflow).symm, hcack.symm⟩
    · obtain ⟨x, hx, heq⟩ := h.source g ⟨id, Or.inr hl⟩
      exact ⟨x, List.mem_cons_of_mem _ hx, heq⟩
  · apply carried_of h rfl
    · rintro g ⟨id, hq | hl⟩
      · by_cases hid : id = old
        · -- the frame that is copied over
          subst hid
          have hg := frameAt_of_mem h.nodup hq
          rw [hf] at hg
          cases hg
          refine ⟨_, hcopy, hcflow, fun base hbase hhalf => ?_⟩
          obtain ⟨x, hx, hxf, hxa⟩ := h.source f ⟨id, Or.inl hq⟩
          have h1 := hhalf (pkt, new) List.mem_cons_self hflow.symm
          have h2 := hhalf x (List.mem_cons_of_mem _ hx) hxf
          rw [hxa] at h2
          rw [hcack]
          exact Nat.le_of_lt
            ((tcpseqGt_iff hbase new.tcpAckNum_lt f.tcpAckNum_lt h1 h2).mp hgt)
        · exact ⟨g, ⟨id, Or.inl (mem_setFrame.mpr (Or.inl ⟨hq, hid⟩))⟩, rfl,
            fun _ _ _ => Nat.le_refl _⟩
      · exact ⟨g, ⟨id, Or.inr hl⟩, rfl, fun _ _ _ => Nat.le_refl _⟩
    · exact ⟨_, hcopy, hcflow.trans hflow, hcack⟩

/-- **A packet submitted.** -/
theorem after_inv (h : Inv mode s) (hnew : pkt ∉ s.submitted.map Prod.fst)
    (hcopy : copies mode s (.suppress pkt new) = true) {m : Module} {ret : Bool}
    (hm : Moves mode s pkt new m queue ret) :
    Inv mode (s.after pkt new m queue ret) := by
  have hq : pkt ∉ s.queue.map Prod.fst := fun hin => hnew (h.known pkt hin)
  cases hm with
  | passes =>
    obtain ⟨l, ht, he, hoff⟩ := h.table
    exact queued_inv h hnew ⟨l, ht, he.cons hq new, hoff⟩
  | adds l ht he hlt hack hmode hflow =>
    exact queued_inv h hnew ⟨l ++ [pkt], ht.add hlt, he.add hq hack hflow,
      fun hoff => absurd hoff hmode⟩
  | copies old f hf hflow hgt hlen hr =>
    apply copied_inv h hf hflow hgt hlen
    unfold copies at hcopy
    dsimp only at hcopy
    rwa [hr] at hcopy

/-- **A packet that leaves.** -/
theorem leave_inv (h : Inv mode s) (hf : frameAt s.queue pkt = some f) :
    Inv mode { s with mod := tcpackCheckXmit mode s.mod pkt f.len,
                      queue := s.queue.filter fun x => x.1 ≠ pkt,
                      left := (pkt, f) :: s.left } := by
  obtain ⟨l, ht, he, hoff⟩ := h.table
  have hcarried : ∀ g, Carried { s with mod := tcpackCheckXmit mode s.mod pkt f.len,
                                        queue := s.queue.filter fun x => x.1 ≠ pkt,
                                        left := (pkt, f) :: s.left } g ↔ Carried s g := by
    intro g
    constructor
    · rintro ⟨id, hq | hl⟩
      · exact ⟨id, Or.inl (List.mem_filter.mp hq).1⟩
      · rcases List.mem_cons.mp hl with hl | hl
        · cases hl
          exact ⟨_, Or.inl (frameAt_mem hf)⟩
        · exact ⟨id, Or.inr hl⟩
    · rintro ⟨id, hq | hl⟩
      · by_cases hid : id = pkt
        · subst hid
          have hg := frameAt_of_mem h.nodup hq
          rw [hf] at hg
          cases hg
          exact ⟨_, Or.inr List.mem_cons_self⟩
        · exact ⟨id, Or.inl (List.mem_filter.mpr ⟨hq, decide_eq_true hid⟩)⟩
      · exact ⟨id, Or.inr (List.mem_cons_of_mem _ hl)⟩
  refine ⟨tcpackCheckXmit_spec ht he hoff hf, ?_, ?_, ?_, ?_⟩
  · exact h.nodup.sublist (List.filter_sublist.map Prod.fst)
  · intro id hid
    exact h.known id ((List.filter_sublist.map Prod.fst).subset hid)
  · intro g hg
    exact h.source g ((hcarried g).mp hg)
  · intro flow base hbase hhalf x hx hflow
    obtain ⟨g, hg, heq⟩ := h.carried flow base hbase hhalf x hx hflow
    exact ⟨g, (hcarried g).mpr hg, heq⟩

/-! ## Runs -/

/-- What a call of `dhd_tcpack_suppress` does to the queue: the packet joins it, or it is freed and
its headers are those of a queued packet of its flow, with a lower ACK number before. -/
def Submitted (s s' : State) (pkt : Nat) (new : Frame) : Bool → Prop
  | false => s'.queue = (pkt, new) :: s.queue
  | true => ∃ old f g, frameAt s.queue old = some f ∧ s'.queue = setFrame s.queue old g ∧
      f.flow = new.flow ∧ g.flow = new.flow ∧ tcpseqGt new.tcpAckNum f.tcpAckNum = true ∧
      g.tcpAckNum = new.tcpAckNum ∧ g.len = f.len ∧
      (∀ i, i < ETHER_HDR_LEN → g.data i = f.data i) ∧
      ∀ i, ETHER_HDR_LEN ≤ i → i < ETHER_HDR_LEN + (new.ipHdrLen + new.tcpHdrLen) →
        g.data i = new.data i

theorem suppress_spec (h : Inv mode s) (hnew : pkt ∉ s.submitted.map Prod.fst)
    (hcopy : copies mode s (.suppress pkt new) = true) :
    ∃ s' ret, step mode s (.suppress pkt new) = some (s', ret) ∧ Inv mode s' ∧
      Submitted s s' pkt new ret := by
  obtain ⟨m, queue, ret, hr, hm⟩ := tcpackSuppress_moves h pkt new
  refine ⟨s.after pkt new m queue ret, ret, ?_, after_inv h hnew hcopy hm, ?_⟩
  · unfold step
    dsimp only
    rw [if_neg hnew, hr]
    rfl
  · cases hm with
    | passes => rfl
    | adds => rfl
    | copies old f hf hflow hgt hlen hrep =>
      obtain ⟨hip, -⟩ := of_decide_eq_true hlen
      have hwhole : wholeHeaders new = true := by
        unfold copies at hcopy
        dsimp only at hcopy
        rwa [hrep] at hcopy
      refine ⟨old, f, copyHeaders new f, hf, rfl, hflow, (copy_flow hip hflow).trans hflow, hgt,
        copy_ackNum hip hwhole, rfl, ?_, fun i => copy_headers hwhole⟩
      intro i hi
      rw [copy_data, if_neg (by omega)]

theorem leave_spec (h : Inv mode s) (hf : frameAt s.queue pkt = some f) :
    ∃ s', step mode s (.leave pkt) = some (s', false) ∧ Inv mode s' ∧
      s'.left = (pkt, f) :: s.left := by
  refine ⟨_, ?_, leave_inv h hf, rfl⟩
  unfold step
  dsimp only
  rw [hf]
  rfl

theorem step_inv {s' : State} {c : Call} {r : Bool} (h : Inv mode s)
    (hcopy : copies mode s c = true) (hs : step mode s c = some (s', r)) : Inv mode s' := by
  cases c with
  | suppress pkt new =>
    by_cases hnew : pkt ∈ s.submitted.map Prod.fst
    · have hnone : step mode s (.suppress pkt new) = none := if_pos hnew
      rw [hnone] at hs
      cases hs
    · obtain ⟨s₁, r₁, hs₁, hinv, -⟩ := suppress_spec h hnew hcopy
      rw [hs] at hs₁
      cases hs₁
      exact hinv
  | leave pkt =>
    cases hf : frameAt s.queue pkt with
    | none =>
      unfold step at hs
      dsimp only at hs
      rw [hf] at hs
      cases hs
    | some f =>
      obtain ⟨s₁, hs₁, hinv, -⟩ := leave_spec h hf
      rw [hs] at hs₁
      cases hs₁
      exact hinv

/-! ## Top theorem -/

/-- **No ACK is lost.**  In a run where every packet that is copied has both headers, the table
holds queued ACKs of different flows and nothing else, a call returns TRUE exactly when it has
copied the packet over a queued one, and of the ACK numbers submitted for a flow, if they lie in
half of the sequence space, the highest is in the queue or has left it. -/
theorem tcpack_suppress_carries (mode : Mode) (es : List Call) (s : State)
    (tr : List (Call × Bool)) (hm : meets (step mode) (copies mode) init es = true)
    (h : runs (step mode) init es = some (s, tr)) :
    (∃ l : List Nat, s.mod.cnt = l.length ∧
      s.mod.tbl = l.map some ++ List.replicate (TCPACK_INFO_MAXNUM - l.length) none ∧
      l.Nodup ∧ (∀ id ∈ l, ∃ f, frameAt s.queue id = some f) ∧
      ∀ a ∈ l, ∀ b ∈ l, ∀ f g, frameAt s.queue a = some f → frameAt s.queue b = some g →
        f.flow = g.flow → a = b) ∧
    (∀ pkt new, pkt ∉ s.submitted.map Prod.fst → copies mode s (.suppress pkt new) = true →
      ∃ s' ret, step mode s (.suppress pkt new) = some (s', ret) ∧ Submitted s s' pkt new ret) ∧
    (∀ pkt f, frameAt s.queue pkt = some f →
      ∃ s', step mode s (.leave pkt) = some (s', false) ∧ s'.left = (pkt, f) :: s.left) ∧
    ∀ flow base, base < 0x100000000 → InHalf s flow base → ∀ x ∈ s.submitted, x.2.flow = flow →
      (∀ y ∈ s.submitted, y.2.flow = flow →
        seqOff base y.2.tcpAckNum ≤ seqOff base x.2.tcpAckNum) →
      ∃ g, Carried s g ∧ g.flow = flow ∧ g.tcpAckNum = x.2.tcpAckNum := by
  have hinv : Inv mode s := runs_inv_of_meets (step mode) (copies mode) (fun s _ => Inv mode s)
    (fun _ _ _ _ _ hi hc hs => step_inv hi hc hs) init s es tr (inv_init mode) hm h
  refine ⟨?_, ?_, ?_, ?_⟩
  · obtain ⟨l, ht, he, -⟩ := hinv.table
    refine ⟨l, ht.cnt, ht.tbl, he.nodup, ?_, he.flows⟩
    intro id hid
    obtain ⟨f, hf, -⟩ := he.queued id hid
    exact ⟨f, hf⟩
  · intro pkt new hnew hcopy
    obtain ⟨s', ret, hs, -, hsub⟩ := suppress_spec hinv hnew hcopy
    exact ⟨s', ret, hs, hsub⟩
  · intro pkt f hf
    obtain ⟨s', hs, -, hleft⟩ := leave_spec hinv hf
    exact ⟨s', hs, hleft⟩
  · intro flow base hbase hhalf x hx hflow hmax
    obtain ⟨g, hg, hgf, hle⟩ := hinv.carried flow base hbase hhalf x hx hflow
    obtain ⟨y, hy, hyf, hya⟩ := hinv.source g hg
    have hle' := hmax y hy (hyf.trans hgf)
    rw [hya] at hle'
    have hx32 := x.2.tcpAckNum_lt
    have hg32 := g.tcpAckNum_lt
    refine ⟨g, hg, hgf, ?_⟩
    unfold seqOff at hle hle'
    omega

/-- An ACK with number `ack`, its IP length `ipLen` and TCP header length `4 * words`. -/
def ack (ipLen words ack : Nat) : Frame where
  len := 54
  data := fun i =>
    if i = 12 then 0x08 else if i = 14 then 0x45 else if i = 17 then UInt8.ofNat ipLen
    else if i = 23 then 6 else if i = 45 then UInt8.ofNat ack
    else if i = 46 then UInt8.ofNat (0x10 * words) else if i = 47 then 0x10 else 0

/-- The second ACK is copied over the first, which then leaves. -/
theorem tcpack_suppress_carries_two :
    ∃ s tr, runs (step .replace) init [.suppress 1 (ack 40 5 10), .suppress 2 (ack 40 5 20), .leave 1] =
        some (s, tr) ∧
      tr.map Prod.snd = [false, true, false] ∧
      ∃ g, Carried s g ∧ g.flow = (ack 40 5 20).flow ∧ g.tcpAckNum = (ack 40 5 20).tcpAckNum := by
  have hm : meets (step .replace) (copies .replace) init
    [.suppress 1 (ack 40 5 10), .suppress 2 (ack 40 5 20), .leave 1] = true := by rfl
  obtain ⟨s, tr, h⟩ : ∃ s tr, runs (step .replace) init
    [.suppress 1 (ack 40 5 10), .suppress 2 (ack 40 5 20), .leave 1] = some (s, tr) := ⟨_, _, rfl⟩
  have hall := (tcpack_suppress_carries .replace _ s tr hm h).2.2.2
  have hsub : s.submitted = [(2, ack 40 5 20), (1, ack 40 5 10)] := by
    cases h
    rfl
  have hhalf : InHalf s (ack 40 5 20).flow 0 := by
    unfold InHalf
    rw [hsub]
    decide
  refine ⟨s, tr, h, ?_, ?_⟩
  · cases h
    rfl
  · apply hall (ack 40 5 20).flow 0 (by decide) hhalf (2, ack 40 5 20)
    · rw [hsub]
      exact List.mem_cons_self
    · rfl
    · rw [hsub]
      decide

/-- An ACK whose IP length stops before its TCP header is copied without its number, and so is one
with a TCP header of 8 bytes: TRUE is returned, and number 20 is nowhere. -/
theorem tcpack_suppress_carries_fails :
    ((runs (step .replace) init [.suppress 1 (ack 20 5 10), .suppress 2 (ack 20 5 20)]).map
      fun x => (x.2.map Prod.snd, x.1.queue.map fun y => (y.1, y.2.tcpAckNum), x.1.left.length)) =
      some ([false, true], [(1, 10)], 0) ∧
    ((runs (step .replace) init [.suppress 1 (ack 28 2 10), .suppress 2 (ack 28 2 20)]).map
      fun x => (x.2.map Prod.snd, x.1.queue.map fun y => (y.1, y.2.tcpAckNum), x.1.left.length)) =
      some ([false, true], [(1, 10)], 0) := by
  refine ⟨?_, ?_⟩ <;> rfl

end Bcmdhd.Tcpack.Suppress
