import Bcmdhd.Msgbuf.D2HRing

/-!
# Processing of D2H completions (`dhd_msgbuf.c`)

The polling functions take a batch of items with `dhd_prot_get_read_addr`, which moves
`rd` past all of it, and then walk the batch with `dhd_prot_process_msgtype`: each item
goes through `d2h_sync_cb` and to the handler of its type.  The walk can stop early.

    meets step pollOk p₀ es → runs step p₀ es = some (p, tr) →
      the events are those of the consumed items, in order, each once ∧
      seqnum advanced by their number ∧ …                    (consumed_processed_once)

`hang_was_sent` and `smmu_fault_occurred` are never set here.  The return code of
`dhd_prot_process_msgtype` is only printed by its callers.
-/

namespace Bcmdhd.ProcessMsg

open Runs RingIndex D2HRing

/-! ## Messages -/

inductive Handler
  | noop
  | genstatusProcess
  | ringstatusProcess
  | flowRingCreateResponseProcess
  | flowRingDeleteResponseProcess
  | flowRingFlushResponseProcess
  | ioctackProcess
  | ioctcmpltProcess
  | eventProcess
  | txstatusProcess
  | dmaxferProcess
  | processFlowRingResumeResponse
  | processFlowRingSuspendResponse
  | processInfobufComplete
  | processH2dRingCreateComplete
  | processD2hRingCreateComplete
  | processD2hRingConfigComplete
  | processD2hMbData
  | processD2hHostTsComplete
  | processFwTimestamp
  | processSnapshotComplete
deriving DecidableEq, Repr

def dhdProtFuncs : Nat := 43

def msgTypeInvalid : Nat := 0

def msgTypeInfoBufCmplt : Nat := 0x1A

/-- callback functions for messages generated by the dongle -/
def tableLookup : List (Option Handler) :=
  [some .noop, some .genstatusProcess, some .ringstatusProcess, none,
    some .flowRingCreateResponseProcess, none, some .flowRingDeleteResponseProcess, none,
    some .flowRingFlushResponseProcess, none, some .ioctackProcess, none,
    some .ioctcmpltProcess, none, some .eventProcess, none, some .txstatusProcess, none, none,
    none, some .dmaxferProcess, none, some .processFlowRingResumeResponse, none,
    some .processFlowRingSuspendResponse, none, some .processInfobufComplete, none, none,
    some .processH2dRingCreateComplete, some .processD2hRingCreateComplete, none, none, none,
    some .processD2hRingConfigComplete, none, some .processD2hMbData, none, none,
    some .processD2hHostTsComplete, some .processFwTimestamp, none,
    some .processSnapshotComplete]

/-- One item as the host finds it. -/
structure Item where
  /-- for each try of `d2h_sync_cb`, whether the whole message is there -/
  tries : List Bool
  msgType : Nat
  /-- how many buffers `dhd_prot_infobufpost` can get, for an info completion -/
  refill : Nat
deriving DecidableEq, Repr

inductive SyncMode
  | seqnum
  | xorcsum
  | none
deriving DecidableEq, Repr

/-- What stays the same while completions of a ring are processed. -/
structure Setup where
  /-- `ring == dhd->prot->d2hring_info_cpln` -/
  isInfoCpln : Bool
  maxInfobufpost : Nat
  syncMode : SyncMode
  /-- `dhd_induce_error == DHD_INDUCE_LIVELOCK` -/
  induceLivelock : Bool
deriving DecidableEq, Repr

structure Prot where
  ring : MsgbufRing
  infobufpost : Nat
deriving DecidableEq, Repr

/-! ## Algorithm -/

/-- The tries of `dhd_prot_d2h_sync_seqnum` and `dhd_prot_d2h_sync_xorcsum`: the new
`seqnum`, and whether the message is taken or skipped (livelock). -/
def syncTries (induceLivelock : Bool) (seqnum : Nat) : List Bool → Nat × Bool
  | [] => (seqnum + 1, false)
  | found :: tries =>
    if found then
      if induceLivelock then syncTries induceLivelock (seqnum + 1) tries else (seqnum + 1, true)
    else syncTries induceLivelock seqnum tries

/-- The new `seqnum` and the message type. -/
def d2hSyncCb (dhd : Setup) (seqnum : Nat) (item : Item) : Nat × Nat :=
  match dhd.syncMode with
  | .none => (seqnum, if dhd.induceLivelock then msgTypeInvalid else item.msgType)
  | .seqnum | .xorcsum =>
    let (seqnum, found) := syncTries dhd.induceLivelock seqnum item.tries
    (seqnum, if found then item.msgType else msgTypeInvalid)

def nextCurrRd (ring : MsgbufRing) : MsgbufRing :=
  { ring with currRd := if ring.currRd + 1 ≥ ring.maxItems then 0 else ring.currRd + 1 }

/-- `infobufpost` after `dhd_prot_infobufpost`, which posts up to the maximum. -/
def refillInfobufs (maxInfobufpost infobufpost refill : Nat) : Nat :=
  infobufpost + min refill (maxInfobufpost - infobufpost)

inductive Event
  | sync (idx : Nat)
  | handle (idx : Nat) (handler : Handler)
deriving DecidableEq, Repr

/-- An item after its sync; `none` is `goto done`. -/
def dispatch (dhd : Setup) (p : Prot) (idx msgType refill : Nat) : Option (Prot × List Event) :=
  if msgType ≥ dhdProtFuncs then none
  else if msgType = msgTypeInfoBufCmplt then
    if dhd.isInfoCpln then
      if p.infobufpost = 0 then none
      else
        some ({ p with
            infobufpost := refillInfobufs dhd.maxInfobufpost (p.infobufpost - 1) refill },
          [.handle idx .processInfobufComplete])
    else some (p, [])
  else
    match tableLookup.getD msgType none with
    | some handler => some (p, [.handle idx handler])
    | none => some (p, [])

/-- The walk over a buffer, given as its items with their index in the ring. -/
def processMsgtype (dhd : Setup) (p : Prot) : List (Nat × Item) → Prot × List Event
  | [] => (p, [])
  | (idx, item) :: rest =>
    let (seqnum, msgType) := d2hSyncCb dhd p.ring.seqnum item
    let p := { p with ring := nextCurrRd { p.ring with seqnum } }
    match dispatch dhd p idx msgType item.refill with
    | none => (p, [.sync idx])
    | some (p, events) =>
      let (p, more) := processMsgtype dhd p rest
      (p, .sync idx :: (events ++ more))

/-- What one turn of a polling loop meets: the published write index, and the items. -/
structure Turn where
  d2hWr : Nat
  contents : Nat → Item

def itemsAt (ring : MsgbufRing) (region : Nat × Nat) (contents : Nat → Item) : List (Nat × Item) :=
  (itemsIn ring.itemLen (some region)).map fun idx => (idx, contents idx)

/-- The loop of the polling functions, which also ends where the device is removed or the
bus reports an error (no more turns).  It gives the events and the consumed items. -/
def processMsgbuf (dhd : Setup) (bound : Nat) (p : Prot) (n : Nat) :
    List Turn → Prot × List Event × List (Nat × Item)
  | [] => (p, [], [])
  | t :: ts =>
    match getReadAddr p.ring t.d2hWr (bound - n) with
    | (ring, none) => ({ p with ring }, [], [])
    | (ring, some region) =>
      let items := itemsAt ring region t.contents
      let (p, events) := processMsgtype dhd { p with ring } items
      let n := n + region.2 / ring.itemLen
      if n ≥ bound then (p, events, items)
      else
        let (p, moreEvents, moreItems) := processMsgbuf dhd bound p n ts
        (p, events ++ moreEvents, items ++ moreItems)

/-- One call of `dhd_prot_process_msgbuf_txcpl`, `dhd_prot_process_ctrlbuf` or
`dhd_prot_process_msgbuf_infocpl`, which differ in the ring and the bound. -/
structure Poll where
  bound : Nat
  turns : List Turn

def step (dhd : Setup) (p : Prot) (c : Poll) : Option (Prot × List Event × List (Nat × Item)) :=
  some (processMsgbuf dhd c.bound p 0 c.turns)

def events (tr : List (Poll × List Event × List (Nat × Item))) : List Event :=
  tr.flatMap fun e => e.2.1

def consumed (tr : List (Poll × List Event × List (Nat × Item))) : List (Nat × Item) :=
  tr.flatMap fun e => e.2.2

/-! ## What should happen to an item -/

/-- The handler of a message type on this ring; info completions belong to one ring. -/
def handlerFor (isInfoCpln : Bool) (msgType : Nat) : Option Handler :=
  if msgType = msgTypeInfoBufCmplt then
    if isInfoCpln then some .processInfobufComplete else none
  else tableLookup.getD msgType none

/-- The type that `d2h_sync_cb` reports. -/
def syncedType (dhd : Setup) (item : Item) : Nat := (d2hSyncCb dhd 0 item).2

/-- Once through `d2h_sync_cb`, then to its handler. -/
def itemEvents (dhd : Setup) (e : Nat × Item) : List Event :=
  .sync e.1 :: ((handlerFor dhd.isInfoCpln (syncedType dhd e.2)).map (Event.handle e.1)).toList

/-- How far `seqnum` should advance over `k` items; without sync there is no epoch. -/
def epochs (dhd : Setup) (k : Nat) : Nat := if dhd.syncMode = .none then 0 else k

/-- No livelock is induced on an item that is there. -/
def syncsOnce (dhd : Setup) (item : Item) : Bool :=
  !(dhd.induceLivelock && dhd.syncMode != .none && item.tries.any id)

/-- The walk does not stop early: an out-of-range type stands only at the end, and an
info completion finds a posted buffer. -/
def batchOk (dhd : Setup) (infobufpost : Nat) : List (Nat × Item) → Bool
  | [] => true
  | (_, item) :: rest =>
    syncsOnce dhd item &&
    if syncedType dhd item ≥ dhdProtFuncs then rest.isEmpty
    else if syncedType dhd item = msgTypeInfoBufCmplt && dhd.isInfoCpln then
      infobufpost != 0 &&
        batchOk dhd (refillInfobufs dhd.maxInfobufpost (infobufpost - 1) item.refill) rest
    else batchOk dhd infobufpost rest

/-- Every batch of the loop is walked to its end. -/
def turnsOk (dhd : Setup) (bound : Nat) (p : Prot) (n : Nat) : List Turn → Bool
  | [] => true
  | t :: ts =>
    match getReadAddr p.ring t.d2hWr (bound - n) with
    | (_, none) => true
    | (ring, some region) =>
      let items := itemsAt ring region t.contents
      let n := n + region.2 / ring.itemLen
      batchOk dhd p.infobufpost items &&
        (decide (n ≥ bound) ||
          turnsOk dhd bound (processMsgtype dhd { p with ring } items).1 n ts)

def pollOk (dhd : Setup) (p : Prot) (c : Poll) : Bool := turnsOk dhd c.bound p 0 c.turns

/-- Every index published during the loop is one of the ring's. -/
def validPoll (p : Prot) (c : Poll) : Bool :=
  c.turns.all fun t => decide (t.d2hWr < p.ring.maxItems)

/-! ## Lemmas -/

/-- Whether a message is taken does not depend on the epoch. -/
theorem syncTries_snd (induce : Bool) (tries : List Bool) (s s' : Nat) :
    (syncTries induce s tries).2 = (syncTries induce s' tries).2 := by
  induction tries generalizing s s' with
  | nil => rfl
  | cons found tries ih =>
    unfold syncTries
    split
    · split
      · exact ih (s + 1) (s' + 1)
      · rfl
    · exact ih s s'

theorem syncTries_fst {induce : Bool} {tries : List Bool} (h : (induce && tries.any id) = false)
    (s : Nat) : (syncTries induce s tries).1 = s + 1 := by
  induction tries with
  | nil => rfl
  | cons found tries ih =>
    unfold syncTries
    cases found with
    | true =>
      have hi : induce = false := by simpa using h
      simp [hi]
    | false => exact ih (by simpa using h)

theorem d2hSyncCb_type (dhd : Setup) (s : Nat) (item : Item) :
    (d2hSyncCb dhd s item).2 = syncedType dhd item := by
  unfold syncedType d2hSyncCb
  split
  · rfl
  · simp only [syncTries_snd dhd.induceLivelock item.tries s 0]
  · simp only [syncTries_snd dhd.induceLivelock item.tries s 0]

theorem d2hSyncCb_seqnum {dhd : Setup} {item : Item} (h : syncsOnce dhd item = true) (s : Nat) :
    (d2hSyncCb dhd s item).1 = s + epochs dhd 1 := by
  unfold d2hSyncCb epochs
  unfold syncsOnce at h
  cases hm : dhd.syncMode <;> rw [hm] at h
  · rw [Bool.not_eq_true', show (SyncMode.seqnum != .none) = true from rfl, Bool.and_true] at h
    exact syncTries_fst h s
  · rw [Bool.not_eq_true', show (SyncMode.xorcsum != .none) = true from rfl, Bool.and_true] at h
    exact syncTries_fst h s
  · rfl

/-- A dispatch that goes on gives the item's handler event and moves nothing in the
ring. -/
theorem dispatch_some {dhd : Setup} {p p' : Prot} {idx t refill : Nat} {ev : List Event}
    (h : dispatch dhd p idx t refill = some (p', ev)) :
    p'.ring = p.ring ∧ ev = ((handlerFor dhd.isInfoCpln t).map (Event.handle idx)).toList ∧
    p'.infobufpost =
      (if t = msgTypeInfoBufCmplt && dhd.isInfoCpln then
        refillInfobufs dhd.maxInfobufpost (p.infobufpost - 1) refill
      else p.infobufpost) := by
  unfold dispatch at h
  unfold handlerFor
  split at h
  · cases h
  · split at h
    · next hinfo =>
      split at h
      · next hring =>
        split at h
        · cases h
        · cases h; simp [hinfo, hring]
      · next hring => cases h; simp [hinfo, hring]
    · next hinfo =>
      split at h
      · next hh =>
        cases h
        exact ⟨rfl, by rw [if_neg hinfo, hh]; rfl, by simp [hinfo]⟩
      · next hh =>
        cases h
        exact ⟨rfl, by rw [if_neg hinfo, hh]; rfl, by simp [hinfo]⟩

theorem dispatch_none_iff {dhd : Setup} {p : Prot} {idx t refill : Nat} :
    dispatch dhd p idx t refill = none ↔
      t ≥ dhdProtFuncs ∨ t = msgTypeInfoBufCmplt ∧ dhd.isInfoCpln = true ∧ p.infobufpost = 0 := by
  unfold dispatch
  split
  · next hge => simp [hge]
  · next hlt =>
    split
    · next hinfo =>
      split
      · next hring =>
        split
        · next hz => simp [hinfo, hring, hz]
        · next hz => simp [hlt, hz]
      · next hring => simp [hlt, hring]
    · next hinfo =>
      split <;> simp [hlt, hinfo]

/-- No handler belongs to an out-of-range type. -/
theorem handlerFor_of_ge {isInfo : Bool} {t : Nat} (h : t ≥ dhdProtFuncs) :
    handlerFor isInfo t = none := by
  have hne : t ≠ msgTypeInfoBufCmplt := by
    unfold dhdProtFuncs at h
    unfold msgTypeInfoBufCmplt
    omega
  have hlen : tableLookup.length ≤ t := h
  rw [handlerFor, if_neg hne, List.getD_eq_getElem?_getD, List.getElem?_eq_none hlen]
  rfl

theorem epochs_add (dhd : Setup) (j k : Nat) : epochs dhd (j + k) = epochs dhd j + epochs dhd k := by
  unfold epochs
  split <;> rfl

/-- The walk does not move `rd`. -/
theorem processMsgtype_ring (dhd : Setup) (p : Prot) (items : List (Nat × Item)) :
    (processMsgtype dhd p items).1.ring.rd = p.ring.rd ∧
    (processMsgtype dhd p items).1.ring.maxItems = p.ring.maxItems ∧
    (processMsgtype dhd p items).1.ring.itemLen = p.ring.itemLen := by
  induction items generalizing p with
  | nil => exact ⟨rfl, rfl, rfl⟩
  | cons e rest ih =>
    obtain ⟨idx, item⟩ := e
    simp only [processMsgtype]
    split
    · exact ⟨rfl, rfl, rfl⟩
    · next p' ev hd =>
      obtain ⟨hr, -⟩ := dispatch_some hd
      obtain ⟨h1, h2, h3⟩ := ih p'
      rw [hr] at h1 h2 h3
      exact ⟨h1, h2, h3⟩

/-- **A walk that meets the condition** processes every item of the batch once. -/
theorem processMsgtype_of_batchOk (dhd : Setup) (p : Prot) (items : List (Nat × Item))
    (h : batchOk dhd p.infobufpost items = true) :
    (processMsgtype dhd p items).2 = items.flatMap (itemEvents dhd) ∧
    (processMsgtype dhd p items).1.ring.seqnum = p.ring.seqnum + epochs dhd items.length := by
  induction items generalizing p with
  | nil => exact ⟨rfl, by unfold epochs; split <;> rfl⟩
  | cons e rest ih =>
    obtain ⟨idx, item⟩ := e
    unfold batchOk at h
    rw [Bool.and_eq_true] at h
    obtain ⟨honce, h⟩ := h
    have hseq := d2hSyncCb_seqnum honce p.ring.seqnum
    have htype := d2hSyncCb_type dhd p.ring.seqnum item
    simp only [processMsgtype, htype, hseq]
    split
    · next hd =>
      -- the walk stops here, so this is the last item
      rcases dispatch_none_iff.1 hd with hge | ⟨hinfo, hring, hz⟩
      · rw [if_pos hge, List.isEmpty_iff] at h
        subst h
        exact ⟨by simp [itemEvents, handlerFor_of_ge hge], by rfl⟩
      · have hlt : ¬ syncedType dhd item ≥ dhdProtFuncs := by rw [hinfo]; decide
        rw [if_neg hlt, if_pos (by simp [hinfo, hring])] at h
        have hz' : p.infobufpost = 0 := hz
        rw [hz'] at h
        simp at h
    · next p' ev hd =>
      obtain ⟨hr, hev, hpost⟩ := dispatch_some hd
      have hlt : ¬ syncedType dhd item ≥ dhdProtFuncs := by
        intro hge
        rw [dispatch_none_iff.2 (.inl hge)] at hd
        cases hd
      have hrest : batchOk dhd p'.infobufpost rest = true := by
        rw [if_neg hlt] at h
        rw [hpost]
        split at h
        · next hc => rw [if_pos hc]; exact (Bool.and_eq_true _ _ ▸ h).2
        · next hc => rw [if_neg hc]; exact h
      obtain ⟨h1, h2⟩ := ih p' hrest
      refine ⟨?_, ?_⟩
      · rw [h1, hev, List.flatMap_cons]
        simp [itemEvents]
      · rw [h2, hr, List.length_cons, Nat.add_comm rest.length 1, epochs_add]
        simp only [nextCurrRd]
        omega

theorem getReadAddr_seqnum {ring ring' : MsgbufRing} {wr bound : Nat} {res : Option (Nat × Nat)}
    (h : getReadAddr ring wr bound = (ring', res)) : ring'.seqnum = ring.seqnum := by
  rcases getReadAddr_cases ring wr bound with ⟨hg, -⟩ | ⟨k, hg, -⟩
  · rw [hg] at h; cases h; rfl
  · rw [hg] at h; cases h; rfl

theorem itemsAt_fst (ring : MsgbufRing) (region : Nat × Nat) (contents : Nat → Item) :
    (itemsAt ring region contents).map Prod.fst = itemsIn ring.itemLen (some region) := by
  simp [itemsAt, Function.comp_def]

/-- **One call of a polling function**, if all its batches meet the condition. -/
theorem processMsgbuf_of_turnsOk (dhd : Setup) (bound : Nat) (ts : List Turn) (p : Prot) (n : Nat)
    (h : turnsOk dhd bound p n ts = true) :
    (processMsgbuf dhd bound p n ts).2.1 =
      (processMsgbuf dhd bound p n ts).2.2.flatMap (itemEvents dhd) ∧
    (processMsgbuf dhd bound p n ts).1.ring.seqnum =
      p.ring.seqnum + epochs dhd (processMsgbuf dhd bound p n ts).2.2.length := by
  have hzero : epochs dhd 0 = 0 := by unfold epochs; split <;> rfl
  induction ts generalizing p n with
  | nil => exact ⟨rfl, by simp [processMsgbuf, hzero]⟩
  | cons t ts ih =>
    unfold turnsOk at h
    unfold processMsgbuf
    cases hg : getReadAddr p.ring t.d2hWr (bound - n) with
    | mk ring res =>
      have hseq := getReadAddr_seqnum hg
      rw [hg] at h
      cases res with
      | none => exact ⟨rfl, by simp [hseq, hzero]⟩
      | some region =>
        simp only [Bool.and_eq_true, Bool.or_eq_true, decide_eq_true_eq] at h
        obtain ⟨hbatch, hmore⟩ := h
        obtain ⟨hev, hsn⟩ := processMsgtype_of_batchOk dhd { p with ring }
          (itemsAt ring region t.contents) hbatch
        simp only
        split
        · exact ⟨hev, by rw [hsn, hseq]⟩
        · next hlt =>
          obtain ⟨h1, h2⟩ := ih _ _ (hmore.resolve_left hlt)
          refine ⟨?_, ?_⟩
          · rw [List.flatMap_append, ← hev, ← h1]
          · rw [h2, hsn, List.length_append, epochs_add, hseq, Nat.add_assoc]

/-- With published indices inside the ring, a call consumes the next slots. -/
theorem processMsgbuf_next (dhd : Setup) (bound : Nat) (ts : List Turn) (p : Prot) (n r0 R : Nat)
    (hv : ∀ t ∈ ts, t.d2hWr < p.ring.maxItems) (hrd : p.ring.rd = (r0 + R) % p.ring.maxItems) :
    (processMsgbuf dhd bound p n ts).1.ring.maxItems = p.ring.maxItems ∧ ∃ k,
      (processMsgbuf dhd bound p n ts).1.ring.rd = (r0 + (R + k)) % p.ring.maxItems ∧
      (processMsgbuf dhd bound p n ts).2.2.map Prod.fst =
        (List.range' R k).map fun j => (r0 + j) % p.ring.maxItems := by
  induction ts generalizing p n R with
  | nil => exact ⟨rfl, 0, hrd, rfl⟩
  | cons t ts ih =>
    unfold processMsgbuf
    cases hg : getReadAddr p.ring t.d2hWr (bound - n) with
    | mk ring res =>
      obtain ⟨hmax, hlen, k, hnext, hitems⟩ :=
        getReadAddr_next (hv t List.mem_cons_self) hrd hg
      cases res with
      | none =>
        simp only
        exact ⟨hmax, k, hnext, by rw [← hitems]; rfl⟩
      | some region =>
        simp only
        obtain ⟨h1, h2, h3⟩ :=
          processMsgtype_ring dhd { p with ring } (itemsAt ring region t.contents)
        simp only [hmax, hnext, hlen] at h1 h2 h3
        have hfst : (itemsAt ring region t.contents).map Prod.fst =
            (List.range' R k).map fun j => (r0 + j) % p.ring.maxItems := by
          rw [itemsAt_fst, hlen, hitems]
        split
        · exact ⟨h2, k, h1, hfst⟩
        · obtain ⟨h4, k', h5, h6⟩ := ih _ (n + region.2 / ring.itemLen) (R + k)
            (fun t' ht' => by rw [h2]; exact hv t' (List.mem_cons_of_mem t ht')) (by rw [h1, h2])
          rw [h2] at h4 h5 h6
          refine ⟨h4, k + k', by rw [← Nat.add_assoc R k k']; exact h5, ?_⟩
          rw [List.map_append, hfst, h6, ← List.map_append, ← List.range'_append_1]

theorem step_inv {dhd : Setup} {p₀ : Prot} (p : Prot)
    (tr : List (Poll × List Event × List (Nat × Item))) (c : Poll) (p' : Prot)
    (r : List Event × List (Nat × Item))
    (hi : events tr = (consumed tr).flatMap (itemEvents dhd) ∧
      p.ring.seqnum = p₀.ring.seqnum + epochs dhd (consumed tr).length)
    (hc : pollOk dhd p c = true) (hs : step dhd p c = some (p', r)) :
    events (tr ++ [(c, r)]) = (consumed (tr ++ [(c, r)])).flatMap (itemEvents dhd) ∧
      p'.ring.seqnum = p₀.ring.seqnum + epochs dhd (consumed (tr ++ [(c, r)])).length := by
  obtain ⟨hev, hseq⟩ := hi
  have hpair : processMsgbuf dhd c.bound p 0 c.turns = (p', r) := Option.some.inj hs
  obtain ⟨h1, h2⟩ := processMsgbuf_of_turnsOk dhd c.bound c.turns p 0 hc
  rw [hpair] at h1 h2
  unfold events consumed at *
  simp only [List.flatMap_append, List.flatMap_cons, List.flatMap_nil, List.append_nil,
    List.length_append, epochs_add]
  exact ⟨by rw [hev, h1], by rw [h2, hseq, Nat.add_assoc]⟩

theorem step_next {dhd : Setup} {p₀ : Prot} (p : Prot)
    (tr : List (Poll × List Event × List (Nat × Item))) (c : Poll) (p' : Prot)
    (r : List Event × List (Nat × Item))
    (hi : p.ring.maxItems = p₀.ring.maxItems ∧ ∃ R,
      p.ring.rd = (p₀.ring.rd + R) % p₀.ring.maxItems ∧
      (consumed tr).map Prod.fst =
        (List.range R).map fun j => (p₀.ring.rd + j) % p₀.ring.maxItems)
    (hc : validPoll p c = true) (hs : step dhd p c = some (p', r)) :
    p'.ring.maxItems = p₀.ring.maxItems ∧ ∃ R,
      p'.ring.rd = (p₀.ring.rd + R) % p₀.ring.maxItems ∧
      (consumed (tr ++ [(c, r)])).map Prod.fst =
        (List.range R).map fun j => (p₀.ring.rd + j) % p₀.ring.maxItems := by
  obtain ⟨hmax, R, hrd, hcons⟩ := hi
  have hpair : processMsgbuf dhd c.bound p 0 c.turns = (p', r) := Option.some.inj hs
  have hv : ∀ t ∈ c.turns, t.d2hWr < p.ring.maxItems := by
    simpa [validPoll, List.all_eq_true] using hc
  obtain ⟨h1, k, h2, h3⟩ :=
    processMsgbuf_next dhd c.bound c.turns p 0 p₀.ring.rd R hv (by rw [hrd, hmax])
  rw [hpair, hmax] at h1 h2 h3
  refine ⟨h1, R + k, h2, ?_⟩
  unfold consumed at hcons ⊢
  rw [List.flatMap_append, List.map_append, hcons, List.range_add, List.map_append,
    ← List.range'_eq_map_range, ← h3]
  simp

/-! ## Top theorem -/

/-- **Every consumed item is processed once**, in order, in every run whose batches all
meet the condition, and the epoch advances by the number of items; where the published
indices are inside the ring the consumed items are its consecutive slots up to `rd`. -/
theorem consumed_processed_once (dhd : Setup) (p₀ : Prot) (es : List Poll) (p : Prot)
    (tr : List (Poll × List Event × List (Nat × Item)))
    (hm : meets (step dhd) (pollOk dhd) p₀ es = true)
    (h : runs (step dhd) p₀ es = some (p, tr)) :
    events tr = (consumed tr).flatMap (itemEvents dhd) ∧
    p.ring.seqnum = p₀.ring.seqnum + epochs dhd (consumed tr).length ∧
    (meets (step dhd) validPoll p₀ es = true →
      (consumed tr).map Prod.fst =
        (List.range (consumed tr).length).map (fun j => (p₀.ring.rd + j) % p₀.ring.maxItems) ∧
      p.ring.rd = (p₀.ring.rd + (consumed tr).length) % p₀.ring.maxItems) := by
  obtain ⟨hev, hseq⟩ := runs_inv_of_meets (step dhd) (pollOk dhd)
    (fun p tr => events tr = (consumed tr).flatMap (itemEvents dhd) ∧
      p.ring.seqnum = p₀.ring.seqnum + epochs dhd (consumed tr).length)
    step_inv p₀ p es tr ⟨rfl, by simp [consumed, epochs]⟩ hm h
  refine ⟨hev, hseq, fun hv => ?_⟩
  obtain ⟨-, R, hrd, hcons⟩ := runs_inv_of_meets (step dhd) validPoll
    (fun p tr => p.ring.maxItems = p₀.ring.maxItems ∧ ∃ R,
      p.ring.rd = (p₀.ring.rd + R) % p₀.ring.maxItems ∧
      (consumed tr).map Prod.fst =
        (List.range R).map fun j => (p₀.ring.rd + j) % p₀.ring.maxItems)
    step_next p₀ p es tr ⟨rfl, 0, (Nat.mod_eq_of_lt p₀.ring.rd_lt).symm, rfl⟩ hv h
  have hlen : (consumed tr).length = R := by
    have := congrArg List.length hcons
    simpa using this
  rw [hlen]
  exact ⟨hcons, hrd⟩

/-- One poll that finds items of the given types, all of them arrived. -/
def pollOf (types : List Nat) : Poll :=
  ⟨0, [⟨types.length, fun i => ⟨[true], types.getD i 0, 0⟩⟩]⟩

/-- A ring of 4 items of 8 bytes, before the first completion. -/
def newProt : Prot := ⟨⟨4, 8, 0, 0, 0, 0, Nat.zero_lt_succ 7, Nat.zero_lt_succ 3⟩, 0⟩

theorem consumed_processed_once_two :
    ∃ p tr, runs (step ⟨false, 8, .seqnum, false⟩) newProt [pollOf [0x10, 0x10]] = some (p, tr) ∧
      events tr = (consumed tr).flatMap (itemEvents ⟨false, 8, .seqnum, false⟩) :=
  ⟨_, _, rfl, (consumed_processed_once ⟨false, 8, .seqnum, false⟩ newProt [pollOf [0x10, 0x10]]
    _ _ (by decide) rfl).1⟩

/-- Two batches of two items that are consumed (`rd` is 2) while only the first goes
through `d2h_sync_cb`: the first has an out-of-range type, and on the info ring it is a
completion while no buffer is posted. -/
theorem consumed_processed_once_fails :
    (∃ p tr, runs (step ⟨false, 8, .seqnum, false⟩) newProt [pollOf [43, 0x10]] = some (p, tr) ∧
      (consumed tr).map Prod.fst = [0, 1] ∧ p.ring.rd = 2 ∧ p.ring.seqnum = 1 ∧
      events tr = [.sync 0]) ∧
    (∃ p tr, runs (step ⟨true, 8, .seqnum, false⟩) newProt [pollOf [0x1A, 0x1A]] = some (p, tr) ∧
      (consumed tr).map Prod.fst = [0, 1] ∧ p.ring.rd = 2 ∧ p.ring.seqnum = 1 ∧
      events tr = [.sync 0]) :=
  ⟨⟨_, _, rfl, by decide, by decide, by decide, by decide⟩,
    ⟨_, _, rfl, by decide, by decide, by decide, by decide⟩⟩

end Bcmdhd.ProcessMsg
