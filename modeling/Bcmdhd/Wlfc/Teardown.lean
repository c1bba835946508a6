import Bcmdhd.Wlfc.Counters

/-!
# Tearing down the flow control (`dhd_wlfc_deinit`)

`dhd_wlfc_deinit` cleans up everything, and then frees the packet of every item that is still in
the hanger.  A clean-up has freed the packets of `bus->txq` and of the queues; it clears their
items only where they are `INUSE_SUPPRESSED`, and the packets of the others are freed again.

    freed by the clean-up:   s.freed ++ txqTaken ++ flushed          (cleanup_gives)
    freed from the hanger:   one packet for every item not cleared   (deinitItems_spec)

    every packet is freed once  ↔
      no item is that of a freed packet, what is taken from `bus->txq` or a queue of suppressed
      packets is INUSE_SUPPRESSED, and nothing is delayed in an entry that is not in use
                                                             (teardown_frees_once_iff)
-/

namespace Bcmdhd.Wlfc

/-! ## Algorithm -/

/-- `WLFC_HANGER_PKT_STATE_COMPLETE` -/
def Item.complete (it : Item) : Item := { it with txstatus := true, busreturned := true }

/-- `_dhd_wlfc_hanger_free_pkt`, for what it does to `pkt_state` -/
def hangerFreeMarked (cfg : Cfg) (s : State) (i : Slot) (mark : Item → Item) : State :=
  match (s.hanger i).pkt with
  | some p =>
    let it := mark (s.hanger i)
    let s := { s with hanger := Function.update s.hanger i it }
    if it.txstatus && it.busreturned then
      let s := { s with hanger := (hangerPoppkt s.hanger i true).1 }
      (s.countDrv cfg p (cfg.pkt p).fifo (-1)).free p
    else s
  | none => { s with hanger := Function.update s.hanger i { s.hanger i with state := .free } }

example (cfg : Cfg) (s : State) (i : Slot) (b : PktState) :
    hangerFreePkt cfg s i b = hangerFreeMarked cfg s i (·.mark b) := rfl

def deinitItem (cfg : Cfg) (s : State) (i : Slot) : State :=
  if (s.hanger i).state ≠ .free then hangerFreeMarked cfg s i Item.complete else s

/-- `dhd_wlfc_deinit` -/
def deinit (cfg : Cfg) (s : State) : State :=
  let s := cleanup cfg s .all
  if cfg.afq then s else (List.finRange 3072).foldl (deinitItem cfg) s

/-! ## Packets given up -/

/-- The hanger after the references to the packets of `l` are removed. -/
def removeAll (s : State) (l : List Id) : Slot → Item :=
  l.foldl (fun h p => hangerRemoveReference h p (s.tag p).hslot) s.hanger

/-- The packets of `l` are freed, and the references to those of `m` are removed. -/
structure Gives (s s' : State) (l m : List Id) : Prop where
  freed : s'.freed = s.freed ++ l
  tag : s'.tag = s.tag
  hanger : s'.hanger = removeAll s m

theorem Gives.refl (s : State) : Gives s s [] [] := ⟨(List.append_nil _).symm, rfl, rfl⟩

variable {s : State} {cfg : Cfg}

theorem Gives.trans {t u : State} {l l' m m' : List Id} (h : Gives s t l m) (h' : Gives t u l' m') :
    Gives s u (l ++ l') (m ++ m') where
  freed := by rw [h'.freed, h.freed, List.append_assoc]
  tag := h'.tag.trans h.tag
  hanger := by
    rw [h'.hanger]
    unfold removeAll
    rw [List.foldl_append, h.tag, h.hanger]
    rfl

/-- What each turn of a loop gives up, if that does not depend on the turns before it. -/
theorem gives_foldl {α : Type*} {f : State → α → State} {out ref : State → α → List Id}
    (hf : ∀ s a, Gives s (f s a) (out s a) (ref s a))
    (hframe : ∀ s a b, b ≠ a → out (f s a) b = out s b ∧ ref (f s a) b = ref s b)
    {l : List α} (hl : l.Nodup) (s : State) :
    Gives s (l.foldl f s) (l.flatMap (out s)) (l.flatMap (ref s)) := by
  induction l generalizing s with
  | nil => exact .refl s
  | cons a l ih =>
    obtain ⟨ha, hl⟩ := List.nodup_cons.mp hl
    have hne : ∀ b ∈ l, b ≠ a := fun b hb => ne_of_mem_of_not_mem hb ha
    have hout : l.flatMap (out (f s a)) = l.flatMap (out s) :=
      List.flatMap_congr fun b hb => (hframe s a b (hne b hb)).1
    have href : l.flatMap (ref (f s a)) = l.flatMap (ref s) :=
      List.flatMap_congr fun b hb => (hframe s a b (hne b hb)).2
    have hrest := ih hl (f s a)
    rw [hout, href] at hrest
    exact (hf s a).trans hrest

/-- Packets given up one by one. -/
theorem gives_packets {f : State → Id → State} {ref : Id → List Id}
    (hf : ∀ s p, Gives s (f s p) [p] (ref p)) (l : List Id) (s : State) :
    Gives s (l.foldl f s) l (l.flatMap ref) := by
  induction l generalizing s with
  | nil => exact .refl s
  | cons p l ih => exact (hf s p).trans (ih (f s p))

/-! ## Clean-up -/

section

variable {cfg : Cfg} (hafq : cfg.afq = false)
include hafq

theorem gives_cleanupTxqPkt (s : State) (p : Id) : Gives s (cleanupTxqPkt cfg s p) [p] [p] := by
  unfold cleanupTxqPkt
  dsimp only
  rw [if_neg (Bool.eq_false_iff.mp hafq)]
  exact ⟨rfl, rfl, rfl⟩

theorem gives_flushPsqPkt (k : Prec) (s : State) (p : Id) :
    Gives s (flushPsqPkt cfg k s p) [p] (if k.sup then [p] else []) := by
  unfold flushPsqPkt
  dsimp only
  rw [hafq]
  cases k.sup
  · exact ⟨rfl, rfl, rfl⟩
  · exact ⟨rfl, rfl, rfl⟩

theorem gives_cleanupTxq (s : State) (fn : PktFn) :
    Gives s (cleanupTxq cfg s fn) (txqTaken cfg s fn) (txqTaken cfg s fn) := by
  have h := gives_packets (gives_cleanupTxqPkt hafq) (txqTaken cfg s fn)
    (s.leaveTxq (txqTaken cfg s fn))
  rw [List.flatMap_singleton'] at h
  exact ⟨h.freed, h.tag, h.hanger⟩

omit hafq in
/-- The queues of packets stay as they are, and so do the entries in use. -/
theorem sameQueues_cleanupTxq (s : State) (fn : PktFn) :
    (cleanupTxq cfg s fn).psq = s.psq ∧
      ∀ d, ((cleanupTxq cfg s fn).entry d).occupied = (s.entry d).occupied := by
  unfold cleanupTxq
  dsimp only
  refine List.foldlRecOn (motive := fun t : State => t.psq = s.psq ∧
    ∀ d, (t.entry d).occupied = (s.entry d).occupied) _ _ ⟨rfl, fun _ => rfl⟩ fun t ht p _ => ?_
  unfold cleanupTxqPkt
  dsimp only
  split
  · exact ⟨ht.1, fun d => (setEntry_occupied t _ d _ (Entry.back_occupied _)).trans (ht.2 d)⟩
  · exact ⟨ht.1, fun d => (setEntry_occupied t _ d _ (Entry.back_occupied _)).trans (ht.2 d)⟩

omit hafq in
theorem flushPsq_psq (fn : PktFn) (d d' : Dest) (s : State) (k k' : Prec) :
    (flushPsq cfg fn d s k).psq d' k' = if d' = d ∧ k' = k then
      (s.psq d k).filter fun p => !fn.takes cfg p else s.psq d' k' := by
  rw [← psq_setPsq]
  unfold flushPsq
  dsimp only
  refine List.foldlRecOn (motive := fun t : State => t.psq d' k' = _) _ _ rfl fun t ht p _ => ?_
  unfold flushPsqPkt
  dsimp only
  split <;> exact ht

omit hafq in
theorem flushPsq_entry (fn : PktFn) (d : Dest) (s : State) (k : Prec) :
    (flushPsq cfg fn d s k).entry = s.entry := by
  unfold flushPsq
  dsimp only
  refine List.foldlRecOn (motive := fun t : State => t.entry = _) _ _ rfl fun t ht p _ => ?_
  unfold flushPsqPkt
  dsimp only
  split <;> exact ht

theorem gives_flushPsq (fn : PktFn) (d : Dest) (s : State) (k : Prec) :
    Gives s (flushPsq cfg fn d s k) ((s.psq d k).filter (fn.takes cfg))
      (if k.sup then (s.psq d k).filter (fn.takes cfg) else []) := by
  have h := gives_packets (gives_flushPsqPkt hafq k) ((s.psq d k).filter (fn.takes cfg))
    { s.setPsq d k ((s.psq d k).filter fun p => !fn.takes cfg p) with
      staleTail := s.staleTail || leavesStaleTail cfg fn (s.psq d k) }
  have href : ((s.psq d k).filter (fn.takes cfg)).flatMap (fun p => if k.sup then [p] else []) =
      if k.sup then (s.psq d k).filter (fn.takes cfg) else [] := by
    cases k.sup
    · exact List.flatMap_eq_nil_iff.mpr fun _ _ => rfl
    · exact List.flatMap_singleton' _
  rw [href] at h
  exact ⟨h.freed, h.tag, h.hanger⟩

end

/-- What is flushed from the queues of an entry. -/
def flushedOf (cfg : Cfg) (fn : PktFn) (s : State) (d : Dest) : List Id :=
  if (s.entry d).occupied then Prec.all.flatMap fun k => (s.psq d k).filter (fn.takes cfg) else []

/-- Those of them that had been suppressed. -/
def unreferencedOf (cfg : Cfg) (fn : PktFn) (s : State) (d : Dest) : List Id :=
  if (s.entry d).occupied then
    Prec.all.flatMap fun k => if k.sup then (s.psq d k).filter (fn.takes cfg) else []
  else []

def flushed (cfg : Cfg) (fn : PktFn) (s : State) : List Id :=
  (List.finRange 49).flatMap (flushedOf cfg fn s)

def unreferenced (cfg : Cfg) (fn : PktFn) (s : State) : List Id :=
  (List.finRange 49).flatMap (unreferencedOf cfg fn s)

theorem mem_flushed {fn : PktFn} {p : Id} :
    p ∈ flushed cfg fn s ↔
      ∃ d k, (s.entry d).occupied = true ∧ p ∈ s.psq d k ∧ fn.takes cfg p = true := by
  unfold flushed flushedOf
  rw [List.mem_flatMap]
  constructor
  · rintro ⟨d, _, hp⟩
    split at hp
    · next hd =>
      obtain ⟨k, _, hp⟩ := List.mem_flatMap.mp hp
      obtain ⟨hp, hf⟩ := List.mem_filter.mp hp
      exact ⟨d, k, hd, hp, hf⟩
    · cases hp
  · rintro ⟨d, k, hd, hp, hf⟩
    refine ⟨d, List.mem_finRange d, ?_⟩
    rw [if_pos hd]
    exact List.mem_flatMap.mpr ⟨k, mem_all k, List.mem_filter.mpr ⟨hp, hf⟩⟩

theorem mem_unreferenced {fn : PktFn} {p : Id} :
    p ∈ unreferenced cfg fn s ↔
      ∃ d ac, (s.entry d).occupied = true ∧ p ∈ s.psq d (sup ac) ∧ fn.takes cfg p = true := by
  unfold unreferenced unreferencedOf
  rw [List.mem_flatMap]
  constructor
  · rintro ⟨d, _, hp⟩
    split at hp
    · next hd =>
      obtain ⟨⟨ac, b⟩, _, hp⟩ := List.mem_flatMap.mp hp
      cases b
      · cases hp
      · obtain ⟨hp, hf⟩ := List.mem_filter.mp hp
        exact ⟨d, ac, hd, hp, hf⟩
    · cases hp
  · rintro ⟨d, ac, hd, hp, hf⟩
    refine ⟨d, List.mem_finRange d, ?_⟩
    rw [if_pos hd]
    exact List.mem_flatMap.mpr ⟨sup ac, mem_all _, List.mem_filter.mpr ⟨hp, hf⟩⟩

theorem gives_cleanupEntry (hafq : cfg.afq = false) (fn : PktFn) (s : State) (d : Dest) :
    Gives s (cleanupEntry cfg fn s d) (flushedOf cfg fn s d) (unreferencedOf cfg fn s d) := by
  have hqueues := gives_foldl (gives_flushPsq hafq fn d) (fun s k k' hk => by
      rw [flushPsq_psq, if_neg fun h => hk h.2]
      exact ⟨rfl, rfl⟩) nodup_all s
  unfold cleanupEntry flushedOf unreferencedOf
  split
  · dsimp only
    generalize Prec.all.foldl (flushPsq cfg fn d) s = t at hqueues ⊢
    rw [if_neg (Bool.eq_false_iff.mp hafq)]
    split
    · exact ⟨hqueues.freed, hqueues.tag, hqueues.hanger⟩
    · exact hqueues
  · exact .refl s

theorem cleanupEntry_other (hafq : cfg.afq = false) (fn : PktFn) (s : State) {d d' : Dest}
    (hd : d' ≠ d) :
    (cleanupEntry cfg fn s d).psq d' = s.psq d' ∧
      ((cleanupEntry cfg fn s d).entry d').occupied = (s.entry d').occupied := by
  have hqueues : ∀ l : List Prec, (l.foldl (flushPsq cfg fn d) s).psq d' = s.psq d' ∧
      (l.foldl (flushPsq cfg fn d) s).entry = s.entry := by
    intro l
    refine List.foldlRecOn (motive := fun t : State => t.psq d' = s.psq d' ∧ t.entry = s.entry)
      _ _ ⟨rfl, rfl⟩ fun t ht k _ => ?_
    rw [flushPsq_entry]
    refine ⟨funext fun k' => ?_, ht.2⟩
    rw [flushPsq_psq, if_neg fun h => hd h.1, ht.1]
  unfold cleanupEntry
  split
  · dsimp only
    obtain ⟨hpsq, hent⟩ := hqueues Prec.all
    generalize Prec.all.foldl (flushPsq cfg fn d) s = t at hpsq hent ⊢
    rw [if_neg (Bool.eq_false_iff.mp hafq)]
    split
    · exact ⟨hpsq, by rw [setEntry_of_ne t _ hd, hent]⟩
    · exact ⟨hpsq, by rw [hent]⟩
  · exact ⟨rfl, rfl⟩

/-- What a clean-up frees, and the items it clears. -/
theorem cleanup_gives (hafq : cfg.afq = false) (fn : PktFn) (s : State) :
    ∃ u, cleanup cfg s fn = { u with hanger := hangerFlush cfg fn u.hanger } ∧
      Gives s u (txqTaken cfg s fn ++ flushed cfg fn s)
        (txqTaken cfg s fn ++ unreferenced cfg fn s) := by
  have hentries := gives_foldl (gives_cleanupEntry hafq fn) (fun s d d' hd => by
    obtain ⟨hpsq, hocc⟩ := cleanupEntry_other hafq fn s hd
    unfold flushedOf unreferencedOf
    rw [hpsq, hocc]
    exact ⟨rfl, rfl⟩) (List.nodup_finRange 49) (cleanupTxq cfg s fn)
  obtain ⟨hpsq, hocc⟩ := @sameQueues_cleanupTxq cfg s fn
  have hout : flushedOf cfg fn (cleanupTxq cfg s fn) = flushedOf cfg fn s := by
    funext d
    unfold flushedOf
    rw [hpsq, hocc d]
  have href : unreferencedOf cfg fn (cleanupTxq cfg s fn) = unreferencedOf cfg fn s := by
    funext d
    unfold unreferencedOf
    rw [hpsq, hocc d]
  rw [hout, href] at hentries
  refine ⟨_, ?_, (gives_cleanupTxq hafq s fn).trans hentries⟩
  unfold cleanup
  dsimp only
  rw [if_neg (Bool.eq_false_iff.mp hafq)]

/-! ## What stays in the hanger -/

/-- The item of a packet is that of its slot number. -/
def Owned (s : State) (h : Slot → Item) : Prop := ∀ i p, (h i).pkt = some p → (s.tag p).hslot = i

theorem removeReference_pkt {h : Slot → Item} (ho : Owned s h) (q p : Id) (i : Slot) :
    ((hangerRemoveReference h q (s.tag q).hslot) i).pkt = some p ↔
      (h i).pkt = some p ∧ ¬ (p = q ∧ (h i).state = .inuseSuppressed) := by
  unfold hangerRemoveReference
  split
  · next hc =>
    by_cases hi : i = (s.tag q).hslot
    · subst hi
      rw [Function.update_self, hc.1]
      refine iff_of_false nofun ?_
      rintro ⟨hp, hn⟩
      exact hn ⟨(Option.some.inj hp).symm, hc.2⟩
    · rw [Function.update_of_ne hi, iff_self_and]
      rintro hp ⟨rfl, _⟩
      exact hi (ho i p hp).symm
  · next hc =>
    rw [iff_self_and]
    rintro hp ⟨rfl, hs⟩
    obtain rfl := ho i p hp
    exact hc ⟨hp, hs⟩

theorem removeReference_state {h : Slot → Item} {q p : Id} {i j : Slot}
    (hp : (hangerRemoveReference h q j i).pkt = some p) : hangerRemoveReference h q j i = h i := by
  rcases removeReference_item h q j i with he | ⟨_, _, hn, _⟩
  · exact he
  · exact nomatch hn.symm.trans hp

theorem removeAll_pkt (l : List Id) {h : Slot → Item} (ho : Owned s h) (p : Id) (i : Slot) :
    ((l.foldl (fun h q => hangerRemoveReference h q (s.tag q).hslot) h) i).pkt = some p ↔
      (h i).pkt = some p ∧ ¬ (p ∈ l ∧ (h i).state = .inuseSuppressed) := by
  induction l generalizing h with
  | nil => exact (and_iff_left fun hm => nomatch hm.1).symm
  | cons q l ih =>
    have ho' : Owned s (hangerRemoveReference h q (s.tag q).hslot) := fun j r hr =>
      ho j r ((removeReference_pkt ho q r j).mp hr).1
    rw [List.foldl_cons, ih ho', List.mem_cons]
    constructor
    · rintro ⟨hp, hn⟩
      rw [removeReference_state hp] at hn
      obtain ⟨hp, hq⟩ := (removeReference_pkt ho q p i).mp hp
      exact ⟨hp, fun ⟨hm, hs⟩ => hm.elim (fun he => hq ⟨he, hs⟩) fun hm => hn ⟨hm, hs⟩⟩
    · rintro ⟨hp, hn⟩
      have hp' := (removeReference_pkt ho q p i).mpr ⟨hp, fun hq => hn ⟨Or.inl hq.1, hq.2⟩⟩
      rw [removeReference_state hp']
      exact ⟨hp, fun hm => hn ⟨Or.inr hm.1, hm.2⟩⟩

/-- An item is in use as long as it has a packet. -/
def Filled (h : Slot → Item) : Prop := ∀ i, (h i).state = .free ↔ (h i).pkt = none

theorem filled_removeAll (hf : Filled s.hanger) (l : List Id) :
    Filled (removeAll s l) := by
  refine List.foldlRecOn (motive := Filled) _ _ hf fun h hh q _ i => ?_
  rcases removeReference_item h q (s.tag q).hslot i with he | ⟨_, _, hn, hs⟩
  · rw [he]
    exact hh i
  · exact iff_of_true hs hn

theorem filled_hangerFlush {h : Slot → Item} (hf : Filled h) (fn : PktFn) :
    Filled (hangerFlush cfg fn h) := by
  intro i
  rcases hangerFlush_item cfg fn h i with he | ⟨he, hs, _⟩
  · rw [he]
    exact hf i
  · rw [he]
    exact iff_of_false nofun fun hp => hs ((hf i).mpr hp)

theorem hangerFlush_pkt (cfg : Cfg) (fn : PktFn) (h : Slot → Item) (i : Slot) :
    (hangerFlush cfg fn h i).pkt = (h i).pkt := by
  rcases hangerFlush_item cfg fn h i with he | ⟨he, _⟩ <;> rw [he]

/-! ## The loop over the items -/

theorem poppkt_update {h : Slot → Item} {i : Slot} {it : Item} (hs : it.state ≠ .free) :
    (hangerPoppkt (Function.update h i it) i true).1 =
      Function.update h i { it with state := .free, gen := true, pkt := none } := by
  unfold hangerPoppkt
  rw [Function.update_self, if_pos hs, if_pos rfl, Function.update_idem]

/-- An item is emptied, and its packet freed. -/
theorem deinitItem_spec (cfg : Cfg) {i : Slot}
    (hf : (s.hanger i).state = .free ↔ (s.hanger i).pkt = none) :
    (deinitItem cfg s i).freed = s.freed ++ (s.hanger i).pkt.toList ∧
      ∃ it : Item, it.state = .free ∧ it.pkt = none ∧
        (deinitItem cfg s i).hanger = Function.update s.hanger i it := by
  unfold deinitItem
  split
  · next hs =>
    obtain ⟨p, hp⟩ := Option.ne_none_iff_exists'.mp fun hn => hs (hf.mpr hn)
    unfold hangerFreeMarked
    rw [hp]
    exact ⟨rfl, _, rfl, rfl, @poppkt_update s.hanger i (s.hanger i).complete hs⟩
  · next hs =>
    have hs := not_not.mp hs
    have hp := hf.mp hs
    refine ⟨by rw [hp]; exact (List.append_nil _).symm, s.hanger i, hs, hp, ?_⟩
    exact (Function.update_eq_self i s.hanger).symm

theorem deinitItems_spec (cfg : Cfg) {l : List Slot} (hl : l.Nodup) (hf : Filled s.hanger) :
    (l.foldl (deinitItem cfg) s).freed = s.freed ++ l.filterMap (fun i => (s.hanger i).pkt) ∧
      (∀ i ∈ l, ((l.foldl (deinitItem cfg) s).hanger i).state = .free ∧
        ((l.foldl (deinitItem cfg) s).hanger i).pkt = none) ∧
      ∀ i ∉ l, (l.foldl (deinitItem cfg) s).hanger i = s.hanger i := by
  induction l generalizing s with
  | nil => exact ⟨(List.append_nil _).symm, nofun, fun i _ => rfl⟩
  | cons j l ih =>
    obtain ⟨hj, hl⟩ := List.nodup_cons.mp hl
    obtain ⟨hfreed, it, hs, hp, hh⟩ := deinitItem_spec cfg (hf j)
    have hother : ∀ i, i ≠ j → (deinitItem cfg s j).hanger i = s.hanger i := fun i hi => by
      rw [hh, Function.update_of_ne hi]
    have hself : (deinitItem cfg s j).hanger j = it := by rw [hh, Function.update_self]
    have hf' : Filled (deinitItem cfg s j).hanger := fun i => by
      by_cases hi : i = j
      · subst hi
        rw [hself]
        exact iff_of_true hs hp
      · rw [hother i hi]
        exact hf i
    obtain ⟨hrest, hin, hout⟩ := ih hl hf'
    rw [List.foldl_cons]
    refine ⟨?_, fun i hi => ?_, fun i hi => ?_⟩
    · have hsame : l.filterMap (fun i => ((deinitItem cfg s j).hanger i).pkt) =
          l.filterMap fun i => (s.hanger i).pkt :=
        List.filterMap_congr fun i hi => by rw [hother i (ne_of_mem_of_not_mem hi hj)]
      rw [hrest, hfreed, hsame, List.append_assoc, List.filterMap_cons]
      cases (s.hanger j).pkt <;> rfl
    · rcases List.mem_cons.mp hi with rfl | hi
      · rw [hout i hj, hself]
        exact ⟨hs, hp⟩
      · exact hin i hi
    · rw [List.mem_cons, not_or] at hi
      rw [hout i hi.2, hother i hi.1]

/-! ## Each packet once -/

/-- A packet that the clean-up frees is freed again with its item if that is not cleared. -/
def StaysHeld (cfg : Cfg) (s : State) (p : Id) : Prop :=
  ∃ i, (s.hanger i).pkt = some p ∧
    ¬ (p ∈ txqTaken cfg s .all ++ unreferenced cfg .all s ∧ (s.hanger i).state = .inuseSuppressed)

theorem nodup_flushed {pl : Id → Place} (h : Rel cfg s pl) (fn : PktFn) :
    (flushed cfg fn s).Nodup := by
  have hq : ∀ d k, ∀ p ∈ (s.psq d k).filter (fn.takes cfg), (cfg.pkt p).entry = d ∧
      (cfg.pkt p).fifo = k.ac ∧ (pl p).queue = some k.sup := fun d k p hp =>
    ((h.places p).psq d k).mp (List.mem_of_mem_filter hp)
  unfold flushed
  refine List.nodup_flatMap.mpr ⟨fun d _ => ?_, (List.nodup_finRange 49).imp fun hne p hp hp' => ?_⟩
  · unfold flushedOf
    split
    · refine List.nodup_flatMap.mpr ⟨fun k _ => (h.psq d k).filter _, nodup_all.imp ?_⟩
      intro k k' hne p hp hp'
      obtain ⟨_, hk, hs⟩ := hq d k p hp
      obtain ⟨_, hk', hs'⟩ := hq d k' p hp'
      exact hne (Prec.ext (hk.symm.trans hk') (Option.some.inj (hs.symm.trans hs')))
    · exact List.nodup_nil
  · unfold flushedOf at hp hp'
    split at hp
    · split at hp'
      · obtain ⟨k, _, hk⟩ := List.mem_flatMap.mp hp
        obtain ⟨k', _, hk'⟩ := List.mem_flatMap.mp hp'
        exact hne ((hq _ k p hk).1.symm.trans (hq _ k' p hk').1)
      · cases hp'
    · cases hp

/-- What is freed, and what the hanger is left with. -/
theorem deinit_spec {pl : Id → Place} (hafq : cfg.afq = false) (h : Rel cfg s pl) :
    (∃ held : List Id, held.Nodup ∧ (∀ p, p ∈ held ↔ StaysHeld cfg s p) ∧
      (deinit cfg s).freed =
        s.freed ++ (txqTaken cfg s .all ++ flushed cfg .all s) ++ held) ∧
    ∀ i, ((deinit cfg s).hanger i).state = .free ∧ ((deinit cfg s).hanger i).pkt = none := by
  have ho : Owned s s.hanger := fun i p hp => (h.owner hafq i p hp).1
  obtain ⟨u, hu, hg⟩ := cleanup_gives hafq .all s
  have hpkt : ∀ p i, ((cleanup cfg s .all).hanger i).pkt = some p ↔ (s.hanger i).pkt = some p ∧
      ¬ (p ∈ txqTaken cfg s .all ++ unreferenced cfg .all s ∧
        (s.hanger i).state = .inuseSuppressed) := by
    intro p i
    rw [hu]
    show (hangerFlush cfg .all u.hanger i).pkt = some p ↔ _
    rw [hangerFlush_pkt, hg.hanger]
    exact removeAll_pkt _ ho p i
  have hfilled : Filled (cleanup cfg s .all).hanger := by
    rw [hu]
    refine filled_hangerFlush ?_ .all
    rw [hg.hanger]
    exact filled_removeAll h.free _
  have hfreed : (cleanup cfg s .all).freed = u.freed := by rw [hu]
  obtain ⟨hloop, hitems, _⟩ := deinitItems_spec cfg (List.nodup_finRange 3072) hfilled
  unfold deinit
  dsimp only
  rw [if_neg (Bool.eq_false_iff.mp hafq)]
  refine ⟨⟨_, ?_, fun p => ?_, by rw [hloop, hfreed, hg.freed]⟩,
    fun i => hitems i (List.mem_finRange i)⟩
  · refine (List.nodup_finRange 3072).filterMap fun i j p hi hj => ?_
    exact (ho i p ((hpkt p i).mp hi).1).symm.trans (ho j p ((hpkt p j).mp hj).1)
  · rw [List.mem_filterMap]
    constructor
    · rintro ⟨i, _, hi⟩
      exact ⟨i, (hpkt p i).mp hi⟩
    · rintro ⟨i, hi⟩
      exact ⟨i, List.mem_finRange i, (hpkt p i).mpr hi⟩

/-- What it takes for packet `p` to be freed once. -/
structure LetGo (cfg : Cfg) (s : State) (p : Id) : Prop where
  freed : p ∈ s.freed → ∀ i, (s.hanger i).pkt ≠ some p
  txq : p ∈ s.bus → s.inTxq p = true → (s.hanger (s.tag p).hslot).state = .inuseSuppressed
  suppressed : ∀ ac, p ∈ s.psq (cfg.pkt p).entry (sup ac) →
    (s.entry (cfg.pkt p).entry).occupied = true →
    (s.hanger (s.tag p).hslot).state = .inuseSuppressed
  delayed : ∀ ac, p ∈ s.psq (cfg.pkt p).entry (dly ac) →
    (s.entry (cfg.pkt p).entry).occupied = true

section

variable {cfg : Cfg} {s : State} {pl : Id → Place} {w : Bool} {p : Id}

theorem Inv.freed_of_flushed (h : Inv cfg s pl [] [] w) :
    p ∈ flushed cfg .all s ↔
      (pl p).queue ≠ none ∧ (s.entry (cfg.pkt p).entry).occupied = true := by
  rw [mem_flushed]
  constructor
  · rintro ⟨d, k, hd, hp, _⟩
    obtain ⟨rfl, _, hq⟩ := ((h.places p).psq d k).mp hp
    exact ⟨by rw [hq]; nofun, hd⟩
  · rintro ⟨hq, hd⟩
    obtain ⟨b, hb⟩ := Option.ne_none_iff_exists'.mp hq
    exact ⟨_, ⟨(cfg.pkt p).fifo, b⟩, hd, ((h.places p).psq _ _).mpr ⟨rfl, rfl, hb⟩, rfl⟩

theorem Inv.mem_unreferenced (h : Inv cfg s pl [] [] w) :
    p ∈ unreferenced cfg .all s ↔
      (pl p).queue = some true ∧ (s.entry (cfg.pkt p).entry).occupied = true := by
  rw [Wlfc.mem_unreferenced]
  constructor
  · rintro ⟨d, ac, hd, hp, _⟩
    obtain ⟨rfl, _, hq⟩ := ((h.places p).psq d (sup ac)).mp hp
    exact ⟨hq, hd⟩
  · rintro ⟨hq, hd⟩
    exact ⟨_, (cfg.pkt p).fifo, hd, ((h.places p).psq _ (sup _)).mpr ⟨rfl, rfl, hq⟩, rfl⟩

theorem Inv.mem_txqTaken (h : Inv cfg s pl [] [] w) (hp : p ∈ txqTaken cfg s .all) :
    pl p = .flying true true := by
  obtain ⟨hb, hi, _⟩ := Wlfc.mem_txqTaken.mp hp
  exact (h.tracked p).txq hb hi

/-- The packet of an item is still held if its reference is not removed. -/
theorem Inv.staysHeld (h : Inv cfg s pl [] [] w) (hafq : cfg.afq = false)
    (hx : (pl p).hung = true) :
    StaysHeld cfg s p ↔ ¬ (p ∈ txqTaken cfg s .all ++ unreferenced cfg .all s ∧
      (s.hanger (s.tag p).hslot).state = .inuseSuppressed) := by
  constructor
  · rintro ⟨i, hi, hn⟩
    obtain rfl := (h.owner hafq i p hi).1
    exact hn
  · exact fun hn => ⟨_, ((h.places p).item hafq hx).1, hn⟩

/-- How often a packet is freed: before, from `bus->txq`, from a queue, and with its item. -/
theorem Inv.count_deinit (h : Inv cfg s pl [] [] w) (hafq : cfg.afq = false) (p : Id) :
    (StaysHeld cfg s p → (deinit cfg s).freed.count p = s.freed.count p +
      (txqTaken cfg s .all).count p + (flushed cfg .all s).count p + 1) ∧
    (¬ StaysHeld cfg s p → (deinit cfg s).freed.count p = s.freed.count p +
      (txqTaken cfg s .all).count p + (flushed cfg .all s).count p) := by
  obtain ⟨⟨held, hnd, hheld, hfreed⟩, _⟩ := deinit_spec hafq h.toRel
  rw [hfreed, List.count_append, List.count_append, List.count_append, ← Nat.add_assoc]
  constructor
  · intro hs
    rw [List.count_eq_one_of_mem hnd ((hheld p).mpr hs)]
  · intro hs
    rw [List.count_eq_zero_of_not_mem fun hm => hs ((hheld p).mp hm), Nat.add_zero]

/-- One that has been freed already: it must not be found again. -/
theorem Inv.once_freed (h : Inv cfg s pl [] [] w) (hafq : cfg.afq = false) {b : Bool}
    (hx : pl p = .freed b) : (deinit cfg s).freed.count p = 1 ↔ LetGo cfg s p := by
  have hat := h.places p
  rw [hx] at hat
  have hnt : p ∉ txqTaken cfg s .all := fun hm => nomatch hx.symm.trans (h.mem_txqTaken hm)
  have hnf : p ∉ flushed cfg .all s := fun hm => (h.freed_of_flushed.mp hm).1 (by rw [hx]; rfl)
  have hnu : p ∉ unreferenced cfg .all s := fun hm =>
    nomatch (hx ▸ h.mem_unreferenced.mp hm).1
  have hf : p ∈ s.freed := hat.freed.mpr rfl
  have hcount := h.count_deinit hafq p
  rw [List.count_eq_one_of_mem h.freed hf, List.count_eq_zero_of_not_mem hnt,
    List.count_eq_zero_of_not_mem hnf] at hcount
  have hheld : StaysHeld cfg s p ↔ ∃ i, (s.hanger i).pkt = some p :=
    exists_congr fun i => and_iff_left fun hm => (List.mem_append.mp hm.1).elim hnt hnu
  constructor
  · intro hc
    have hns : ¬ StaysHeld cfg s p := fun hs => absurd ((hcount.1 hs).symm.trans hc) (by decide)
    exact {
      freed := fun _ i hi => hns (hheld.mpr ⟨i, hi⟩)
      txq := fun hb => nomatch hat.bus.mp hb
      suppressed := fun ac hm => nomatch ((hat.psq _ _).mp hm).2.2
      delayed := fun ac hm => nomatch ((hat.psq _ _).mp hm).2.2 }
  · intro hg
    refine hcount.2 fun hs => ?_
    obtain ⟨i, hi⟩ := hheld.mp hs
    exact hg.freed hf i hi

/-- One that has no item: its entry has to be in use. -/
theorem Inv.once_delayed (h : Inv cfg s pl [] [] w) (hafq : cfg.afq = false)
    (hx : pl p = .delayed) : (deinit cfg s).freed.count p = 1 ↔ LetGo cfg s p := by
  have hat := h.places p
  rw [hx] at hat
  have hnt : p ∉ txqTaken cfg s .all := fun hm => nomatch hx.symm.trans (h.mem_txqTaken hm)
  have hflush := h.freed_of_flushed (p := p)
  rw [hx] at hflush
  have hf : p ∉ s.freed := fun hm => nomatch hat.freed.mp hm
  have hns : ¬ StaysHeld cfg s p := by
    rintro ⟨i, hi, _⟩
    exact nomatch (hx ▸ (h.owner hafq i p hi).2 : Place.delayed.hung = true)
  have hcount := (h.count_deinit hafq p).2 hns
  rw [List.count_eq_zero_of_not_mem hf, List.count_eq_zero_of_not_mem hnt] at hcount
  constructor
  · intro hc
    have hm : p ∈ flushed cfg .all s := by
      by_contra hm
      rw [List.count_eq_zero_of_not_mem hm] at hcount
      exact absurd (hcount.symm.trans hc) (by decide)
    exact {
      freed := fun hm => absurd hm hf
      txq := fun hb => nomatch hat.bus.mp hb
      suppressed := fun ac hm => nomatch ((hat.psq _ _).mp hm).2.2
      delayed := fun _ _ => (hflush.mp hm).2 }
  · intro hg
    have hq : p ∈ s.psq (cfg.pkt p).entry (dly (cfg.pkt p).fifo) :=
      (hat.psq _ _).mpr ⟨rfl, rfl, rfl⟩
    have hm : p ∈ flushed cfg .all s := hflush.mpr ⟨nofun, hg.delayed _ hq⟩
    rw [hcount, List.count_eq_one_of_mem (nodup_flushed h.toRel .all) hm]

/-- One that has been suppressed: flushed with its item, or left in the hanger. -/
theorem Inv.once_suppressed (h : Inv cfg s pl [] [] w) (hafq : cfg.afq = false) {b : Bool}
    (hx : pl p = .suppressed b) : (deinit cfg s).freed.count p = 1 ↔ LetGo cfg s p := by
  have hat := h.places p
  rw [hx] at hat
  have hnt : p ∉ txqTaken cfg s .all := fun hm => nomatch hx.symm.trans (h.mem_txqTaken hm)
  have hflush := h.freed_of_flushed (p := p)
  have hunref := h.mem_unreferenced (p := p)
  have hheld := h.staysHeld hafq (p := p) (by rw [hx]; rfl)
  rw [hx] at hflush hunref
  rw [and_iff_right (show (Place.suppressed b).queue = some true from rfl)] at hunref
  rw [and_iff_right (show (Place.suppressed b).queue ≠ none from nofun)] at hflush
  rw [List.mem_append, or_iff_right hnt, hunref] at hheld
  have hf : p ∉ s.freed := fun hm => nomatch hat.freed.mp hm
  have hcount := h.count_deinit hafq p
  rw [List.count_eq_zero_of_not_mem hf, List.count_eq_zero_of_not_mem hnt] at hcount
  by_cases hocc : (s.entry (cfg.pkt p).entry).occupied = true
  · rw [List.count_eq_one_of_mem (nodup_flushed h.toRel .all) (hflush.mpr hocc)] at hcount
    constructor
    · intro hc
      have hs : (s.hanger (s.tag p).hslot).state = .inuseSuppressed := by
        by_contra hs
        have hc' := hcount.1 (hheld.mpr fun hm => hs hm.2)
        exact absurd (hc'.symm.trans hc) (by decide)
      exact {
        freed := fun hm => absurd hm hf
        txq := fun hb hi => absurd (Wlfc.mem_txqTaken.mpr ⟨hb, hi, rfl⟩) hnt
        suppressed := fun _ _ _ => hs
        delayed := fun _ _ => hocc }
    · intro hg
      have hq : p ∈ s.psq (cfg.pkt p).entry (sup (cfg.pkt p).fifo) :=
        (hat.psq _ _).mpr ⟨rfl, rfl, rfl⟩
      exact hcount.2 fun hs => hheld.mp hs ⟨hocc, hg.suppressed _ hq hocc⟩
  · rw [List.count_eq_zero_of_not_mem fun hm => hocc (hflush.mp hm)] at hcount
    refine iff_of_true (hcount.1 (hheld.mpr fun hm => hocc hm.1)) ?_
    exact {
      freed := fun hm => absurd hm hf
      txq := fun hb hi => absurd (Wlfc.mem_txqTaken.mpr ⟨hb, hi, rfl⟩) hnt
      suppressed := fun _ _ ho => absurd ho hocc
      delayed := fun ac hm => nomatch ((hat.psq _ _).mp hm).2.2 }

/-- One at the bus or the firmware: freed with its item, unless it is in `bus->txq`. -/
theorem Inv.once_flying (h : Inv cfg s pl [] [] w) (hafq : cfg.afq = false) {b f : Bool}
    (hx : pl p = .flying b f) : (deinit cfg s).freed.count p = 1 ↔ LetGo cfg s p := by
  have hat := h.places p
  rw [hx] at hat
  have hnf : p ∉ flushed cfg .all s := fun hm => (h.freed_of_flushed.mp hm).1 (by rw [hx]; rfl)
  have hnu : p ∉ unreferenced cfg .all s := fun hm =>
    nomatch (hx ▸ h.mem_unreferenced.mp hm).1
  have hheld := h.staysHeld hafq (p := p) (by rw [hx]; rfl)
  rw [List.mem_append, or_iff_left hnu] at hheld
  have hf : p ∉ s.freed := fun hm => nomatch hat.freed.mp hm
  have hcount := h.count_deinit hafq p
  rw [List.count_eq_zero_of_not_mem hf, List.count_eq_zero_of_not_mem hnf] at hcount
  by_cases ht : p ∈ txqTaken cfg s .all
  · rw [List.count_eq_one_of_mem (nodup_txqTaken cfg .all h.bus) ht] at hcount
    constructor
    · intro hc
      have hs : (s.hanger (s.tag p).hslot).state = .inuseSuppressed := by
        by_contra hs
        have hc' := hcount.1 (hheld.mpr fun hm => hs hm.2)
        exact absurd (hc'.symm.trans hc) (by decide)
      exact {
        freed := fun hm => absurd hm hf
        txq := fun _ _ => hs
        suppressed := fun ac hm => nomatch ((hat.psq _ _).mp hm).2.2
        delayed := fun ac hm => nomatch ((hat.psq _ _).mp hm).2.2 }
    · intro hg
      obtain ⟨hb, hi, _⟩ := Wlfc.mem_txqTaken.mp ht
      exact hcount.2 fun hs => hheld.mp hs ⟨ht, hg.txq hb hi⟩
  · rw [List.count_eq_zero_of_not_mem ht] at hcount
    refine iff_of_true (hcount.1 (hheld.mpr fun hm => ht hm.1)) ?_
    exact {
      freed := fun hm => absurd hm hf
      txq := fun hb hi => absurd (Wlfc.mem_txqTaken.mpr ⟨hb, hi, rfl⟩) ht
      suppressed := fun ac hm => nomatch ((hat.psq _ _).mp hm).2.2
      delayed := fun ac hm => nomatch ((hat.psq _ _).mp hm).2.2 }

/-- One packet, wherever it is. -/
theorem Inv.freed_once_iff (h : Inv cfg s pl [] [] w) (hafq : cfg.afq = false)
    (hp : p ∈ s.passed) : (deinit cfg s).freed.count p = 1 ↔ LetGo cfg s p := by
  have hhand := (h.tracked p).handed
  cases hx : pl p with
  | fresh => exact absurd hx ((h.places p).passed.mp hp)
  | hand b => exact nomatch (hx ▸ hhand : (Place.hand b).handed = none)
  | reported b => exact nomatch (hx ▸ hhand : (Place.reported b).handed = none)
  | taken => exact absurd ((h.tracked p).taken.mp hx) List.not_mem_nil
  | freed b => exact h.once_freed hafq hx
  | delayed => exact h.once_delayed hafq hx
  | suppressed b => exact h.once_suppressed hafq hx
  | flying b f => exact h.once_flying hafq hx

end

/-! ## Runs -/

/-- No packet is dropped from a queue while it is on the bus, statuses are about packets that wait
for theirs, and no queue is left with the tail of what a clean-up took. -/
def Call.Fits (cfg : Cfg) (s : State) : Call → Prop
  | .act (.cleanupTxq _) => True
  | .act a => a.Tracks cfg s
  | .cleanup fn => OffBus cfg fn s ∧
      ∀ d, (s.entry d).occupied = true → ∀ k, leavesStaleTail cfg fn (s.psq d k) = false

theorem Inv.onFits {s' : State} {pl : Id → Place} {w : Bool} (h : Inv cfg s pl [] [] w) {c : Call}
    (hok : c.Fits cfg s) (hs : call cfg s c = some s') :
    ∃ pl' w', Inv cfg s' pl' [] [] w' := by
  have hstep : ∀ a : Act, a.Tracks cfg s → step cfg s a = some s' →
      ∃ pl' w', Inv cfg s' pl' [] [] w' := by
    intro a ha hs
    obtain ⟨pl', h'⟩ := h.onStep ha hs
    exact ⟨pl', w, h'⟩
  cases c with
  | cleanup fn =>
    cases hs
    obtain ⟨pl', h'⟩ := h.onCleanup hok.1
    exact ⟨pl', true, h'⟩
  | act a =>
    cases a with
    | cleanupTxq fn =>
      cases hs
      obtain ⟨pl', h'⟩ := h.onCleanupTxq fn
      exact ⟨pl', true, h'⟩
    | commitPackets p => exact hstep (.commitPackets p) hok hs
    | transferPacket d ac fcommit pulled => exact hstep (.transferPacket d ac fcommit pulled) hok hs
    | send p => exact hstep (.send p) hok hs
    | txcomplete p success => exact hstep (.txcomplete p success) hok hs
    | txstatus len st => exact hstep (.txstatus len st) hok hs
    | suppressTxq d => exact hstep (.suppressTxq d) hok hs

theorem Called.fits {occupied : Dest → Bool} (h : Called cfg occupied (fun s c => c.Fits cfg s) s) :
    ∃ pl w, Inv cfg s pl [] [] w := by
  induction h with
  | init => exact ⟨_, false, inv_init cfg occupied⟩
  | call c _ hok hs ih =>
    obtain ⟨pl, w, hi⟩ := ih
    exact hi.onFits hok hs

/-- After a run in hanger mode each packet is freed exactly once by the teardown if and only if it is
let go, and every item of the hanger is free. -/
theorem teardown_frees_once_iff (cfg : Cfg) (hafq : cfg.afq = false) (occupied : Dest → Bool)
    {s : State} (h : Called cfg occupied (fun s c => c.Fits cfg s) s) :
    (∀ p ∈ s.passed, ((deinit cfg s).freed.count p = 1 ↔ LetGo cfg s p)) ∧
      ∀ i, ((deinit cfg s).hanger i).state = .free ∧ ((deinit cfg s).hanger i).pkt = none := by
  obtain ⟨pl, w, hi⟩ := h.fits
  exact ⟨fun p hp => hi.freed_once_iff hafq hp, (deinit_spec hafq hi.toRel).2⟩

theorem Call.checked_fits {c : Call} (h : c.checked cfg s = true) :
    c.Fits cfg s := by
  cases c with
  | cleanup fn => cases h
  | act a =>
    have hkeeps := Act.checked_keeps (Bool.and_eq_true_iff.mp h).1
    cases a with
    | cleanupTxq fn => trivial
    | commitPackets | transferPacket | send | txcomplete | suppressTxq => exact hkeeps
    | txstatus len st => exact Act.Keeps.tracks hkeeps

/-- A packet that is suppressed and one that the firmware has are freed once, and one that is still
in `bus->txq` is not. -/
theorem teardown_frees_once_suppressed :
    (∃ s, ((∀ p ∈ s.passed, ((deinit plain s).freed.count p = 1 ↔ LetGo plain s p)) ∧
      ∀ i, ((deinit plain s).hanger i).state = .free ∧ ((deinit plain s).hanger i).pkt = none) ∧
      s.passed = [1, 2] ∧ LetGo plain s 1 ∧ LetGo plain s 2) ∧
    ∃ s, ((∀ p ∈ s.passed, ((deinit plain s).freed.count p = 1 ↔ LetGo plain s p)) ∧
      ∀ i, ((deinit plain s).hanger i).state = .free ∧ ((deinit plain s).hanger i).pkt = none) ∧
      s.passed = [1] ∧ ¬ LetGo plain s 1 := by
  have hsuppressed : ((suppressOne.map Call.act).foldlM (callIf plain (Call.checked plain))
      (.init fun _ => true)).map (fun s => decide (s.passed = [1, 2] ∧ s.freed = [] ∧ s.bus = [] ∧
        (s.hanger (s.tag 1).hslot).state = .inuseSuppressed ∧
        (∀ ac, 2 ∉ s.psq firstDest (sup ac)) ∧ ∀ ac, s.psq firstDest (dly ac) = [])) =
      some true := by decide +kernel
  have hqueued : ([Call.act (.commitPackets 1),
      .act (.transferPacket firstDest firstAc true true)].foldlM
        (callIf plain (Call.checked plain)) (.init fun _ => true)).map (fun s => decide (
          s.passed = [1] ∧ 1 ∈ s.bus ∧ s.inTxq 1 = true ∧
            (s.hanger (s.tag 1).hslot).state = .inuse)) = some true := by decide +kernel
  obtain ⟨s, hs, he⟩ := Option.map_eq_some_iff.mp hsuppressed
  obtain ⟨t, ht, hf⟩ := Option.map_eq_some_iff.mp hqueued
  obtain ⟨hpassed, hfreed, hbus, hitem, hsup, hdly⟩ := of_decide_eq_true he
  obtain ⟨hpassed', hbus', htxq', hitem'⟩ := of_decide_eq_true hf
  have hrun : ∀ {calls : List Call} {t}, calls.foldlM (callIf plain (Call.checked plain))
      (.init fun _ => true) = some t → Called plain (fun _ => true) (fun s c => c.Fits plain s) t :=
    called_run (fun _ _ => Call.checked_fits) .init
  -- nothing is freed or on the bus, and no queue of delayed packets has one
  have hlet : ∀ p, (∀ ac, p ∈ s.psq firstDest (sup ac) →
      (s.hanger (s.tag p).hslot).state = .inuseSuppressed) → LetGo plain s p := fun p hp => {
    freed := fun hm => nomatch (hfreed ▸ hm : p ∈ [])
    txq := fun hm => nomatch (hbus ▸ hm : p ∈ [])
    suppressed := fun ac hm _ => hp ac hm
    delayed := fun ac hm => nomatch (hdly ac ▸ hm : p ∈ []) }
  refine ⟨⟨s, teardown_frees_once_iff plain rfl _ (hrun hs), hpassed, hlet 1 fun _ _ => hitem,
    hlet 2 fun ac hm => absurd hm (hsup ac)⟩,
    t, teardown_frees_once_iff plain rfl _ (hrun ht), hpassed', fun hg => ?_⟩
  exact nomatch hitem'.symm.trans (hg.txq hbus' htxq')

end Bcmdhd.Wlfc
