import Bcmdhd.Lib.Runs
import Bcmdhd.Pktq.Lists

/-!
# The queue refines the lists

    runs step (init link numPrec maxPkts) es = some (s, tr) →
      ∃ a, runs (listStep numPrec) (fun _ => []) es = some (a, tr) ∧
        Refines numPrec s a ∧ WellFormed s                        (pktq_refines_lists)

The trace `tr` has the result of every call, so the queue gives the packets and
precedences that the lists give.
-/

namespace Bcmdhd.HndPktq

open Runs Buckets Links Scan

variable {Pkt : Type}

section
variable {n prec : Nat} {s s' : Pktq Pkt} {a : Queues Pkt}

/-! ## Packets that enter -/

/-- The pointer writes that append a chain. -/
theorem join_tail [DecidableEq Pkt] {link : Pkt → Option Pkt} {head tail head' : Option Pkt}
    {l l' : List Pkt}
    (hc : Chain link head l) (ht : tail = l.getLast?) (hc' : Chain link head' l')
    (hdisj : ∀ x ∈ l', x ∉ l) :
    ∃ link', setLinkIf link head tail head' = some link' ∧
      Chain link' (if head.isSome then head else head') (l ++ l') ∧
      ∀ x, x ∉ l → link' x = link x := by
  rcases List.eq_nil_or_concat l with rfl | ⟨l₁, t, rfl⟩
  · rw [show head = none from hc]
    exact ⟨link, rfl, hc', fun x _ => rfl⟩
  · rw [List.concat_eq_append] at hc ht hdisj ⊢
    rw [List.getLast?_append, List.getLast?_singleton, Option.some_or] at ht
    have hsome : head.isSome = true := by
      rw [hc.head, List.isSome_head?]
      simp
    unfold setLinkIf
    rw [hsome, ht]
    refine ⟨Function.update link t head', rfl, ?_, ?_⟩
    · rw [List.append_assoc, List.singleton_append]
      apply hc.concat hc'
      intro hm
      exact hdisj t hm (by simp)
    · intro x hx
      apply Function.update_of_ne
      rintro rfl
      exact hx (by simp)

/-- The pointer writes that prepend a chain. -/
theorem join_head [DecidableEq Pkt] {link : Pkt → Option Pkt} {head tail head' tail' : Option Pkt}
    {l l' : List Pkt} (hc : Chain link head l) (ht : tail = l.getLast?)
    (hc' : Chain link head' l') (ht' : tail' = l'.getLast?) (hne : l' ≠ [])
    (hdisj : ∀ x ∈ l', x ∉ l) :
    ∃ link', setLink link tail' head = some link' ∧ Chain link' head' (l' ++ l) ∧
      (if tail = none then tail' else tail) = (l' ++ l).getLast? ∧
      ∀ x, x ∉ l' → link' x = link x := by
  rcases List.eq_nil_or_concat l' with rfl | ⟨l₁, t, rfl⟩
  · exact absurd rfl hne
  · rw [List.concat_eq_append] at hc' ht' hdisj ⊢
    rw [List.getLast?_append, List.getLast?_singleton, Option.some_or] at ht'
    refine ⟨Function.update link t head, by rw [ht']; rfl, ?_, ?_, ?_⟩
    · rw [List.append_assoc, List.singleton_append]
      apply hc'.concat hc
      exact hdisj t (by simp)
    · rw [ht, ht', List.getLast?_append]
      cases l.getLast? with
      | none => simp
      | some y => rfl
    · intro x hx
      apply Function.update_of_ne
      rintro rfl
      exact hx (by simp)

/-- One packet behind the others; the assertions on the size of the queue do not matter. -/
theorem penq_refines [DecidableEq Pkt] (h : Refines n s a) {p : Pkt} (hp : prec < n)
    (hnull : s.link p = none)
    (hroom : s.nPktsTot + 1 ≤ 0xFFFF) (hnew : p ∉ queued s) :
    ∃ s', pktqPenq s prec p = some (s', .pkt (some p) none) ∧
      Refines n s' (Function.update a prec (a prec ++ [p])) ∧
      ∀ x, x ∉ a prec → s'.link x = s.link x := by
  have hdisj := h.notMem_of_notMem_queued hp hnew
  have hone : Chain s.link (some p) [p] := ⟨rfl, hnull⟩
  obtain ⟨link', hlink, hchain, hframe⟩ := join_tail (h.chain prec hp) (h.tail prec hp) hone
    (fun x hx => by rwa [List.mem_singleton.1 hx])
  refine ⟨enter s prec link' _ (some p) [p].length, ?_, h.enter hp hroom ?_ ?_ hchain ?_ ?_,
    hframe⟩
  · unfold pktqPenq
    dsimp only
    rw [hlink]
    rfl
  · intro x hx
    rw [List.mem_singleton.1 hx]
    exact hnew
  · exact List.perm_append_comm
  · simp
  · intro x hx _
    exact hframe x hx

theorem pktqPenq_refines [DecidableEq Pkt] (h : Refines n s a) {p : Pkt}
    (hc : asserts s (.penq prec p)) :
    ∃ s', pktqPenq s prec p = some (s', .pkt (some p) none) ∧
      Refines n s' (Function.update a prec (a prec ++ [p])) := by
  obtain ⟨hp, hnull, ⟨-, -, hroom⟩, hnew⟩ := hc
  rw [h.numPrec_eq] at hp
  obtain ⟨s', hs', hr, -⟩ := penq_refines h hp hnull hroom hnew
  exact ⟨s', hs', hr⟩

theorem pktqPenqHead_refines [DecidableEq Pkt] (h : Refines n s a) {p : Pkt}
    (hc : asserts s (.penqHead prec p)) :
    ∃ s', pktqPenqHead s prec p = some (s', .pkt (some p) none) ∧
      Refines n s' (Function.update a prec (p :: a prec)) := by
  obtain ⟨hp, hnull, ⟨-, -, hroom⟩, hnew⟩ := hc
  rw [h.numPrec_eq] at hp
  have hdisj := h.notMem_of_notMem_queued hp hnew
  have hone : Chain s.link (some p) [p] := ⟨rfl, hnull⟩
  obtain ⟨link', hlink, hchain, htail, hframe⟩ := join_head (h.chain prec hp) (h.tail prec hp)
    hone (show some p = [p].getLast? from rfl) (List.cons_ne_nil p [])
    (fun x hx => by rwa [List.mem_singleton.1 hx])
  -- the head is null exactly when the tail is
  have hnull' : ((s.q prec).head = none) = ((s.q prec).tail = none) := by
    rw [(h.chain prec hp).head, h.tail prec hp, List.head?_eq_none_iff, List.getLast?_eq_none_iff]
  refine ⟨enter s prec link' (some p) _ [p].length, ?_, h.enter hp hroom ?_ (List.Perm.refl _) hchain htail ?_⟩
  · unfold pktqPenqHead
    dsimp only
    rw [hlink]
    simp only [hnull']
    rfl
  · intro x hx
    rw [List.mem_singleton.1 hx]
    exact hnew
  · intro x _ hx
    apply hframe
    intro hm
    exact hx (List.mem_append_left _ hm)

theorem pktqAppend_refines [DecidableEq Pkt] (h : Refines n s a) {pkts : List Pkt}
    (hc : asserts s (.append prec pkts)) :
    ∃ s', pktqAppend s prec (spktqOf pkts) = some (s', .list ⟨none, none, 0, pkts.length⟩) ∧
      Refines n s' (Function.update a prec (a prec ++ pkts)) := by
  cases pkts with
  | nil =>
    refine ⟨s, rfl, ?_⟩
    rw [List.append_nil, Function.update_eq_self]
    exact h
  | cons p pkts =>
    obtain ⟨hp, hlist, ⟨-, -, hroom⟩, hnew⟩ := hc.resolve_left (List.cons_ne_nil p pkts)
    rw [h.numPrec_eq] at hp
    obtain ⟨link', hlink, hchain, hframe⟩ := join_tail (h.chain prec hp) (h.tail prec hp) hlist
      (fun x hx => h.notMem_of_notMem_queued hp (hnew x hx))
    refine ⟨enter s prec link' _ (p :: pkts).getLast? (p :: pkts).length, ?_,
      h.enter hp hroom hnew List.perm_append_comm hchain ?_ ?_⟩
    · unfold pktqAppend
      rw [if_neg (by simp [spktqOf])]
      dsimp only [spktqOf]
      rw [hlink]
      rfl
    · rw [List.getLast?_append, List.getLast?_eq_some_getLast (List.cons_ne_nil p pkts)]
      rfl
    · intro x hx _
      exact hframe x hx

theorem pktqPrepend_refines [DecidableEq Pkt] (h : Refines n s a) {pkts : List Pkt}
    (hc : asserts s (.prepend prec pkts)) :
    ∃ s', pktqPrepend s prec (spktqOf pkts) = some (s', .list ⟨none, none, 0, pkts.length⟩) ∧
      Refines n s' (Function.update a prec (pkts ++ a prec)) := by
  cases pkts with
  | nil =>
    refine ⟨s, rfl, ?_⟩
    rw [List.nil_append, Function.update_eq_self]
    exact h
  | cons p pkts =>
    obtain ⟨hp, hlist, ⟨-, -, hroom⟩, hnew⟩ := hc.resolve_left (List.cons_ne_nil p pkts)
    rw [h.numPrec_eq] at hp
    obtain ⟨link', hlink, hchain, htail, hframe⟩ := join_head (h.chain prec hp)
      (h.tail prec hp) hlist rfl (List.cons_ne_nil p pkts)
      (fun x hx => h.notMem_of_notMem_queued hp (hnew x hx))
    refine ⟨enter s prec link' (some p) _ (p :: pkts).length, ?_,
      h.enter hp hroom hnew (List.Perm.refl _) hchain htail ?_⟩
    · unfold pktqPrepend
      rw [if_neg (by simp [spktqOf])]
      dsimp only [spktqOf]
      rw [hlink]
      rfl
    · intro x _ hx
      apply hframe
      intro hm
      exact hx (List.mem_append_left _ hm)

/-! ## Packets that leave -/

/-- The list starts with the head. -/
theorem Refines.of_head (h : Refines n s a) (hp : prec < n) :
    ((s.q prec).head = none ∧ a prec = []) ∨
      ∃ p rest, (s.q prec).head = some p ∧ a prec = p :: rest := by
  have hhead := (h.chain prec hp).head
  cases ha : a prec with
  | nil =>
    rw [ha] at hhead
    exact .inl ⟨hhead, rfl⟩
  | cons p rest =>
    rw [ha] at hhead
    exact .inr ⟨p, rest, hhead, rfl⟩

theorem takeHead_refines [DecidableEq Pkt] (h : Refines n s a) (hp : prec < n) {p : Pkt}
    {rest : List Pkt}
    (ha : a prec = p :: rest) : Refines n (takeHead s prec p) (Function.update a prec rest) := by
  have hchain := h.chain prec hp
  have htail := h.tail prec hp
  have hnd := hchain.nodup
  rw [ha] at hchain htail hnd
  have hrest : Chain s.link (s.link p) rest := hchain.2
  apply h.leave hp (p := p)
  · rw [ha]
  · exact hrest.frame (List.nodup_cons.1 hnd).1 none
  · rw [htail]
    split
    · next hnull =>
      rw [hrest.eq_nil_iff.1 hnull]
      rfl
    · next hnull =>
      have hne : rest ≠ [] := fun he => hnull (hrest.eq_nil_iff.2 he)
      rw [List.getLast?_cons, List.getLast?_eq_some_getLast hne]
      rfl
  · intro x hx
    apply Function.update_of_ne
    rintro rfl
    rw [ha] at hx
    exact hx List.mem_cons_self

theorem perm_after (l₁ l₂ : List Pkt) (prev p : Pkt) :
    (l₁ ++ prev :: p :: l₂).Perm (p :: (l₁ ++ prev :: l₂)) := by
  have hm := @List.perm_middle _ p (l₁ ++ [prev]) l₂
  rwa [List.append_assoc, List.append_assoc, List.singleton_append, List.singleton_append] at hm

/-- The tail after its chain lost `p`. -/
theorem tail_after [DecidableEq Pkt] {l₁ l₂ : List Pkt} {prev p : Pkt} (hp : p ∉ l₂) :
    (if (l₁ ++ prev :: p :: l₂).getLast? = some p then some prev
      else (l₁ ++ prev :: p :: l₂).getLast?) = (l₁ ++ prev :: l₂).getLast? := by
  rw [List.getLast?_append, List.getLast?_append, List.getLast?_cons_cons]
  cases l₂ with
  | nil => simp
  | cons y l₂ =>
    rw [List.getLast?_cons_cons, List.getLast?_cons_cons]
    have hlast := List.getLast?_eq_some_getLast (List.cons_ne_nil y l₂)
    rw [hlast, Option.some_or, if_neg]
    rintro heq
    apply hp
    rw [← Option.some.inj heq]
    exact List.getLast_mem (List.cons_ne_nil y l₂)

theorem takeAfter_refines [DecidableEq Pkt] (h : Refines n s a) (hp : prec < n) {prev p : Pkt}
    {l₁ l₂ : List Pkt}
    (ha : a prec = l₁ ++ prev :: p :: l₂) :
    Refines n (takeAfter s prec prev p) (Function.update a prec (l₁ ++ prev :: l₂)) := by
  have hchain := h.chain prec hp
  have htail := h.tail prec hp
  have hnd := hchain.nodup
  rw [ha] at hchain htail hnd
  have hp' : p ∉ l₁ ++ prev :: l₂ :=
    (List.nodup_cons.1 (((perm_after l₁ l₂ prev p).nodup_iff).1 hnd)).1
  apply h.leave hp (p := p)
  · rw [ha]
    exact perm_after l₁ l₂ prev p
  · exact hchain.unlink.frame hp' none
  · rw [htail]
    apply tail_after
    intro hm
    exact hp' (List.mem_append_right _ (List.mem_cons_of_mem prev hm))
  · intro x hx
    rw [ha] at hx
    rw [Function.update_of_ne, Function.update_of_ne]
    · rintro rfl
      exact hx (by simp)
    · rintro rfl
      exact hx (by simp)

theorem takeTail_refines [DecidableEq Pkt] (h : Refines n s a) (hp : prec < n) {l : List Pkt}
    {t : Pkt}
    (ha : a prec = l ++ [t]) :
    ∃ s', takeTail s prec = some (s', some t) ∧ Refines n s' (Function.update a prec l) := by
  have hchain := h.chain prec hp
  have htail := h.tail prec hp
  have hlt := h.length_lt hp
  rw [ha] at hchain htail hlt
  rw [List.getLast?_append, List.getLast?_singleton, Option.some_or] at htail
  rw [List.length_append, List.length_singleton] at hlt
  have hwalk := walkTo_spec hchain (show l.length < fuel by omega) none
  rw [Option.or_none] at hwalk
  have hperm : (a prec).Perm (t :: l) := by
    rw [ha]
    exact List.perm_append_comm
  rcases List.eq_nil_or_concat l with rfl | ⟨l₁, prev, rfl⟩
  · refine ⟨leave s prec s.link none none, ?_, h.leave hp hperm rfl rfl fun x _ => rfl⟩
    unfold takeTail
    dsimp only
    rw [htail, hwalk]
    rfl
  · rw [List.concat_eq_append] at ha hchain hwalk hperm ⊢
    rw [List.getLast?_append, List.getLast?_singleton, Option.some_or] at hwalk
    refine ⟨leave s prec (Function.update s.link prev none) (s.q prec).head (some prev), ?_, ?_⟩
    · unfold takeTail
      dsimp only
      rw [htail, hwalk]
      rfl
    · apply h.leave hp hperm
      · rw [List.append_assoc] at hchain
        exact hchain.cut
      · simp
      · intro x hx
        apply Function.update_of_ne
        rintro rfl
        rw [ha] at hx
        exact hx (by simp)

theorem pktqPdeq_refines [DecidableEq Pkt] (h : Refines n s a) (hp : prec < n) :
    ∃ s', pktqPdeq s prec = (s', (takeFirst a prec none).2) ∧
      Refines n s' (takeFirst a prec none).1 := by
  unfold pktqPdeq takeFirst
  rcases h.of_head hp with ⟨hhead, ha⟩ | ⟨p, rest, hhead, ha⟩
  · rw [hhead, ha]
    refine ⟨s, rfl, ?_⟩
    show Refines n s (Function.update a prec [])
    rw [← ha, Function.update_eq_self]
    exact h
  · rw [hhead]
    refine ⟨takeHead s prec p, ?_, ?_⟩
    · rw [ha]
      rfl
    · rw [ha]
      exact takeHead_refines h hp ha

theorem pktqPdeqTail_refines [DecidableEq Pkt] (h : Refines n s a) (hp : prec < n) :
    ∃ s', pktqPdeqTail s prec = some (s', (takeLast a prec none).2) ∧
      Refines n s' (takeLast a prec none).1 := by
  unfold pktqPdeqTail takeLast
  rcases List.eq_nil_or_concat (a prec) with ha | ⟨l, t, ha⟩
  · have hhead := (h.chain prec hp).head
    rw [ha] at hhead
    refine ⟨s, ?_, ?_⟩
    · rw [hhead, ha]
      rfl
    · show Refines n s (Function.update a prec (a prec).dropLast)
      rw [ha, List.dropLast_nil, ← ha, Function.update_eq_self]
      exact h
  · rw [List.concat_eq_append] at ha
    obtain ⟨s', htake, hr⟩ := takeTail_refines h hp ha
    obtain ⟨p, hhead⟩ : ∃ p, (s.q prec).head = some p := by
      rw [(h.chain prec hp).head, ha]
      exact Option.isSome_iff_exists.1 (by simp)
    refine ⟨s', ?_, ?_⟩
    · rw [hhead, ha]
      simp [htake]
    · show Refines n s' (Function.update a prec (a prec).dropLast)
      rw [ha, List.dropLast_concat]
      exact hr

theorem pktqPdeqWithFn_refines [DecidableEq Pkt] (h : Refines n s a) (hp : prec < n)
    (fn : Option (Pkt → Bool)) :
    ∃ s', pktqPdeqWithFn s prec fn = some (s', .pkt ((a prec).find? (matching fn)) none) ∧
      Refines n s' (Function.update a prec ((a prec).eraseP (matching fn))) := by
  unfold pktqPdeqWithFn
  rcases walk_spec (matching fn) (h.chain prec hp) (h.length_lt hp) none with
    ⟨hno, last, hwalk⟩ | ⟨l₁, p, l₂, ha, hno, hmatch, hwalk⟩
  · have hno' : ∀ x ∈ a prec, ¬ matching fn x = true := fun x hx => by simp [hno x hx]
    rw [List.find?_eq_none.2 hno', List.eraseP_of_forall_not hno', Function.update_eq_self]
    refine ⟨s, ?_, h⟩
    show (walk s.link (matching fn) fuel none (s.q prec).head).bind _ = _
    rw [hwalk]
    rfl
  · have hfind : (a prec).find? (matching fn) = some p := by
      rw [ha, List.find?_append, List.find?_eq_none.2 (fun x hx => by simp [hno x hx])]
      simp [hmatch]
    have herase : (a prec).eraseP (matching fn) = l₁ ++ l₂ := by
      rw [ha, List.eraseP_append_right _ (fun x hx => by simp [hno x hx]),
        List.eraseP_cons_of_pos hmatch]
    rw [hfind, herase]
    rcases List.eq_nil_or_concat l₁ with rfl | ⟨l, prev, rfl⟩
    · refine ⟨takeHead s prec p, ?_, takeHead_refines h hp ha⟩
      show (walk s.link (matching fn) fuel none (s.q prec).head).bind _ = _
      rw [hwalk]
      rfl
    · rw [List.concat_eq_append] at ha hwalk ⊢
      rw [List.append_assoc, List.singleton_append] at ha ⊢
      rw [List.getLast?_append, List.getLast?_singleton, Option.some_or] at hwalk
      refine ⟨takeAfter s prec prev p, ?_, takeAfter_refines h hp ha⟩
      show (walk s.link (matching fn) fuel none (s.q prec).head).bind _ = _
      rw [hwalk]
      rfl

/-- The loop of `pktq_pdel` looks for the predecessor. -/
theorem pktqPdel_refines [DecidableEq Pkt] (h : Refines n s a) (hp : prec < n) (pktbuf : Pkt) :
    ∃ s', pktqPdel s (some pktbuf) prec = some (s', .bool ((a prec).contains pktbuf)) ∧
      Refines n s' (Function.update a prec ((a prec).erase pktbuf)) := by
  have hchain := h.chain prec hp
  unfold pktqPdel
  dsimp only
  split
  · next hhead =>
    rcases h.of_head hp with ⟨hnull, -⟩ | ⟨p, rest, hhead', ha⟩
    · rw [hnull] at hhead
      cases hhead
    · rw [hhead'] at hhead
      cases hhead
      refine ⟨takeHead s prec pktbuf, ?_, ?_⟩
      · rw [ha]
        simp
      · rw [ha, List.erase_cons_head]
        exact takeHead_refines h hp ha
  · next hhead =>
    rcases walk_spec (fun p => s.link p == some pktbuf) hchain (h.length_lt hp) none with
      ⟨hno, last, hwalk⟩ | ⟨l₁, p, l₂, ha, hno, hnext, hwalk⟩
    · have hnot : pktbuf ∉ a prec := by
        intro hm
        obtain ⟨l₁, l₂, ha⟩ := List.append_of_mem hm
        rw [ha] at hchain hno
        rcases List.eq_nil_or_concat l₁ with rfl | ⟨l, prev, rfl⟩
        · exact hhead hchain.head
        · rw [List.concat_eq_append, List.append_assoc, List.singleton_append] at hchain hno
          have hl := hchain.link_eq
          have hn := hno prev (by simp)
          rw [hl] at hn
          simp at hn
      refine ⟨s, ?_, ?_⟩
      · rw [hwalk]
        simp [hnot]
      · rw [List.erase_of_not_mem hnot, Function.update_eq_self]
        exact h
    · rw [ha] at hchain
      have hl := hchain.link_eq
      rw [beq_iff_eq] at hnext
      rw [hnext] at hl
      obtain ⟨l₃, rfl⟩ : ∃ l₃, l₂ = pktbuf :: l₃ := by
        cases l₂ with
        | nil => cases hl
        | cons x l₃ =>
          cases hl
          exact ⟨l₃, rfl⟩
      have hbefore : pktbuf ∉ l₁ ++ [p] := by
        have hnd := hchain.nodup
        rw [List.append_cons] at hnd
        intro hm
        exact (List.nodup_append.1 hnd).2.2 pktbuf hm pktbuf List.mem_cons_self rfl
      refine ⟨takeAfter s prec p pktbuf, ?_, ?_⟩
      · rw [hwalk, ha]
        simp
      · rw [ha, List.append_cons, List.erase_append_right _ hbefore, List.erase_cons_head,
          List.append_assoc, List.singleton_append]
        exact takeAfter_refines h hp ha

/-! ## Over all precedences -/

theorem maskedPrec_eq (q : Nat → PktqPrec Pkt) (precBmp m : Nat) :
    maskedPrec q precBmp m =
      highest (fun prec => precBmp.testBit prec && (q prec).head.isSome) (m + 1) := by
  induction m with
  | zero => rfl
  | succ m ih =>
    unfold maskedPrec highest
    rw [ih]

/-- `hi_prec` is lowered to the highest precedence with a packet, if there is one. -/
theorem lowerHi_eq {q : Nat → PktqPrec Pkt} {m i : Nat}
    (h : highest (fun prec => (q prec).head.isSome) (m + 1) = some i) : lowerHi q m = i := by
  induction m with
  | zero =>
    have hlt := (highest_some h).1
    show 0 = i
    omega
  | succ m ih =>
    unfold lowerHi
    unfold highest at h
    cases hhead : (q (m + 1)).head with
    | none =>
      rw [hhead] at h
      rw [if_pos rfl]
      exact ih h
    | some p =>
      rw [hhead] at h
      cases h
      rfl

theorem lowerHi_le (q : Nat → PktqPrec Pkt) (m : Nat) : lowerHi q m ≤ m := by
  induction m with
  | zero => exact Nat.le_refl 0
  | succ m ih =>
    unfold lowerHi
    split
    · omega
    · exact Nat.le_refl _

theorem lowerHi_above {q : Nat → PktqPrec Pkt} {m i : Nat} (h : lowerHi q m < i) (hi : i ≤ m) :
    (q i).head = none := by
  induction m with
  | zero => omega
  | succ m ih =>
    unfold lowerHi at h
    split at h
    · next hnull =>
      rcases Nat.le_succ_iff.1 hi with hi | rfl
      · exact ih h hi
      · exact hnull
    · omega

theorem Refines.nonEmpty_eq (h : Refines n s a) (hp : prec < n) :
    nonEmpty a prec = (s.q prec).head.isSome := by
  rw [(h.chain prec hp).head]
  unfold nonEmpty
  cases a prec with
  | nil => rfl
  | cons p l => rfl

theorem Refines.nonEmpty_above (h : Refines n s a) {i : Nat} (hi : i < n) (hlt : s.hiPrec < i) :
    nonEmpty a i = false := by
  unfold nonEmpty
  rw [h.above i hi hlt]
  rfl

/-- Scanning down from `hi_prec` finds what scanning all precedences finds. -/
theorem Refines.highest_eq (h : Refines n s a) (b : Nat → Bool) :
    highest (fun prec => b prec && nonEmpty a prec) n =
      highest (fun prec => b prec && (s.q prec).head.isSome) (s.hiPrec + 1) := by
  have hlt := h.hi_lt
  rw [highest_of_above (m := s.hiPrec + 1) hlt]
  · apply highest_congr
    intro i hi
    rw [h.nonEmpty_eq (by omega)]
  · intro i h1 h2
    rw [h.nonEmpty_above h2 (by omega), Bool.and_false]

theorem Refines.empty (h : Refines n s a) (h0 : s.nPktsTot = 0) : ∀ i < n, nonEmpty a i = false := by
  intro i hi
  have hle := h.length_le hi
  have ha : a i = [] := List.eq_nil_of_length_eq_zero (by omega)
  unfold nonEmpty
  rw [ha]
  rfl

theorem Refines.exists_nonEmpty (h : Refines n s a) (h0 : s.nPktsTot ≠ 0) :
    ∃ i < n, nonEmpty a i = true := by
  by_contra hno
  apply h0
  rw [h.total, List.length_eq_zero_iff]
  unfold entries
  rw [List.flatMap_eq_nil_iff]
  intro i hi
  have hi := List.mem_range.1 hi
  by_contra hne
  apply hno
  refine ⟨i, hi, ?_⟩
  unfold nonEmpty
  simpa using hne

/-- Lowering the hint. -/
theorem Refines.lower (h : Refines n s a) :
    Refines n { s with hiPrec := lowerHi s.q s.hiPrec } a where
  numPrec_eq := h.numPrec_eq
  num_le := h.num_le
  hi_lt := Nat.lt_of_le_of_lt (lowerHi_le s.q s.hiPrec) h.hi_lt
  chain := h.chain
  tail := h.tail
  count := h.count
  total := h.total
  small := h.small
  nodup := h.nodup
  above := by
    intro i hi hlt
    rcases Nat.lt_or_ge s.hiPrec i with hgt | hle
    · exact h.above i hi hgt
    · exact (h.chain i hi).eq_nil_iff.1 (lowerHi_above hlt hle)

/-- Where there are packets, the lowered hint is their highest precedence. -/
theorem Refines.lowered (h : Refines n s a) (h0 : s.nPktsTot ≠ 0) :
    highest (nonEmpty a) n = some (lowerHi s.q s.hiPrec) ∧
      ∃ p rest, (s.q (lowerHi s.q s.hiPrec)).head = some p ∧
        a (lowerHi s.q s.hiPrec) = p :: rest := by
  obtain ⟨i, hi, hne⟩ := h.exists_nonEmpty h0
  obtain ⟨k, hk⟩ := highest_exists hi hne
  have heq := h.highest_eq fun _ => true
  simp only [Bool.true_and] at heq
  rw [show highest (fun prec => nonEmpty a prec) n = some k from hk] at heq
  have hlow := lowerHi_eq heq.symm
  rw [hlow]
  obtain ⟨hkn, hkne⟩ := highest_some hk
  refine ⟨hk, ?_⟩
  rcases h.of_head hkn with ⟨-, ha⟩ | hsome
  · unfold nonEmpty at hkne
    rw [ha] at hkne
    cases hkne
  · exact hsome

/-- Where there are packets, the scan up ends at their lowest precedence. -/
theorem Refines.lowest_eq (h : Refines n s a) (h0 : s.nPktsTot ≠ 0) :
    lowest (nonEmpty a) n = some (lowestPrec s) ∧
      ∃ p rest, (s.q (lowestPrec s)).head = some p ∧ a (lowestPrec s) = p :: rest := by
  have hlt := h.hi_lt
  have hlow : lowest (nonEmpty a) n = some (lowestPrec s) := by
    rw [lowest_eq_some]
    unfold lowestPrec
    cases hf : (List.range s.hiPrec).find? fun prec => (s.q prec).head.isSome with
    | some i =>
      obtain ⟨hi, hsome, hbelow⟩ := lowest_eq_some.1 hf
      refine ⟨by simp only [Option.getD_some]; omega, ?_, ?_⟩
      · rw [Option.getD_some, h.nonEmpty_eq (by omega)]
        exact hsome
      · intro j hj
        rw [Option.getD_some] at hj
        rw [h.nonEmpty_eq (by omega)]
        exact hbelow j hj
    | none =>
      have hbelow := lowest_eq_none.1 hf
      refine ⟨hlt, ?_, ?_⟩
      · -- all precedences but `hi_prec` are empty
        obtain ⟨i, hi, hne⟩ := h.exists_nonEmpty h0
        have heq : i = s.hiPrec := by
          rcases Nat.lt_trichotomy i s.hiPrec with hlt | heq | hgt
          · have hno := hbelow i hlt
            rw [← h.nonEmpty_eq hi, hne] at hno
            cases hno
          · exact heq
          · rw [h.nonEmpty_above hi hgt] at hne
            cases hne
        rw [Option.getD_none, ← heq]
        exact hne
      · intro j hj
        rw [Option.getD_none] at hj
        rw [h.nonEmpty_eq (by omega)]
        exact hbelow j hj
  refine ⟨hlow, ?_⟩
  obtain ⟨hi, hne, -⟩ := lowest_eq_some.1 hlow
  rcases h.of_head hi with ⟨-, ha⟩ | hsome
  · unfold nonEmpty at hne
    rw [ha] at hne
    cases hne
  · exact hsome

theorem pktqDeq_refines [DecidableEq Pkt] (h : Refines n s a) :
    ∃ s', pktqDeq s = (s', (deqFrom a (highest (nonEmpty a) n)).2) ∧
      Refines n s' (deqFrom a (highest (nonEmpty a) n)).1 := by
  unfold pktqDeq
  by_cases h0 : s.nPktsTot = 0
  · rw [if_pos h0, highest_none (h.empty h0)]
    exact ⟨s, rfl, h⟩
  · obtain ⟨hhigh, p, rest, hhead, ha⟩ := h.lowered h0
    have hp := (highest_some hhigh).1
    rw [if_neg h0, hhigh]
    dsimp only
    rw [hhead]
    unfold deqFrom withPrec takeFirst
    dsimp only
    rw [ha]
    exact ⟨_, rfl, takeHead_refines h.lower hp ha⟩

theorem pktqPeek_refines (h : Refines n s a) :
    ∃ s', pktqPeek s = (s', (peekFrom a (highest (nonEmpty a) n)).2) ∧
      Refines n s' (peekFrom a (highest (nonEmpty a) n)).1 := by
  unfold pktqPeek
  by_cases h0 : s.nPktsTot = 0
  · rw [if_pos h0, highest_none (h.empty h0)]
    exact ⟨s, rfl, h⟩
  · obtain ⟨hhigh, p, rest, hhead, ha⟩ := h.lowered h0
    rw [if_neg h0, hhigh]
    dsimp only
    unfold peekFrom withPrec
    dsimp only
    rw [hhead, ha]
    exact ⟨_, rfl, h.lower⟩

theorem pktqDeqTail_refines [DecidableEq Pkt] (h : Refines n s a) :
    ∃ s', pktqDeqTail s = some (s', (deqTailFrom a (lowest (nonEmpty a) n)).2) ∧
      Refines n s' (deqTailFrom a (lowest (nonEmpty a) n)).1 := by
  unfold pktqDeqTail
  by_cases h0 : s.nPktsTot = 0
  · rw [if_pos h0, lowest_eq_none.2 (h.empty h0)]
    exact ⟨s, rfl, h⟩
  · obtain ⟨hlow, p, rest, hhead, ha⟩ := h.lowest_eq h0
    have hp := (lowest_eq_some.1 hlow).1
    rw [if_neg h0, hlow]
    dsimp only
    rw [hhead]
    obtain ⟨l, t, hl⟩ : ∃ l t, a (lowestPrec s) = l ++ [t] := by
      rcases List.eq_nil_or_concat (a (lowestPrec s)) with hnil | ⟨l, t, hl⟩
      · rw [ha] at hnil
        cases hnil
      · exact ⟨l, t, hl.trans (List.concat_eq_append)⟩
    obtain ⟨s', htake, hr⟩ := takeTail_refines h hp hl
    -- the packet is not queued any more, and its link is cleared
    have hout : t ∉ entries (List.range n) (Function.update a (lowestPrec s) l) := by
      have hperm : (a (lowestPrec s)).Perm (t :: l) := by
        rw [hl]
        exact List.perm_append_comm
      have herase := entries_erase List.nodup_range (List.mem_range.2 hp) hperm
      exact (List.nodup_cons.1 ((herase.nodup_iff).1 h.nodup)).1
    unfold deqTailFrom withPrec takeLast
    dsimp only
    rw [hl, List.dropLast_concat]
    refine ⟨{ s' with link := Function.update s'.link t none }, ?_, hr.frame hout none⟩
    show (takeTail s (lowestPrec s)).bind _ = _
    rw [htake]
    simp [setLink]

theorem pktqPeekTail_refines (h : Refines n s a) :
    ∃ s', pktqPeekTail s = (s', (peekTailFrom a (lowest (nonEmpty a) n)).2) ∧
      Refines n s' (peekTailFrom a (lowest (nonEmpty a) n)).1 := by
  unfold pktqPeekTail
  by_cases h0 : s.nPktsTot = 0
  · rw [if_pos h0, lowest_eq_none.2 (h.empty h0)]
    exact ⟨s, rfl, h⟩
  · obtain ⟨hlow, -⟩ := h.lowest_eq h0
    have hp := (lowest_eq_some.1 hlow).1
    rw [if_neg h0, hlow, h.tail _ hp]
    exact ⟨s, rfl, h⟩

/-- The precedence that `pktq_mdeq` and `pktq_mpeek` settle on. -/
theorem Refines.masked (h : Refines n s a) (precBmp : Nat) :
    maskedPrec s.q precBmp s.hiPrec = highestIn n a precBmp := by
  rw [maskedPrec_eq, highestIn, h.highest_eq]

theorem Refines.masked_some (h : Refines n s a) {precBmp i : Nat}
    (hi : highestIn n a precBmp = some i) :
    i < n ∧ ∃ p rest, (s.q i).head = some p ∧ a i = p :: rest := by
  obtain ⟨hlt, hmask⟩ := highest_some hi
  rw [Bool.and_eq_true] at hmask
  refine ⟨hlt, ?_⟩
  rcases h.of_head hlt with ⟨-, ha⟩ | hsome
  · unfold nonEmpty at hmask
    rw [ha] at hmask
    cases hmask.2
  · exact hsome

theorem Refines.highestIn_empty (h : Refines n s a) (h0 : s.nPktsTot = 0) (precBmp : Nat) :
    highestIn n a precBmp = none := by
  apply highest_none
  intro i hi
  rw [h.empty h0 i hi, Bool.and_false]

theorem pktqMpeek_refines (h : Refines n s a) (precBmp : Nat) :
    ∃ s', pktqMpeek s precBmp = (s', (peekFrom a (highestIn n a precBmp)).2) ∧
      Refines n s' (peekFrom a (highestIn n a precBmp)).1 := by
  unfold pktqMpeek
  by_cases h0 : s.nPktsTot = 0
  · rw [if_pos h0, h.highestIn_empty h0]
    exact ⟨s, rfl, h⟩
  · have hlow := h.lower
    rw [if_neg h0]
    dsimp only
    rw [hlow.masked precBmp]
    cases hh : highestIn n a precBmp with
    | none => exact ⟨_, rfl, hlow⟩
    | some i =>
      obtain ⟨-, p, rest, hhead, ha⟩ := hlow.masked_some hh
      unfold peekFrom withPrec
      dsimp only at hhead ⊢
      rw [hhead, ha]
      exact ⟨_, rfl, hlow⟩

/-- Clearing head and tail of a queue without packets changes nothing. -/
theorem Refines.clear_eq (h : Refines n s a) (hp : prec < n) :
    (if (s.q prec).nPkts = 0 then { s.q prec with head := none, tail := none } else s.q prec) =
      s.q prec := by
  split
  · next hzero =>
    rw [h.count prec hp] at hzero
    have hchain := (h.chain prec hp).head
    have htail := h.tail prec hp
    rw [List.eq_nil_of_length_eq_zero hzero] at hchain htail
    rw [show s.q prec = ⟨(s.q prec).head, (s.q prec).tail, (s.q prec).nPkts, (s.q prec).maxPkts⟩
      from rfl, hchain, htail]
    rfl
  · rfl

theorem pktqMdeq_refines [DecidableEq Pkt] (h : Refines n s a) (precBmp : Nat) :
    ∃ s', pktqMdeq s precBmp = (s', (deqFrom a (highestIn n a precBmp)).2) ∧
      Refines n s' (deqFrom a (highestIn n a precBmp)).1 := by
  unfold pktqMdeq
  by_cases h0 : s.nPktsTot = 0
  · rw [if_pos h0, h.highestIn_empty h0]
    exact ⟨s, rfl, h⟩
  · have hlow := h.lower
    rw [if_neg h0]
    dsimp only
    rw [hlow.masked precBmp]
    cases hh : highestIn n a precBmp with
    | none => exact ⟨_, rfl, hlow⟩
    | some i =>
      obtain ⟨hi, p, rest, hhead, ha⟩ := hlow.masked_some hh
      have htake := takeHead_refines hlow hi ha
      unfold deqFrom withPrec takeFirst
      dsimp only at hhead ⊢
      rw [hhead, ha]
      dsimp only
      rw [htake.clear_eq hi, Function.update_eq_self]
      exact ⟨_, rfl, htake⟩

theorem pktqMlen_eq (h : Refines n s a) (precBmp : Nat) :
    pktqMlen s precBmp =
      (((List.range n).filter precBmp.testBit).map fun prec => (a prec).length).sum := by
  have hlt := h.hi_lt
  rw [sum_filter_of_above (m := s.hiPrec + 1) precBmp.testBit hlt]
  · unfold pktqMlen
    congr 1
    apply List.map_congr_left
    intro i hi
    have hi := List.mem_range.1 (List.mem_of_mem_filter hi)
    exact h.count i (by omega)
  · intro i h1 h2
    rw [h.above i h2 h1]
    rfl

/-! ## Every run -/

/-- A call whose assertions hold does what it does to the lists. -/
theorem exec_refines [DecidableEq Pkt] (h : Refines n s a) {c : Call Pkt} (hc : asserts s c) :
    ∃ s', exec s c = some (s', (listExec n a c).2) ∧ Refines n s' (listExec n a c).1 := by
  have hprec : ∀ {prec : Nat}, prec < s.numPrec → prec < n := by
    intro prec hp
    rw [h.numPrec_eq] at hp
    exact hp
  cases c with
  | penq prec p => exact pktqPenq_refines h hc
  | penqHead prec p => exact pktqPenqHead_refines h hc
  | pdeq prec =>
    obtain ⟨s', hs, hr⟩ := pktqPdeq_refines h (hprec hc)
    exact ⟨s', congrArg some hs, hr⟩
  | pdeqTail prec => exact pktqPdeqTail_refines h (hprec hc)
  | pdeqWithFn prec fn => exact pktqPdeqWithFn_refines h (hprec hc) fn
  | pdel pktbuf prec =>
    cases pktbuf with
    | none => exact ⟨s, rfl, h⟩
    | some pktbuf => exact pktqPdel_refines h (hprec hc) pktbuf
  | append prec pkts => exact pktqAppend_refines h hc
  | prepend prec pkts => exact pktqPrepend_refines h hc
  | deq =>
    obtain ⟨s', hs, hr⟩ := pktqDeq_refines h
    exact ⟨s', congrArg some hs, hr⟩
  | deqTail => exact pktqDeqTail_refines h
  | peek =>
    obtain ⟨s', hs, hr⟩ := pktqPeek_refines h
    exact ⟨s', congrArg some hs, hr⟩
  | peekTail =>
    obtain ⟨s', hs, hr⟩ := pktqPeekTail_refines h
    exact ⟨s', congrArg some hs, hr⟩
  | mdeq precBmp =>
    obtain ⟨s', hs, hr⟩ := pktqMdeq_refines h precBmp
    exact ⟨s', congrArg some hs, hr⟩
  | mpeek precBmp =>
    obtain ⟨s', hs, hr⟩ := pktqMpeek_refines h precBmp
    exact ⟨s', congrArg some hs, hr⟩
  | mlen precBmp =>
    refine ⟨s, ?_, h⟩
    show some (s, Result.len (pktqMlen s precBmp)) = _
    rw [pktqMlen_eq h]
    rfl
  | setLink p next =>
    have hout : p ∉ entries (List.range n) a := by
      rw [← h.queued_eq]
      exact hc
    exact ⟨_, rfl, h.frame hout next⟩

theorem step_refines [DecidableEq Pkt] (h : Refines n s a) {c : Call Pkt} {r : Result Pkt}
    (hs : step s c = some (s', r)) :
    ∃ a', listStep n a c = some (a', r) ∧ Refines n s' a' := by
  unfold step at hs
  split at hs
  · next hc =>
    obtain ⟨t, ht, hr⟩ := exec_refines h hc
    rw [ht] at hs
    cases hs
    exact ⟨_, rfl, hr⟩
  · cases hs

end

theorem init_refines (link : Pkt → Option Pkt) {numPrec : Nat} (maxPkts : Nat)
    (hpos : 0 < numPrec) (hle : numPrec ≤ 16) :
    Refines numPrec (init link numPrec maxPkts) fun _ => [] := by
  have hnil : entries (List.range numPrec) (fun _ => ([] : List Pkt)) = [] := by
    unfold entries
    rw [List.flatMap_eq_nil_iff]
    intro i _
    rfl
  refine ⟨?_, hle, hpos, fun _ _ => rfl, fun _ _ => rfl, fun _ _ => rfl, ?_, Nat.zero_le _, ?_,
    fun _ _ _ => rfl⟩
  · exact Nat.mod_eq_of_lt (by omega)
  · rw [hnil]
    rfl
  · rw [hnil]
    exact List.nodup_nil

/-- What holds of the chains, the counters and the hint, in terms of the queue alone. -/
structure WellFormed (s : Pktq Pkt) : Prop where
  /-- a chain ends, has `n_pkts` distinct packets, and the last is `tail` -/
  chain : ∀ prec < s.numPrec, ∃ l, Chain s.link (s.q prec).head l ∧ l.Nodup ∧
    l.length = (s.q prec).nPkts ∧ l.getLast? = (s.q prec).tail
  null_iff : ∀ prec < s.numPrec, ((s.q prec).head = none ↔ (s.q prec).tail = none) ∧
    ((s.q prec).tail = none ↔ (s.q prec).nPkts = 0)
  total : s.nPktsTot = ((List.range s.numPrec).map fun prec => (s.q prec).nPkts).sum
  above : ∀ prec < s.numPrec, s.hiPrec < prec → (s.q prec).head = none

theorem Refines.wellFormed {n : Nat} {s : Pktq Pkt} {a : Queues Pkt} (h : Refines n s a) :
    WellFormed s := by
  have hn := h.numPrec_eq
  refine ⟨?_, ?_, ?_, ?_⟩
  · intro prec hp
    rw [hn] at hp
    have hc := h.chain prec hp
    exact ⟨a prec, hc, hc.nodup, (h.count prec hp).symm, (h.tail prec hp).symm⟩
  · intro prec hp
    rw [hn] at hp
    rw [(h.chain prec hp).head, h.tail prec hp, h.count prec hp, List.head?_eq_none_iff,
      List.getLast?_eq_none_iff, List.length_eq_zero_iff]
    exact ⟨Iff.rfl, Iff.rfl⟩
  · rw [h.total, hn]
    unfold entries
    rw [List.length_flatMap]
    congr 1
    apply List.map_congr_left
    intro prec hp
    exact (h.count prec (List.mem_range.1 hp)).symm
  · intro prec hp hlt
    rw [hn] at hp
    exact (h.chain prec hp).eq_nil_iff.2 (h.above prec hp hlt)

/-- **Refinement.**  Every run of calls whose assertions hold gives the results that the
lists give, and leaves the queue with the lists in its chains. -/
theorem pktq_refines_lists [DecidableEq Pkt] (link : Pkt → Option Pkt) (numPrec maxPkts : Nat)
    (hpos : 0 < numPrec) (hle : numPrec ≤ 16) (es : List (Call Pkt)) (s : Pktq Pkt)
    (tr : List (Call Pkt × Result Pkt))
    (h : runs step (init link numPrec maxPkts) es = some (s, tr)) :
    ∃ a, runs (listStep numPrec) (fun _ => []) es = some (a, tr) ∧ Refines numPrec s a ∧
      WellFormed s := by
  obtain ⟨a, ha, hr⟩ := runs_simulates step (listStep numPrec) (Refines numPrec)
    (fun _ _ _ _ _ hr hs => step_refines hr hs) _ _ _ _ _ (init_refines link maxPkts hpos hle) h
  exact ⟨a, ha, hr, hr.wellFormed⟩

/-- Packets 1 to 5 over three precedences. -/
def threePrecs : List (Call Nat) :=
  [.penq 0 1, .setLink 3 (some 4), .append 2 [3, 4], .penqHead 2 5, .deqTail, .mdeq 4,
    .pdel (some 3) 2, .peek]

theorem pktq_refines_lists_two : ∃ s tr a,
    runs step (init (fun _ => none) 3 8) threePrecs = some (s, tr) ∧
    runs (listStep 3) (fun _ => []) threePrecs = some (a, tr) ∧ Refines 3 s a ∧ WellFormed s := by
  obtain ⟨a, ha⟩ := pktq_refines_lists (fun _ => none) 3 8 (by decide) (by decide) threePrecs
    _ _ rfl
  exact ⟨_, _, a, rfl, ha⟩

end Bcmdhd.HndPktq
