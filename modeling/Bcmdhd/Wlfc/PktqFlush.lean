import Bcmdhd.Wlfc.PrecEnque

/-!
# A queue flushed by a function of its packets (`_dhd_wlfc_pktq_flush`)

The packets that `fn` takes are unlinked one by one.  The tail pointer of a queue is set only if
the queue becomes empty.

    Refines n s a → pktqFlush s = some s',
      s' holds the packets that fn rejected, in order
        ↔  a queue whose last packet is taken is taken as a whole            (flush_keeps_iff)

Where it is not, the tail is a packet that has been freed, and the next packet that is put at the
end of the queue is lost (`flush_loses`).
-/

namespace Bcmdhd.Wlfc.PktqFlush

open HndPktq Buckets Links PrecEnque

variable {Pkt σ : Type}

/-! ## Algorithm -/

section
variable [DecidableEq Pkt]


/-- `q_type_t` -/
inductive QType
  | psq | afq

/-- What is done to a packet besides: its reference in the hanger, the counters, `dhd_txcomplete`,
`PKTFREE`. -/
abbrev Account (σ Pkt : Type) := QType → Nat → σ → Pkt → σ

/-- `if (prev) PKTSETLINK(prev, next);` -/
def relink (link : Pkt → Option Pkt) (prev next : Option Pkt) : Pkt → Option Pkt :=
  match prev with
  | none => link
  | some prev => Function.update link prev next

def unlink (s : Pktq Pkt) (prec : Nat) (prev : Option Pkt) (p : Pkt) : Pktq Pkt :=
  let q := s.q prec
  if q.head = some p then leave s prec (Function.update s.link p none) (s.link p) q.tail
  else leave s prec (Function.update (relink s.link prev (s.link p)) p none) q.head q.tail

/-- `while (p)`; nothing if `PKTLINK` of `NULL` is read, or the loop does not end. -/
def flushLoop (fn : Option (Pkt → Bool)) (account : σ → Pkt → σ) (prec : Nat) :
    Nat → Pktq Pkt × σ → Option Pkt → Option Pkt → Option (Pktq Pkt × σ)
  | 0, _, _, _ => none
  | _ + 1, t, _, none => some t
  | k + 1, (s, ctx), prev, some p =>
    if matching fn p then
      let s' := unlink s prec prev p
      let ctx := account ctx p
      if (s.q prec).head = some p then flushLoop fn account prec k (s', ctx) prev (s'.q prec).head
      else
        match prev with
        | none => none
        | some v => flushLoop fn account prec k (s', ctx) prev (s'.link v)
    else flushLoop fn account prec k (s, ctx) (some p) (s.link p)

def clearTail (s : Pktq Pkt) (prec : Nat) : Pktq Pkt :=
  if (s.q prec).head = none then { s with q := Function.update s.q prec { s.q prec with tail := none } }
  else s

def flushPrec (fn : Option (Pkt → Bool)) (account : Nat → σ → Pkt → σ) (t : Pktq Pkt × σ)
    (prec : Nat) : Option (Pktq Pkt × σ) :=
  (flushLoop fn (account prec) prec fuel t none (t.1.q prec).head).map fun t =>
    (clearTail t.1 prec, t.2)

/-- `_dhd_wlfc_pktq_flush` -/
def pktqFlush (account : Account σ Pkt) (qType : QType) (fn : Option (Pkt → Bool)) (s : Pktq Pkt)
    (ctx : σ) : Option (Pktq Pkt × σ) :=
  if s.nPktsTot = 0 then some (s, ctx)
  else (List.range s.numPrec).foldlM (flushPrec fn (account qType)) (s, ctx)

end

/-- The packets that stay. -/
def rejected (fn : Option (Pkt → Bool)) (l : List Pkt) : List Pkt := l.filter fun p => !matching fn p

def taken (fn : Option (Pkt → Bool)) (l : List Pkt) : List Pkt := l.filter (matching fn)

theorem rejected_cons (fn : Option (Pkt → Bool)) (p : Pkt) (l : List Pkt) :
    rejected fn (p :: l) = if matching fn p then rejected fn l else p :: rejected fn l := by
  unfold rejected
  rw [List.filter_cons]
  cases matching fn p <;> rfl

theorem taken_cons (fn : Option (Pkt → Bool)) (p : Pkt) (l : List Pkt) :
    taken fn (p :: l) = if matching fn p then p :: taken fn l else taken fn l := List.filter_cons

/-! ## Queues without their tails -/

/-- The tails as they should be. -/
def retail (s : Pktq Pkt) (a : Queues Pkt) : Pktq Pkt :=
  { s with q := fun i => { s.q i with tail := (a i).getLast? } }

section
variable {n prec : Nat} {s : Pktq Pkt} {a : Queues Pkt}

theorem retail_leave (s : Pktq Pkt) (a : Queues Pkt) (prec : Nat) (link : Pkt → Option Pkt)
    (head tail : Option Pkt) (l : List Pkt) :
    retail (leave s prec link head tail) (Function.update a prec l) =
      leave (retail s a) prec link head l.getLast? := by
  unfold retail leave
  dsimp only
  congr 1
  funext i
  by_cases hi : i = prec
  · subst hi
    rw [Function.update_self, Function.update_self, Function.update_self]
  · rw [Function.update_of_ne hi, Function.update_of_ne hi, Function.update_of_ne hi]

theorem retail_clearTail (s : Pktq Pkt) (a : Queues Pkt) (prec : Nat) :
    retail (clearTail s prec) a = retail s a := by
  unfold clearTail
  split
  · unfold retail
    dsimp only
    congr 1
    funext i
    by_cases hi : i = prec
    · subst hi
      rw [Function.update_self]
    · rw [Function.update_of_ne hi]
  · rfl

theorem Refines.retail (h : Refines n s a) : Refines n (retail s a) a where
  numPrec_eq := h.numPrec_eq
  num_le := h.num_le
  hi_lt := h.hi_lt
  chain := h.chain
  tail := fun _ _ => rfl
  count := h.count
  total := h.total
  small := h.small
  nodup := h.nodup
  above := h.above

/-- A queue holds the lists if it does but for the tails, and these are right. -/
theorem refines_iff_tails (h : Refines n (retail s a) a) :
    Refines n s a ↔ ∀ prec < n, (s.q prec).tail = (a prec).getLast? :=
  ⟨fun hr => hr.tail, fun ht => ⟨h.numPrec_eq, h.num_le, h.hi_lt, h.chain, ht, h.count, h.total,
    h.small, h.nodup, h.above⟩⟩

/-! ## One queue -/

theorem unlink_head [DecidableEq Pkt] (h : Refines n (retail s a) a) (hp : prec < n) {p : Pkt}
    {rest : List Pkt}
    (ha : a prec = p :: rest) :
    Refines n (retail (unlink s prec none p) (Function.update a prec rest))
      (Function.update a prec rest) ∧ (s.q prec).head = some p := by
  have hchain : Chain s.link (s.q prec).head (a prec) := h.chain prec hp
  have hnd := hchain.nodup
  rw [ha] at hchain hnd
  refine ⟨?_, hchain.1⟩
  unfold unlink
  dsimp only
  rw [if_pos hchain.1, retail_leave]
  refine h.leave hp (p := p) ?_ ?_ rfl ?_
  · rw [ha]
  · exact hchain.2.frame (List.nodup_cons.1 hnd).1 none
  · intro x hx
    apply Function.update_of_ne
    rintro rfl
    rw [ha] at hx
    exact hx List.mem_cons_self

theorem unlink_after [DecidableEq Pkt] (h : Refines n (retail s a) a) (hp : prec < n) {prev p : Pkt}
    {kept rest : List Pkt} (ha : a prec = kept ++ prev :: p :: rest) :
    Refines n (retail (unlink s prec (some prev) p) (Function.update a prec (kept ++ prev :: rest)))
      (Function.update a prec (kept ++ prev :: rest)) ∧
      (s.q prec).head ≠ some p ∧
      (unlink s prec (some prev) p).link prev = rest.head? := by
  have hchain : Chain s.link (s.q prec).head (a prec) := h.chain prec hp
  have hnd := hchain.nodup
  rw [ha] at hchain hnd
  have hp' : p ∉ kept ++ prev :: rest :=
    (List.nodup_cons.1 (((perm_after kept rest prev p).nodup_iff).1 hnd)).1
  have hhead : (s.q prec).head ≠ some p := by
    intro he
    rw [hchain.head] at he
    apply hp'
    cases kept with
    | nil =>
      rw [Option.some.inj he.symm]
      exact List.mem_cons_self
    | cons k kept =>
      rw [Option.some.inj he.symm]
      exact List.mem_cons_self
  have hne : prev ≠ p := by
    rintro rfl
    exact hp' (by simp)
  have hlink : s.link p = rest.head? := by
    have hsplit : Chain s.link (s.q prec).head ((kept ++ [prev]) ++ p :: rest) := by
      rw [List.append_assoc]
      exact hchain
    exact hsplit.link_eq
  unfold unlink
  dsimp only
  rw [if_neg hhead, retail_leave]
  refine ⟨h.leave hp (p := p) ?_ ?_ rfl ?_, hhead, ?_⟩
  · rw [ha]
    exact perm_after kept rest prev p
  · exact hchain.unlink.frame hp' none
  · intro x hx
    rw [ha] at hx
    show Function.update (Function.update s.link prev (s.link p)) p none x = s.link x
    rw [Function.update_of_ne, Function.update_of_ne]
    · rintro rfl
      exact hx (by simp)
    · rintro rfl
      exact hx (by simp)
  · show Function.update (Function.update s.link prev (s.link p)) p none prev = rest.head?
    rw [Function.update_of_ne hne, Function.update_self, hlink]

theorem unlink_tail [DecidableEq Pkt] (s : Pktq Pkt) (prec : Nat) (prev : Option Pkt) (p : Pkt)
    (i : Nat) :
    ((unlink s prec prev p).q i).tail = (s.q i).tail := by
  have hleave : ∀ link head, ((leave s prec link head (s.q prec).tail).q i).tail = (s.q i).tail := by
    intro link head
    unfold leave
    dsimp only
    by_cases hi : i = prec
    · subst hi
      rw [Function.update_self]
    · rw [Function.update_of_ne hi]
  unfold unlink
  dsimp only
  split
  · exact hleave _ _
  · exact hleave _ _

/-- `kept` is behind the loop, `rest` before it. -/
theorem flushLoop_spec [DecidableEq Pkt] (fn : Option (Pkt → Bool)) (account : σ → Pkt → σ)
    (hp : prec < n)
    (kept : List Pkt) {rest : List Pkt} {k : Nat} (ctx : σ) (h : Refines n (retail s a) a)
    (ha : a prec = kept ++ rest) (hk : rest.length < k) :
    ∃ s', flushLoop fn account prec k (s, ctx) kept.getLast? rest.head? =
        some (s', (taken fn rest).foldl account ctx) ∧
      Refines n (retail s' (Function.update a prec (kept ++ rejected fn rest)))
        (Function.update a prec (kept ++ rejected fn rest)) ∧
      ∀ i, (s'.q i).tail = (s.q i).tail := by
  induction rest generalizing kept k s a ctx with
  | nil =>
    cases k with
    | zero => cases hk
    | succ k =>
      refine ⟨s, rfl, ?_, fun _ => rfl⟩
      show Refines n (retail s (Function.update a prec (kept ++ []))) (Function.update a prec (kept ++ []))
      rw [← ha, Function.update_eq_self]
      exact h
  | cons p rest ih =>
    cases k with
    | zero => cases hk
    | succ k =>
      have hk' : rest.length < k := by simpa using hk
      rw [rejected_cons, taken_cons, List.head?_cons]
      unfold flushLoop
      by_cases hm : matching fn p = true
      · rw [if_pos hm, if_pos hm, if_pos hm]
        rcases List.eq_nil_or_concat kept with rfl | ⟨kept, prev, rfl⟩
        · obtain ⟨hr, hhead⟩ := unlink_head h hp (ha.trans (List.nil_append _))
          have hnext : ((unlink s prec none p).q prec).head = rest.head? := by
            have hc := (hr.chain prec hp).head
            rwa [Function.update_self] at hc
          obtain ⟨s', hs', hr', ht⟩ := ih [] (account ctx p) hr
            (Function.update_self _ _ _) hk'
          refine ⟨s', ?_, ?_, fun i => (ht i).trans (unlink_tail s prec none p i)⟩
          · dsimp only [List.getLast?_nil]
            rw [if_pos hhead, hnext]
            exact hs'
          · rwa [Function.update_idem] at hr'
        · rw [List.concat_eq_append] at ha ⊢
          rw [List.append_assoc, List.singleton_append] at ha
          obtain ⟨hr, hhead, hnext⟩ := unlink_after h hp ha
          obtain ⟨s', hs', hr', ht⟩ := ih (kept ++ [prev]) (account ctx p) hr
            (by rw [Function.update_self, List.append_assoc]; rfl) hk'
          rw [List.getLast?_append, List.getLast?_singleton, Option.some_or] at hs' ⊢
          refine ⟨s', ?_, ?_, fun i => (ht i).trans (unlink_tail s prec (some prev) p i)⟩
          · dsimp only
            rw [if_neg hhead, hnext]
            exact hs'
          · rwa [Function.update_idem] at hr'
      · rw [if_neg hm, if_neg hm, if_neg hm]
        have hchain : Chain s.link (s.q prec).head (kept ++ p :: rest) := by
          rw [← ha]
          exact h.chain prec hp
        obtain ⟨s', hs', hr', ht⟩ := ih (kept ++ [p]) ctx h
          (by rw [ha, List.append_assoc]; rfl) hk'
        rw [List.getLast?_append, List.getLast?_singleton, Option.some_or] at hs'
        rw [List.append_assoc, List.singleton_append] at hr'
        refine ⟨s', ?_, hr', ht⟩
        rw [hchain.link_eq]
        exact hs'

/-- The lists after the queues of `precs` have been flushed. -/
def flushed (fn : Option (Pkt → Bool)) (a : Queues Pkt) (precs : List Nat) : Queues Pkt := fun i =>
  if i ∈ precs then rejected fn (a i) else a i

/-- What has been done to the packets. -/
def accounted (fn : Option (Pkt → Bool)) (account : Nat → σ → Pkt → σ) (a : Queues Pkt)
    (precs : List Nat) (ctx : σ) : σ :=
  precs.foldl (fun ctx prec => (taken fn (a prec)).foldl (account prec) ctx) ctx

theorem clearTail_tail (s : Pktq Pkt) (prec i : Nat) :
    ((clearTail s prec).q i).tail =
      if i = prec ∧ (s.q i).head = none then none else (s.q i).tail := by
  unfold clearTail
  by_cases hi : i = prec
  · subst hi
    by_cases hn : (s.q i).head = none
    · rw [if_pos hn, if_pos ⟨rfl, hn⟩]
      dsimp only
      rw [Function.update_self]
    · rw [if_neg hn, if_neg (fun hc => hn hc.2)]
  · have hout : (if i = prec ∧ (s.q i).head = none then none else (s.q i).tail) = (s.q i).tail :=
      if_neg fun hc => hi hc.1
    rw [hout]
    split
    · dsimp only
      rw [Function.update_of_ne hi]
    · rfl

theorem flushPrec_spec [DecidableEq Pkt] (fn : Option (Pkt → Bool)) (account : Nat → σ → Pkt → σ)
    (hp : prec < n)
    (ctx : σ) (h : Refines n (retail s a) a) :
    ∃ s', flushPrec fn account (s, ctx) prec = some (s', (taken fn (a prec)).foldl (account prec) ctx) ∧
      Refines n (retail s' (Function.update a prec (rejected fn (a prec))))
        (Function.update a prec (rejected fn (a prec))) ∧
      ∀ i, (s'.q i).tail =
        if i = prec ∧ rejected fn (a prec) = [] then none else (s.q i).tail := by
  have hhead : (s.q prec).head = (a prec).head? := (h.chain prec hp).head
  obtain ⟨s', hs', hr, ht⟩ := flushLoop_spec fn (account prec) hp [] ctx h
    (List.nil_append _).symm (h.length_lt hp)
  rw [List.nil_append] at hr
  refine ⟨clearTail s' prec, ?_, ?_, ?_⟩
  · unfold flushPrec
    rw [hhead]
    show Option.map _ (flushLoop fn (account prec) prec fuel (s, ctx) none (a prec).head?) = _
    rw [show (none : Option Pkt) = ([] : List Pkt).getLast? from rfl, hs']
    rfl
  · rw [retail_clearTail]
    exact hr
  · intro i
    rw [clearTail_tail, ht]
    by_cases hi : i = prec
    · subst hi
      have hc := hr.chain i hp
      rw [Function.update_self] at hc
      have hiff : (s'.q i).head = none ↔ rejected fn (a i) = [] := hc.eq_nil_iff
      simp only [hiff]
    · rw [if_neg (fun hc => hi hc.1), if_neg (fun hc => hi hc.1)]

/-- All the queues of `precs`, one after the other. -/
theorem flushPrecs_spec [DecidableEq Pkt] (fn : Option (Pkt → Bool)) (account : Nat → σ → Pkt → σ)
    {precs : List Nat}
    (hnd : precs.Nodup) (hlt : ∀ i ∈ precs, i < n) (ctx : σ) (h : Refines n (retail s a) a) :
    ∃ s', precs.foldlM (flushPrec fn account) (s, ctx) =
        some (s', accounted fn account a precs ctx) ∧
      Refines n (retail s' (flushed fn a precs)) (flushed fn a precs) ∧
      ∀ i, (s'.q i).tail =
        if i ∈ precs ∧ rejected fn (a i) = [] then none else (s.q i).tail := by
  induction precs generalizing s a ctx with
  | nil =>
    refine ⟨s, rfl, ?_, fun i => (if_neg (fun hc => by cases hc.1)).symm⟩
    have hsame : flushed fn a [] = a := by
      funext i
      exact if_neg (by simp)
    rw [hsame]
    exact h
  | cons prec precs ih =>
    rw [List.nodup_cons] at hnd
    obtain ⟨s₁, hs₁, hr₁, ht₁⟩ := flushPrec_spec fn account (hlt prec List.mem_cons_self) ctx h
    obtain ⟨s', hs', hr', ht'⟩ := ih hnd.2 (fun i hi => hlt i (List.mem_cons_of_mem prec hi))
      ((taken fn (a prec)).foldl (account prec) ctx) hr₁
    -- the queues still to come have not been touched
    have hother : ∀ i ∈ precs, Function.update a prec (rejected fn (a prec)) i = a i := by
      intro i hi
      apply Function.update_of_ne
      rintro rfl
      exact hnd.1 hi
    have hlists : flushed fn (Function.update a prec (rejected fn (a prec))) precs =
        flushed fn a (prec :: precs) := by
      funext i
      unfold flushed
      by_cases hi : i ∈ precs
      · rw [if_pos hi, if_pos (List.mem_cons_of_mem prec hi), hother i hi]
      · rw [if_neg hi]
        by_cases heq : i = prec
        · subst heq
          rw [Function.update_self, if_pos List.mem_cons_self]
        · rw [Function.update_of_ne heq, if_neg]
          intro hm
          rcases List.mem_cons.1 hm with hm | hm
          · exact heq hm
          · exact hi hm
    have hctx : accounted fn account (Function.update a prec (rejected fn (a prec))) precs
        ((taken fn (a prec)).foldl (account prec) ctx) =
        accounted fn account a (prec :: precs) ctx := by
      unfold accounted
      rw [List.foldl_cons]
      refine List.foldl_ext _ _ _ fun c i hi => ?_
      rw [hother i hi]
    rw [hlists] at hr'
    rw [hctx] at hs'
    refine ⟨s', ?_, hr', ?_⟩
    · rw [List.foldlM_cons, hs₁]
      exact hs'
    · intro i
      rw [ht', ht₁]
      by_cases hi : i ∈ precs
      · have hne : i ≠ prec := by
          rintro rfl
          exact hnd.1 hi
        have hkeep : (if i = prec ∧ rejected fn (a prec) = [] then none else (s.q i).tail) =
            (s.q i).tail := if_neg fun hc => hne hc.1
        rw [hother i hi, hkeep]
        simp only [hi, List.mem_cons, or_true]
      · rw [if_neg (fun hc => hi hc.1)]
        by_cases heq : i = prec
        · subst heq
          simp only [List.mem_cons_self, true_and]
        · rw [if_neg (fun hc => heq hc.1), if_neg]
          rintro ⟨hm, -⟩
          rcases List.mem_cons.1 hm with hm | hm
          · exact heq hm
          · exact hi hm

/-! ## All the queues -/

/-- If the last packet is taken, all of them are. -/
def TakenWhole (fn : Option (Pkt → Bool)) (l : List Pkt) : Prop :=
  ∀ p ∈ l.getLast?, matching fn p = true → ∀ q ∈ l, matching fn q = true

/-- The tail that is left is right. -/
theorem takenWhole_iff (fn : Option (Pkt → Bool)) (l : List Pkt) :
    (if rejected fn l = [] then none else l.getLast?) = (rejected fn l).getLast? ↔
      TakenWhole fn l := by
  have hnil : rejected fn l = [] ↔ ∀ q ∈ l, matching fn q = true := by
    unfold rejected
    rw [List.filter_eq_nil_iff]
    simp only [Bool.not_eq_true', Bool.not_eq_false]
  rcases List.eq_nil_or_concat l with rfl | ⟨l, t, rfl⟩
  · exact iff_of_true rfl nofun
  rw [List.concat_eq_append] at hnil ⊢
  have hlast : (l ++ [t]).getLast? = some t := by simp
  by_cases hall : ∀ q ∈ l ++ [t], matching fn q = true
  · rw [if_pos (hnil.mpr hall), hnil.mpr hall]
    exact iff_of_true rfl fun _ _ _ => hall
  · rw [if_neg (fun h0 => hall (hnil.mp h0)), hlast]
    cases ht : matching fn t with
    | false =>
      have hstays : rejected fn (l ++ [t]) = rejected fn l ++ [t] := by
        unfold rejected
        rw [List.filter_append]
        simp [ht]
      rw [hstays, List.getLast?_append, List.getLast?_singleton, Option.some_or]
      refine iff_of_true rfl fun p hp hm => ?_
      rw [hlast, Option.mem_some_iff] at hp
      rw [← hp, ht] at hm
      cases hm
    | true =>
      refine iff_of_false (fun he => ?_) fun hw => hall (hw t hlast ht)
      have hmem := List.mem_of_getLast? he.symm
      unfold rejected at hmem
      rw [List.mem_filter, ht] at hmem
      cases hmem.2

theorem flushed_empty (fn : Option (Pkt → Bool)) (hnil : ∀ i < n, a i = []) :
    flushed fn a (List.range n) = a := by
  funext i
  unfold flushed
  split
  · next hi =>
    rw [hnil i (List.mem_range.1 hi)]
    rfl
  · rfl

theorem accounted_empty (fn : Option (Pkt → Bool)) (account : Nat → σ → Pkt → σ)
    (hnil : ∀ i < n, a i = []) (ctx : σ) : accounted fn account a (List.range n) ctx = ctx := by
  have hsame : accounted fn account a (List.range n) ctx =
      (List.range n).foldl (fun ctx _ => ctx) ctx := by
    refine List.foldl_ext _ _ _ fun c i hi => ?_
    rw [hnil i (List.mem_range.1 hi)]
    rfl
  rw [hsame, List.foldl_fixed]

/-- The chains and counts are always right, the tails are as they were. -/
theorem pktqFlush_spec [DecidableEq Pkt] (account : Account σ Pkt) (qType : QType)
    (fn : Option (Pkt → Bool))
    (ctx : σ) (h : Refines n s a) :
    ∃ s', pktqFlush account qType fn s ctx =
        some (s', accounted fn (account qType) a (List.range n) ctx) ∧
      Refines n (retail s' (flushed fn a (List.range n))) (flushed fn a (List.range n)) ∧
      ∀ i < n, (s'.q i).tail = if rejected fn (a i) = [] then none else (s.q i).tail := by
  unfold pktqFlush
  by_cases h0 : s.nPktsTot = 0
  · have hnil : ∀ i < n, a i = [] := by
      intro i hi
      have hle := h.length_le hi
      rw [h0] at hle
      exact List.length_eq_zero_iff.1 (Nat.le_zero.1 hle)
    rw [if_pos h0, flushed_empty fn hnil, accounted_empty fn (account qType) hnil]
    refine ⟨s, rfl, Refines.retail h, fun i hi => ?_⟩
    rw [h.tail i hi, hnil i hi]
    rfl
  · rw [if_neg h0, h.numPrec_eq]
    obtain ⟨s', hs', hr, ht⟩ := flushPrecs_spec fn (account qType) List.nodup_range
      (fun i hi => List.mem_range.1 hi) ctx (Refines.retail h)
    refine ⟨s', hs', hr, fun i hi => ?_⟩
    rw [ht i]
    simp only [List.mem_range.2 hi, true_and]

/-- **The flush leaves the packets that were rejected, in a queue that describes them, just when
a queue whose last packet is taken is taken as a whole.** -/
theorem flush_keeps_iff [DecidableEq Pkt] (account : Account σ Pkt) (qType : QType)
    (fn : Option (Pkt → Bool))
    (ctx : σ) (h : Refines n s a) :
    ∃ s', pktqFlush account qType fn s ctx =
        some (s', accounted fn (account qType) a (List.range n) ctx) ∧
      (Refines n s' (flushed fn a (List.range n)) ↔ ∀ i < n, TakenWhole fn (a i)) := by
  obtain ⟨s', hs', hr, ht⟩ := pktqFlush_spec account qType fn ctx h
  refine ⟨s', hs', (refines_iff_tails hr).trans ?_⟩
  refine forall₂_congr fun i hi => ?_
  rw [ht i hi, h.tail i hi, ← takenWhole_iff]
  unfold flushed
  rw [if_pos (List.mem_range.2 hi)]

/-- **Otherwise the next packet at the end is lost**: it cannot be reached from the head. -/
theorem flush_loses [DecidableEq Pkt] (account : Account σ Pkt) (qType : QType)
    (fn : Option (Pkt → Bool)) (ctx : σ)
    (h : Refines n s a) (hp : prec < n) (hw : ¬ TakenWhole fn (a prec)) {p : Pkt} (hnew : p ∉ a prec)
    (ctr : Pkt → BitVec 8) (currentSeq : BitVec 8) :
    ∃ s' ctx' s'', pktqFlush account qType fn s ctx = some (s', ctx') ∧
      PrecEnque.precEnque ctr s' prec (some p) false currentSeq false = some s'' ∧
      ¬ Visits s''.link (s''.q prec).head p := by
  obtain ⟨s', hs', hr, ht⟩ := pktqFlush_spec account qType fn ctx h
  have hchain : Chain s'.link (s'.q prec).head (rejected fn (a prec)) := by
    have hc := hr.chain prec hp
    unfold flushed at hc
    rwa [if_pos (List.mem_range.2 hp)] at hc
  -- the tail is the last packet of the list, which was taken
  have hex : ∃ t, (a prec).getLast? = some t ∧ matching fn t = true ∧ rejected fn (a prec) ≠ [] := by
    unfold TakenWhole at hw
    simp only [not_forall] at hw
    obtain ⟨t, hlast, hm, q, hq, hqm⟩ := hw
    refine ⟨t, hlast, hm, List.ne_nil_of_mem (a := q) (List.mem_filter.2 ⟨hq, ?_⟩)⟩
    simpa using hqm
  obtain ⟨t, hlast, hm, hne⟩ := hex
  have htail : (s'.q prec).tail = some t := by
    rw [ht prec hp, if_neg hne, h.tail prec hp, hlast]
  have hout : t ∉ rejected fn (a prec) := by
    unfold rejected
    rw [List.mem_filter, hm]
    exact fun hc => by cases hc.2
  have hhead : (s'.q prec).head ≠ none := fun hn => hne (hchain.eq_nil_iff.1 hn)
  refine ⟨s', _, enter s' prec (Function.update s'.link t (some p)) (s'.q prec).head (some p) 1,
    hs', ?_, ?_⟩
  · unfold PrecEnque.precEnque enque
    dsimp only
    rw [if_neg hhead, Bool.false_and, Bool.false_and, if_neg Bool.false_ne_true]
    unfold enqueEnd
    rw [htail]
    rfl
  · have hframe : Chain (Function.update s'.link t (some p)) (s'.q prec).head
        (rejected fn (a prec)) := hchain.frame hout _
    have hq : ((enter s' prec (Function.update s'.link t (some p)) (s'.q prec).head (some p) 1).q
        prec).head = (s'.q prec).head := by
      unfold enter
      dsimp only
      rw [Function.update_self]
    rw [hq]
    intro hv
    exact hnew (List.mem_of_mem_filter (hframe.visits_iff.mp hv))

/-- Packets 1 and 2 at precedence 0. -/
def twoQueued : Pktq Nat where
  link := fun p => if p = 1 then some 2 else none
  numPrec := 10
  hiPrec := 0
  maxPkts := 8
  nPktsTot := 2
  q := fun i => if i = 0 then ⟨some 1, some 2, 2, 8⟩ else ⟨none, none, 0, 8⟩

def twoLists : Queues Nat := fun i => if i = 0 then [1, 2] else []

theorem twoQueued_refines : Refines 10 twoQueued twoLists where
  numPrec_eq := rfl
  num_le := by decide
  hi_lt := by decide
  chain := by decide
  tail := by decide
  count := by decide
  total := by decide
  small := by decide
  nodup := by decide
  above := by
    intro i _ hlt
    exact if_neg (Nat.ne_of_gt hlt)

/-- Packet 1 is flushed. -/
theorem flush_keeps_iff_two : ∃ s', pktqFlush (fun _ _ _ _ => ()) .psq (some (· = 1)) twoQueued () =
    some (s', ()) ∧ Refines 10 s' (flushed (some (· = 1)) twoLists (List.range 10)) := by
  obtain ⟨s', hs', hiff⟩ := flush_keeps_iff (fun _ _ _ _ => ()) .psq (some (· = 1)) ()
    twoQueued_refines
  refine ⟨s', hs', hiff.mpr fun i _ => ?_⟩
  unfold twoLists
  split
  · intro p hp hm
    cases hp
    cases hm
  · nofun

/-- Packet 2 is flushed; packet 3 is put behind it. -/
theorem flush_keeps_not_two :
    Refines 10 twoQueued twoLists ∧
    ∃ s' s'', pktqFlush (fun _ _ _ _ => ()) .psq (some (· = 2)) twoQueued () = some (s', ()) ∧
      ¬ Refines 10 s' (flushed (some (· = 2)) twoLists (List.range 10)) ∧
      PrecEnque.precEnque (fun _ => 0) s' 0 (some 3) false 0 false = some s'' ∧
      visit s''.link fuel (s''.q 0).head = [1] := by
  refine ⟨twoQueued_refines, _, _, rfl, fun hr => ?_, rfl, rfl⟩
  have htail := hr.tail 0 (by decide)
  exact absurd htail (by decide)

end

/-! ## The queues of a destination -/

section
variable {cfg : Cfg} {fn : PktFn} {d : Dest}

/-- The function as `_dhd_wlfc_pktq_flush` gets it. -/
def processpkt (cfg : Cfg) (fn : PktFn) : Option (Id → Bool) := some (fn.takes cfg)

theorem leavesStaleTail_eq_false (cfg : Cfg) (fn : PktFn) (l : List Id) :
    leavesStaleTail cfg fn l = false ↔ TakenWhole (processpkt cfg fn) l := by
  have hmatch : ∀ p, matching (processpkt cfg fn) p = fn.takes cfg p := fun _ => rfl
  unfold leavesStaleTail TakenWhole
  cases l.getLast? with
  | none => exact iff_of_true rfl nofun
  | some t =>
    simp only [hmatch, Option.mem_some_iff, forall_eq']
    cases fn.takes cfg t with
    | false => simp
    | true => simp

theorem psqOf_flushPsq (s : State) (k : Prec) :
    psqOf (flushPsq cfg fn d s k) d =
      Function.update (psqOf s d) k.num (rejected (processpkt cfg fn) (s.psq d k)) := by
  have hpkt : ∀ t p, (flushPsqPkt cfg k t p).psq = t.psq := by
    intro t p
    unfold flushPsqPkt
    dsimp only
    split <;> rfl
  have hfold : ∀ (l : List Id) (t : State), (l.foldl (flushPsqPkt cfg k) t).psq = t.psq := by
    intro l
    induction l with
    | nil => exact fun _ => rfl
    | cons p l ih => exact fun t => (ih _).trans (hpkt t p)
  rw [← psqOf_setPsq]
  funext i
  unfold psqOf flushPsq
  dsimp only
  rw [hfold]
  rfl

theorem psqOf_flushAll (ks : List Prec) (s : State) :
    psqOf (ks.foldl (flushPsq cfg fn d) s) d =
      flushed (processpkt cfg fn) (psqOf s d) (ks.map Prec.num) := by
  induction ks generalizing s with
  | nil => exact funext fun i => (if_neg (by simp)).symm
  | cons k ks ih =>
    rw [List.foldl_cons, ih, psqOf_flushPsq]
    funext i
    unfold flushed
    by_cases hk : i = k.num
    · subst hk
      rw [Function.update_self, List.map_cons, if_pos List.mem_cons_self, psqOf_num]
      split
      · unfold rejected
        rw [List.filter_filter]
        simp only [Bool.and_self]
      · rfl
    · rw [Function.update_of_ne hk, List.map_cons]
      simp only [List.mem_cons, hk, false_or]

/-- **The queue of a destination goes on holding its packets just when no tail gets stale.** -/
theorem flush_simulates {σ : Type} (account : Account σ Id) (ctx : σ) {s : State} {pq : Pktq Id}
    (h : Refines 10 pq (psqOf s d)) :
    ∃ pq' ctx', pktqFlush account .psq (processpkt cfg fn) pq ctx = some (pq', ctx') ∧
      (Refines 10 pq' (psqOf (Prec.all.foldl (flushPsq cfg fn d) s) d) ↔
        ∀ k, leavesStaleTail cfg fn (s.psq d k) = false) := by
  obtain ⟨pq', hpq, hiff⟩ := flush_keeps_iff account .psq (processpkt cfg fn) ctx h
  have hall : Prec.all.map Prec.num = List.range 10 := by decide
  refine ⟨pq', _, hpq, ?_⟩
  rw [psqOf_flushAll, hall, hiff]
  constructor
  · intro hw k
    have hlt : k.num < 10 := by
      have hac := k.ac.isLt
      have hsup := Bool.toNat_lt k.sup
      unfold Prec.num
      omega
    have hk := hw k.num hlt
    rw [psqOf_num] at hk
    exact (leavesStaleTail_eq_false cfg fn _).mpr hk
  · intro hk i hi
    unfold psqOf
    cases hp : precAt i with
    | none => exact fun _ hl => nomatch hl
    | some k => exact (leavesStaleTail_eq_false cfg fn _).mp (hk k)

end

end Bcmdhd.Wlfc.PktqFlush
