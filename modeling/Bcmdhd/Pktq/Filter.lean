import Bcmdhd.Pktq.Simple

/-!
# Filtering a packet queue, and dequeueing behind a packet (`hnd_pktq.c`)

The filters take the packets of a chain off one by one.  The filter function says what becomes of
each: it goes back to the end of its queue, is handed to `defer`, or stays with the filter function.
The callbacks may set the `PKTLINK` of a packet that they own.

    Refines n s a → pktqFilter s cb ctx = some t, the filter was called on each packet once, in
      order, and t.q holds those of each list that it let stay        (pktq_filters)
    pktq_pdeq_prev keeps the lists ↔ it does not take the last packet (pktq_pdeq_prev_iff)
-/

namespace Bcmdhd.HndPktq

open Buckets Links

variable {Pkt : Type}

/-! ## Algorithm -/

section
variable [DecidableEq Pkt]


/-- `pktq_filter_result_t` -/
inductive FilterResult
  | noaction | delete | remove
  deriving DecidableEq, Repr

/-- The functions of the caller, with their contexts in one.  `taken` and `defer` give the link
that is left in a packet of theirs. -/
structure Callbacks (σ Pkt : Type) where
  fltr : σ → Pkt → σ × FilterResult
  taken : σ → Pkt → Option Pkt
  defer : σ → Pkt → σ × Option Pkt
  flush : σ → σ

/-- How the loop gets at a queue. -/
structure Access (β Pkt : Type) where
  link : β → Pkt → Option Pkt
  setLink : β → Pkt → Option Pkt → β
  enq : β → Pkt → Option β

/-- The queue and the context, with the calls of the filter function and of `defer` so far. -/
structure Filtered (β σ Pkt : Type) where
  q : β
  ctx : σ
  filtered : List (Pkt × FilterResult)
  deferred : List Pkt

section
variable {β σ : Type}

/-- `while ((p = wq.head) != NULL)` -/
def filterLoop (ops : Access β Pkt) (cb : Callbacks σ Pkt) :
    Nat → Filtered β σ Pkt → Option Pkt → Option (Filtered β σ Pkt)
  | 0, _, _ => none
  | _ + 1, t, none => some t
  | k + 1, t, some p =>
    -- unlink the current packet from the list
    let head := ops.link t.q p
    let q := ops.setLink t.q p none
    let r := cb.fltr t.ctx p
    let filtered := t.filtered ++ [(p, r.2)]
    match r.2 with
    | .noaction => do
      let q ← ops.enq q p
      filterLoop ops cb k { t with q := q, ctx := r.1, filtered := filtered } head
    | .delete =>
      let d := cb.defer r.1 p
      filterLoop ops cb k
        { q := ops.setLink q p d.2, ctx := d.1, filtered := filtered,
          deferred := t.deferred ++ [p] } head
    | .remove =>
      filterLoop ops cb k
        { t with q := ops.setLink q p (cb.taken r.1 p), ctx := r.1, filtered := filtered } head

def pktqAccess (prec : Nat) : Access (Pktq Pkt) Pkt where
  link s := s.link
  setLink s p next := { s with link := Function.update s.link p next }
  enq s p := (pktqPenq s prec p).map Prod.fst

def spktqAccess : Access (Spktq Pkt) Pkt where
  link s := s.link
  setLink s p next := { s with link := Function.update s.link p next }
  enq := spktqEnq

/-- The prec queue is moved aside to a work queue. -/
def moveAside (s : Pktq Pkt) (prec : Nat) : Pktq Pkt :=
  { s with
    nPktsTot := uint16 (s.nPktsTot + 0x10000 - (s.q prec).nPkts)
    q := Function.update s.q prec { s.q prec with head := none, tail := none, nPkts := 0 } }

/-- `_pktq_pfilter` -/
def pfilter (cb : Callbacks σ Pkt) (t : Filtered (Pktq Pkt) σ Pkt) (prec : Nat) :
    Option (Filtered (Pktq Pkt) σ Pkt) :=
  filterLoop (pktqAccess prec) cb fuel { t with q := moveAside t.q prec } (t.q.q prec).head

def flushed (cb : Callbacks σ Pkt) (t : Filtered β σ Pkt) : Filtered β σ Pkt :=
  { t with ctx := cb.flush t.ctx }

def pktqPfilter (s : Pktq Pkt) (prec : Nat) (cb : Callbacks σ Pkt) (ctx : σ) :
    Option (Filtered (Pktq Pkt) σ Pkt) :=
  (pfilter cb ⟨s, ctx, [], []⟩ prec).map (flushed cb)

/-- The precedences below `n`, the highest one first. -/
def filterPrecs (cb : Callbacks σ Pkt) :
    Nat → Filtered (Pktq Pkt) σ Pkt → Option (Filtered (Pktq Pkt) σ Pkt)
  | 0, t => some t
  | n + 1, t => do
    let t ← pfilter cb t n
    filterPrecs cb n t

def pktqFilter (s : Pktq Pkt) (cb : Callbacks σ Pkt) (ctx : σ) :
    Option (Filtered (Pktq Pkt) σ Pkt) :=
  if s.nPktsTot > 0 then (filterPrecs cb s.numPrec ⟨s, ctx, [], []⟩).map (flushed cb)
  else some ⟨s, ctx, [], []⟩

def spktqFilter (s : Spktq Pkt) (cb : Callbacks σ Pkt) (ctx : σ) :
    Option (Filtered (Spktq Pkt) σ Pkt) :=
  if s.q.nPkts = 0 then some ⟨s, ctx, [], []⟩
  else
    (filterLoop spktqAccess cb fuel
      ⟨{ s with q := { s.q with head := none, tail := none, nPkts := 0 } }, ctx, [], []⟩
      s.q.head).map (flushed cb)

end

def pktqPdeqPrev (s : Pktq Pkt) (prec : Nat) (prevP : Option Pkt) : Pktq Pkt × Result Pkt :=
  match prevP with
  | none => (s, .pkt none none)
  | some prev =>
    match s.link prev with
    | none => (s, .pkt none none)
    | some p =>
      (leave s prec (Function.update (Function.update s.link prev (s.link p)) p none)
        (s.q prec).head (s.q prec).tail, .pkt (some p) none)

end

/-! ## What the filter function says -/

section
variable {β σ : Type}

/-- The answers, and the context behind them. -/
def verdicts (cb : Callbacks σ Pkt) : σ → List Pkt → σ × List (Pkt × FilterResult)
  | ctx, [] => (ctx, [])
  | ctx, p :: ps =>
    let r := cb.fltr ctx p
    let rest := verdicts cb (if r.2 = .delete then (cb.defer r.1 p).1 else r.1) ps
    (rest.1, (p, r.2) :: rest.2)

def answered (v : FilterResult) (vs : List (Pkt × FilterResult)) : List Pkt :=
  (vs.filter (·.2 = v)).map Prod.fst

theorem verdicts_cons (cb : Callbacks σ Pkt) (ctx : σ) (p : Pkt) (ps : List Pkt) :
    verdicts cb ctx (p :: ps) =
      let r := cb.fltr ctx p
      let rest := verdicts cb (if r.2 = .delete then (cb.defer r.1 p).1 else r.1) ps
      (rest.1, (p, r.2) :: rest.2) :=
  rfl

theorem verdicts_fst (cb : Callbacks σ Pkt) (ctx : σ) (ps : List Pkt) :
    (verdicts cb ctx ps).2.map Prod.fst = ps := by
  induction ps generalizing ctx with
  | nil => rfl
  | cons p ps ih => exact congrArg (p :: ·) (ih _)

theorem answered_cons (v : FilterResult) (p : Pkt) (r : FilterResult)
    (vs : List (Pkt × FilterResult)) :
    answered v ((p, r) :: vs) = if r = v then p :: answered v vs else answered v vs := by
  unfold answered
  by_cases h : r = v
  · simp [h]
  · simp [h]

theorem answered_append (v : FilterResult) (vs ws : List (Pkt × FilterResult)) :
    answered v (vs ++ ws) = answered v vs ++ answered v ws := by
  unfold answered
  rw [List.filter_append, List.map_append]

/-! ## The loop -/

/-- A queue that holds some of the packets `all`: writes to the link of another one of them do not
matter, and there is room for it at the end. -/
structure Lawful [DecidableEq Pkt] (ops : Access β Pkt) (all : List Pkt)
    (K : β → List Pkt → Prop) : Prop where
  link_set : ∀ b p v x, ops.link (ops.setLink b p v) x = if x = p then v else ops.link b x
  set : ∀ b l p v, p ∈ all → p ∉ l → K b l → K (ops.setLink b p v) l
  enq : ∀ b l p, p ∈ all → p ∉ l → l.length < all.length → ops.link b p = none → K b l →
    ∃ b', ops.enq b p = some b' ∧ K b' (l ++ [p]) ∧
      ∀ x, x ∉ l → x ≠ p → ops.link b' x = ops.link b x

theorem filterLoop_spec [DecidableEq Pkt] {ops : Access β Pkt} {all : List Pkt}
    {K : β → List Pkt → Prop}
    (law : Lawful ops all K) (cb : Callbacks σ Pkt) {rest l : List Pkt} {k : Nat}
    {t : Filtered β σ Pkt} {head : Option Pkt} (hc : Chain (ops.link t.q) head rest)
    (hall : ∀ x ∈ rest, x ∈ all ∧ x ∉ l) (hK : K t.q l)
    (hlen : l.length + rest.length ≤ all.length) (hk : rest.length < k) :
    ∃ t', filterLoop ops cb k t head = some t' ∧
      K t'.q (l ++ answered .noaction (verdicts cb t.ctx rest).2) ∧
      t'.ctx = (verdicts cb t.ctx rest).1 ∧
      t'.filtered = t.filtered ++ (verdicts cb t.ctx rest).2 ∧
      t'.deferred = t.deferred ++ answered .delete (verdicts cb t.ctx rest).2 := by
  induction rest generalizing l k t head with
  | nil =>
    rw [show head = none from hc]
    cases k with
    | zero => cases hk
    | succ k =>
      refine ⟨t, rfl, ?_, rfl, (List.append_nil _).symm, (List.append_nil _).symm⟩
      rw [show answered .noaction (verdicts cb t.ctx []).2 = ([] : List Pkt) from rfl,
        List.append_nil]
      exact hK
  | cons p rest ih =>
    have hnd := hc.nodup
    rw [List.nodup_cons] at hnd
    obtain ⟨rfl, hrest⟩ := hc
    obtain ⟨hpall, hpl⟩ := hall p List.mem_cons_self
    rw [List.length_cons] at hlen hk
    cases k with
    | zero => cases hk
    | succ k =>
      have hne : ∀ x ∈ rest, x ≠ p := by
        rintro x hx rfl
        exact hnd.1 hx
      have hrest' : ∀ x ∈ rest, x ∈ all ∧ x ∉ l := fun x hx => hall x (List.mem_cons_of_mem p hx)
      have hK' := law.set t.q l p none hpall hpl hK
      unfold filterLoop
      simp only [verdicts_cons, answered_cons]
      cases hr : (cb.fltr t.ctx p).2 with
      | noaction =>
        have hnull : ops.link (ops.setLink t.q p none) p = none := by
          rw [law.link_set, if_pos rfl]
        obtain ⟨b, hb, hKb, hframe⟩ := law.enq _ l p hpall hpl (by omega) hnull hK'
        obtain ⟨t', ht', hq, hctx, hf, hd⟩ := ih (k := k) (l := l ++ [p])
          (t := { t with q := b, ctx := (cb.fltr t.ctx p).1,
                         filtered := t.filtered ++ [(p, .noaction)] })
          (hrest.congr fun x hx => by
            rw [hframe x (hrest' x hx).2 (hne x hx), law.link_set, if_neg (hne x hx)])
          (fun x hx => ⟨(hrest' x hx).1, fun hm => by
            rcases List.mem_append.mp hm with hm | hm
            · exact (hrest' x hx).2 hm
            · exact hne x hx (List.mem_singleton.mp hm)⟩)
          hKb (by rw [List.length_append, List.length_singleton]; omega)
          (by omega)
        rw [hb]
        refine ⟨t', ht', ?_, hctx, ?_, hd⟩
        · rw [List.append_assoc] at hq
          exact hq
        · rw [List.append_assoc] at hf
          exact hf
      | delete =>
        obtain ⟨t', ht', hq, hctx, hf, hd⟩ := ih (k := k) (l := l)
          (t := { q := ops.setLink (ops.setLink t.q p none) p (cb.defer (cb.fltr t.ctx p).1 p).2
                  ctx := (cb.defer (cb.fltr t.ctx p).1 p).1
                  filtered := t.filtered ++ [(p, .delete)], deferred := t.deferred ++ [p] })
          (hrest.congr fun x hx => by
            rw [law.link_set, if_neg (hne x hx), law.link_set, if_neg (hne x hx)])
          hrest' (law.set _ l p _ hpall hpl hK') (by omega) (by omega)
        refine ⟨t', ht', hq, hctx, ?_, ?_⟩
        · rw [List.append_assoc] at hf
          exact hf
        · rw [List.append_assoc] at hd
          exact hd
      | remove =>
        obtain ⟨t', ht', hq, hctx, hf, hd⟩ := ih (k := k) (l := l)
          (t := { t with q := ops.setLink (ops.setLink t.q p none) p (cb.taken (cb.fltr t.ctx p).1 p),
                         ctx := (cb.fltr t.ctx p).1, filtered := t.filtered ++ [(p, .remove)] })
          (hrest.congr fun x hx => by
            rw [law.link_set, if_neg (hne x hx), law.link_set, if_neg (hne x hx)])
          hrest' (law.set _ l p _ hpall hpl hK') (by omega) (by omega)
        refine ⟨t', ht', hq, hctx, ?_, hd⟩
        rw [List.append_assoc] at hf
        exact hf

end

/-! ## The queues -/

section
variable {σ : Type} {n prec : Nat} {s b : Pktq Pkt} {a : Queues Pkt} {l : List Pkt} {p : Pkt}

theorem moveAside_eq (s : Pktq Pkt) (prec : Nat) :
    ∃ tot, tot = uint16 (s.nPktsTot + 0x10000 - (s.q prec).nPkts) ∧ moveAside s prec = { s with
      nPktsTot := tot
      q := Function.update s.q prec { s.q prec with head := none, tail := none, nPkts := 0 } } :=
  ⟨_, rfl, rfl⟩

theorem moveAside_link (s : Pktq Pkt) (prec : Nat) : (moveAside s prec).link = s.link := by
  obtain ⟨tot, -, heq⟩ := moveAside_eq s prec
  rw [heq]

theorem moveAside_refines (h : Refines n s a) (hp : prec < n) :
    Refines n (moveAside s prec) (Function.update a prec []) := by
  have hcount := h.count prec hp
  have hle := h.length_le hp
  have hsmall := h.small
  obtain ⟨tot, htot, heq⟩ := moveAside_eq s prec
  rw [heq]
  unfold uint16 at htot
  refine h.update hp rfl rfl rfl rfl rfl (fun x _ _ => rfl) nofun ?_ ?_ h.hi_lt
    (fun i hi hlt _ => h.above i hi hlt) fun _ => rfl
  · rw [List.length_nil]
    dsimp only
    omega
  · dsimp only
    omega

/-- A packet that left its queue is in none. -/
theorem Refines.notMem_rest (h : Refines n s a) (hp : prec < n) (hpa : p ∈ a prec) (hpl : p ∉ l) :
    p ∉ entries (List.range n) (Function.update a prec l) := by
  have hmem := List.mem_range.mpr hp
  have hnd := (entries_perm_split List.nodup_range hmem a).nodup_iff.mp h.nodup
  rw [(entries_update List.nodup_range hmem a l).mem_iff, List.mem_append, not_or]
  exact ⟨hpl, fun hm => (List.nodup_append.mp hnd).2.2 p hpa p hm rfl⟩

/-- There is room for the packets that the queue had. -/
theorem Refines.total_update (h : Refines n s a) (hp : prec < n)
    (hb : Refines n b (Function.update a prec l)) :
    b.nPktsTot + (a prec).length = s.nPktsTot + l.length := by
  have hmem := List.mem_range.mpr hp
  have hsplit := (entries_perm_split List.nodup_range hmem a).length_eq
  have hupdate := (entries_update List.nodup_range hmem a l).length_eq
  rw [List.length_append, ← h.total] at hsplit
  rw [List.length_append, ← hb.total] at hupdate
  omega

theorem pktqAccess_lawful [DecidableEq Pkt] (h : Refines n s a) (hp : prec < n) :
    Lawful (pktqAccess prec) (a prec) fun b l => Refines n b (Function.update a prec l) where
  link_set b p v x := Function.update_apply b.link p v x
  set b l p v hpa hpl hb := hb.frame (h.notMem_rest hp hpa hpl) v
  enq b l p hpa hpl hlen hnull hb := by
    have htot := h.total_update hp hb
    have hsmall := h.small
    obtain ⟨b', hb', hr, hframe⟩ := penq_refines hb hp hnull (by omega) (by
      rw [hb.queued_eq]
      exact h.notMem_rest hp hpa hpl)
    rw [Function.update_self, Function.update_idem] at hr
    refine ⟨b', ?_, hr, ?_⟩
    · show (pktqPenq b prec p).map Prod.fst = some b'
      rw [hb']
      rfl
    · intro x hx _
      exact hframe x (by rwa [Function.update_self])

theorem pfilter_refines [DecidableEq Pkt] (cb : Callbacks σ Pkt) {t : Filtered (Pktq Pkt) σ Pkt}
    (h : Refines n t.q a) (hp : prec < n) :
    ∃ t', pfilter cb t prec = some t' ∧
      Refines n t'.q
        (Function.update a prec (answered .noaction (verdicts cb t.ctx (a prec)).2)) ∧
      t'.ctx = (verdicts cb t.ctx (a prec)).1 ∧
      t'.filtered = t.filtered ++ (verdicts cb t.ctx (a prec)).2 ∧
      t'.deferred = t.deferred ++ answered .delete (verdicts cb t.ctx (a prec)).2 := by
  have hchain : Chain ((pktqAccess prec).link (moveAside t.q prec)) (t.q.q prec).head (a prec) := by
    show Chain (moveAside t.q prec).link _ _
    rw [moveAside_link]
    exact h.chain prec hp
  have hmoved := moveAside_refines h hp
  unfold pfilter
  generalize moveAside t.q prec = s at *
  exact filterLoop_spec (pktqAccess_lawful h hp) cb (l := []) (t := { t with q := s }) hchain
    (fun x hx => ⟨hx, List.not_mem_nil⟩) hmoved (by simp) (h.length_lt hp)

theorem spktqAccess_lawful [DecidableEq Pkt] (all : List Pkt) (hsmall : all.length ≤ 0xFFFF) :
    Lawful spktqAccess all Holds where
  link_set b p v x := Function.update_apply b.link p v x
  set b l p v _ hpl hb := ⟨hb.chain.frame hpl v, hb.tail, hb.count, hb.small⟩
  enq b l p _ hpl hlen _ hb := spktqEnq_holds hb hpl (by omega)

/-! ## What is filtered -/

/-- The packets that the filter function let stay. -/
def staying [DecidableEq Pkt] (vs : List (Pkt × FilterResult)) (l : List Pkt) : List Pkt :=
  l.filter fun p => (p, FilterResult.noaction) ∈ vs

/-- The filter function was called on each of these packets once, in this order.  Those to delete
were handed to `defer`, once each; those to remove were not, and do not stay. -/
structure FiltersEach [DecidableEq Pkt] {β : Type} (cb : Callbacks σ Pkt) (ctx : σ) (ps : List Pkt)
    (t : Filtered β σ Pkt) : Prop where
  calls : t.filtered = (verdicts cb ctx ps).2
  once : t.filtered.map Prod.fst = ps
  deferred : t.deferred = answered .delete t.filtered
  deferred_nodup : t.deferred.Nodup
  removed : ∀ p, (p, .remove) ∈ t.filtered → p ∉ t.deferred ∧ p ∉ staying t.filtered ps

/-- A packet has one answer. -/
theorem answer_unique {vs : List (Pkt × FilterResult)} (hnd : (vs.map Prod.fst).Nodup)
    {v w : FilterResult} (hv : (p, v) ∈ vs) (hw : (p, w) ∈ vs) : v = w := by
  have heq := List.inj_on_of_nodup_map hnd hv hw rfl
  exact congrArg Prod.snd heq

theorem mem_answered {vs : List (Pkt × FilterResult)} {v : FilterResult} :
    p ∈ answered v vs ↔ (p, v) ∈ vs := by
  unfold answered
  constructor
  · rintro hm
    obtain ⟨⟨x, r⟩, hx, rfl⟩ := List.mem_map.mp hm
    obtain ⟨hmem, hr⟩ := List.mem_filter.mp hx
    obtain rfl : r = v := of_decide_eq_true hr
    exact hmem
  · intro hm
    exact List.mem_map.mpr ⟨(p, v), List.mem_filter.mpr ⟨hm, decide_eq_true rfl⟩, rfl⟩

/-- Those of some packets that were answered with `noaction` stay. -/
theorem staying_eq [DecidableEq Pkt] {vs ws : List (Pkt × FilterResult)}
    (hnd : (vs.map Prod.fst).Nodup)
    (hsub : ∀ x ∈ ws, x ∈ vs) :
    staying vs (ws.map Prod.fst) = answered .noaction ws := by
  unfold staying answered
  rw [List.filter_map]
  congr 1
  apply List.filter_congr
  rintro ⟨p, r⟩ hx
  show decide ((p, FilterResult.noaction) ∈ vs) = decide (r = .noaction)
  rw [decide_eq_decide]
  constructor
  · intro hm
    exact answer_unique hnd (hsub _ hx) hm
  · rintro rfl
    exact hsub _ hx

theorem FiltersEach.of_calls [DecidableEq Pkt] {β : Type} {cb : Callbacks σ Pkt} {ctx : σ}
    {ps : List Pkt}
    {t : Filtered β σ Pkt} (hnd : ps.Nodup) (hcalls : t.filtered = (verdicts cb ctx ps).2)
    (hdef : t.deferred = answered .delete (verdicts cb ctx ps).2) : FiltersEach cb ctx ps t := by
  have honce : t.filtered.map Prod.fst = ps := by
    rw [hcalls, verdicts_fst]
  have hnd' : (t.filtered.map Prod.fst).Nodup := by rwa [honce]
  rw [← hcalls] at hdef
  refine ⟨hcalls, honce, hdef, ?_, ?_⟩
  · rw [hdef]
    exact hnd'.sublist (List.filter_sublist.map Prod.fst)
  · intro p hp
    constructor
    · rw [hdef, mem_answered]
      intro hm
      cases answer_unique hnd' hp hm
    · intro hm
      cases answer_unique hnd' hp (of_decide_eq_true (List.mem_filter.mp hm).2)

theorem FiltersEach.staying_eq [DecidableEq Pkt] {β : Type} {cb : Callbacks σ Pkt} {ctx : σ}
    {ps : List Pkt}
    {t : Filtered β σ Pkt} (h : FiltersEach cb ctx ps t) (hnd : ps.Nodup) :
    staying t.filtered ps = answered .noaction (verdicts cb ctx ps).2 := by
  rw [← h.calls]
  have heq := HndPktq.staying_eq (show (t.filtered.map Prod.fst).Nodup by rwa [h.once])
    fun x hx => hx
  rwa [h.once] at heq

theorem verdicts_append (cb : Callbacks σ Pkt) (ctx : σ) (ps qs : List Pkt) :
    verdicts cb ctx (ps ++ qs) =
      ((verdicts cb (verdicts cb ctx ps).1 qs).1,
        (verdicts cb ctx ps).2 ++ (verdicts cb (verdicts cb ctx ps).1 qs).2) := by
  induction ps generalizing ctx with
  | nil => rfl
  | cons p ps ih =>
    rw [List.cons_append, verdicts_cons, verdicts_cons]
    dsimp only
    rw [ih]
    rfl

/-- The packets of the precedences below `m`, from the highest one down. -/
def fromTop (m : Nat) (a : Queues Pkt) : List Pkt := entries (List.range m).reverse a

theorem fromTop_succ (m : Nat) (a : Queues Pkt) : fromTop (m + 1) a = a m ++ fromTop m a := by
  unfold fromTop
  rw [List.range_succ, List.reverse_concat]
  rfl

theorem fromTop_update (m : Nat) (a : Queues Pkt) (l : List Pkt) :
    fromTop m (Function.update a m l) = fromTop m a :=
  entries_update_of_notMem (by simp)

theorem Refines.fromTop_nodup (h : Refines n s a) : (fromTop n a).Nodup := by
  have hperm := (List.reverse_perm (List.range n)).flatMap_right a
  exact hperm.nodup_iff.mpr h.nodup

/-- The precedences from `m` on are done. -/
theorem filterPrecs_refines [DecidableEq Pkt] (cb : Callbacks σ Pkt) {m : Nat} (hm : m ≤ n)
    {t : Filtered (Pktq Pkt) σ Pkt} {a : Queues Pkt} (h : Refines n t.q a) :
    ∃ t' a', filterPrecs cb m t = some t' ∧ Refines n t'.q a' ∧
      (∀ i, m ≤ i → a' i = a i) ∧
      (∀ i < m, ∃ ws, a' i = answered .noaction ws ∧ ws.map Prod.fst = a i ∧
        ∀ x ∈ ws, x ∈ t'.filtered) ∧
      t'.ctx = (verdicts cb t.ctx (fromTop m a)).1 ∧
      t'.filtered = t.filtered ++ (verdicts cb t.ctx (fromTop m a)).2 ∧
      t'.deferred = t.deferred ++ answered .delete (verdicts cb t.ctx (fromTop m a)).2 := by
  induction m generalizing t a with
  | zero =>
    exact ⟨t, a, rfl, h, fun _ _ => rfl, nofun, rfl, (List.append_nil _).symm,
      (List.append_nil _).symm⟩
  | succ m ih =>
    obtain ⟨t₁, ht₁, hr₁, hctx₁, hf₁, hd₁⟩ := pfilter_refines cb h hm
    obtain ⟨t', a', ht', hr', habove, hbelow, hctx, hf, hd⟩ := ih (by omega) hr₁
    rw [fromTop_update, hctx₁] at hctx hf hd
    rw [hf₁, List.append_assoc] at hf
    rw [hd₁, List.append_assoc] at hd
    rw [fromTop_succ, verdicts_append]
    dsimp only
    rw [answered_append]
    refine ⟨t', a', ?_, hr', ?_, ?_, hctx, hf, hd⟩
    · unfold filterPrecs
      rw [ht₁]
      exact ht'
    · intro i hi
      rw [habove i (by omega), Function.update_of_ne (by omega)]
    · intro i hi
      rcases Nat.lt_succ_iff_lt_or_eq.mp hi with hi | rfl
      · obtain ⟨ws, hws, hfst, hsub⟩ := hbelow i hi
        rw [Function.update_of_ne (by omega)] at hfst
        exact ⟨ws, hws, hfst, hsub⟩
      · refine ⟨(verdicts cb t.ctx (a i)).2, ?_, verdicts_fst cb _ _, ?_⟩
        · rw [habove i (Nat.le_refl i), Function.update_self]
        · intro x hx
          rw [hf]
          exact List.mem_append_right _ (List.mem_append_left _ hx)

theorem pktqPfilter_filters [DecidableEq Pkt] (cb : Callbacks σ Pkt) (ctx : σ) (h : Refines n s a)
    (hp : prec < n) :
    ∃ t, pktqPfilter s prec cb ctx = some t ∧ FiltersEach cb ctx (a prec) t ∧
      t.ctx = cb.flush (verdicts cb ctx (a prec)).1 ∧
      Refines n t.q (Function.update a prec (staying t.filtered (a prec))) ∧ WellFormed t.q := by
  obtain ⟨t, ht, hr, hctx, hf, hd⟩ := pfilter_refines cb (t := ⟨s, ctx, [], []⟩) h hp
  have heach := FiltersEach.of_calls (h.chain prec hp).nodup (t := flushed cb t) hf hd
  have hstay := heach.staying_eq (h.chain prec hp).nodup
  refine ⟨flushed cb t, ?_, heach, congrArg cb.flush hctx, ?_, hr.wellFormed⟩
  · unfold pktqPfilter
    rw [ht]
    rfl
  · show Refines n t.q (Function.update a prec (staying (flushed cb t).filtered (a prec)))
    rw [hstay]
    exact hr

theorem fromTop_eq_nil (h : Refines n s a) : fromTop n a = [] ↔ s.nPktsTot = 0 := by
  have hperm : (fromTop n a).Perm (entries (List.range n) a) :=
    (List.reverse_perm (List.range n)).flatMap_right a
  rw [h.total, ← hperm.length_eq, List.length_eq_zero_iff]

theorem pktqFilter_filters [DecidableEq Pkt] (cb : Callbacks σ Pkt) (ctx : σ) (h : Refines n s a) :
    ∃ t a', pktqFilter s cb ctx = some t ∧ FiltersEach cb ctx (fromTop n a) t ∧
      t.ctx = (if fromTop n a = [] then ctx else cb.flush (verdicts cb ctx (fromTop n a)).1) ∧
      (∀ i < n, a' i = staying t.filtered (a i)) ∧ Refines n t.q a' ∧ WellFormed t.q := by
  have hnd := h.fromTop_nodup
  unfold pktqFilter
  by_cases h0 : s.nPktsTot = 0
  · have hnil := (fromTop_eq_nil h).mpr h0
    rw [if_neg (by omega), hnil, if_pos rfl]
    refine ⟨⟨s, ctx, [], []⟩, a, rfl, FiltersEach.of_calls List.nodup_nil rfl rfl, rfl, ?_, h,
      h.wellFormed⟩
    intro i hi
    have hempty : a i = [] := by
      apply List.length_eq_zero_iff.mp
      have hle := h.length_le hi
      omega
    rw [hempty]
    rfl
  · have hne : fromTop n a ≠ [] := fun hnil => h0 ((fromTop_eq_nil h).mp hnil)
    obtain ⟨t, a', ht, hr, -, hbelow, hctx, hf, hd⟩ :=
      filterPrecs_refines cb (Nat.le_refl n) (t := ⟨s, ctx, [], []⟩) h
    have heach := FiltersEach.of_calls hnd (t := flushed cb t) hf hd
    rw [if_pos (by omega), if_neg hne, h.numPrec_eq, ht]
    refine ⟨flushed cb t, a', rfl, heach, congrArg cb.flush hctx, ?_, hr, hr.wellFormed⟩
    intro i hi
    obtain ⟨ws, hws, hfst, hsub⟩ := hbelow i hi
    rw [hws, ← hfst]
    refine (staying_eq ?_ hsub).symm
    rwa [show t.filtered.map Prod.fst = fromTop n a from heach.once]

theorem spktqFilter_filters [DecidableEq Pkt] {sq : Spktq Pkt} (cb : Callbacks σ Pkt) (ctx : σ)
    (h : Holds sq l) :
    ∃ t, spktqFilter sq cb ctx = some t ∧ FiltersEach cb ctx l t ∧
      t.ctx = (if l = [] then ctx else cb.flush (verdicts cb ctx l).1) ∧
      Holds t.q (staying t.filtered l) := by
  have hcount := h.count
  have hsmall := h.small
  unfold spktqFilter
  by_cases hnil : l = []
  · subst hnil
    rw [if_pos (show sq.q.nPkts = 0 from hcount)]
    exact ⟨_, rfl, FiltersEach.of_calls List.nodup_nil rfl rfl, rfl, h⟩
  · have hpos := List.length_pos_iff.mpr hnil
    obtain ⟨t, ht, hr, hctx, hf, hd⟩ := filterLoop_spec (spktqAccess_lawful l hsmall) cb (l := [])
      (t := ⟨{ sq with q := { sq.q with head := none, tail := none, nPkts := 0 } }, ctx, [], []⟩)
      h.chain (fun x hx => ⟨hx, List.not_mem_nil⟩) ⟨rfl, rfl, rfl, Nat.zero_le _⟩ (by simp)
      (show l.length < fuel by unfold fuel; omega)
    have heach := FiltersEach.of_calls h.chain.nodup (t := flushed cb t) hf hd
    rw [if_neg (by omega), if_neg hnil, ht]
    refine ⟨flushed cb t, rfl, heach, congrArg cb.flush hctx, ?_⟩
    show Holds t.q (staying (flushed cb t).filtered l)
    rw [heach.staying_eq h.chain.nodup]
    exact hr

/-- **Filtering.**  Each filter calls the filter function on every packet of its lists once, in
order, and leaves the queue with those that stay. -/
theorem pktq_filters [DecidableEq Pkt] (cb : Callbacks σ Pkt) (ctx : σ) (s : Pktq Pkt)
    (a : Queues Pkt)
    (n prec : Nat) (h : Refines n s a) (hp : prec < n) (sq : Spktq Pkt) (l : List Pkt)
    (hsq : Holds sq l) :
    (∃ t, pktqPfilter s prec cb ctx = some t ∧ FiltersEach cb ctx (a prec) t ∧
      t.ctx = cb.flush (verdicts cb ctx (a prec)).1 ∧
      Refines n t.q (Function.update a prec (staying t.filtered (a prec))) ∧ WellFormed t.q) ∧
    (∃ t a', pktqFilter s cb ctx = some t ∧ FiltersEach cb ctx (fromTop n a) t ∧
      t.ctx = (if fromTop n a = [] then ctx else cb.flush (verdicts cb ctx (fromTop n a)).1) ∧
      (∀ i < n, a' i = staying t.filtered (a i)) ∧ Refines n t.q a' ∧ WellFormed t.q) ∧
    ∃ t, spktqFilter sq cb ctx = some t ∧ FiltersEach cb ctx l t ∧
      t.ctx = (if l = [] then ctx else cb.flush (verdicts cb ctx l).1) ∧
      Holds t.q (staying t.filtered l) := by
  exact ⟨pktqPfilter_filters cb ctx h hp, pktqFilter_filters cb ctx h,
    spktqFilter_filters cb ctx hsq⟩

end

/-- A queue of packets 1 to 3. -/
def threeQueued : Pktq Nat where
  link := threeLinks
  numPrec := 1
  hiPrec := 0
  maxPkts := 8
  nPktsTot := 3
  q := fun _ => ⟨some 1, some 3, 3, 8⟩

theorem threeQueued_refines : Refines 1 threeQueued fun _ => [1, 2, 3] where
  numPrec_eq := rfl
  num_le := by decide
  hi_lt := by decide
  chain := fun _ _ => ⟨rfl, rfl, rfl, rfl⟩
  tail := fun _ _ => rfl
  count := fun _ _ => rfl
  total := rfl
  small := by decide
  nodup := by decide
  above := fun prec hp hlt => absurd hp (by have : 0 < prec := hlt; omega)

/-- Packet 1 stays, 2 is deleted and 3 is removed.  The context is the list of deferred packets. -/
def oneStays : Callbacks (List Nat) Nat where
  fltr ctx p := (ctx, if p = 1 then .noaction else if p = 2 then .delete else .remove)
  taken _ _ := none
  defer ctx p := (ctx ++ [p], none)
  flush _ := []

theorem pktq_filters_three :
    (∃ t, pktqPfilter threeQueued 0 oneStays [] = some t ∧ FiltersEach oneStays [] [1, 2, 3] t ∧
      t.ctx = oneStays.flush (verdicts oneStays [] [1, 2, 3]).1 ∧
      Refines 1 t.q (Function.update (fun _ => [1, 2, 3]) 0 (staying t.filtered [1, 2, 3])) ∧
      WellFormed t.q) ∧
    (∃ t a', pktqFilter threeQueued oneStays [] = some t ∧
      FiltersEach oneStays [] (fromTop 1 fun _ => [1, 2, 3]) t ∧
      t.ctx = (if (fromTop 1 fun _ => [1, 2, 3]) = [] then []
        else oneStays.flush (verdicts oneStays [] (fromTop 1 fun _ => [1, 2, 3])).1) ∧
      (∀ i < 1, a' i = staying t.filtered [1, 2, 3]) ∧ Refines 1 t.q a' ∧ WellFormed t.q) ∧
    ∃ t, spktqFilter (queueOf threeLinks [1, 2, 3]) oneStays [] = some t ∧
      FiltersEach oneStays [] [1, 2, 3] t ∧
      t.ctx = (if [1, 2, 3] = [] then []
        else oneStays.flush (verdicts oneStays [] [1, 2, 3]).1) ∧
      Holds t.q (staying t.filtered [1, 2, 3]) :=
  pktq_filters oneStays [] threeQueued (fun _ => [1, 2, 3]) 1 0 threeQueued_refines (by decide)
    (queueOf threeLinks [1, 2, 3]) [1, 2, 3] queueOf_holds

example : (pktqFilter threeQueued oneStays []).map (fun t => (queued t.q, t.deferred)) =
    some ([1], [2]) := by decide

/-! ## `pktq_pdeq_prev` -/

section
variable {n prec : Nat} {s : Pktq Pkt} {a : Queues Pkt} {l₁ l₂ : List Pkt} {prev p : Pkt}

/-- The packet behind `prev` is taken, and nothing when there is none. -/
def TakesNext [DecidableEq Pkt] (n : Nat) (s : Pktq Pkt) (a : Queues Pkt) (prec : Nat)
    (l₁ : List Pkt) (prev : Pkt) :
    List Pkt → Prop
  | [] => pktqPdeqPrev s prec (some prev) = (s, .pkt none none)
  | p :: l₂ => ∃ s', pktqPdeqPrev s prec (some prev) = (s', .pkt (some p) none) ∧
    s'.link p = none ∧ Refines n s' (Function.update a prec (l₁ ++ prev :: l₂))

theorem leave_tail (link : Pkt → Option Pkt) (head tail : Option Pkt) :
    ((leave s prec link head tail).q prec).tail = tail :=
  congrArg PktqPrec.tail (Function.update_self prec _ s.q)

theorem pktqPdeqPrev_eq [DecidableEq Pkt] (h : Refines n s a) (hp : prec < n)
    (ha : a prec = l₁ ++ prev :: p :: l₂) :
    pktqPdeqPrev s prec (some prev) =
      (leave s prec (Function.update (Function.update s.link prev (s.link p)) p none)
        (s.q prec).head (s.q prec).tail, .pkt (some p) none) := by
  have hchain := h.chain prec hp
  rw [ha] at hchain
  unfold pktqPdeqPrev
  dsimp only
  rw [hchain.link_eq]
  rfl

/-- **Dequeueing behind a packet.**  The queue is in order afterwards if and only if the packet
taken is not the last one. -/
theorem pktq_pdeq_prev_iff [DecidableEq Pkt] (n prec : Nat) (s : Pktq Pkt) (a : Queues Pkt)
    (l₁ l₂ : List Pkt)
    (prev : Pkt) (h : Refines n s a) (hp : prec < n) (ha : a prec = l₁ ++ prev :: l₂) :
    TakesNext n s a prec l₁ prev l₂ ↔ l₂.length ≠ 1 := by
  have hchain := h.chain prec hp
  have htail := h.tail prec hp
  have hnd := hchain.nodup
  match l₂ with
  | [] =>
    refine iff_of_true ?_ (by simp)
    rw [ha] at hchain
    show pktqPdeqPrev s prec (some prev) = (s, .pkt none none)
    unfold pktqPdeqPrev
    dsimp only
    rw [hchain.link_eq]
    rfl
  | [p] =>
    refine iff_of_false ?_ (by simp)
    rintro ⟨s', hs', -, hr⟩
    rw [pktqPdeqPrev_eq h hp ha] at hs'
    obtain ⟨rfl, -⟩ := Prod.ext_iff.mp hs'
    -- the tail is that of the old list
    have hlast := hr.tail prec hp
    rw [leave_tail, Function.update_self, htail, ha, List.getLast?_append,
      List.getLast?_append] at hlast
    obtain rfl : p = prev := Option.some.inj hlast
    rw [ha] at hnd
    exact absurd (List.nodup_append.mp hnd).2.1 (by simp)
  | p :: y :: l₂ =>
    refine iff_of_true ?_ (by simp)
    refine ⟨takeAfter s prec prev p, ?_, Function.update_self .., takeAfter_refines h hp ha⟩
    have hne : (s.q prec).tail ≠ some p := by
      intro heq
      rw [ha] at hnd
      have hpl : p ∉ y :: l₂ := by
        have hs := (List.nodup_append.mp hnd).2.1
        rw [List.nodup_cons, List.nodup_cons] at hs
        exact hs.2.1
      apply hpl
      rw [htail, ha, List.getLast?_append, List.getLast?_cons_cons, List.getLast?_cons_cons,
        List.getLast?_eq_some_getLast (List.cons_ne_nil y l₂)] at heq
      rw [← Option.some.inj heq]
      exact List.getLast_mem (List.cons_ne_nil y l₂)
    rw [pktqPdeqPrev_eq h hp ha]
    unfold takeAfter
    dsimp only
    rw [if_neg hne]

end

/-- The packet behind packet 1. -/
theorem pktq_pdeq_prev_iff_first :
    TakesNext 1 threeQueued (fun _ => [1, 2, 3]) 0 [] 1 [2, 3] ↔ [2, 3].length ≠ 1 :=
  pktq_pdeq_prev_iff 1 0 threeQueued (fun _ => [1, 2, 3]) [] [2, 3] 1 threeQueued_refines
    (by decide) rfl

/-- When the last packet is taken, `tail` still points to it. -/
theorem pktq_pdeq_prev_fails :
    ¬ ∀ (n prec : Nat) (s : Pktq Nat) a l₁ l₂ prev, Refines n s a → prec < n →
      a prec = l₁ ++ prev :: l₂ → TakesNext n s a prec l₁ prev l₂ := by
  intro h
  obtain ⟨s', hs', -, hr⟩ := h 1 0 threeQueued (fun _ => [1, 2, 3]) [1] [3] 2 threeQueued_refines
    (by decide) rfl
  obtain ⟨rfl, -⟩ := Prod.ext_iff.mp hs'
  exact absurd (hr.tail 0 (by decide)) (by decide)

end Bcmdhd.HndPktq
