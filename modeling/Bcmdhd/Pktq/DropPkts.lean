import Bcmdhd.Pktq.Filter
import Bcmdhd.Tcpack.FrameAccess

/-!
# Room in a full queue (`dhd_prec_drop_pkts`)

The comment above the function: drop the first packet that is not fragmented; if all are fragmented,
one whole set of fragments; if there is none, the oldest packet.  `Policy` says so of a list
`b ++ run ++ c` from which `run` goes.  The scan also stops at the end of the first whole set, and
then it does not look for the packets behind it.

    after every call, the queue holds  b ++ c  with  Policy frag l b run c, and the packets of  run
      were handed to  fn  once and in order  ↔  ¬ SetBeforeWhole frag l     (drop_by_policy_iff)
-/

namespace Bcmdhd.HndPktq.DropPkts

open Buckets Links Tcpack.FrameAccess

variable {Pkt σ : Type}

/-! ## Algorithm -/

section
variable [DecidableEq Pkt]


/-- The local variables of the scan. -/
structure Vars (Pkt : Type) where
  p : Option Pkt
  prev : Option Pkt
  first : Option Pkt
  last : Option Pkt
  prevFirst : Option Pkt
  fragInfo : PktFrag

/-- `while (p)`; `frag` is `pkt_frag_info`. -/
def scanLoop (frag : Pkt → PktFrag) (link : Pkt → Option Pkt) :
    Nat → Vars Pkt → Option (Vars Pkt)
  | 0, _ => none
  | k + 1, v =>
    match v.p with
    | none => some v
    | some p =>
      match frag p with
      | .none => some { v with fragInfo := .none }
      | .first =>
        if v.first.isSome then
          -- No last frag pkt, use prev as last
          some { v with fragInfo := .first, last := v.prev }
        else
          scanLoop frag link k
            { v with fragInfo := .first, first := some p, prevFirst := v.prev,
                     prev := some p, p := link p }
      | .last =>
        if v.first.isSome then some { v with fragInfo := .last, last := some p }
        else scanLoop frag link k { v with fragInfo := .last, prev := some p, p := link p }
      | .cont => scanLoop frag link k { v with fragInfo := .cont, prev := some p, p := link p }

/-- What is to be removed: from `first` to `last`, behind `prevFirst`. -/
structure Choice (Pkt : Type) where
  prevFirst : Option Pkt
  first : Option Pkt
  last : Option Pkt

/-- The two `if`s behind the scan. -/
def choose (head : Option Pkt) (v : Vars Pkt) : Choice Pkt :=
  if v.p = none ∨ (v.fragInfo ≠ .none ∧ ¬(v.first.isSome ∧ v.last.isSome)) then
    -- Not found matching pkts, use oldest
    ⟨none, head, head⟩
  else if v.fragInfo = .none then ⟨v.prev, v.p, v.p⟩
  else ⟨v.prevFirst, v.first, v.last⟩

/-- The counters and the link, before the packet is handed over. -/
def removeOne (s : Pktq Pkt) (prec : Nat) (p : Pkt) : Pktq Pkt :=
  { s with
    link := Function.update s.link p none
    nPktsTot := uint16 (s.nPktsTot + 0xFFFF)
    q := Function.update s.q prec
      { s.q prec with nPkts := uint16 ((s.q prec).nPkts + 0xFFFF) } }

/-- `if (fn) fn(dhdp, prec, p, TRUE);` in the context of the caller.  The packet is the callee's from
here on: `fn` also gives the link that is left in it. -/
def handOver (fn : Option (σ → Pkt → σ × Option Pkt)) (s : Pktq Pkt) (ctx : σ) (p : Pkt) :
    Pktq Pkt × σ :=
  match fn with
  | none => (s, ctx)
  | some fn => ({ s with link := Function.update s.link p (fn ctx p).2 }, (fn ctx p).1)

/-- The second `while (p)`, with the last value of `next`. -/
def removeLoop (fn : Option (σ → Pkt → σ × Option Pkt)) (prec : Nat) (last : Option Pkt) :
    Nat → Pktq Pkt → σ → Option Pkt → Option Pkt → Option (Pktq Pkt × σ × Option Pkt)
  | 0, _, _, _, _ => none
  | _ + 1, s, ctx, next, none => some (s, ctx, next)
  | k + 1, s, ctx, _, some p =>
    let next := s.link p
    let r := handOver fn (removeOne s prec p) ctx p
    if some p = last then some (r.1, r.2, next)
    else removeLoop fn prec last k r.1 r.2 next next

/-- `next` becomes the head, or the successor of `prevFirst`. -/
def relink (s : Pktq Pkt) (prec : Nat) (prevFirst next : Option Pkt) : Pktq Pkt :=
  let q := s.q prec
  match prevFirst with
  | none =>
    { s with q := Function.update s.q prec
              { q with head := next, tail := if next = none then none else q.tail } }
  | some p =>
    { s with
      link := Function.update s.link p next
      q := Function.update s.q prec { q with tail := if next = none then some p else q.tail } }

def dhdPrecDropPkts (frag : Pkt → PktFrag) (fn : Option (σ → Pkt → σ × Option Pkt))
    (s : Pktq Pkt) (ctx : σ) (prec : Nat) : Option (Pktq Pkt × σ × Bool) :=
  let head := (s.q prec).head
  if head = none then some (s, ctx, false)
  else do
    let v ← scanLoop frag s.link fuel ⟨head, none, none, none, none, .none⟩
    let choice := choose head v
    let (s, ctx, next) ← removeLoop fn prec choice.last fuel s ctx none choice.first
    some (relink s prec choice.prevFirst next, ctx, true)

end

/-! ## The policy -/

def Whole (frag : Pkt → PktFrag) (p : Pkt) : Prop := frag p = .none

/-- `run` goes from a first fragment to its last one, or up to the next first fragment, with which
`c` begins. -/
inductive IsSet (frag : Pkt → PktFrag) : List Pkt → List Pkt → Prop
  | closed {f t : Pkt} {r c : List Pkt} :
      frag f = .first → (∀ x ∈ r, frag x = .cont) → frag t = .last → IsSet frag (f :: r ++ [t]) c
  | cutOff {f g : Pkt} {r c : List Pkt} :
      frag f = .first → (∀ x ∈ r, frag x = .cont) → frag g = .first → IsSet frag (f :: r) (g :: c)

/-- Of `l = b ++ run ++ c`, what is dropped is `run`. -/
inductive Policy (frag : Pkt → PktFrag) (l : List Pkt) : List Pkt → List Pkt → List Pkt → Prop
  | whole {b c : List Pkt} {p : Pkt} :
      l = b ++ [p] ++ c → (∀ x ∈ b, ¬Whole frag x) → Whole frag p → Policy frag l b [p] c
  | set {b run c : List Pkt} :
      l = b ++ run ++ c → (∀ x ∈ l, ¬Whole frag x) → IsSet frag run c → Policy frag l b run c
  | oldest {p : Pkt} {c : List Pkt} :
      l = p :: c → (∀ x ∈ l, ¬Whole frag x) →
      (∀ b run c', l = b ++ run ++ c' → ¬IsSet frag run c') → Policy frag l [] [p] c

/-- A set of fragments ends before the first packet that is not fragmented. -/
def SetBeforeWhole (frag : Pkt → PktFrag) (l : List Pkt) : Prop :=
  ∃ b run c, l = b ++ run ++ c ∧ IsSet frag run c ∧ (∀ x ∈ b ++ run, ¬Whole frag x) ∧
    ∃ x ∈ c, Whole frag x

/-! ## The scan -/

/-- Neither whole nor a first fragment: the scan passes it while no set is open. -/
def Inner (frag : Pkt → PktFrag) (p : Pkt) : Prop := frag p = .cont ∨ frag p = .last

/-- The packets that the scan has passed, with `first` and `prevFirst`. -/
inductive Passed (frag : Pkt → PktFrag) : List Pkt → Option Pkt → Option Pkt → Prop
  | unopened {pre : List Pkt} : (∀ x ∈ pre, Inner frag x) → Passed frag pre none none
  | opened {b r : List Pkt} {f : Pkt} :
      (∀ x ∈ b, Inner frag x) → frag f = .first → (∀ x ∈ r, frag x = .cont) →
      Passed frag (b ++ f :: r) (some f) b.getLast?

section
variable {frag : Pkt → PktFrag} {pre b c run l : List Pkt} {first prevFirst : Option Pkt} {p : Pkt}

theorem forall_mem_snoc {P : Pkt → Prop} (h : ∀ x ∈ l, P x) (hp : P p) : ∀ x ∈ l ++ [p], P x := by
  intro x hx
  rcases List.mem_append.1 hx with hx | hx
  · exact h x hx
  · cases List.mem_singleton.1 hx
    exact hp

theorem Passed.snoc_cont (h : Passed frag pre first prevFirst) (hp : frag p = .cont) :
    Passed frag (pre ++ [p]) first prevFirst := by
  cases h with
  | unopened hb => exact .unopened (forall_mem_snoc hb (.inl hp))
  | opened hb hf hr =>
    rw [List.append_assoc, List.cons_append]
    exact .opened hb hf (forall_mem_snoc hr hp)

theorem Passed.notWhole (h : Passed frag pre first prevFirst) : ∀ x ∈ pre, ¬Whole frag x := by
  have hinner : ∀ x, Inner frag x → ¬Whole frag x := by
    intro x hx hw
    unfold Whole at hw
    unfold Inner at hx
    rw [hw] at hx
    simp at hx
  cases h with
  | unopened hb => exact fun x hx => hinner x (hb x hx)
  | opened hb hf hr =>
    intro x hx
    unfold Whole
    rcases List.mem_append.1 hx with hx | hx
    · exact hinner x (hb x hx)
    · rcases List.mem_cons.1 hx with rfl | hx
      · simp [hf]
      · simp [hr x hx]

theorem IsSet.head_first (h : IsSet frag run c) : ∃ f r, run = f :: r ∧ frag f = .first := by
  cases h with
  | @closed f t r _ hf _ _ => exact ⟨f, r ++ [t], rfl, hf⟩
  | @cutOff f _ r _ hf _ _ => exact ⟨f, r, rfl, hf⟩

/-- A list has one split at its only first fragment. -/
theorem split_unique {b b' r r' : List Pkt} {f f' : Pkt} (h : b ++ f :: r = b' ++ f' :: r')
    (hf' : frag f' = .first) (hb : ∀ x ∈ b, frag x ≠ .first)
    (hr : ∀ x ∈ r, frag x ≠ .first) : b = b' ∧ f = f' ∧ r = r' := by
  induction b generalizing b' with
  | nil =>
    cases b' with
    | nil =>
      obtain ⟨rfl, rfl⟩ := List.cons.inj h
      exact ⟨rfl, rfl, rfl⟩
    | cons y ys =>
      obtain ⟨-, rfl⟩ := List.cons.inj h
      exact absurd hf' (hr f' (List.mem_append_right _ List.mem_cons_self))
  | cons x xs ih =>
    cases b' with
    | nil =>
      obtain ⟨rfl, -⟩ := List.cons.inj h
      exact absurd hf' (hb x List.mem_cons_self)
    | cons y ys =>
      obtain ⟨rfl, htail⟩ := List.cons.inj h
      obtain ⟨rfl, hrest⟩ := ih htail fun z hz => hb z (List.mem_cons_of_mem _ hz)
      exact ⟨rfl, hrest⟩

theorem Inner.ne_first (h : Inner frag p) : frag p ≠ .first := by
  unfold Inner at h
  intro hf
  rw [hf] at h
  simp at h

/-- No set ends among the packets passed, if what stands behind them opens none. -/
theorem Passed.noSet (h : Passed frag pre first prevFirst) {e rest : List Pkt}
    (hsplit : pre = b ++ run ++ e) (hrest : ∀ g ∈ rest.head?, frag g ≠ .first) :
    ¬IsSet frag run (e ++ rest) := by
  intro hset
  obtain ⟨g, s, rfl, hg⟩ := hset.head_first
  cases h with
  | unopened hb =>
    have hmem : g ∈ pre := by simp [hsplit]
    exact (hb g hmem).ne_first hg
  | @opened _ _ f hb hf hr =>
    rw [List.append_assoc, List.cons_append] at hsplit
    obtain ⟨rfl, rfl, rfl⟩ := split_unique hsplit hg (fun x hx => (hb x hx).ne_first)
      (fun x hx => by simp [hr x hx])
    -- the set is `f :: s`, and `s ++ e` has continuations only
    generalize hc : e ++ rest = c at hset
    generalize hrun : f :: s = run at hset
    cases hset with
    | @closed f' t r' _ _ _ ht =>
      obtain ⟨-, rfl⟩ := List.cons.inj hrun
      have hcont := hr t (by simp)
      rw [ht] at hcont
      cases hcont
    | @cutOff f' g' r' c' _ _ hg' =>
      cases e with
      | nil =>
        rw [List.nil_append] at hc
        exact hrest g' (by simp [hc]) hg'
      | cons y ys =>
        obtain ⟨rfl, -⟩ := List.cons.inj hc
        have hcont := hr y (by simp)
        rw [hg'] at hcont
        cases hcont

theorem Passed.snoc_last (h : Passed frag pre none prevFirst) (hp : frag p = .last) :
    Passed frag (pre ++ [p]) none prevFirst := by
  cases h with
  | unopened hb => exact .unopened (forall_mem_snoc hb (.inr hp))

theorem Passed.snoc_first (h : Passed frag pre none prevFirst) (hp : frag p = .first) :
    Passed frag (pre ++ [p]) (some p) pre.getLast? := by
  cases h with
  | unopened hb => exact .opened hb hp (r := []) nofun

end

/-- What the code picks: the policy, but for a set that ends before the first whole packet. -/
inductive Chosen (frag : Pkt → PktFrag) (l : List Pkt) : List Pkt → List Pkt → List Pkt → Prop
  | whole {b c : List Pkt} {p : Pkt} :
      l = b ++ [p] ++ c → (∀ x ∈ b, ¬Whole frag x) → Whole frag p →
      (∀ b' run e, b = b' ++ run ++ e → ¬IsSet frag run (e ++ p :: c)) → Chosen frag l b [p] c
  | set {b run c : List Pkt} :
      l = b ++ run ++ c → (∀ x ∈ b ++ run, ¬Whole frag x) → IsSet frag run c →
      Chosen frag l b run c
  | oldest {p : Pkt} {c : List Pkt} :
      l = p :: c → (∀ x ∈ l, ¬Whole frag x) →
      (∀ b run c', l = b ++ run ++ c' → ¬IsSet frag run c') → Chosen frag l [] [p] c

/-- The choice is the part `run` of the chain. -/
def Picks (frag : Pkt → PktFrag) (l : List Pkt) (choice : Choice Pkt) : Prop :=
  ∃ b run c, Chosen frag l b run c ∧ choice = ⟨b.getLast?, run.head?, run.getLast?⟩

section
variable {frag : Pkt → PktFrag} {link : Pkt → Option Pkt} {head first prevFirst : Option Pkt}
  {info : PktFrag} {pre rest l : List Pkt} {p : Pkt}

/-- The end of the chain: nothing was found. -/
theorem picks_end (hp : Passed frag l first prevFirst) (hhead : head = l.head?) (hne : l ≠ []) :
    Picks frag l (choose head ⟨none, l.getLast?, first, none, prevFirst, info⟩) := by
  obtain ⟨x, xs, rfl⟩ := List.exists_cons_of_ne_nil hne
  refine ⟨[], [x], xs, .oldest rfl hp.notWhole ?_, ?_⟩
  · intro b run c heq
    have hno : ¬IsSet frag run (c ++ []) := hp.noSet heq nofun
    rwa [List.append_nil] at hno
  · subst hhead
    simp [choose]

theorem picks_whole (hp : Passed frag pre first prevFirst) (hw : frag p = .none) :
    Picks frag (pre ++ p :: rest)
      (choose head ⟨some p, pre.getLast?, first, none, prevFirst, .none⟩) := by
  refine ⟨pre, [p], rest, .whole (by simp) hp.notWhole hw ?_, ?_⟩
  · intro b run e heq
    exact hp.noSet heq (by simp [hw])
  · simp [choose]

theorem picks_last {f : Pkt} (hp : Passed frag pre (some f) prevFirst) (hl : frag p = .last) :
    Picks frag (pre ++ p :: rest)
      (choose head ⟨some p, pre.getLast?, some f, some p, prevFirst, .last⟩) := by
  have hno := hp.notWhole
  cases hp with
  | @opened b r f hb hf hr =>
    refine ⟨b, f :: r ++ [p], rest, .set (by simp) ?_ (.closed hf hr hl), ?_⟩
    · rw [← List.append_assoc]
      exact forall_mem_snoc hno (by simp [Whole, hl])
    · rw [List.getLast?_concat]
      simp [choose]

theorem picks_cutOff {f : Pkt} (hp : Passed frag pre (some f) prevFirst) (hl : frag p = .first) :
    Picks frag (pre ++ p :: rest)
      (choose head ⟨some p, pre.getLast?, some f, pre.getLast?, prevFirst, .first⟩) := by
  have hno := hp.notWhole
  cases hp with
  | @opened b r f hb hf hr =>
    refine ⟨b, f :: r, p :: rest, .set (by simp) hno (.cutOff hf hr hl), ?_⟩
    rw [List.getLast?_append_cons]
    simp [choose]

theorem scanLoop_spec (info : PktFrag) (hc : Chain link head (pre ++ rest))
    (hhead : head = (pre ++ rest).head?) (hne : pre ++ rest ≠ [])
    (hp : Passed frag pre first prevFirst) {k : Nat} (hk : rest.length < k) :
    ∃ v, scanLoop frag link k ⟨rest.head?, pre.getLast?, first, none, prevFirst, info⟩ = some v ∧
      Picks frag (pre ++ rest) (choose head v) := by
  induction rest generalizing pre first prevFirst info k with
  | nil =>
    rw [List.append_nil] at hhead hne ⊢
    obtain ⟨k, rfl⟩ := Nat.exists_eq_add_of_lt hk
    exact ⟨_, rfl, picks_end hp hhead hne⟩
  | cons p rest ih =>
    rw [List.length_cons] at hk
    obtain ⟨k, rfl⟩ : ∃ j, k = j + 1 := ⟨k - 1, by omega⟩
    have hlink := hc.link_eq
    -- the rest of the loop, when the scan goes on behind `p`
    have hnext : ∀ {first' prevFirst'} (info'), Passed frag (pre ++ [p]) first' prevFirst' →
        ∃ v, scanLoop frag link k ⟨link p, some p, first', none, prevFirst', info'⟩ = some v ∧
          Picks frag (pre ++ p :: rest) (choose head v) := by
      intro first' prevFirst' info' hp'
      have happ : pre ++ p :: rest = pre ++ [p] ++ rest := by simp
      rw [happ] at hc hhead hne ⊢
      rw [hlink, ← List.getLast?_concat (l := pre) (a := p)]
      exact ih info' hc hhead hne hp' (by omega : rest.length < k)
    cases hfrag : frag p with
    | none =>
      refine ⟨⟨some p, pre.getLast?, first, none, prevFirst, .none⟩, ?_, picks_whole hp hfrag⟩
      simp [scanLoop, hfrag]
    | cont =>
      have hstep := hnext .cont (hp.snoc_cont hfrag)
      simpa [scanLoop, hfrag] using hstep
    | first =>
      cases first with
      | none =>
        have hstep := hnext .first (hp.snoc_first hfrag)
        simpa [scanLoop, hfrag] using hstep
      | some f =>
        refine ⟨_, ?_, picks_cutOff hp hfrag⟩
        simp [scanLoop, hfrag]
    | last =>
      cases first with
      | none =>
        have hstep := hnext .last (hp.snoc_last hfrag)
        simpa [scanLoop, hfrag] using hstep
      | some f =>
        refine ⟨_, ?_, picks_last hp hfrag⟩
        simp [scanLoop, hfrag]

end

/-! ## The removal -/

/-- The calls of `fn`, with nothing left of a missing `fn`. -/
def handOverAll (fn : Option (σ → Pkt → σ × Option Pkt)) (ctx : σ) (run : List Pkt) : σ :=
  match fn with
  | none => ctx
  | some fn => run.foldl (fun ctx p => (fn ctx p).1) ctx

/-- The packets of `run` left a queue, and nobody has mended the chain yet. -/
structure Unlinked (s s' : Pktq Pkt) (prec : Nat) (run : List Pkt) : Prop where
  link : ∀ x, x ∉ run → s'.link x = s.link x
  total : s'.nPktsTot = s.nPktsTot - run.length
  q : s'.q = Function.update s.q prec
    { s.q prec with nPkts := (s.q prec).nPkts - run.length }
  numPrec : s'.numPrec = s.numPrec
  hiPrec : s'.hiPrec = s.hiPrec

section
variable {fn : Option (σ → Pkt → σ × Option Pkt)} {s s' : Pktq Pkt} {ctx : σ} {prec : Nat}
  {run c l : List Pkt} {p : Pkt} {head : Option Pkt}

theorem handOver_link [DecidableEq Pkt] (x : Pkt) (hx : x ≠ p) :
    (handOver fn s ctx p).1.link x = s.link x := by
  cases fn with
  | none => rfl
  | some fn => exact Function.update_of_ne hx _ _

theorem handOver_ctx [DecidableEq Pkt] (run : List Pkt) :
    handOverAll fn (handOver fn s ctx p).2 run = handOverAll fn ctx (p :: run) := by
  cases fn with
  | none => rfl
  | some fn => rfl

theorem unlinked_one [DecidableEq Pkt] (hcount : (s.q prec).nPkts ≠ 0) (htot : s.nPktsTot ≠ 0)
    (hle : (s.q prec).nPkts ≤ s.nPktsTot) (hsmall : s.nPktsTot ≤ 0xFFFF) :
    Unlinked s (handOver fn (removeOne s prec p) ctx p).1 prec [p] := by
  have hdec : ∀ m, m ≠ 0 → m ≤ 0xFFFF → uint16 (m + 0xFFFF) = m - 1 := by
    intro m hm hle
    unfold uint16
    omega
  have hone := hdec _ hcount (by omega)
  have hall := hdec _ htot hsmall
  refine ⟨?_, ?_, ?_, ?_, ?_⟩
  · intro x hx
    rw [List.mem_singleton] at hx
    rw [handOver_link x hx]
    exact Function.update_of_ne hx _ _
  · cases fn with
    | none => exact hall
    | some fn => exact hall
  · have hq : (handOver fn (removeOne s prec p) ctx p).1.q = (removeOne s prec p).q := by
      cases fn with
      | none => rfl
      | some fn => rfl
    rw [hq]
    show Function.update s.q prec _ = _
    rw [hone]
    rfl
  · cases fn with
    | none => rfl
    | some fn => rfl
  · cases fn with
    | none => rfl
    | some fn => rfl

theorem Unlinked.cons {s₁ s₂ : Pktq Pkt} (h : Unlinked s s₁ prec [p])
    (hrest : Unlinked s₁ s₂ prec run) : Unlinked s s₂ prec (p :: run) := by
  refine ⟨?_, ?_, ?_, hrest.numPrec.trans h.numPrec, hrest.hiPrec.trans h.hiPrec⟩
  · intro x hx
    rw [List.mem_cons, not_or] at hx
    rw [hrest.link x hx.2, h.link x (by simp [hx.1])]
  · rw [hrest.total, h.total, Nat.sub_sub, List.length_singleton, List.length_cons, Nat.add_comm]
  · have hself : s₁.q prec = { s.q prec with nPkts := (s.q prec).nPkts - 1 } := by
      rw [h.q, Function.update_self]
      rfl
    rw [hrest.q, hself, h.q, Function.update_idem, List.length_cons, Nat.sub_sub, Nat.add_comm]

theorem removeLoop_spec [DecidableEq Pkt] (fn : Option (σ → Pkt → σ × Option Pkt)) (ctx : σ)
    (hne : run ≠ [])
    (hc : Chain s.link (run ++ c).head? (run ++ c))
    (hcount : run.length ≤ (s.q prec).nPkts) (hle : (s.q prec).nPkts ≤ s.nPktsTot)
    (hsmall : s.nPktsTot ≤ 0xFFFF) {k : Nat} (hk : run.length ≤ k) (next : Option Pkt) :
    ∃ s', removeLoop fn prec run.getLast? k s ctx next run.head? =
        some (s', handOverAll fn ctx run, c.head?) ∧ Unlinked s s' prec run := by
  induction run generalizing s ctx k next with
  | nil => exact absurd rfl hne
  | cons p rest ih =>
    rw [List.length_cons] at hcount hk
    obtain ⟨k, rfl⟩ : ∃ j, k = j + 1 := ⟨k - 1, by omega⟩
    have hlink : s.link p = (rest ++ c).head? := hc.2.head
    have hone : Unlinked s (handOver fn (removeOne s prec p) ctx p).1 prec [p] :=
      unlinked_one (by omega) (by omega) hle hsmall
    rw [List.head?_cons, ← handOver_ctx (s := removeOne s prec p)]
    unfold removeLoop
    by_cases hrest : rest = []
    · subst hrest
      refine ⟨_, ?_, hone⟩
      rw [if_pos (by rfl), hlink]
      cases fn with
      | none => rfl
      | some fn => rfl
    · have hlast : (p :: rest).getLast? = rest.getLast? := by
        rw [List.getLast?_cons_of_ne_nil hrest]
      have hnd := hc.nodup
      rw [List.cons_append, List.nodup_cons] at hnd
      have hmid : some p ≠ rest.getLast? := by
        intro heq
        exact hnd.1 (List.mem_append_left _ (List.mem_of_getLast? heq.symm))
      have hself : ((handOver fn (removeOne s prec p) ctx p).1.q prec).nPkts =
          (s.q prec).nPkts - 1 := by
        rw [hone.q, Function.update_self]
        rfl
      have htot := hone.total
      rw [List.length_singleton] at htot
      have hc' : Chain (handOver fn (removeOne s prec p) ctx p).1.link (rest ++ c).head?
          (rest ++ c) := by
        rw [← hlink]
        apply hc.2.congr
        intro x hx
        apply hone.link
        rw [List.mem_singleton]
        rintro rfl
        exact hnd.1 hx
      obtain ⟨s', hloop, hun⟩ := ih (handOver fn (removeOne s prec p) ctx p).2 hrest hc'
        (by omega) (by omega) (by omega) (by omega : rest.length ≤ k) (s.link p)
      refine ⟨s', ?_, hone.cons hun⟩
      have hhead : s.link p = rest.head? := by
        rw [hlink, List.head?_append_of_ne_nil _ hrest]
      rw [hlast, if_neg hmid]
      rwa [hhead] at hloop ⊢

theorem getLast?_of_tail {b : List Pkt} (hsplit : l = b ++ run ++ c) (hc : c ≠ []) :
    l.getLast? = (b ++ c).getLast? := by
  rw [hsplit, List.getLast?_append_of_ne_nil _ hc, List.getLast?_append_of_ne_nil _ hc]

/-- The chain is mended behind `prevFirst`. -/
theorem chain_skip [DecidableEq Pkt] {b : List Pkt} {x : Pkt} {link link' : Pkt → Option Pkt}
    (hc : Chain link head (b ++ [x] ++ run ++ c)) (hlink : ∀ y, y ∉ run → link' y = link y) :
    Chain (Function.update link' x c.head?) head (b ++ x :: c) := by
  have hnd := hc.nodup
  have hcut : Chain (Function.update link x none) head (b ++ [x]) := by
    simp only [List.append_assoc] at hc
    exact hc.cut
  have hrest : Chain link c.head? c := hc.suffix
  have hx : x ∉ run ++ c := by
    simp only [List.append_assoc] at hnd
    exact (List.nodup_cons.1 hnd.of_append_right).1
  rw [List.mem_append, not_or] at hx
  have hjoin := hcut.concat (hrest.frame hx.2 none) hx.2
  rw [Function.update_idem] at hjoin
  apply hjoin.congr
  intro y hy
  by_cases heq : y = x
  · subst heq
    rw [Function.update_self, Function.update_self]
  · rw [Function.update_of_ne heq, Function.update_of_ne heq]
    apply hlink
    intro hrun
    rw [List.nodup_append] at hnd
    obtain ⟨hleft, -, hdisj⟩ := hnd
    rw [List.nodup_append] at hleft
    rcases List.mem_append.1 hy with hy | hy
    · exact hleft.2.2 y (List.mem_append_left _ hy) y hrun rfl
    · rcases List.mem_cons.1 hy with rfl | hy
      · exact heq rfl
      · exact hdisj y (List.mem_append_right _ hrun) y hy rfl

/-- The links and the ends that `relink` leaves. -/
theorem relink_ends [DecidableEq Pkt] {b : List Pkt}
    (hc : Chain s.link (s.q prec).head (b ++ run ++ c))
    (htail : (s.q prec).tail = (b ++ run ++ c).getLast?) (hu : Unlinked s s' prec run) :
    ∃ link head tail, Chain link head (b ++ c) ∧ tail = (b ++ c).getLast? ∧
      (∀ x, x ∉ b ++ run ++ c → link x = s.link x) ∧
      relink s' prec b.getLast? c.head? =
        { s' with link := link,
                  q := Function.update s.q prec
                    ⟨head, tail, (s.q prec).nPkts - run.length, (s.q prec).maxPkts⟩ } := by
  have hq : s'.q prec = { s.q prec with nPkts := (s.q prec).nPkts - run.length } := by
    rw [hu.q, Function.update_self]
  rcases List.eq_nil_or_concat b with rfl | ⟨b, x, rfl⟩
  · refine ⟨s'.link, c.head?, if c.head? = none then none else (s.q prec).tail, ?_, ?_, ?_, ?_⟩
    · have hnd := hc.nodup
      rw [List.nil_append] at hnd
      have hrest : Chain s.link c.head? c := hc.suffix
      apply hrest.congr
      intro y hy
      apply hu.link
      intro hrun
      exact (List.nodup_append.1 hnd).2.2 y hrun y hy rfl
    · split
      · next hnil =>
        rw [List.head?_eq_none_iff] at hnil
        rw [hnil]
        rfl
      · next hne =>
        rw [htail]
        exact getLast?_of_tail rfl fun hnil => hne (by rw [hnil]; rfl)
    · intro x hx
      apply hu.link
      intro hrun
      exact hx (List.mem_append_left _ (List.mem_append_right _ hrun))
    · simp [relink, hu.q, hq]
  · refine ⟨Function.update s'.link x c.head?, (s.q prec).head,
      if c.head? = none then some x else (s.q prec).tail, ?_, ?_, ?_, ?_⟩
    · simp only [List.concat_eq_append, List.append_assoc, List.singleton_append]
      rw [List.concat_eq_append] at hc
      exact chain_skip hc hu.link
    · rw [List.concat_eq_append]
      split
      · next hnil =>
        rw [List.head?_eq_none_iff] at hnil
        rw [hnil, List.append_nil, List.getLast?_concat]
      · next hne =>
        rw [htail, List.concat_eq_append]
        exact getLast?_of_tail rfl fun hnil => hne (by rw [hnil]; rfl)
    · intro y hy
      simp only [List.concat_eq_append, List.mem_append, List.mem_singleton, not_or] at hy
      rw [Function.update_of_ne hy.1.1.2]
      exact hu.link y hy.1.2
    · simp [relink, hu.q, hq]

theorem relink_spec [DecidableEq Pkt] {n : Nat} {a : Queues Pkt} {b : List Pkt} (h : Refines n s a)
    (hp : prec < n) (hsplit : a prec = b ++ run ++ c) (hu : Unlinked s s' prec run) :
    Refines n (relink s' prec b.getLast? c.head?) (Function.update a prec (b ++ c)) := by
  have hc := h.chain prec hp
  have htail := h.tail prec hp
  have hcount := h.count prec hp
  have hle := h.length_le hp
  have hsmall := h.small
  have htot := hu.total
  have hlen : (a prec).length = b.length + run.length + c.length := by simp [hsplit, Nat.add_assoc]
  rw [hsplit] at hc htail
  obtain ⟨link, head, tail, hc', htail', hframe, heq⟩ := relink_ends hc htail hu
  rw [heq]
  refine h.update hp hu.numPrec rfl hc' htail' ?_ ?_ ?_ ?_ ?_ ?_ ?_ ?_
  · show (s.q prec).nPkts - run.length = (b ++ c).length
    rw [List.length_append]
    omega
  · intro x hx _
    rw [hsplit] at hx
    exact hframe x hx
  · intro x hx
    refine .inl ?_
    rw [hsplit]
    simp only [List.mem_append] at hx ⊢
    rcases hx with hx | hx
    · exact .inl (.inl hx)
    · exact .inr hx
  · show s'.nPktsTot + _ = _
    rw [List.length_append]
    omega
  · show s'.nPktsTot ≤ _
    omega
  · show s'.hiPrec < n
    rw [hu.hiPrec]
    exact h.hi_lt
  · intro i hi hlt _
    exact h.above i hi (by rwa [← hu.hiPrec])
  · intro hlt
    have hnil := h.above prec hp (by rwa [← hu.hiPrec])
    rw [hsplit] at hnil
    simp at hnil
    simp [hnil]

end

/-! ## The call -/

section
variable {n prec : Nat} {s s' : Pktq Pkt} {a : Queues Pkt} {frag : Pkt → PktFrag} {ctx : σ}
  {fn : Option (σ → Pkt → σ × Option Pkt)} {b run c l : List Pkt}

theorem Chosen.split (h : Chosen frag l b run c) : l = b ++ run ++ c := by
  cases h with
  | whole hl => exact hl
  | set hl => exact hl
  | oldest hl => exact hl

theorem Chosen.ne_nil (h : Chosen frag l b run c) : run ≠ [] := by
  cases h with
  | whole => exact List.cons_ne_nil _ _
  | set _ _ hs =>
    obtain ⟨f, r, rfl, -⟩ := hs.head_first
    exact List.cons_ne_nil _ _
  | oldest => exact List.cons_ne_nil _ _

/-- The call ends, and removes what it has chosen. -/
theorem dhdPrecDropPkts_spec [DecidableEq Pkt] (frag : Pkt → PktFrag)
    (fn : Option (σ → Pkt → σ × Option Pkt))
    (ctx : σ) (h : Refines n s a) (hp : prec < n) (hne : a prec ≠ []) :
    ∃ s' b run c, dhdPrecDropPkts frag fn s ctx prec = some (s', handOverAll fn ctx run, true) ∧
      Chosen frag (a prec) b run c ∧ Refines n s' (Function.update a prec (b ++ c)) := by
  have hc := h.chain prec hp
  have hhead := hc.head
  have hlt := h.length_lt hp
  have hcount := h.count prec hp
  have hsome : (s.q prec).head ≠ none := fun hnone => hne (hc.eq_nil_iff.1 hnone)
  obtain ⟨v, hv, b, run, c, hch, hchoice⟩ := scanLoop_spec .none hc hhead hne
    (.unopened nofun : Passed frag [] none none) hlt
  rw [← hhead] at hv
  rw [List.nil_append] at hch
  have hsplit := hch.split
  have hlen : (a prec).length = b.length + run.length + c.length := by simp [hsplit, Nat.add_assoc]
  have hrest : Chain s.link (run ++ c).head? (run ++ c) := by
    rw [hsplit, List.append_assoc] at hc
    exact hc.suffix
  have hle := h.length_le hp
  have hrun : run.length ≤ (s.q prec).nPkts := by omega
  obtain ⟨s', hloop, hu⟩ := removeLoop_spec fn ctx hch.ne_nil hrest hrun (by omega) h.small
    (by omega : run.length ≤ fuel) none
  refine ⟨_, b, run, c, ?_, hch, relink_spec h hp hsplit hu⟩
  unfold dhdPrecDropPkts
  rw [if_neg hsome]
  rw [List.getLast?_nil] at hv
  simp only [hv, hchoice, hloop, Option.bind_eq_bind, Option.bind_some]

/-- The lists are determined by the queue. -/
theorem lists_unique {a₁ a₂ : Queues Pkt} (h₁ : Refines n s a₁) (h₂ : Refines n s a₂)
    (hp : prec < n) : a₁ prec = a₂ prec :=
  (h₁.chain prec hp).unique (h₂.chain prec hp)

/-- The choice follows the policy where no set ends too early. -/
theorem Chosen.policy (h : Chosen frag l b run c) (hno : ¬SetBeforeWhole frag l) :
    Policy frag l b run c := by
  cases h with
  | whole hl hb hw _ => exact .whole hl hb hw
  | @set b run c hl hin hs =>
    refine .set hl ?_ hs
    intro x hx hw
    rw [hl, List.mem_append] at hx
    rcases hx with hx | hx
    · exact hin x hx hw
    · exact hno ⟨b, run, c, hl, hs, hin, x, hx, hw⟩
  | oldest hl hall hs => exact .oldest hl hall hs

/-- Where one ends too early, nothing whole goes. -/
theorem Chosen.notWhole (h : Chosen frag l b run c) (hearly : SetBeforeWhole frag l) :
    ∀ x ∈ run, ¬Whole frag x := by
  cases h with
  | @whole b c p hl hb hw hno =>
    obtain ⟨b', run, e, hl', hset, hin, -⟩ := hearly
    rw [hl', List.append_assoc b, List.singleton_append] at hl
    rcases List.append_eq_append_iff.1 hl with ⟨d, hb', he⟩ | ⟨d, hb', he⟩
    · rw [he] at hset
      exact absurd hset (hno b' run d hb')
    · cases d with
      | nil =>
        rw [List.append_nil] at hb'
        rw [List.nil_append] at he
        rw [← he] at hset
        exact absurd hset (hno b' run [] (by rw [hb', List.append_nil]))
      | cons y ys =>
        obtain ⟨rfl, -⟩ := List.cons.inj he
        exact absurd hw (hin p (by simp [hb']))
  | set _ hin _ => exact fun x hx => hin x (List.mem_append_right _ hx)
  | oldest hl hall _ =>
    intro x hx
    apply hall
    rw [hl]
    exact List.mem_append_left _ hx

/-- **The packets go by the policy, unless a set of fragments ends before a whole packet.** -/
theorem drop_by_policy_iff [DecidableEq Pkt] (h : Refines n s a) (hp : prec < n)
    (hne : a prec ≠ []) :
    ∃ s' ctx', dhdPrecDropPkts frag fn s ctx prec = some (s', ctx', true) ∧
      ((∃ b run c, Policy frag (a prec) b run c ∧
          Refines n s' (Function.update a prec (b ++ c)) ∧ ctx' = handOverAll fn ctx run) ↔
        ¬SetBeforeWhole frag (a prec)) := by
  obtain ⟨s', b, run, c, hcall, hch, href⟩ :=
    dhdPrecDropPkts_spec frag fn ctx h hp hne
  refine ⟨s', handOverAll fn ctx run, hcall, ?_⟩
  constructor
  · rintro ⟨b', run', c', hpol, href', -⟩ hearly
    have hin := hch.notWhole hearly
    have hnd := (h.chain prec hp).nodup
    have hlist := lists_unique href href' hp
    rw [Function.update_self, Function.update_self] at hlist
    have hex : ∃ x ∈ a prec, Whole frag x := by
      obtain ⟨b₁, run₁, c₁, hl, -, -, x, hx, hw⟩ := hearly
      exact ⟨x, by rw [hl]; exact List.mem_append_right _ hx, hw⟩
    cases hpol with
    | @whole b' c' p hl hb hw =>
      -- the policy drops `p`, and the code keeps it
      have hkept : p ∈ b ++ c := by
        have hmem : p ∈ a prec := by simp [hl]
        rw [hch.split] at hmem
        simp only [List.mem_append] at hmem ⊢
        rcases hmem with (hmem | hmem) | hmem
        · exact .inl hmem
        · exact absurd hw (hin p hmem)
        · exact .inr hmem
      rw [hlist] at hkept
      rw [hl] at hnd
      simp only [List.append_assoc, List.singleton_append] at hnd
      exact (List.nodup_cons.1 (List.nodup_middle.1 hnd)).1 hkept
    | set _ hall _ =>
      obtain ⟨x, hx, hw⟩ := hex
      exact hall x hx hw
    | oldest _ hall _ =>
      obtain ⟨x, hx, hw⟩ := hex
      exact hall x hx hw
  · intro hno
    exact ⟨b, run, c, hch.policy hno, href, rfl⟩

end

/-- Packets 1 and 2 are the two fragments of a datagram. -/
def twoFrags (p : Nat) : PktFrag := if p = 1 then .first else if p = 2 then .last else .none

/-- Here packet 2 is whole, and no set ends before it. -/
def onlyFirst (p : Nat) : PktFrag := if p = 1 then .first else .none

theorem drop_by_policy_iff_three :
    ∃ s' ctx', dhdPrecDropPkts onlyFirst (some fun ctx p => (ctx ++ [p], none)) threeQueued [] 0 =
        some (s', ctx', true) ∧
      ((∃ b run c, Policy onlyFirst [1, 2, 3] b run c ∧
          Refines 1 s' (Function.update (fun _ => [1, 2, 3]) 0 (b ++ c)) ∧
          ctx' = handOverAll (some fun ctx p => (ctx ++ [p], none)) [] run) ↔
        ¬SetBeforeWhole onlyFirst [1, 2, 3]) :=
  drop_by_policy_iff threeQueued_refines (by decide) (by decide)

/-- The fragments 1 and 2 go, and packet 3 stays, which is whole. -/
theorem drop_not_by_policy :
    Refines 1 threeQueued (fun _ => [1, 2, 3]) ∧
    ∃ s', dhdPrecDropPkts twoFrags (some fun ctx p => (ctx ++ [p], none)) threeQueued [] 0 =
        some (s', [1, 2], true) ∧
      ¬∃ b run c, Policy twoFrags [1, 2, 3] b run c ∧
        Refines 1 s' (Function.update (fun _ => [1, 2, 3]) 0 (b ++ c)) := by
  refine ⟨threeQueued_refines, _, rfl, ?_⟩
  rintro ⟨b, run, c, hpol, href⟩
  have hthree : Whole twoFrags 3 := rfl
  cases hpol with
  | @whole b c p hl _ hw =>
    have hmem : p ∈ [1, 2, 3] := by simp [hl]
    have hp : p = 3 := by
      unfold Whole twoFrags at hw
      simp only [List.mem_cons, List.not_mem_nil, or_false] at hmem
      rcases hmem with rfl | rfl | rfl
      · simp at hw
      · simp at hw
      · rfl
    subst hp
    -- the head of the queue is now 3
    have hhead := (href.chain 0 (by decide)).head
    rw [Function.update_self] at hhead
    have hin : 3 ∈ b ++ c := List.mem_of_head? hhead.symm
    have hnd : [1, 2, 3].Nodup := by decide
    rw [hl] at hnd
    simp only [List.append_assoc, List.singleton_append] at hnd
    exact (List.nodup_cons.1 (List.nodup_middle.1 hnd)).1 hin
  | set _ hall _ => exact hall 3 (by simp) hthree
  | oldest _ hall _ => exact hall 3 (by simp) hthree

end Bcmdhd.HndPktq.DropPkts
