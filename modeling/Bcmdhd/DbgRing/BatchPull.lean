import Bcmdhd.DbgRing.Calls

/-!
# Pulling a batch

One pull after another, until the buffer is full or a pull returns 0.  A pull returns 0 when it
copies nothing, which it also does for an entry without a payload whose header is stripped: this one
is gone, and not counted.

    meets exec notRingSized r es → runs exec r es = some (s, tr) →
      ∃ q, Holds s q ∧ ∀ bufLen stripHeader,
        PullsExactly stripHeader s bufLen q ↔ Exact stripHeader s bufLen q
                                                                        (pull_exactly_iff)
-/

namespace Bcmdhd.DbgRing

open Runs Records

/-! ## The loop -/

structure Batch where
  ring : Ring
  /-- what was copied to the buffer -/
  data : List UInt8
  /-- what is left of the buffer -/
  bufLen : Nat
  totalRLen : BitVec 32
  numEntries : Nat

/-- The loop of `dhd_dbg_ring_pull`; `none` when it does not end within `fuel` rounds. -/
def pullLoop (stripHeader : Bool) : Nat → Batch → Option Batch
  | 0, _ => none
  | fuel + 1, b =>
    if b.bufLen > 0 then
      let r := pullSingle b.ring b.bufLen stripHeader
      let bs := r.2.getD []
      -- nothing was pulled, or an entry of which nothing is copied
      if bs.length = 0 then some { b with ring := r.1 }
      else
        pullLoop stripHeader fuel
          { ring := r.1
            data := b.data ++ bs
            bufLen := b.bufLen - bs.length
            totalRLen := b.totalRLen + BitVec.ofNat 32 bs.length
            numEntries := b.numEntries + 1 }
    else some b

/-- `dhd_dbg_ring_pull`: the number it returns, and what it has done. -/
def pull (s : Ring) (bufLen : Nat) (stripHeader : Bool) (numEntries : Nat) : Option (Int × Batch) :=
  if s.pullInactive = false ∧ s.state ≠ .active then some (0, ⟨s, [], bufLen, 0, numEntries⟩)
  else
    (pullLoop stripHeader (bufLen + 1) ⟨s, [], bufLen, 0, numEntries⟩).map fun b =>
      (b.totalRLen.toInt, b)

/-! ## What a pull is to do -/

/-- The ring is active, or may be pulled when it is not. -/
def CanPull (s : Ring) : Prop := ¬ (s.pullInactive = false ∧ s.state ≠ .active)

/-- What is to be copied from these entries, in order. -/
def copies (stripHeader : Bool) (q : List (Nat × Entry)) : List UInt8 :=
  q.flatMap fun x => copied stripHeader x.2

/-- How many of the oldest entries fit in `room` bytes. -/
def longest (stripHeader : Bool) : Nat → List (Nat × Entry) → Nat
  | _, [] => 0
  | room, x :: q =>
    if (copied stripHeader x.2).length ≤ room then
      longest stripHeader (room - (copied stripHeader x.2).length) q + 1
    else 0

/-- The first `k` entries fit, and no more. -/
structure Longest (stripHeader : Bool) (bufLen : Nat) (q : List (Nat × Entry)) (k : Nat) :
    Prop where
  le : k ≤ q.length
  fits : (copies stripHeader (q.take k)).length ≤ bufLen
  greatest : ∀ j, j ≤ q.length → (copies stripHeader (q.take j)).length ≤ bufLen → j ≤ k

/-- The longest run of oldest entries is copied, counted and removed. -/
def PullsExactly (stripHeader : Bool) (s : Ring) (bufLen : Nat) (q : List (Nat × Entry)) : Prop :=
  ∃ ret b k, pull s bufLen stripHeader 0 = some (ret, b) ∧ Longest stripHeader bufLen q k ∧
    b.data = copies stripHeader (q.take k) ∧ ret = b.data.length ∧ b.numEntries = k ∧
    Holds b.ring (q.drop k)

/-- After this entry the reader takes an old padding for the end. -/
def OldPadAt (s : Ring) (x : Nat × Entry) : Prop :=
  s.rp < s.wp ∧ x.1 + (bytes x.2).length ≠ s.wp ∧ s.tailPadded = true ∧
    s.ringSize ≤ add32 (x.1 + (bytes x.2).length) s.remLen

/-- When a pull is exact: some entry may be pulled or none fits, something is copied of each, and
none is followed by an old padding. -/
structure Exact (stripHeader : Bool) (s : Ring) (bufLen : Nat) (q : List (Nat × Entry)) :
    Prop where
  canPull : CanPull s ∨ longest stripHeader bufLen q = 0
  nonempty : ∀ x ∈ q.take (longest stripHeader bufLen q), copied stripHeader x.2 ≠ []
  noOldPad : ∀ x ∈ q.take (longest stripHeader bufLen q), ¬ OldPadAt s x
  isInt : (copies stripHeader (q.take (longest stripHeader bufLen q))).length < 0x80000000

section
variable {stripHeader : Bool}

theorem copies_cons (x : Nat × Entry) (q : List (Nat × Entry)) :
    copies stripHeader (x :: q) = copied stripHeader x.2 ++ copies stripHeader q :=
  List.flatMap_cons

theorem copies_append (q q' : List (Nat × Entry)) :
    copies stripHeader (q ++ q') = copies stripHeader q ++ copies stripHeader q' :=
  List.flatMap_append

theorem longest_spec (bufLen : Nat) (q : List (Nat × Entry)) :
    Longest stripHeader bufLen q (longest stripHeader bufLen q) := by
  induction q generalizing bufLen with
  | nil => exact ⟨Nat.le_refl 0, Nat.zero_le bufLen, fun j hj _ => hj⟩
  | cons x q ih =>
    unfold longest
    split
    · next hle =>
      obtain ⟨hk, hfits, hgreatest⟩ := ih (bufLen - (copied stripHeader x.2).length)
      refine ⟨Nat.succ_le_succ hk, ?_, ?_⟩
      · rw [List.take_succ_cons, copies_cons, List.length_append]
        omega
      · intro j hj hj'
        cases j with
        | zero => exact Nat.zero_le _
        | succ j =>
          rw [List.take_succ_cons, copies_cons, List.length_append] at hj'
          exact Nat.succ_le_succ (hgreatest j (Nat.le_of_succ_le_succ hj) (by omega))
    · next hlt =>
      refine ⟨Nat.zero_le _, Nat.zero_le bufLen, ?_⟩
      intro j _ hj'
      cases j with
      | zero => exact Nat.le_refl 0
      | succ j =>
        rw [List.take_succ_cons, copies_cons, List.length_append] at hj'
        omega

theorem Longest.unique {bufLen k : Nat} {q : List (Nat × Entry)}
    (h : Longest stripHeader bufLen q k) : k = longest stripHeader bufLen q := by
  have hspec := @longest_spec stripHeader bufLen q
  exact Nat.le_antisymm (hspec.greatest k h.le h.fits) (h.greatest _ hspec.le hspec.fits)

end

/-! ## Where the reader goes -/

section
variable {d : Nat} {s : Ring} {x : Nat × Entry} {q : List (Nat × Entry)}

/-- The next entry: where it ends, and that the reader's numbers do not wrap. -/
theorem Holds.next_end (h : Holds s (x :: q)) (hd : s.ringSize < 0x100000000) :
    x.1 = s.rp ∧ add32 s.rp (entryLengthAt s s.rp) = x.1 + (bytes x.2).length ∧
      (s.rp < s.wp ∧ Flat s (x :: q) ∨ s.wp < s.rp) := by
  rcases h with h | ⟨q₁, q₂, hq, h⟩
  · have hle := h.laid.2.2.le
    have hpos := bytes_pos x.2
    have hwp := h.wp_le
    have hx : x.1 = s.rp := h.laid.1
    refine ⟨hx, ?_, .inl ⟨by omega, h⟩⟩
    rw [entryLengthAt_entry h.laid.2.1, add32_eq (by omega), hx]
  · cases q₁ with
    | nil => exact h.not_nil.elim
    | cons y q₁ =>
      obtain ⟨rfl, -⟩ := List.cons.inj hq
      have hx : x.1 = s.rp := h.first.1
      refine ⟨hx, ?_, .inr h.wp_lt⟩
      rw [(h.first_end hd).1, hx]

theorem padIsCurrent_of (h : Holds s (x :: q)) (hd : s.ringSize < 0x100000000)
    (hno : ¬ OldPadAt s x) (bufLen : Nat) (stripHeader : Bool) :
    padIsCurrent s (.pull bufLen stripHeader) = true := by
  obtain ⟨-, hend, -⟩ := h.next_end hd
  unfold padIsCurrent
  dsimp only
  rw [hend, Bool.not_eq_true', ← Bool.not_eq_true]
  intro hold
  simp only [Bool.and_eq_true, decide_eq_true_eq, bne_iff_ne] at hold
  obtain ⟨⟨⟨hlt, hpad⟩, hne⟩, hge⟩ := hold
  exact hno ⟨hlt, hne, hpad, hge⟩

/-- At an old padding the reader goes back to the start, and everything in front of it is unread
again. -/
theorem advance_turns (h : Ready d s) (hd : d < 0x100000000) (hq : Holds s (x :: q))
    (hold : OldPadAt s x) : ∃ old, Holds (advance s) (old ++ x :: q) := by
  obtain ⟨rfl, -, hbehind⟩ := h
  obtain ⟨-, hend, hflat⟩ := hq.next_end hd
  obtain ⟨hlt, hturn⟩ := hold
  rcases hflat with ⟨-, hf⟩ | hgt
  · obtain ⟨old, hlaid⟩ := hbehind (Nat.le_of_lt hlt)
    refine ⟨old, .inl ?_⟩
    unfold advance
    dsimp only
    rw [hend, if_pos hturn]
    exact ⟨hlaid.append hf.laid, hf.wp_lt⟩
  · omega

/-- The rest is followed by an old padding where it was. -/
theorem oldPadAt_advance (hq : Holds s (x :: q)) (hd : s.ringSize < 0x100000000)
    (hno : ¬ OldPadAt s x) {y : Nat × Entry} (hy : y ∈ q) :
    OldPadAt (advance s) y ↔ OldPadAt s y := by
  have hnext := advance_holds hq hd (padIsCurrent_of hq hd hno 0 false)
  obtain ⟨hx, hend, hflat⟩ := hq.next_end hd
  have hadvance : advance s = { s with rp := 0, tailPadded := false, remLen := 0 } ∧ s.wp < s.rp ∨
      advance s = { s with rp := x.1 + (bytes x.2).length } := by
    unfold advance
    dsimp only
    rw [hend]
    split
    · next hturn =>
      rcases hflat with ⟨hlt, -⟩ | hgt
      · exact absurd ⟨hlt, hturn⟩ hno
      · exact .inl ⟨rfl, hgt⟩
    · exact .inr rfl
  rcases hadvance with ⟨heq, hgt⟩ | heq
  · rw [heq]
    constructor
    · rintro ⟨-, -, hpad, -⟩
      cases hpad
    · rintro ⟨hlt, -⟩
      omega
  · rw [heq]
    rcases hflat with ⟨hlt, hf⟩ | hgt
    · obtain ⟨y', q', rfl⟩ := List.exists_cons_of_ne_nil (List.ne_nil_of_mem hy)
      have hle := hf.laid.2.2.2.2.le
      have hpos := bytes_pos y'.2
      exact ⟨fun h => ⟨hlt, h.2⟩, fun h => ⟨by dsimp only; omega, h.2⟩⟩
    · exact ⟨fun h => absurd h.1 (by dsimp only; omega), fun h => absurd h.1 (by omega)⟩

end

/-! ## The loop -/

/-- What the loop did with `q` unread at the start: `c` entries are counted, `bs` is copied, and
`left` is unread at the end. -/
structure Batched (stripHeader : Bool) (b t : Batch) (q left : List (Nat × Entry))
    (bs : List UInt8) (c : Nat) : Prop where
  data : t.data = b.data ++ bs
  total : t.totalRLen = b.totalRLen + BitVec.ofNat 32 bs.length
  entries : t.numEntries = b.numEntries + c
  unread : Holds t.ring left
  /-- a byte is copied or unread -/
  kept : (copies stripHeader q).length ≤ bs.length + (copies stripHeader left).length

/-- The loop stops after the longest run, or earlier, or bytes come up twice. -/
inductive Outcome (stripHeader : Bool) (b : Batch) (q left : List (Nat × Entry))
    (bs : List UInt8) (c : Nat) : Prop
  | all : c = longest stripHeader b.bufLen q → bs = copies stripHeader (q.take c) →
      left = q.drop c →
      (∀ x ∈ q.take c, copied stripHeader x.2 ≠ [] ∧ ¬ OldPadAt b.ring x) →
      Outcome stripHeader b q left bs c
  | early : c < longest stripHeader b.bufLen q →
      (∃ x ∈ q.take (longest stripHeader b.bufLen q), copied stripHeader x.2 = []) →
      Outcome stripHeader b q left bs c
  | twice : (copies stripHeader q).length < bs.length + (copies stripHeader left).length →
      (∃ x ∈ q.take (longest stripHeader b.bufLen q), OldPadAt b.ring x) →
      Outcome stripHeader b q left bs c

section
variable {d : Nat} {stripHeader : Bool} {b : Batch} {x : Nat × Entry} {q : List (Nat × Entry)}

/-- The next round: the entry `x` is copied and counted. -/
def took (stripHeader : Bool) (b : Batch) (x : Nat × Entry) : Batch where
  ring := { advance b.ring with
    readBytes := add32 b.ring.readBytes (entryLengthAt b.ring b.ring.rp) }
  data := b.data ++ copied stripHeader x.2
  bufLen := b.bufLen - (copied stripHeader x.2).length
  totalRLen := b.totalRLen + BitVec.ofNat 32 (copied stripHeader x.2).length
  numEntries := b.numEntries + 1

theorem took_ring (stripHeader : Bool) (b : Batch) (x : Nat × Entry) :
    (took stripHeader b x).ring =
      { advance b.ring with readBytes := add32 b.ring.readBytes (entryLengthAt b.ring b.ring.rp) } :=
  rfl

theorem Ready.readBytes {d : Nat} {s : Ring} (h : Ready d s) (n : Nat) :
    Ready d { s with readBytes := n } := by
  obtain ⟨hsize, ⟨q, hq⟩, hbehind⟩ := h
  exact ⟨hsize, ⟨q, hq.readBytes n⟩, hbehind⟩

theorem oldPadAt_readBytes (s : Ring) (n : Nat) (x : Nat × Entry) :
    OldPadAt { s with readBytes := n } x ↔ OldPadAt s x :=
  Iff.rfl

theorem CanPull.readBytes {s : Ring} (h : CanPull s) (n : Nat) :
    CanPull { s with readBytes := n } := h

theorem advance_canPull {s : Ring} (h : CanPull s) : CanPull (advance s) := by
  unfold advance
  dsimp only
  split <;> exact h

/-- Nothing is pulled, and the loop ends. -/
theorem pullLoop_stop {fuel : Nat} (hpos : 0 < b.bufLen)
    (hnone : pullSingle b.ring b.bufLen stripHeader = (b.ring, none)) :
    pullLoop stripHeader (fuel + 1) b = some b := by
  rw [pullLoop, if_pos hpos, hnone]
  rfl

theorem pullLoop_empty {fuel : Nat} (hq : Holds b.ring (x :: q)) (hrun : CanPull b.ring)
    (hd : b.ring.ringSize < 0x100000000) (hpos : 0 < b.bufLen)
    (hempty : copied stripHeader x.2 = []) :
    pullLoop stripHeader (fuel + 1) b = some { b with ring := (took stripHeader b x).ring } := by
  rw [pullLoop, if_pos hpos,
    pullSingle_takes hq hrun hd hpos (by rw [hempty]; exact Nat.zero_le _), hempty]
  rfl

theorem pullLoop_took {fuel : Nat} (hq : Holds b.ring (x :: q)) (hrun : CanPull b.ring)
    (hd : b.ring.ringSize < 0x100000000) (hne : copied stripHeader x.2 ≠ [])
    (hfits : (copied stripHeader x.2).length ≤ b.bufLen) :
    pullLoop stripHeader (fuel + 1) b = pullLoop stripHeader fuel (took stripHeader b x) := by
  have hpos := List.length_pos_iff.mpr hne
  rw [pullLoop, if_pos (Nat.lt_of_lt_of_le hpos hfits),
    pullSingle_takes hq hrun hd (Nat.lt_of_lt_of_le hpos hfits) hfits]
  exact if_neg (Nat.ne_of_gt hpos)

/-- The ring after an entry was pulled. -/
theorem took_ready (h : Ready d b.ring) (hd : d < 0x100000000) (hq : Holds b.ring (x :: q)) :
    Ready d (took stripHeader b x).ring ∧ ∃ q', Holds (took stripHeader b x).ring q' ∧
      ((¬ OldPadAt b.ring x ∧ q' = q) ∨ (OldPadAt b.ring x ∧ ∃ old, q' = old ++ x :: q)) := by
  have hsize := h.size
  obtain ⟨hne, -⟩ := hq.first (by omega)
  rw [took_ring]
  refine ⟨(advance_ready h hd hne).readBytes _, ?_⟩
  by_cases hold : OldPadAt b.ring x
  · obtain ⟨old, hnext⟩ := advance_turns h hd hq hold
    exact ⟨old ++ x :: q, hnext.readBytes _, .inr ⟨hold, old, rfl⟩⟩
  · have hnext := advance_holds hq (by omega) (padIsCurrent_of hq (by omega) hold 0 false)
    exact ⟨q, hnext.readBytes _, .inl ⟨hold, rfl⟩⟩

theorem Batched.here (hq : Holds b.ring q) : Batched stripHeader b b q q [] 0 :=
  ⟨(List.append_nil _).symm, (BitVec.add_zero _).symm, rfl, hq, Nat.le_add_left _ _⟩

theorem Outcome.none (h : longest stripHeader b.bufLen q = 0) : Outcome stripHeader b q q [] 0 :=
  .all h.symm rfl rfl nofun

theorem longest_cons (hfits : (copied stripHeader x.2).length ≤ b.bufLen) :
    longest stripHeader b.bufLen (x :: q) =
      longest stripHeader (took stripHeader b x).bufLen q + 1 := by
  rw [longest, if_pos hfits]
  rfl

end

section
variable {d : Nat} {stripHeader : Bool} {b t : Batch} {x : Nat × Entry}
  {q q' left : List (Nat × Entry)} {bs : List UInt8} {c : Nat}

/-- A round, and the rest of the loop. -/
theorem Batched.took (h : Batched stripHeader (took stripHeader b x) t q' left bs c)
    (hmore : (copies stripHeader q).length ≤ (copies stripHeader q').length) :
    Batched stripHeader b t (x :: q) left (copied stripHeader x.2 ++ bs) (c + 1) := by
  obtain ⟨hdata, htotal, hentries, hunread, hkept⟩ := h
  refine ⟨?_, ?_, ?_, hunread, ?_⟩
  · rw [hdata, ← List.append_assoc]
    rfl
  · rw [htotal, List.length_append, BitVec.ofNat_add, ← BitVec.add_assoc]
    rfl
  · rw [hentries]
    exact Nat.add_right_comm b.numEntries 1 c
  · rw [copies_cons, List.length_append, List.length_append]
    omega

/-- No old padding was met in the first round. -/
theorem Outcome.took (hq : Holds b.ring (x :: q)) (hd : b.ring.ringSize < 0x100000000)
    (hne : copied stripHeader x.2 ≠ []) (hfits : (copied stripHeader x.2).length ≤ b.bufLen)
    (hno : ¬ OldPadAt b.ring x)
    (h : Outcome stripHeader (took stripHeader b x) q left bs c) :
    Outcome stripHeader b (x :: q) left (copied stripHeader x.2 ++ bs) (c + 1) := by
  have hlongest := longest_cons (q := q) hfits
  have hold : ∀ y ∈ q, OldPadAt (DbgRing.took stripHeader b x).ring y ↔ OldPadAt b.ring y := by
    intro y hy
    rw [took_ring, oldPadAt_readBytes]
    exact oldPadAt_advance hq hd hno hy
  cases h with
  | all hc hbs hleft hall =>
    refine .all (by rw [hlongest, hc]) (by rw [List.take_succ_cons, copies_cons, hbs]) hleft ?_
    intro y hy
    rw [List.take_succ_cons] at hy
    rcases List.mem_cons.mp hy with rfl | hy
    · exact ⟨hne, hno⟩
    · obtain ⟨hne', hno'⟩ := hall y hy
      exact ⟨hne', fun h => hno' ((hold y (List.mem_of_mem_take hy)).mpr h)⟩
  | early hc hempty =>
    obtain ⟨y, hy, hyempty⟩ := hempty
    refine .early (by omega) ⟨y, ?_, hyempty⟩
    rw [hlongest, List.take_succ_cons]
    exact List.mem_cons_of_mem x hy
  | twice hlt hpad =>
    obtain ⟨y, hy, hypad⟩ := hpad
    refine .twice ?_ ⟨y, ?_, (hold y (List.mem_of_mem_take hy)).mp hypad⟩
    · rw [copies_cons, List.length_append, List.length_append]
      omega
    · rw [hlongest, List.take_succ_cons]
      exact List.mem_cons_of_mem x hy

/-- What the loop does.  The induction is on the rounds, as the reader may go back. -/
theorem pullLoop_batched {fuel : Nat} (hf : b.bufLen < fuel) (h : Ready d b.ring)
    (hd : d < 0x100000000) (hrun : CanPull b.ring) (hq : Holds b.ring q) :
    ∃ t left bs c, pullLoop stripHeader fuel b = some t ∧
      Batched stripHeader b t q left bs c ∧ Outcome stripHeader b q left bs c := by
  induction fuel generalizing b q with
  | zero => omega
  | succ fuel ih =>
    have hsize := h.size
    cases q with
    | nil =>
      refine ⟨b, [], [], 0, ?_, .here hq, .none rfl⟩
      rcases Nat.eq_zero_or_pos b.bufLen with hz | hpos
      · exact if_neg (by omega)
      · exact pullLoop_stop hpos (pullSingle_nil hq hrun)
    | cons x q =>
      by_cases hfits : (copied stripHeader x.2).length ≤ b.bufLen
      · have hlongest := longest_cons (q := q) hfits
        have hx : x ∈ (x :: q).take (longest stripHeader b.bufLen (x :: q)) := by
          rw [hlongest, List.take_succ_cons]
          exact List.mem_cons_self
        obtain ⟨hready, q', hq', hnext⟩ := @took_ready d stripHeader b x q h hd hq
        by_cases hempty : copied stripHeader x.2 = []
        · have hearly : ∀ left, Outcome stripHeader b (x :: q) left [] 0 :=
            fun left => .early (by omega) ⟨x, hx, hempty⟩
          rcases Nat.eq_zero_or_pos b.bufLen with hz | hpos
          · exact ⟨b, x :: q, [], 0, if_neg (by omega), .here hq, hearly _⟩
          · refine ⟨_, q', [], 0, pullLoop_empty hq hrun (by omega) hpos hempty,
              ⟨(List.append_nil _).symm, (BitVec.add_zero _).symm, rfl, hq', ?_⟩, hearly _⟩
            -- the entry that is gone had no bytes
            rw [copies_cons, hempty, List.nil_append]
            rcases hnext with ⟨-, rfl⟩ | ⟨-, old, rfl⟩
            · exact Nat.le_add_left _ _
            · rw [copies_append, copies_cons, hempty, List.nil_append, List.length_append]
              omega
        · have hlen := List.length_pos_iff.mpr hempty
          have hrun' : CanPull (took stripHeader b x).ring := by
            rw [took_ring]
            exact (advance_canPull hrun).readBytes _
          have hf' : (took stripHeader b x).bufLen < fuel := by
            show b.bufLen - (copied stripHeader x.2).length < fuel
            omega
          obtain ⟨t, left, bs, c, hloop, hbatch, hout⟩ := ih hf' hready hrun' hq'
          rw [pullLoop_took hq hrun (by omega) hempty hfits]
          refine ⟨t, left, copied stripHeader x.2 ++ bs, c + 1, hloop, ?_⟩
          rcases hnext with ⟨hno, rfl⟩ | ⟨hold, old, rfl⟩
          · exact ⟨hbatch.took (Nat.le_refl _), hout.took hq (by omega) hempty hfits hno⟩
          · -- the reader went back, and what was just copied is unread again
            have hkept := hbatch.kept
            rw [copies_append, copies_cons, List.length_append, List.length_append] at hkept
            refine ⟨hbatch.took ?_, .twice ?_ ⟨x, hx, hold⟩⟩
            · rw [copies_append, copies_cons, List.length_append, List.length_append]
              omega
            · rw [copies_cons, List.length_append, List.length_append]
              omega
      · have hnone : longest stripHeader b.bufLen (x :: q) = 0 := if_neg hfits
        refine ⟨b, x :: q, [], 0, ?_, .here hq, .none hnone⟩
        rcases Nat.eq_zero_or_pos b.bufLen with hz | hpos
        · exact if_neg (by omega)
        · exact pullLoop_stop hpos (pullSingle_tooLarge hq hrun (by omega) hpos (by omega))

end

/-! ## When a pull is exact -/

theorem toInt_ofNat_iff (n : Nat) : (BitVec.ofNat 32 n).toInt = n ↔ n < 0x80000000 := by
  rw [BitVec.toInt_eq_toNat_cond, BitVec.toNat_ofNat]
  split <;> omega

theorem pull_refused {s : Ring} {bufLen : Nat} {stripHeader : Bool} (h : ¬ CanPull s) :
    pull s bufLen stripHeader 0 = some (0, ⟨s, [], bufLen, 0, 0⟩) :=
  if_pos (not_not.mp h)

theorem pullsExactly_iff {s : Ring} {d : Nat} {q : List (Nat × Entry)} (h : Ready d s)
    (hd : d < 0x100000000) (hq : Holds s q) (bufLen : Nat) (stripHeader : Bool) :
    PullsExactly stripHeader s bufLen q ↔ Exact stripHeader s bufLen q := by
  have hlongest := @longest_spec stripHeader bufLen q
  by_cases hrun : CanPull s
  · obtain ⟨t, left, bs, c, hloop, hbatch, hout⟩ :=
      @pullLoop_batched d stripHeader ⟨s, [], bufLen, 0, 0⟩ q (bufLen + 1)
        (Nat.lt_succ_self bufLen) h hd hrun hq
    have hunread := hbatch.unread
    have hdata : t.data = bs := hbatch.data
    have htotal : t.totalRLen = BitVec.ofNat 32 bs.length :=
      hbatch.total.trans (BitVec.zero_add _)
    have hentries : t.numEntries = c := hbatch.entries.trans (Nat.zero_add c)
    have hpull : pull s bufLen stripHeader 0 = some (t.totalRLen.toInt, t) := by
      unfold pull
      rw [if_neg hrun, hloop]
      rfl
    constructor
    · rintro ⟨ret, b, k, hp, hk, hb, hret, hcount, hleft⟩
      rw [hpull] at hp
      cases hp
      obtain rfl := hk.unique
      obtain rfl := holds_unique hleft hunread
      rw [hdata] at hb hret
      rw [hentries] at hcount
      obtain rfl := hb
      have hint := (toInt_ofNat_iff _).mp ((congrArg BitVec.toInt htotal).symm.trans hret)
      cases hout with
      | all hc _ _ hall =>
        rw [hc] at hall
        exact ⟨.inl hrun, fun x hx => (hall x hx).1, fun x hx => (hall x hx).2, hint⟩
      | early hc _ =>
        dsimp only at hc
        omega
      | twice hlt _ =>
        rw [← List.length_append, ← copies_append, List.take_append_drop] at hlt
        omega
    · rintro ⟨-, hne, hpad, hint⟩
      cases hout with
      | all hc hbs hleft _ =>
        dsimp only at hc
        subst hc hbs hleft
        refine ⟨_, t, _, hpull, hlongest, hdata, ?_, hentries, hunread⟩
        rw [htotal, hdata]
        exact (toInt_ofNat_iff _).mpr hint
      | early _ hempty =>
        obtain ⟨x, hx, hxe⟩ := hempty
        exact absurd hxe (hne x hx)
      | twice _ hold =>
        obtain ⟨x, hx, hxo⟩ := hold
        exact absurd hxo (hpad x hx)
  · have hpull : pull s bufLen stripHeader 0 = some (0, ⟨s, [], bufLen, 0, 0⟩) := pull_refused hrun
    constructor
    · rintro ⟨ret, b, k, hp, hk, -, -, hcount, -⟩
      rw [hpull] at hp
      cases hp
      have hzero := hk.unique.symm.trans hcount.symm
      refine ⟨.inr hzero, ?_, ?_, ?_⟩ <;> rw [hzero]
      · exact nofun
      · exact nofun
      · exact Nat.zero_lt_succ _
    · rintro ⟨hcan, -, -, -⟩
      have hzero := hcan.resolve_left hrun
      rw [hzero] at hlongest
      exact ⟨0, _, 0, hpull, hlongest, rfl, rfl, rfl, hq⟩

/-- **Batched pull.**  In the state after any calls that push no entry as long as the ring, a pull
copies, counts and removes the longest run of oldest entries that fits, exactly when the ring may be
pulled or none fits, something is copied of each, none is followed by an old padding, and the bytes
are fewer than 2147483648.  A ring that may not be pulled stays as it is. -/
theorem pull_exactly_iff (r : Ring) (hrp : r.rp = 0) (hwp : r.wp = 0)
    (hd : r.ringSize < 0x100000000) (es : List Op) (s : Ring) (tr : List (Op × Ret))
    (hm : meets exec notRingSized r es = true) (h : runs exec r es = some (s, tr)) :
    ∃ q, Holds s q ∧ (∀ q', Holds s q' → q' = q) ∧ ∀ bufLen stripHeader,
      (PullsExactly stripHeader s bufLen q ↔ Exact stripHeader s bufLen q) ∧
      (¬ CanPull s → pull s bufLen stripHeader 0 = some (0, ⟨s, [], bufLen, 0, 0⟩)) := by
  have hready : Ready r.ringSize s :=
    runs_inv_of_meets exec notRingSized (fun s _ => Ready r.ringSize s)
      (fun _ _ _ _ _ hi hc hs => exec_ready hd hi hc hs) r s es tr (.fresh hrp hwp) hm h
  obtain ⟨q, hq⟩ := hready.holds
  refine ⟨q, hq, fun q' hq' => holds_unique hq hq', ?_⟩
  intro bufLen stripHeader
  exact ⟨pullsExactly_iff hready hd hq bufLen stripHeader, pull_refused⟩

theorem pull_exactly_iff_two :
    ∃ s tr, runs exec ring24 twoPushes = some (s, tr) ∧
      ∃ q, Holds s q ∧ (∀ q', Holds s q' → q' = q) ∧ ∀ bufLen stripHeader,
        (PullsExactly stripHeader s bufLen q ↔ Exact stripHeader s bufLen q) ∧
        (¬ CanPull s → pull s bufLen stripHeader 0 = some (0, ⟨s, [], bufLen, 0, 0⟩)) :=
  ⟨_, _, rfl, pull_exactly_iff ring24 rfl rfl (by decide) twoPushes _ _ (by decide) rfl⟩

-- A header without payload is gone, and not counted.
example : (pull (writeEntry ring24 (entryOf 0 1) 12) 24 true 0).map
    (fun t => (t.1, t.2.numEntries, t.2.ring.rp)) = some (0, 0, 12) := by decide

/-- The ring is suspended after a push: the entry is not pulled. -/
theorem pull_exactly_fails :
    ¬ ∀ (r : Ring) es s tr q bufLen stripHeader, r.rp = 0 → r.wp = 0 →
      r.ringSize < 0x100000000 → runs exec r es = some (s, tr) → Holds s q →
      PullsExactly stripHeader s bufLen q := by
  intro h
  obtain ⟨ret, b, k, hp, hk, -, -, hcount, -⟩ :=
    h ring24 [.push (entryOf 4 1), .config 0] _ _ [(0, entryOf 4 1)] 24 false rfl rfl (by decide)
      rfl (.inl ⟨⟨rfl, by decide, rfl⟩, .inl (by decide)⟩)
  cases hp
  obtain rfl : 0 = k := hcount
  exact absurd hk.unique (by decide)

end Bcmdhd.DbgRing
