import Mathlib.Logic.Function.Iterate
import Bcmdhd.Msgbuf.H2DRing

/-!
# Phase of the items posted to an H2D ring (`dhd_msgbuf.c`)

Every item carries the ring's `current_phase`, which `dhd_prot_alloc_ring_space` flips
when a reservation starts at slot 0.  A poster that cannot fill all it reserved gives
the rest back: it moves `wr` back and, where it thinks that it crosses slot 0, flips
the phase again.

    meets (step nib) (phaseSafe nib) (init N fr) es →
      runs (step nib) (init N fr) es = some (s, tr) →
      the k-th posted item is at slot k % N with the phase of lap k / N ∧
      (wr, current_phase) are those of a ring that reserved exactly the posted items
                                                             (posted_phase)

`phaseSafe` names the two rollbacks that go wrong.
-/

namespace Bcmdhd.Phase

open Runs RingIndex H2DRing

/-! ## The posters -/

def flipPhaseBit (ring : MsgbufRing) : MsgbufRing :=
  { ring with currentPhase := if ring.currentPhase ≠ 0 then 0 else phaseBitInit }

/-- Rollback of `dhd_prot_rxbuf_post` and `dhd_prot_infobufpost`, which differ in the
test `flips i` made beside `wr == 0`. -/
def rollbackAlloced (flips : Nat → Bool) (ring : MsgbufRing) (alloced i : Nat) : MsgbufRing :=
  let wr :=
    if ring.wr < alloced - i then ring.maxItems - (alloced - i) else ring.wr - (alloced - i)
  let ring := { ring with wr }
  if flips i && ring.wr == 0 then flipPhaseBit ring else ring

/-- Rollback of `dhd_prot_rxbufpost_ctrl` and `dhd_prot_txdata`, of one item. -/
def rollbackOne (ring : MsgbufRing) : MsgbufRing :=
  if ring.wr = 0 then { ring with wr := ring.maxItems - 1 }
  else
    let ring := { ring with wr := ring.wr - 1 }
    if ring.wr = 0 then flipPhaseBit ring else ring

/-- Reserve, fill the first items (`filled` of them can be had) and roll back the rest.
The posted items are (slot, phase) pairs. -/
def post (rollback : MsgbufRing → Nat → Nat → MsgbufRing) (frPhaseNibble : Bool)
    (ring : MsgbufRing) (nitems : Nat) (exactlyNitems : Bool) (fresh filled : Nat) :
    MsgbufRing × List (Nat × Nat) :=
  match allocRingSpace frPhaseNibble ring nitems exactlyNitems fresh with
  | (ring, none) => (ring, [])
  | (ring, some (start, alloced)) =>
    let i := min filled alloced
    (if i < alloced then rollback ring alloced i else ring,
      (List.range' start i).map fun slot => (slot, ring.currentPhase))

def rxbufPost (nib : Bool) (ring : MsgbufRing) (count fresh filled : Nat) :=
  post (rollbackAlloced fun _ => true) nib ring count true fresh filled

def infobufpost (nib : Bool) (ring : MsgbufRing) (count fresh filled : Nat) :=
  post (rollbackAlloced fun i => i != 0) nib ring count false fresh filled

def rxbufpostCtrl (nib : Bool) (ring : MsgbufRing) (fresh filled : Nat) :=
  post (fun ring _ _ => rollbackOne ring) nib ring 1 false fresh filled

def txdata (nib : Bool) (ring : MsgbufRing) (fresh filled : Nat) :=
  post (fun ring _ _ => rollbackOne ring) nib ring 1 false fresh filled

/-- The requests that fill whatever they reserve (ioctl, ring and flow ring requests). -/
def submit (nib : Bool) (ring : MsgbufRing) (nitems : Nat) (exactlyNitems : Bool) (fresh : Nat) :=
  post (fun ring _ _ => ring) nib ring nitems exactlyNitems fresh nitems

inductive Call
  | rxbufPost (count fresh filled : Nat)
  | infobufpost (count fresh filled : Nat)
  | rxbufpostCtrl (fresh filled : Nat)
  | txdata (fresh filled : Nat)
  | submit (nitems : Nat) (exactlyNitems : Bool) (fresh : Nat)
  | read (k : Nat)
deriving DecidableEq, Repr

/-- A poster may run: it asks for at most `max_items` items, and `fresh` is an index
the host can read. -/
def mayPost (s : H2D) (flowring : Bool) (nitems fresh : Nat) : Bool :=
  s.ring.isFlowring == flowring && decide (nitems ≤ s.ring.maxItems) && isReadIndex s fresh

def afterPost (s : H2D) (p : MsgbufRing × List (Nat × Nat)) : H2D × List (Nat × Nat) :=
  ({ s with ring := p.1 }, p.2)

/-- `dhd_prot_txdata` posts to the flow rings, the others to the common rings. -/
def step (nib : Bool) (s : H2D) : Call → Option (H2D × List (Nat × Nat))
  | .rxbufPost count fresh filled =>
    if mayPost s false count fresh then
      some (afterPost s (rxbufPost nib s.ring count fresh filled))
    else none
  | .infobufpost count fresh filled =>
    if mayPost s false count fresh then
      some (afterPost s (infobufpost nib s.ring count fresh filled))
    else none
  | .rxbufpostCtrl fresh filled =>
    if mayPost s false 1 fresh then some (afterPost s (rxbufpostCtrl nib s.ring fresh filled))
    else none
  | .txdata fresh filled =>
    if mayPost s true 1 fresh then some (afterPost s (txdata nib s.ring fresh filled))
    else none
  | .submit nitems exactlyNitems fresh =>
    if mayPost s false nitems fresh then
      some (afterPost s (submit nib s.ring nitems exactlyNitems fresh))
    else none
  | .read k => (dongleRead s k).map fun s' => (s', [])

def posted (tr : List (Call × List (Nat × Nat))) : List (Nat × Nat) := tr.flatMap Prod.snd

/-! ## What the phase should be -/

/-- The phase of a lap: the bit is set, or the nibble is `0xA0`, on even laps. -/
def lapPhase (nibble : Bool) (lap : Nat) : Nat :=
  if nibble then (if lap % 2 = 0 then phaseNibbleInit else phaseNibbleWrap)
  else (if lap % 2 = 0 then phaseBitInit else 0)

/-- Reservation of exactly one item. -/
def reserveOne (nib : Bool) (ring : MsgbufRing) : MsgbufRing :=
  let ring := setPhase nib ring ring.wr
  { ring with wr := if ring.wr + 1 = ring.maxItems then 0 else ring.wr + 1 }

/-- A reservation that starts at slot 0 succeeds and none of its items can be filled. -/
def emptiesLapStart (s : H2D) (nitems : Nat) (exactlyNitems : Bool) (fresh filled : Nat) : Bool :=
  s.ring.wr == 0 && filled == 0 && nitems != 0 &&
    (spaceAvailable s.ring nitems exactlyNitems ||
      spaceAvailable { s.ring with rd := fresh } nitems exactlyNitems)

/-- The call does not take a rollback that goes wrong: `dhd_prot_infobufpost` does not
flip the phase back when nothing was filled, and `dhd_prot_txdata` flips the phase
bit where the ring uses the nibble. -/
def phaseSafe (nib : Bool) (s : H2D) : Call → Bool
  | .infobufpost count fresh filled => !emptiesLapStart s count false fresh filled
  | .txdata fresh filled =>
    !(emptiesLapStart s 1 false fresh filled && nib && s.ring.currentPhase != 0)
  | _ => true

/-! ## Lemmas -/

/-- The phase after `W` items. -/
def phaseAfter (nibble : Bool) (n W : Nat) : Nat :=
  if W = 0 then 0 else lapPhase nibble ((W - 1) / n)

variable {nibble nib : Bool} {n W i : Nat} {ring : MsgbufRing}

/-- The last of the items that start at `W` and stay in its lap is in that lap. -/
theorem phaseAfter_add (h : W % n + i ≤ n) (hi : 1 ≤ i) :
    phaseAfter nibble n (W + i) = lapPhase nibble (W / n) := by
  have hdiv : (W + i - 1) / n = W / n := by
    rw [show W + i - 1 = W + (i - 1) by omega, add_div_lap (by omega)]
  rw [phaseAfter, if_neg (by omega), hdiv]

/-- Inside a lap the phase is already that lap's. -/
theorem phaseAfter_mid (hn : 0 < n) (h : W % n ≠ 0) :
    phaseAfter nibble n W = lapPhase nibble (W / n) := by
  have hlt := Nat.mod_lt W hn
  have hW := Nat.div_add_mod W n
  have hdiv : (n * (W / n)) / n = W / n := Nat.mul_div_cancel_left _ hn
  have hadd := @phaseAfter_add nibble n (n * (W / n)) (W % n)
    (by rw [Nat.mul_mod_right]; omega) (by omega)
  rw [hW, hdiv] at hadd
  exact hadd

/-- At the start of lap `L + 1` the phase is still that of lap `L`. -/
theorem phaseAfter_start {L : Nat} (hn : 0 < n) :
    phaseAfter nibble n (n * (L + 1)) = lapPhase nibble L := by
  have hadd := @phaseAfter_add nibble n (n * L) n
    (by rw [Nat.mul_mod_right]; omega) hn
  rw [Nat.mul_div_cancel_left _ hn] at hadd
  rw [← hadd, Nat.mul_add, Nat.mul_one]

theorem succ_mod_two (L : Nat) : (L + 1) % 2 = if L % 2 = 0 then 1 else 0 := by
  split <;> omega

theorem flipPhase_lapPhase {L : Nat} (h : ring.currentPhase = lapPhase (ring.isFlowring && nib) L) :
    flipPhase nib ring = lapPhase (ring.isFlowring && nib) (L + 1) := by
  unfold flipPhase
  rw [h]
  cases hm : (ring.isFlowring && nib) <;>
    rcases Nat.mod_two_eq_zero_or_one L with hL | hL <;>
    simp [lapPhase, hL, succ_mod_two, phaseBitInit, phaseNibbleInit,
      phaseNibbleWrap]

/-- What the allocator's flip gives at slot 0. -/
theorem flipPhase_start (hn : 0 < n)
    (h : ring.currentPhase = phaseAfter (ring.isFlowring && nib) n W) (hW : W % n = 0) :
    flipPhase nib ring = lapPhase (ring.isFlowring && nib) (W / n) := by
  obtain ⟨L, rfl⟩ := Nat.dvd_of_mod_eq_zero hW
  rw [Nat.mul_div_cancel_left _ hn]
  cases L with
  | zero =>
    have h0 : ring.currentPhase = 0 := by rw [h]; rfl
    unfold flipPhase
    rw [h0]
    cases hm : (ring.isFlowring && nib) <;> simp [lapPhase, phaseNibbleInit]
  | succ L => exact flipPhase_lapPhase (by rw [h, phaseAfter_start hn])

/-- The phase of a reservation is that of the lap it lies in. -/
theorem alloc_phase (hn : 0 < n) (h : ring.currentPhase = phaseAfter (ring.isFlowring && nib) n W) :
    (if W % n = 0 then flipPhase nib ring else ring.currentPhase) =
      lapPhase (ring.isFlowring && nib) (W / n) := by
  split
  · next hz => exact flipPhase_start hn h hz
  · next hz => rw [h, phaseAfter_mid hn hz]

/-- Flipping the bit at the start of a lap gives back the phase before it. -/
theorem flipPhaseBit_start (hn : 0 < n) (hW : W % n = 0)
    (h : ring.currentPhase = lapPhase false (W / n)) :
    (flipPhaseBit ring).currentPhase = phaseAfter false n W := by
  obtain ⟨L, rfl⟩ := Nat.dvd_of_mod_eq_zero hW
  rw [Nat.mul_div_cancel_left _ hn] at h
  unfold flipPhaseBit
  simp only [h]
  cases L with
  | zero => rfl
  | succ L =>
    rw [phaseAfter_start hn]
    rcases Nat.mod_two_eq_zero_or_one L with hL | hL <;>
      simp [lapPhase, hL, succ_mod_two, phaseBitInit]

/-- In nibble mode the bit flip clears the phase. -/
theorem flipPhaseBit_nibble {L : Nat} (h : ring.currentPhase = lapPhase true L) :
    (flipPhaseBit ring).currentPhase = 0 := by
  unfold flipPhaseBit
  simp only [h, lapPhase]
  rcases Nat.mod_two_eq_zero_or_one L with hL | hL <;>
    simp [hL, phaseNibbleInit, phaseNibbleWrap]

/-- The one-item rollback is the general one. -/
theorem rollbackOne_eq (ring : MsgbufRing) (hn : 2 ≤ ring.maxItems) :
    rollbackOne ring = rollbackAlloced (fun _ => true) ring 1 0 := by
  unfold rollbackOne rollbackAlloced
  by_cases hz : ring.wr = 0
  · rw [if_pos hz]
    have h1 : ¬ (ring.maxItems - 1 = 0) := by omega
    simp [hz, h1]
  · rw [if_neg hz]
    have h1 : ¬ (ring.wr < 1) := by omega
    simp [h1]

/-- A rollback from `W + a` to `W + i` inside one lap. -/
theorem rollbackAlloced_eq {flips : Nat → Bool} {a : Nat} (hwr : ring.wr = (W + a) % ring.maxItems)
    (hend : W % ring.maxItems + a ≤ ring.maxItems) (hi : i < a) :
    rollbackAlloced flips ring a i =
      { ring with
        wr := (W + i) % ring.maxItems
        currentPhase :=
          if flips i && (W % ring.maxItems == 0 && i == 0) then (flipPhaseBit ring).currentPhase
          else ring.currentPhase } := by
  have hwi : (W + i) % ring.maxItems = W % ring.maxItems + i := by
    rw [add_mod_wrap (by omega), if_neg (by omega)]
  have hback : (if ring.wr < a - i then ring.maxItems - (a - i) else ring.wr - (a - i)) =
      (W + i) % ring.maxItems := by
    rw [hwi, hwr, add_mod_wrap (by omega)]
    split <;> split <;> omega
  have hzero : ((W + i) % ring.maxItems == 0) = (W % ring.maxItems == 0 && i == 0) := by
    rw [hwi, Bool.eq_iff_iff]; simp
  unfold rollbackAlloced
  simp only [hback, hzero]
  split <;> rfl

/-- The invariant of a run. -/
def Inv (n : Nat) (fr nib : Bool) (s : H2D) (tr : List (Call × List (Nat × Nat))) : Prop :=
  s.ring.maxItems = n ∧ s.ring.isFlowring = fr ∧ ∃ W R C, Counts s W R C ∧
    s.ring.currentPhase = phaseAfter (fr && nib) n W ∧
    posted tr = (List.range W).map fun k => (k % n, lapPhase (fr && nib) (k / n))

theorem posted_snoc (tr : List (Call × List (Nat × Nat))) (c : Call) (r : List (Nat × Nat)) :
    posted (tr ++ [(c, r)]) = posted tr ++ r := by
  simp [posted]

/-- The items posted from counter `W`, all in one lap. -/
theorem items_eq {p : Nat} (h : W % n + i ≤ n) (hp : p = lapPhase nibble (W / n)) :
    (List.range' (W % n) i).map (fun slot => (slot, p)) =
      (List.range' W i).map fun k => (k % n, lapPhase nibble (k / n)) := by
  rw [range'_mod h, List.map_map, hp]
  apply List.map_congr_left
  intro k hk
  rw [List.mem_range'_1] at hk
  have hdiv : k / n = W / n := by
    rw [show k = W + (k - W) by omega, add_div_lap (by omega)]
  simp only [Function.comp, hdiv]

theorem range_add_map {β : Type} (f : Nat → β) (W i : Nat) :
    (List.range (W + i)).map f = (List.range W).map f ++ (List.range' W i).map f := by
  rw [List.range_add, List.map_append, List.range'_eq_map_range]

/-- The phase after a rollback to `W + i`: where nothing is left of a reservation from slot 0,
the flip has to bring back the phase of the lap before. -/
theorem rolledBack_phase {flip : Bool} (hn : 0 < n)
    (hph : ring.currentPhase = lapPhase nibble (W / n)) (hin : W % n + i < n)
    (hsafe : W % n = 0 → i = 0 → flip = true ∧ (nibble = true → phaseAfter nibble n W = 0)) :
    (if flip && (W % n == 0 && i == 0) then (flipPhaseBit ring).currentPhase
      else ring.currentPhase) = phaseAfter nibble n (W + i) := by
  by_cases hi : i = 0
  · rw [hi, Nat.add_zero]
    by_cases hW : W % n = 0
    · obtain ⟨hfl, hnib⟩ := hsafe hW hi
      rw [hfl, hW, if_pos (by rfl)]
      cases nibble with
      | false => exact flipPhaseBit_start hn hW hph
      | true => rw [flipPhaseBit_nibble hph, hnib rfl]
    · rw [if_neg (by simp [hW]), hph, phaseAfter_mid hn hW]
  · rw [if_neg (by simp [hi]), hph]
    exact (phaseAfter_add (by omega) (by omega)).symm

/-- **A posting operation.**  `flips` says when its rollback flips the phase; the
condition is that a reservation from slot 0 of which nothing was filled is rolled back
with a flip, and in nibble mode only if the phase was 0 before. -/
theorem post_inv {fr : Bool} {s : H2D} {tr : List (Call × List (Nat × Nat))} {c : Call}
    (flips : Nat → Bool) {nitems fresh filled : Nat} {ex : Bool}
    {rollback : MsgbufRing → Nat → Nat → MsgbufRing} (hi : Inv n fr nib s tr)
    (hf : isReadIndex s fresh = true)
    (hroll : ∀ ring a i, a ≤ nitems → i = min filled a → i < a → ring.maxItems = n →
      rollback ring a i = rollbackAlloced flips ring a i)
    (hsafe : emptiesLapStart s nitems ex fresh filled = true →
      flips 0 = true ∧ ((fr && nib) = true → s.ring.currentPhase = 0)) :
    Inv n fr nib (afterPost s (post rollback nib s.ring nitems ex fresh filled)).1
      (tr ++ [(c, (afterPost s (post rollback nib s.ring nitems ex fresh filled)).2)]) := by
  obtain ⟨rfl, rfl, W, R, C, h, hph, hout⟩ := hi
  have hpos : 0 < s.ring.maxItems := by have := h.room; omega
  have hroom := h.room
  have hR := h.R_le
  unfold post
  obtain ⟨C', hCC', hC'R, ha | ⟨hsp, a, ha, h1, h2, h3, h4, -⟩⟩ :=
    allocRingSpace_cases nib nitems ex h hf
  · -- nothing reserved
    rw [ha]
    refine ⟨rfl, rfl, W, R, C', ⟨h.wr, h.dongleRd, rfl, hC'R, hR, ?_⟩, hph, ?_⟩
    · simp only [afterPost]; omega
    · rw [posted_snoc, hout]; simp [afterPost]
  · rw [ha, alloc_phase hpos hph]
    simp only [afterPost]
    have hmin : min filled a ≤ a := Nat.min_le_right filled a
    have hposted : posted (tr ++ [(c, (List.range' (W % s.ring.maxItems) (min filled a)).map
        fun slot => (slot, lapPhase (s.ring.isFlowring && nib) (W / s.ring.maxItems)))]) =
        (List.range (W + min filled a)).map fun k =>
          (k % s.ring.maxItems, lapPhase (s.ring.isFlowring && nib) (k / s.ring.maxItems)) := by
      rw [posted_snoc, hout, range_add_map, items_eq (by omega) rfl]
    by_cases hlt : min filled a < a
    · -- the rest is given back
      have hback := @rollbackAlloced_eq W _
        { s.ring with
          rd := C' % s.ring.maxItems
          wr := (W + a) % s.ring.maxItems
          currentPhase := lapPhase (s.ring.isFlowring && nib) (W / s.ring.maxItems) }
        flips _ rfl h4 hlt
      rw [if_pos hlt, hroll _ a _ h1 rfl hlt (by rfl), hback]
      refine ⟨rfl, rfl, W + min filled a, R, C',
        ⟨rfl, h.dongleRd, rfl, hC'R, by omega, ?_⟩, ?_, hposted⟩
      · simp only; omega
      · have hin : W % s.ring.maxItems + min filled a < s.ring.maxItems := by omega
        refine rolledBack_phase hpos rfl hin ?_
        intro hW hz
        have hfz : filled = 0 := by omega
        have he : emptiesLapStart s nitems ex fresh filled = true := by
          unfold emptiesLapStart
          rw [h.wr]
          simp only [hW, hfz, beq_self_eq_true, Bool.true_and, Bool.and_eq_true, bne_iff_ne,
            Bool.or_eq_true]
          exact ⟨by omega, hsp⟩
        obtain ⟨hfl, hnib⟩ := hsafe he
        rw [hz, ← hph]
        exact ⟨hfl, hnib⟩
    · have hfull : min filled a = a := by omega
      rw [if_neg hlt]
      refine ⟨rfl, rfl, W + a, R, C', ⟨rfl, h.dongleRd, rfl, hC'R, by omega, h3⟩, ?_, ?_⟩
      · exact (phaseAfter_add (by omega) (by omega)).symm
      · rw [hfull] at hposted ⊢; exact hposted

theorem rollbackOne_one {filled : Nat} (hn : 2 ≤ n) (ring : MsgbufRing) (a i : Nat) (ha : a ≤ 1)
    (_ : i = min filled a) (hi : i < a) (hr : ring.maxItems = n) :
    rollbackOne ring = rollbackAlloced (fun _ => true) ring a i := by
  obtain rfl : a = 1 := by omega
  obtain rfl : i = 0 := by omega
  exact rollbackOne_eq ring (by omega)

theorem mayPost_iff {s : H2D} {flowring : Bool} {nitems fresh : Nat} :
    mayPost s flowring nitems fresh = true ↔
      s.ring.isFlowring = flowring ∧ nitems ≤ s.ring.maxItems ∧ isReadIndex s fresh = true := by
  simp [mayPost, and_assoc]

/-- What an enabled posting call runs on. -/
theorem of_mayPost {s : H2D} {flowring : Bool} {nitems fresh : Nat}
    {x y : H2D × List (Nat × Nat)}
    (hs : (if mayPost s flowring nitems fresh then some x else none) = some y) :
    x = y ∧ s.ring.isFlowring = flowring ∧ isReadIndex s fresh = true := by
  rw [Option.ite_none_right_eq_some] at hs
  obtain ⟨hg, hs⟩ := hs
  obtain ⟨hkind, -, hf⟩ := mayPost_iff.1 hg
  exact ⟨Option.some.inj hs, hkind, hf⟩

/-- **One call keeps the invariant**, if it does not take one of the two rollbacks. -/
theorem step_inv {fr : Bool} (hn : 2 ≤ n) (s : H2D) (tr : List (Call × List (Nat × Nat))) (c : Call)
    (s' : H2D) (r : List (Nat × Nat)) (hi : Inv n fr nib s tr) (hsafe : phaseSafe nib s c = true)
    (hs : step nib s c = some (s', r)) : Inv n fr nib s' (tr ++ [(c, r)]) := by
  have hfr := hi.2.1
  cases c with
  | rxbufPost count fresh filled =>
    obtain ⟨heq, hkind, hf⟩ := of_mayPost hs
    obtain ⟨rfl, rfl⟩ := Prod.mk.inj heq
    refine post_inv _ hi hf (fun _ _ _ _ _ _ _ => rfl) (fun _ => ⟨rfl, fun hm => ?_⟩)
    rw [← hfr, hkind] at hm
    simp at hm
  | infobufpost count fresh filled =>
    obtain ⟨heq, hkind, hf⟩ := of_mayPost hs
    obtain ⟨rfl, rfl⟩ := Prod.mk.inj heq
    refine post_inv _ hi hf (fun _ _ _ _ _ _ _ => rfl) (fun he => ?_)
    simp only [phaseSafe, he] at hsafe
    cases hsafe
  | rxbufpostCtrl fresh filled =>
    obtain ⟨heq, hkind, hf⟩ := of_mayPost hs
    obtain ⟨rfl, rfl⟩ := Prod.mk.inj heq
    refine post_inv _ hi hf (rollbackOne_one hn) (fun _ => ⟨rfl, fun hm => ?_⟩)
    rw [← hfr, hkind] at hm
    simp at hm
  | txdata fresh filled =>
    obtain ⟨heq, hkind, hf⟩ := of_mayPost hs
    obtain ⟨rfl, rfl⟩ := Prod.mk.inj heq
    refine post_inv _ hi hf (rollbackOne_one hn) (fun he => ⟨rfl, fun hm => ?_⟩)
    rw [Bool.and_eq_true] at hm
    simpa [phaseSafe, he, hm.2] using hsafe
  | submit nitems ex fresh =>
    obtain ⟨heq, hkind, hf⟩ := of_mayPost hs
    obtain ⟨rfl, rfl⟩ := Prod.mk.inj heq
    -- nothing is ever rolled back
    refine post_inv (fun _ => true) hi hf (fun _ a i ha hia hlt _ => ?_) (fun he => ?_)
    · omega
    · simp only [emptiesLapStart, Bool.and_eq_true, beq_iff_eq, bne_iff_ne] at he
      exact absurd he.1.1.2 he.1.2
  | read k =>
    simp only [step, Option.map_eq_some_iff, Prod.mk.injEq] at hs
    obtain ⟨t, ht, rfl, rfl⟩ := hs
    obtain ⟨rfl, rfl, W, R, C, h, hph, hout⟩ := hi
    obtain ⟨hring, hk, hcounts⟩ := dongleRead_counts h ht
    refine ⟨by rw [hring], by rw [hring], W, R + k, C, hcounts, by rw [hring]; exact hph, ?_⟩
    rw [posted_snoc, hout, List.append_nil]

theorem runs_keep_inv (hn : 2 ≤ n) (nib fr : Bool) (es : List Call) (s : H2D)
    (tr : List (Call × List (Nat × Nat)))
    (hm : meets (step nib) (phaseSafe nib) (init n fr) es = true)
    (h : runs (step nib) (init n fr) es = some (s, tr)) : Inv n fr nib s tr :=
  runs_inv_of_meets (step nib) (phaseSafe nib) (Inv n fr nib) (step_inv hn) (init n fr) s es tr
    ⟨rfl, rfl, 0, 0, 0, Counts.init fr (by omega), rfl, rfl⟩ hm h

/-- The ring after exactly `W` reservations of one item. -/
theorem reserveOne_iterate (hn : 0 < n) (nib fr : Bool) (W : Nat) :
    (reserveOne nib)^[W] (init n fr).ring =
      ⟨n, fr, 0, W % n, phaseAfter (fr && nib) n W⟩ := by
  induction W with
  | zero => simp [init, phaseAfter]
  | succ W ih =>
    rw [Function.iterate_succ_apply', ih]
    have hlt := Nat.mod_lt W hn
    have hp := @alloc_phase nib n W ⟨n, fr, 0, W % n, phaseAfter (fr && nib) n W⟩ hn rfl
    rw [phaseAfter_add (n := n) (W := W) (by omega) (by omega), ← hp, add_mod_wrap (by omega)]
    unfold reserveOne setPhase
    split <;> rfl

/-! ## Top theorem -/

/-- **Phase is lap parity**, in every run that takes neither of the two rollbacks: the
`k`-th posted item is at slot `k % N` with the phase of lap `k / N`, and `wr` and
`current_phase` are those of a ring that reserved exactly the posted items. -/
theorem posted_phase (N : Nat) (hN : 2 ≤ N) (nib fr : Bool) (es : List Call) (s : H2D)
    (tr : List (Call × List (Nat × Nat)))
    (hm : meets (step nib) (phaseSafe nib) (init N fr) es = true)
    (h : runs (step nib) (init N fr) es = some (s, tr)) :
    posted tr = (List.range (posted tr).length).map
      (fun k => (k % N, lapPhase (fr && nib) (k / N))) ∧
    s.ring.wr = ((reserveOne nib)^[(posted tr).length] (init N fr).ring).wr ∧
    s.ring.currentPhase =
      ((reserveOne nib)^[(posted tr).length] (init N fr).ring).currentPhase := by
  obtain ⟨rfl, rfl, W, R, C, hc, hph, hout⟩ := runs_keep_inv hN nib fr es s tr hm h
  have hlen : (posted tr).length = W := by rw [hout]; simp
  rw [hlen, reserveOne_iterate (by omega)]
  exact ⟨hout, hc.wr, hph⟩

theorem posted_phase_two :
    posted [(.rxbufPost 1 0 0, []), (.rxbufPost 1 0 1, [(0, 0x80)])] =
      (List.range (posted [(Call.rxbufPost 1 0 0, []), (.rxbufPost 1 0 1, [(0, 0x80)])]).length).map
        (fun k => (k % 2, lapPhase (false && false) (k / 2))) :=
  (posted_phase 2 (by decide) false false [.rxbufPost 1 0 0, .rxbufPost 1 0 1]
    ⟨⟨2, false, 0, 1, 0x80⟩, 0⟩ [(.rxbufPost 1 0 0, []), (.rxbufPost 1 0 1, [(0, 0x80)])]
    (by decide) (by decide)).1

/-- The two rollbacks.  An empty `dhd_prot_infobufpost` on a new ring leaves the phase
flipped, so the first item ever posted has the phase of lap 1.  A `dhd_prot_txdata`
rolled back at the start of lap 1 clears the nibble, so lap 1 has the phase of lap 0. -/
theorem posted_phase_fails :
    (∃ s tr, runs (step false) (init 2 false) [.infobufpost 1 0 0, .infobufpost 1 0 1] =
        some (s, tr) ∧ posted tr = [(0, lapPhase false 1)]) ∧
    (∃ s tr, runs (step true) (init 2 true)
        [.txdata 0 1, .read 1, .txdata 1 1, .read 1, .txdata 0 0, .txdata 0 1] = some (s, tr) ∧
      posted tr = [(0, lapPhase true 0), (1, lapPhase true 0), (0, lapPhase true 0)]) :=
  ⟨⟨⟨⟨2, false, 0, 1, 0⟩, 0⟩, _, rfl, by decide⟩,
    ⟨⟨⟨2, true, 0, 1, 0xA0⟩, 0⟩, _, rfl, by decide⟩⟩

end Bcmdhd.Phase
