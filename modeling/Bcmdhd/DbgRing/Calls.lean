import Bcmdhd.DbgRing

/-!
# Any calls of the debug ring

Runs of pushes, also of those that fail, and of pulls into buffers of any length, with restarts and
suspensions between them.  A pull may take an old padding for the end of the entries and go
back to the start; the bytes from there on are still entries.

    meets exec notRingSized r es → runs exec r es = some (s, tr) →
      a push of an entry that is not as long as the ring ends, writes inside the buffer, and
        leaves the ring as it is when it fails                          (push_all_or_nothing)
-/

namespace Bcmdhd.DbgRing

open Runs Records

/-! ## Calls -/

inductive Op
  | push (e : Entry)
  | pull (bufLen : Nat) (stripHeader : Bool)
  | start
  | config (logLevel : Nat)
deriving DecidableEq, Repr

inductive Ret
  | pushed (ret : Bcme)
  | pulled (bytes : Option (List UInt8))
  | done
deriving DecidableEq, Repr

/-- `none` when a push does not end. -/
def exec (s : Ring) : Op → Option (Ring × Ret)
  | .push e => (push s e).map fun t => (t.1, .pushed t.2)
  | .pull bufLen stripHeader =>
    some ((pullSingle s bufLen stripHeader).1, .pulled (pullSingle s bufLen stripHeader).2)
  | .start => some (start s, .done)
  | .config logLevel => some (config s logLevel, .done)

/-- No entry as long as the ring is pushed to an active ring. -/
def notRingSized (s : Ring) : Op → Bool
  | .push e => !(decide (s.state = .active) && decide (entryLength (hdrLen e.hdr) = s.ringSize))
  | _ => true

/-- The push ends, writes inside the buffer, leaves the pointers inside, and changes nothing when
it fails. -/
def AllOrNothing (s : Ring) (e : Entry) : Prop :=
  ∃ s' ret, push s e = some (s', ret) ∧ (∀ i, s.ringSize ≤ i → s'.ringBuf i = s.ringBuf i) ∧
    s'.rp < s.ringSize ∧ s'.wp < s.ringSize ∧ (ret ≠ .ok → s' = s)

/-! ## The loop of a push -/

/-- **Loop rule.**  What holds at the start and survives each round holds when the loop ends. -/
theorem claim_rule {P : Ring → Prop} {wLen : Nat}
    (hpad : ∀ s, P s → checkWriteSpace s.rp s.wp s.ringSize ≤ wLen → s.rp ≤ s.wp → P (padTail s))
    (hfree : ∀ s, P s → s.wp < s.rp → s.rp + entryLengthAt s s.rp < s.ringSize → P (freeOldest s))
    {fuel : Nat} {s t : Ring} {ret : Bcme} (h : claim fuel s wLen = some (t, ret)) (hs : P s) :
    P t := by
  induction fuel generalizing s with
  | zero => cases h
  | succ fuel ih =>
    unfold claim at h
    split at h
    · next hfull =>
      split at h
      · next hle => exact ih h (hpad s hs hfull hle)
      · next hlt =>
        split at h
        · cases h
          exact hs
        · next hin => exact ih h (hfree s hs (by omega) (by omega))
    · cases h
      exact hs

theorem freeOldest_rp (s : Ring) :
    (freeOldest s).rp = 0 ∨ (freeOldest s).rp = add32 s.rp (entryLengthAt s s.rp) := by
  unfold freeOldest
  dsimp only
  split
  · exact .inl rfl
  · exact .inr rfl

/-- A loop that does something leaves the reader at the start, or ahead of the writer. -/
theorem claim_moved {fuel wLen : Nat} {s t : Ring} {ret : Bcme}
    (h : claim fuel s wLen = some (t, ret)) (hd : s.ringSize < 0x100000000) :
    t = s ∨ t.rp = 0 ∨ t.wp < t.rp := by
  have hrule : t.ringSize = s.ringSize ∧ (t = s ∨ t.rp = 0 ∨ t.wp < t.rp) := by
    refine claim_rule (P := fun u => u.ringSize = s.ringSize ∧ (u = s ∨ u.rp = 0 ∨ u.wp < u.rp))
      ?_ ?_ h ⟨rfl, .inl rfl⟩
    · rintro u ⟨hsize, -⟩ - -
      refine ⟨(padTail_ringSize u).trans hsize, .inr ?_⟩
      rw [padTail_wp]
      exact Nat.eq_zero_or_pos _
    · rintro u ⟨hsize, -⟩ hlt hin
      refine ⟨(freeOldest_ringSize u).trans hsize, .inr ?_⟩
      rcases freeOldest_rp u with h0 | hadd
      · exact .inl h0
      · right
        rw [hadd, freeOldest_wp, add32_eq (by omega)]
        omega
  exact hrule.2

/-- The padding is inside the buffer. -/
theorem claim_off {fuel wLen : Nat} {s t : Ring} {ret : Bcme}
    (h : claim fuel s wLen = some (t, ret)) (hd : s.ringSize < 0x100000000)
    (hwp : s.wp ≤ s.ringSize) {i : Nat} (hi : s.ringSize ≤ i) : t.ringBuf i = s.ringBuf i := by
  have hrule : t.ringSize = s.ringSize ∧ t.wp ≤ t.ringSize ∧ t.ringBuf i = s.ringBuf i := by
    refine claim_rule
      (P := fun u => u.ringSize = s.ringSize ∧ u.wp ≤ u.ringSize ∧ u.ringBuf i = s.ringBuf i)
      ?_ ?_ h ⟨rfl, hwp, rfl⟩
    · rintro u ⟨hsize, hu, hbuf⟩ - -
      refine ⟨(padTail_ringSize u).trans hsize, Nat.zero_le _, ?_⟩
      rw [padTail_ringBuf, writeAt_of_off, hbuf]
      right
      rw [List.length_replicate, sub32_eq hu (by omega)]
      omega
    · rintro u ⟨hsize, hu, hbuf⟩ - -
      rw [freeOldest_ringSize, freeOldest_wp, freeOldest_ringBuf]
      exact ⟨hsize, hu, hbuf⟩
  exact hrule.2.2

/-- What a push of an entry shorter than the ring does. -/
theorem push_spec {s : Ring} {q : List (Nat × Entry)} (e : Entry) (h : Holds s q)
    (hact : s.state = .active) (hd : s.ringSize < 0x100000000)
    (hlt : entryLength (hdrLen e.hdr) < s.ringSize) :
    ∃ t kept, claim (s.ringSize + 3) s (entryLength (hdrLen e.hdr)) = some (t, .ok) ∧
      push s e = some (writeEntry t e (entryLength (hdrLen e.hdr)), .ok) ∧ Holds t kept ∧
      entryLength (hdrLen e.hdr) < checkWriteSpace t.rp t.wp t.ringSize ∧
      t.ringSize = s.ringSize ∧ t.state = s.state := by
  have hlen := holds_length h
  have hmin : dbgRingEntrySize ≤ entryLength (hdrLen e.hdr) := Nat.le_add_left _ _
  have hclaim : Claims s (entryLength (hdrLen e.hdr)) q
      (claim (s.ringSize + 3) s (entryLength (hdrLen e.hdr))) :=
    claim_holds h hd hmin (by omega) (by omega)
  rcases hclaim with ⟨-, t, dropped, kept, hres, -, hc⟩ | ⟨hle, -⟩
  · refine ⟨t, kept, hres, ?_, hc.holds, hc.room, hc.ringSize, hc.state⟩
    have hroom := hc.room
    rw [← bytes_length] at hroom
    obtain ⟨hin, -⟩ := writeEntry_holds e hc.holds (hc.ringSize ▸ hd) hroom
    rw [bytes_length] at hin
    unfold push
    dsimp only
    rw [if_neg (not_not_intro hact), if_neg (by omega), hres]
    exact if_neg (by omega)
  · omega

/-! ## The invariant -/

/-- The bytes in front of the reader are entries, too, where the entries do not wrap. -/
def Behind (s : Ring) : Prop := s.rp ≤ s.wp → ∃ old, Laid bytes s.ringBuf 0 old s.rp

/-- A ring of `d` bytes between two calls. -/
structure Ready (d : Nat) (s : Ring) : Prop where
  size : s.ringSize = d
  holds : ∃ q, Holds s q
  behind : Behind s

section
variable {d : Nat} {s : Ring}

theorem Behind.of_moved (h : s.rp = 0 ∨ s.wp < s.rp) : Behind s := by
  intro hle
  rcases h with h0 | hlt
  · exact ⟨[], h0.symm⟩
  · omega

theorem Holds.lt {q : List (Nat × Entry)} (h : Holds s q) (hpos : 0 < s.ringSize) :
    s.rp < s.ringSize ∧ s.wp < s.ringSize := by
  rcases h with h | ⟨q₁, q₂, -, h⟩
  · have hle := h.laid.le
    rcases h.wp_lt with h | h <;> exact ⟨by omega, by omega⟩
  · have hpad := h.padStart_lt
    have hwp := h.wp_lt
    have hrp := h.rp_lt
    exact ⟨by omega, by omega⟩

theorem Holds.le {q : List (Nat × Entry)} (h : Holds s q) :
    s.rp ≤ s.ringSize ∧ s.wp ≤ s.ringSize := by
  rcases h with h | ⟨q₁, q₂, -, h⟩
  · have hle := h.laid.le
    have hwp := h.wp_le
    exact ⟨by omega, hwp⟩
  · have hpad := h.padStart_lt
    have hwp := h.wp_lt
    have hrp := h.rp_lt
    exact ⟨by omega, by omega⟩

/-- A new entry ends in front of the end of the ring and, if the reader is ahead, of the reader. -/
theorem Holds.room {q : List (Nat × Entry)} (h : Holds s q) (hd : s.ringSize < 0x100000000)
    {n : Nat} (hroom : n < checkWriteSpace s.rp s.wp s.ringSize) :
    s.wp + n < s.ringSize ∧ (s.wp < s.rp → s.wp + n < s.rp) := by
  have hle := h.le
  rcases Nat.lt_or_ge s.wp s.rp with hlt | hge
  · rw [checkWriteSpace_wrapped hlt hle.1 hd] at hroom
    exact ⟨by omega, by omega⟩
  · rw [checkWriteSpace_flat hge hle.2 hd] at hroom
    exact ⟨by omega, by omega⟩

/-- The outcomes of a push. -/
theorem push_outcomes (h : ∃ q, Holds s q) (hd : s.ringSize < 0x100000000) {e : Entry}
    (he : notRingSized s (.push e) = true) :
    push s e = some (s, .ok) ∨ push s e = some (s, .error) ∨
      ∃ t kept, claim (s.ringSize + 3) s (entryLength (hdrLen e.hdr)) = some (t, .ok) ∧
        push s e = some (writeEntry t e (bytes e).length, .ok) ∧ Holds t kept ∧
        (bytes e).length < checkWriteSpace t.rp t.wp t.ringSize ∧ t.ringSize = s.ringSize ∧
        entryLength (hdrLen e.hdr) < s.ringSize := by
  obtain ⟨q, hq⟩ := h
  by_cases hact : s.state = .active
  · by_cases hlong : entryLength (hdrLen e.hdr) > s.ringSize
    · refine .inr (.inl ?_)
      unfold push
      dsimp only
      rw [if_neg (not_not_intro hact), if_pos hlong]
    · have hne : entryLength (hdrLen e.hdr) ≠ s.ringSize := by
        intro heq
        unfold notRingSized at he
        dsimp only at he
        rw [decide_eq_true hact, decide_eq_true heq] at he
        cases he
      obtain ⟨t, kept, hres, hpush, hkept, hroom, hsize, -⟩ := push_spec e hq hact hd (by omega)
      rw [bytes_length]
      exact .inr (.inr ⟨t, kept, hres, hpush, hkept, hroom, hsize, by omega⟩)
  · refine .inl ?_
    unfold push
    dsimp only
    rw [if_pos hact]

/-- An entry that was written. -/
theorem writeEntry_ready {t : Ring} {kept : List (Nat × Entry)} {e : Entry} {fuel wLen : Nat}
    (h : Ready d s) (hd : d < 0x100000000) (hclaim : claim fuel s wLen = some (t, .ok))
    (hkept : Holds t kept) (hroom : (bytes e).length < checkWriteSpace t.rp t.wp t.ringSize)
    (hsize : t.ringSize = s.ringSize) : Ready d (writeEntry t e (bytes e).length) := by
  obtain ⟨rfl, ⟨q, hq⟩, hbehind⟩ := h
  obtain ⟨-, hw⟩ := writeEntry_holds e hkept (hsize ▸ hd) hroom
  obtain ⟨hend, hahead⟩ := hkept.room (hsize ▸ hd) hroom
  refine ⟨hsize, ⟨_, hw⟩, ?_⟩
  by_cases hlt : t.wp < t.rp
  · refine .of_moved (.inr ?_)
    show add32 t.wp (bytes e).length < t.rp
    rw [add32_eq (by omega)]
    exact hahead hlt
  · have ht : Behind t := by
      rcases claim_moved hclaim hd with rfl | hmoved
      · exact hbehind
      · exact .of_moved hmoved
    intro _
    obtain ⟨old, hold⟩ := ht (by omega)
    exact ⟨old, hold.congr fun i _ hi => writeEntry_off t e _ (.inl (by omega))⟩

theorem push_allOrNothing (h : Ready d s) (hpos : 0 < d) (hd : d < 0x100000000) {e : Entry}
    (he : notRingSized s (.push e) = true) : AllOrNothing s e := by
  obtain ⟨q, hq⟩ := h.holds
  have hsize := h.size
  have hlt := hq.lt (by omega)
  rcases push_outcomes h.holds (h.size ▸ hd) he with
    hp | hp | ⟨t, kept, hclaim, hp, hkept, hroom, ht, -⟩
  · exact ⟨s, .ok, hp, fun i _ => rfl, hlt.1, hlt.2, fun _ => rfl⟩
  · exact ⟨s, .error, hp, fun i _ => rfl, hlt.1, hlt.2, fun _ => rfl⟩
  · obtain ⟨hin, hw⟩ := writeEntry_holds e hkept (by omega) hroom
    have hlt' := hw.lt (show 0 < t.ringSize by omega)
    obtain ⟨hend, -⟩ := hkept.room (by omega) hroom
    refine ⟨_, .ok, hp, ?_, ht ▸ hlt'.1, ht ▸ hlt'.2, fun hno => absurd rfl hno⟩
    intro i hi
    rw [writeEntry_off t e _ (.inr (by omega))]
    exact claim_off hclaim (by omega) (by omega) hi

/-! ## Pulls, and the other calls -/

theorem advance_rp (s : Ring) :
    (advance s).rp = 0 ∨ (advance s).rp = add32 s.rp (entryLengthAt s s.rp) := by
  unfold advance
  dsimp only
  split
  · exact .inl rfl
  · exact .inr rfl

/-- What a pull does to the ring. -/
theorem pullSingle_outcomes (s : Ring) (bufLen : Nat) (stripHeader : Bool) :
    (pullSingle s bufLen stripHeader).1 = s ∨ (s.rp ≠ s.wp ∧
      ∃ n, (pullSingle s bufLen stripHeader).1 = { advance s with readBytes := n } ∧
        ((advance s).rp < (advance s).ringSize →
          n = add32 s.readBytes (entryLengthAt s s.rp))) := by
  unfold pullSingle
  dsimp only
  -- what the ring is then does not matter
  generalize advance s = next
  split
  · exact .inl rfl
  · split
    · exact .inl rfl
    · split
      · exact .inl rfl
      · next hne =>
        split
        · exact .inl rfl
        · split
          · exact .inl rfl
          · split
            · exact .inr ⟨hne, next.readBytes, rfl, fun hlt => by omega⟩
            · exact .inr ⟨hne, _, rfl, fun _ => rfl⟩

/-- Wherever the reader goes, there are entries from there on. -/
theorem advance_ready (h : Ready d s) (hd : d < 0x100000000) (hne : s.rp ≠ s.wp) :
    Ready d (advance s) := by
  obtain ⟨rfl, ⟨q, hq⟩, hbehind⟩ := h
  obtain ⟨hbuf, hwp, hsize, -⟩ := advance_frame s
  rcases hq with hf | ⟨q₁, q₂, -, hw⟩
  · cases q with
    | nil => exact absurd hf.laid hne
    | cons x q =>
      have hle := hf.laid.2.2.le
      have hlen := entryLengthAt_entry hf.laid.2.1
      have hwle := hf.wp_le
      obtain ⟨old, hold⟩ := hbehind hf.laid.le
      rcases advance_rp s with h0 | hadd
      · refine ⟨hsize, ⟨old ++ x :: q, .inl ⟨?_, ?_⟩⟩, .of_moved (.inl h0)⟩
        · rw [hbuf, h0, hwp]
          exact hold.append hf.laid
        · rw [hwp, hsize]
          exact hf.wp_lt
      · rw [hlen, add32_eq (by omega)] at hadd
        refine ⟨hsize, ⟨q, .inl ⟨?_, ?_⟩⟩, fun _ => ⟨old ++ [(s.rp, x.2)], ?_⟩⟩
        · rw [hbuf, hadd, hwp]
          exact hf.laid.2.2
        · rw [hwp, hsize]
          exact hf.wp_lt
        · rw [hbuf, hadd]
          exact hold.snoc hf.laid.2.1
  · cases q₁ with
    | nil => exact hw.not_nil.elim
    | cons x q₁ =>
      obtain ⟨-, -, hnext⟩ := advance_wrapped hw hd
      have hmoved : (advance s).rp = 0 ∨ (advance s).wp < (advance s).rp := by
        rcases advance_rp s with h0 | hadd
        · exact .inl h0
        · obtain ⟨hsum, -⟩ := hw.first_end hd
          have hlt := hw.wp_lt
          right
          rw [hadd, hsum, hwp]
          omega
      refine ⟨hsize, ?_, .of_moved hmoved⟩
      rcases hnext with ⟨-, hf⟩ | hw'
      · exact ⟨_, .inl hf⟩
      · exact ⟨_, .inr ⟨_, _, rfl, hw'⟩⟩

theorem Holds.state {q : List (Nat × Entry)} (h : Holds s q) (st : RingState) :
    Holds { s with state := st } q := by
  rcases h with h | ⟨q₁, q₂, hq, h⟩
  · exact .inl ⟨h.laid, h.wp_lt⟩
  · exact .inr ⟨q₁, q₂, hq, h.wp_lt, h.rp_lt, h.padded, h.rem_pos, h.first, h.second⟩

/-- A ring whose pointers are at the start. -/
theorem Ready.fresh (hrp : s.rp = 0) (hwp : s.wp = 0) : Ready s.ringSize s :=
  ⟨rfl, ⟨[], .inl ⟨hrp.trans hwp.symm, .inr hwp⟩⟩, .of_moved (.inl hrp)⟩

theorem exec_ready (hd : d < 0x100000000) {c : Op} {s' : Ring} {r : Ret} (h : Ready d s)
    (hc : notRingSized s c = true) (hs : exec s c = some (s', r)) : Ready d s' := by
  cases c with
  | push e =>
    obtain ⟨⟨t, ret⟩, hp', heq⟩ := Option.map_eq_some_iff.mp hs
    obtain ⟨rfl, -⟩ := Prod.ext_iff.mp heq
    rcases push_outcomes h.holds (h.size ▸ hd) hc with
      hp | hp | ⟨u, kept, hclaim, hp, hkept, hroom, ht, -⟩
    · rw [hp] at hp'
      cases hp'
      exact h
    · rw [hp] at hp'
      cases hp'
      exact h
    · rw [hp] at hp'
      cases hp'
      exact writeEntry_ready h hd hclaim hkept hroom ht
  | pull bufLen stripHeader =>
    obtain ⟨rfl, -⟩ := Prod.ext_iff.mp (Option.some.inj hs)
    dsimp only
    rcases pullSingle_outcomes s bufLen stripHeader with heq | ⟨hne, n, heq, -⟩
    · rw [heq]
      exact h
    · rw [heq]
      obtain ⟨hsize, ⟨q, hq⟩, hbehind⟩ := advance_ready h hd hne
      exact ⟨hsize, ⟨q, hq.readBytes n⟩, hbehind⟩
  | start =>
    cases hs
    have hf : Ready (start s).ringSize (start s) := .fresh rfl rfl
    rw [show (start s).ringSize = d from h.size] at hf
    exact hf
  | config logLevel =>
    obtain ⟨rfl, -⟩ := Prod.ext_iff.mp (Option.some.inj hs)
    dsimp only
    unfold config
    split
    · exact h
    · obtain ⟨hsize, ⟨q, hq⟩, hbehind⟩ := h
      exact ⟨hsize, ⟨q, hq.state _⟩, hbehind⟩

end

/-- **Pushing.**  From a ring whose pointers are at the start, whatever its contents and flags, and
after any calls that push no entry as long as the ring. -/
theorem push_all_or_nothing (r : Ring) (hrp : r.rp = 0) (hwp : r.wp = 0) (hpos : 0 < r.ringSize)
    (hd : r.ringSize < 0x100000000) (es : List Op) (s : Ring) (tr : List (Op × Ret))
    (hm : meets exec notRingSized r es = true) (h : runs exec r es = some (s, tr)) (e : Entry)
    (he : notRingSized s (.push e) = true) : AllOrNothing s e := by
  have hready : Ready r.ringSize s :=
    runs_inv_of_meets exec notRingSized (fun s _ => Ready r.ringSize s)
      (fun _ _ _ _ _ hi hc hs => exec_ready hd hi hc hs) r s es tr (.fresh hrp hwp) hm h
  exact push_allOrNothing hready hpos hd he

/-- A ring of 24 bytes, active and empty. -/
def ring24 : Ring := ⟨24, 0, 0, fun _ => 0, 0, 0, 0, .active, false, 0, false⟩

/-- The second entry does not fit in the tail, and the first one is evicted. -/
def twoPushes : List Op :=
  [.push (entryOf ⟨4, by decide⟩ 1), .push (entryOf ⟨4, by decide⟩ 2), .pull 8 true]

theorem push_all_or_nothing_two :
    ∃ s tr, runs exec ring24 twoPushes = some (s, tr) ∧ AllOrNothing s (entryOf 8 3) :=
  ⟨_, _, rfl, push_all_or_nothing ring24 rfl rfl (by decide) (by decide) twoPushes _ _ (by decide)
    rfl (entryOf 8 3) (by decide)⟩

/-- An entry of 24 bytes is refused, with the reader at 12 and 12 bytes read that were never
written. -/
theorem push_all_or_nothing_fails :
    ¬ ∀ (r : Ring) es s tr e, r.rp = 0 → r.wp = 0 → 0 < r.ringSize → r.ringSize < 0x100000000 →
      runs exec r es = some (s, tr) → AllOrNothing s e := by
  intro h
  obtain ⟨s', ret, hs', -, -, -, hno⟩ := h ring24 [] ring24 [] (entryOf 12 1) rfl rfl (by decide)
    (by decide) rfl
  cases hs'
  exact absurd (congrArg Ring.readBytes (hno (by decide))) (by decide)

end Bcmdhd.DbgRing
