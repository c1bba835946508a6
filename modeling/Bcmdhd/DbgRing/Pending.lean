import Bcmdhd.DbgRing.Calls

/-!
# The pending length of a debug ring

`written_bytes` and `read_bytes` wrap.  Their distance is what the unread entries take, as evicted
entries are counted as read; where only `written_bytes` has wrapped, the function that reports it
adds `PENDING_LEN_MAX`, which is one less than the numbers there are.

    meets exec accountable r es → runs exec r es = some (s, tr) →
      ∃ q, Holds s q ∧ (getPendingLen s = unreadBytes q ↔ s.readBytes ≤ s.writtenBytes)
                                                                        (pending_len_iff)
-/

namespace Bcmdhd.DbgRing

open Runs Records

def PENDING_LEN_MAX : Nat := 0xFFFFFFFF

/-- `dhd_dbg_ring_get_pending_len` -/
def getPendingLen (s : Ring) : Nat :=
  if s.writtenBytes > s.readBytes then sub32 s.writtenBytes s.readBytes
  else if s.writtenBytes < s.readBytes then
    add32 (sub32 PENDING_LEN_MAX s.readBytes) s.writtenBytes
  else 0

/-- `ENTRY_LENGTH` of these entries, together. -/
def unreadBytes : List (Nat × Entry) → Nat
  | [] => 0
  | x :: q => entryLength (hdrLen x.2.hdr) + unreadBytes q

/-- No entry is as long as the ring, and no pull takes an old padding for the end. -/
def accountable (s : Ring) : Op → Bool
  | .pull bufLen stripHeader => padIsCurrent s (.pull bufLen stripHeader)
  | c => notRingSized s c

theorem add32_lt (a b : Nat) : add32 a b < 0x100000000 := Nat.mod_lt _ (by decide)

theorem unreadBytes_append (q q' : List (Nat × Entry)) :
    unreadBytes (q ++ q') = unreadBytes q + unreadBytes q' := by
  induction q with
  | nil => exact (Nat.zero_add _).symm
  | cons x q ih =>
    show entryLength _ + unreadBytes (q ++ q') = entryLength _ + unreadBytes q + unreadBytes q'
    omega

/-- Entries that follow one another fill the bytes between the two ends. -/
theorem laid_unreadBytes {buf : Nat → UInt8} {p stop : Nat} {q : List (Nat × Entry)}
    (h : Laid bytes buf p q stop) : p + unreadBytes q = stop := by
  induction q generalizing p with
  | nil => exact h
  | cons x q ih =>
    have hrest := ih h.2.2
    rw [bytes_length] at hrest
    show p + (entryLength _ + unreadBytes q) = stop
    omega

theorem Holds.unreadBytes_eq {s : Ring} {q : List (Nat × Entry)} (h : Holds s q) :
    unreadBytes q = if s.rp ≤ s.wp then s.wp - s.rp else padStart s - s.rp + s.wp := by
  rcases h with h | ⟨q₁, q₂, rfl, h⟩
  · have hlen := laid_unreadBytes h.laid
    rw [if_pos h.laid.le]
    omega
  · have h₁ := laid_unreadBytes h.first
    have h₂ := laid_unreadBytes h.second
    have hlt := h.wp_lt
    rw [unreadBytes_append, if_neg (by omega)]
    omega

theorem Holds.unreadBytes_le {s : Ring} {q : List (Nat × Entry)} (h : Holds s q) :
    unreadBytes q ≤ s.ringSize := by
  have heq := h.unreadBytes_eq
  have hle := h.le
  rcases h with h | ⟨q₁, q₂, -, h⟩
  · rw [if_pos h.laid.le] at heq
    omega
  · have hlt := h.wp_lt
    have hpad := h.padStart_lt
    have hrp := h.rp_lt
    rw [if_neg (by omega)] at heq
    omega

/-! ## The counters -/

/-- What was read, with what is unread, is what was written. -/
structure Counted (d w : Nat) (s : Ring) : Prop where
  size : s.ringSize = d
  written : s.writtenBytes = w
  small : s.readBytes < 0x100000000
  counts : ∃ q, Holds s q ∧ add32 s.readBytes (unreadBytes q) = w

section
variable {d w : Nat} {s : Ring}

theorem padTail_readBytes (s : Ring) : (padTail s).readBytes =
    if s.rp = 0 then add32 s.readBytes (entryLengthAt { s with
      ringBuf := writeAt s.ringBuf s.wp (List.replicate (sub32 s.ringSize s.wp) 0) } s.rp)
    else s.readBytes := by
  unfold padTail
  dsimp only
  split <;> rfl

theorem padTail_writtenBytes (s : Ring) : (padTail s).writtenBytes = s.writtenBytes := by
  unfold padTail
  dsimp only
  split <;> rfl

theorem freeOldest_readBytes (s : Ring) :
    (freeOldest s).readBytes = add32 s.readBytes (entryLengthAt s s.rp) := by
  unfold freeOldest
  dsimp only
  split <;> rfl

theorem freeOldest_writtenBytes (s : Ring) : (freeOldest s).writtenBytes = s.writtenBytes := by
  unfold freeOldest
  dsimp only
  split <;> rfl

/-- Padding the tail counts the entry that it frees as read. -/
theorem padTail_counted (h : Counted d w s) (hd : d < 0x100000000) (hle : s.rp ≤ s.wp)
    (hpos : 0 < s.wp) : Counted d w (padTail s) := by
  obtain ⟨rfl, hw, hsmall, q, hq, hcount⟩ := h
  have hf : Flat s q := by
    rcases hq with hf | ⟨q₁, q₂, -, hwr⟩
    · exact hf
    · have hlt := hwr.wp_lt
      omega
  obtain ⟨dropped, kept, -, -, hnext⟩ := padTail_flat hf hpos hd
  have hkept : Holds (padTail s) kept := by
    rcases hnext with ⟨rfl, hf'⟩ | hwr
    · exact .inl hf'
    · exact .inr ⟨kept, [], (List.append_nil kept).symm, hwr⟩
  refine ⟨padTail_ringSize s, (padTail_writtenBytes s).trans hw, ?_, kept, hkept, ?_⟩
  · rw [padTail_readBytes]
    split
    · exact add32_lt _ _
    · exact hsmall
  · have hunread := hq.unreadBytes_eq
    have hunread' := hkept.unreadBytes_eq
    have hwp : s.wp < s.ringSize := by
      rcases hf.wp_lt with h | h <;> omega
    have hstart : padStart (padTail s) = s.wp := by
      unfold padStart
      rw [padTail_remLen, padTail_ringSize, sub32_eq (by omega) hd]
      omega
    have hread := padTail_readBytes s
    have hrp' := padTail_rp s
    dsimp only at hrp'
    rw [if_pos hle] at hunread
    rw [padTail_wp, hstart] at hunread'
    by_cases hrp : s.rp = 0
    · cases q with
      | nil =>
        have heq : s.rp = s.wp := hf.laid
        omega
      | cons x q =>
        have hlx := hf.laid.2.2.le
        have hlen := hf.entryLengthAt_padded
        have hpos := bytes_pos x.2
        rw [if_pos hrp, hlen, hrp, add32_eq (by omega), Nat.zero_add] at hrp'
        rw [if_pos hrp, hlen] at hread
        rw [hread]
        by_cases hall : (bytes x.2).length = s.wp
        · rw [if_pos hall] at hrp'
          rw [if_pos (by omega)] at hunread'
          unfold add32 at hcount ⊢
          omega
        · rw [if_neg hall] at hrp'
          rw [if_neg (by omega)] at hunread'
          unfold add32 at hcount ⊢
          omega
    · rw [if_neg hrp] at hrp' hread
      rw [hread]
      by_cases hempty : s.rp = s.wp
      · rw [if_pos hempty] at hrp'
        rw [if_pos (by omega)] at hunread'
        unfold add32 at hcount ⊢
        omega
      · rw [if_neg hempty] at hrp'
        rw [if_neg (by omega)] at hunread'
        unfold add32 at hcount ⊢
        omega

theorem freeOldest_counted (h : Counted d w s) (hd : d < 0x100000000) (hlt : s.wp < s.rp) :
    Counted d w (freeOldest s) := by
  obtain ⟨rfl, hw, hsmall, q, hq, hcount⟩ := h
  rcases hq with hf | ⟨q₁, q₂, rfl, hwr⟩
  · have hle := hf.laid.le
    omega
  · cases q₁ with
    | nil => exact hwr.not_nil.elim
    | cons x q₁ =>
      obtain ⟨-, hnext⟩ := freeOldest_wrapped hwr hd
      have hlen := entryLengthAt_entry hwr.first.2.1
      refine ⟨freeOldest_ringSize s, (freeOldest_writtenBytes s).trans hw, ?_, q₁ ++ q₂, ?_, ?_⟩
      · rw [freeOldest_readBytes]
        exact add32_lt _ _
      · rcases hnext with ⟨rfl, hf⟩ | hwr'
        · exact .inl hf
        · exact .inr ⟨q₁, q₂, rfl, hwr'⟩
      · rw [freeOldest_readBytes, hlen, bytes_length]
        rw [List.cons_append, unreadBytes] at hcount
        unfold add32 at hcount ⊢
        omega

/-- The loop of a push. -/
theorem claim_counted {fuel wLen : Nat} {t : Ring} {ret : Bcme} (h : Counted d w s)
    (hd : d < 0x100000000) (hlt : wLen < d) (hclaim : claim fuel s wLen = some (t, ret)) :
    Counted d w t := by
  refine claim_rule (P := Counted d w) ?_ ?_ hclaim h
  · intro u hu hfull hle
    obtain ⟨q, hq, -⟩ := hu.counts
    have hsize := hu.size
    rw [checkWriteSpace_flat hle hq.le.2 (by omega)] at hfull
    exact padTail_counted hu hd hle (by omega)
  · intro u hu hlt _
    exact freeOldest_counted hu hd hlt

theorem writeEntry_counted {e : Entry} (h : Counted d w s) (hd : d < 0x100000000)
    (hroom : (bytes e).length < checkWriteSpace s.rp s.wp s.ringSize) :
    Counted d (add32 w (bytes e).length) (writeEntry s e (bytes e).length) := by
  obtain ⟨rfl, rfl, hsmall, q, hq, hcount⟩ := h
  obtain ⟨-, hw⟩ := writeEntry_holds e hq hd hroom
  refine ⟨rfl, rfl, hsmall, _, hw, ?_⟩
  show add32 s.readBytes _ = _
  rw [unreadBytes_append, ← hcount, bytes_length]
  show add32 s.readBytes (unreadBytes q + (entryLength (hdrLen e.hdr) + 0)) = _
  unfold add32
  omega

theorem pull_counted {bufLen : Nat} {stripHeader : Bool} (h : Counted d w s) (hd : d < 0x100000000)
    (hpad : padIsCurrent s (.pull bufLen stripHeader) = true) :
    Counted d w (pullSingle s bufLen stripHeader).1 := by
  obtain ⟨rfl, rfl, hsmall, q, hq, hcount⟩ := h
  rcases pullSingle_outcomes s bufLen stripHeader with heq | ⟨hne, n, heq, hn⟩
  · rw [heq]
    exact ⟨rfl, rfl, hsmall, q, hq, hcount⟩
  · rw [heq]
    cases q with
    | nil => exact absurd hq.nil_eq hne
    | cons x q =>
      obtain ⟨-, hread, -, hin⟩ := hq.first hd
      have hnext := advance_holds hq hd hpad
      obtain ⟨-, -, hsize, -⟩ := advance_frame s
      have hn' := hn (by omega)
      rw [entryLengthAt_entry hread, bytes_length] at hn'
      rw [unreadBytes] at hcount
      refine ⟨hsize, ?_, ?_, q, hnext.readBytes n, ?_⟩
      · show (advance s).writtenBytes = s.writtenBytes
        unfold advance
        dsimp only
        split <;> rfl
      · rw [hn']
        exact add32_lt _ _
      · show add32 n (unreadBytes q) = s.writtenBytes
        rw [hn']
        unfold add32 at hcount ⊢
        omega

theorem exec_counted (hd : d < 0x100000000) {c : Op} {s' : Ring} {r : Ret}
    (h : Counted d s.writtenBytes s) (hc : accountable s c = true)
    (hs : exec s c = some (s', r)) : Counted d s'.writtenBytes s' := by
  cases c with
  | push e =>
    obtain ⟨⟨t, ret⟩, hp', heq⟩ := Option.map_eq_some_iff.mp hs
    obtain ⟨rfl, -⟩ := Prod.ext_iff.mp heq
    obtain ⟨q, hq, -⟩ := h.counts
    have hsize := h.size
    rcases push_outcomes ⟨q, hq⟩ (by omega) hc with hp | hp |
      ⟨u, kept, hclaim, hp, hkept, hroom, -, hlt⟩
    · rw [hp] at hp'
      cases hp'
      exact h
    · rw [hp] at hp'
      cases hp'
      exact h
    · rw [hp] at hp'
      cases hp'
      have hu := claim_counted h hd (hsize ▸ hlt) hclaim
      have hwr := writeEntry_counted hu hd hroom
      have hw := hwr.written
      dsimp only
      rw [hw]
      exact hwr
  | pull bufLen stripHeader =>
    obtain ⟨rfl, -⟩ := Prod.ext_iff.mp (Option.some.inj hs)
    have hp : Counted d s.writtenBytes (pullSingle s bufLen stripHeader).1 :=
      pull_counted h hd hc
    have hw := hp.written
    dsimp only
    rw [hw]
    exact hp
  | start =>
    cases hs
    exact ⟨h.size, rfl, Nat.zero_lt_succ _, [], .inl ⟨rfl, .inr rfl⟩, rfl⟩
  | config logLevel =>
    obtain ⟨rfl, -⟩ := Prod.ext_iff.mp (Option.some.inj hs)
    dsimp only
    unfold config
    split
    · exact h
    · obtain ⟨hsize, -, hsmall, q, hq, hcount⟩ := h
      exact ⟨hsize, rfl, hsmall, q, hq.state _, hcount⟩

/-- The distance is right until `written_bytes` alone has wrapped. -/
theorem getPendingLen_iff {q : List (Nat × Entry)} (hread : s.readBytes < 0x100000000)
    (hq : unreadBytes q < 0x100000000)
    (hcount : add32 s.readBytes (unreadBytes q) = s.writtenBytes) :
    getPendingLen s = unreadBytes q ↔ s.readBytes ≤ s.writtenBytes := by
  unfold getPendingLen PENDING_LEN_MAX sub32
  unfold add32 at hcount ⊢
  split
  · omega
  · split
    · omega
    · omega

end

/-- **The pending length.**  It is what the unread entries take, except where `written_bytes` has
wrapped and `read_bytes` has not. -/
theorem pending_len_iff (r : Ring) (hrp : r.rp = 0) (hwp : r.wp = 0)
    (hd : r.ringSize < 0x100000000) (hcount : r.writtenBytes = r.readBytes)
    (hsmall : r.readBytes < 0x100000000) (es : List Op) (s : Ring) (tr : List (Op × Ret))
    (hm : meets exec accountable r es = true) (h : runs exec r es = some (s, tr)) :
    ∃ q, Holds s q ∧ (∀ q', Holds s q' → q' = q) ∧
      (getPendingLen s = unreadBytes q ↔ s.readBytes ≤ s.writtenBytes) := by
  have h0 : Counted r.ringSize r.writtenBytes r :=
    ⟨rfl, rfl, hsmall, [], .inl ⟨hrp.trans hwp.symm, .inr hwp⟩, by
      rw [hcount]
      exact Nat.mod_eq_of_lt hsmall⟩
  obtain ⟨hsize, -, hread, q, hq, hsum⟩ :=
    runs_inv_of_meets exec accountable (fun s _ => Counted r.ringSize s.writtenBytes s)
      (fun _ _ _ _ _ hi hc hs => exec_counted hd hi hc hs) r s es tr h0 hm h
  have hle := hq.unreadBytes_le
  exact ⟨q, hq, fun q' hq' => holds_unique hq hq', getPendingLen_iff hread (by omega) hsum⟩

theorem pending_len_iff_two :
    ∃ s tr, runs exec ring24 twoPushes = some (s, tr) ∧
      ∃ q, Holds s q ∧ (∀ q', Holds s q' → q' = q) ∧
        (getPendingLen s = unreadBytes q ↔ s.readBytes ≤ s.writtenBytes) :=
  ⟨_, _, rfl, pending_len_iff ring24 rfl rfl (by decide) rfl (by decide) twoPushes _ _ (by decide)
    rfl⟩

/-! ## Four gibibytes -/

/-- After `k` pushes of 16 bytes to the ring of 24, the last one is unread. -/
structure Pushes (k : Nat) (s : Ring) : Prop where
  counted : Counted 24 (16 * k % 0x100000000) s
  active : s.state = .active
  one : 0 < k → ∃ q, Holds s q ∧ unreadBytes q = 16

theorem Pushes.push {k : Nat} {s : Ring} (h : Pushes k s) :
    ∃ s' r, exec s (.push (entryOf 4 1)) = some (s', r) ∧ Pushes (k + 1) s' := by
  obtain ⟨q, hq, -⟩ := h.counted.counts
  have hsize := h.counted.size
  have hlen : entryLength (hdrLen (entryOf 4 1).hdr) = 16 := rfl
  obtain ⟨t, kept, hclaim, hp, hkept, hroom, ht, hact⟩ :=
    push_spec (entryOf 4 1) hq h.active (by omega) (by omega)
  rw [← bytes_length] at hroom hp
  have hcount := writeEntry_counted (claim_counted h.counted (by decide) (by decide) hclaim)
    (by decide) hroom
  obtain ⟨-, hnew⟩ := writeEntry_holds (entryOf 4 1) hkept (by omega) hroom
  have hle : unreadBytes (kept ++ [(t.wp, entryOf 4 1)]) ≤ t.ringSize := hnew.unreadBytes_le
  have hsum : add32 (16 * k % 0x100000000) (bytes (entryOf 4 1)).length =
      16 * (k + 1) % 0x100000000 := by
    rw [bytes_length, hlen]
    unfold add32
    omega
  rw [hsum] at hcount
  refine ⟨writeEntry t (entryOf 4 1) (bytes (entryOf 4 1)).length, .pushed .ok, ?_, hcount,
    hact.trans h.active, fun _ => ⟨_, hnew, ?_⟩⟩
  · show (DbgRing.push s (entryOf 4 1)).map _ = _
    rw [hp]
    rfl
  · -- there is no room for another entry beside it
    rw [unreadBytes_append] at hle ⊢
    have hlast : unreadBytes [(t.wp, entryOf 4 1)] = 16 := rfl
    cases kept with
    | nil => exact hlast
    | cons x kept =>
      have hx : dbgRingEntrySize ≤ entryLength (hdrLen x.2.hdr) := Nat.le_add_left _ _
      rw [unreadBytes] at hle
      unfold dbgRingEntrySize at hx
      omega

/-- 268435456 pushes of 16 bytes: `written_bytes` is 0, and 15 bytes are reported for the entry of
16. -/
theorem pending_len_fails :
    ¬ ∀ (r : Ring) es s tr q, r.rp = 0 → r.wp = 0 → r.ringSize < 0x100000000 →
      r.writtenBytes = r.readBytes → r.readBytes < 0x100000000 →
      runs exec r es = some (s, tr) → Holds s q → getPendingLen s = unreadBytes q := by
  intro h
  have h0 : Pushes 0 ring24 :=
    ⟨⟨rfl, rfl, by decide, [], .inl ⟨rfl, .inr rfl⟩, rfl⟩, rfl, fun hlt => by omega⟩
  obtain ⟨s, tr, hr, hs⟩ := runs_replicate exec Pushes ring24 (.push (entryOf 4 1)) 0x10000000 h0
    fun k _ s hs => hs.push
  obtain ⟨-, hw, hsmall, q, hq, hsum⟩ := hs.counted
  obtain ⟨q', hq', hone⟩ := hs.one (by decide)
  obtain rfl := holds_unique hq hq'
  have heq := h ring24 _ s tr q' rfl rfl (by decide) rfl (by decide) hr hq
  rw [← hw] at hsum
  have hle := (getPendingLen_iff hsmall (by omega) hsum).mp heq
  rw [hone] at hsum
  unfold add32 at hsum
  omega

end Bcmdhd.DbgRing
