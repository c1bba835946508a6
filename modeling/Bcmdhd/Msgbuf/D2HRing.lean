import Bcmdhd.Lib.Runs
import Bcmdhd.Lib.RingIndex

/-!
# Dongle-to-host message rings (`dhd_msgbuf.c`)

`dhd_prot_get_read_addr` takes the write index that the dongle published, any 16-bit
value, and returns the items up to it that lie before the end of the ring: their byte
offset from `dma_buf.va` and their length, or `NULL`.

    readInside ring wr bound ↔ wr ≤ max_items ∨ max_items < wr - rd ∨
      (bound ≠ 0 ∧ rd + bound ≤ max_items)
    runs step ring es = some (s, tr), all published indices < max_items →
      the items returned are the slots rd, rd + 1, … modulo max_items
                                                             (readInside_iff_and_runs)
-/

namespace Bcmdhd.D2HRing

open Runs RingIndex

/-! ## Algorithm -/

/-- The fields of `msgbuf_ring_t` that the consumer side of a D2H ring uses. -/
structure MsgbufRing where
  maxItems : Nat
  itemLen : Nat
  rd : Nat
  wr : Nat
  /-- index of the item being processed -/
  currRd : Nat
  /-- the next expected epoch; counted without the `uint32` wrap -/
  seqnum : Nat
  itemLen_pos : 0 < itemLen
  rd_lt : rd < maxItems
deriving DecidableEq, Repr

/-- `READ_AVAIL_SPACE(w, r, d)` -/
def readAvailSpace (w r d : Nat) : Nat := if w ≥ r then w - r else d - r

/-- `ring->rd` after `items` more items. -/
def nextRd (ring : MsgbufRing) (items : Nat) : Nat :=
  if ring.rd + items ≥ ring.maxItems then 0 else ring.rd + items

theorem nextRd_lt (ring : MsgbufRing) (items : Nat) : nextRd ring items < ring.maxItems := by
  have := ring.rd_lt
  unfold nextRd
  split <;> omega

def advanceRd (ring : MsgbufRing) (items : Nat) : MsgbufRing :=
  { ring with rd := nextRd ring items, rd_lt := nextRd_lt ring items }

/-- limit no. of items to bound, if there is one -/
def limitItems (items bound : Nat) : Nat := if bound ≠ 0 then min items bound else items

/-- `d2hWr` is the published write index.  The result is `read_addr`, as an offset, and
`*available_len`, both in bytes. -/
def getReadAddr (ring : MsgbufRing) (d2hWr bound : Nat) : MsgbufRing × Option (Nat × Nat) :=
  let ring := { ring with currRd := ring.rd, wr := d2hWr }
  let items := readAvailSpace ring.wr ring.rd ring.maxItems
  if items = 0 then (ring, none)
  else if items > ring.maxItems then (ring, none)
  else
    let items := limitItems items bound
    (advanceRd ring items, some (ring.rd * ring.itemLen, items * ring.itemLen))

/-- One call of `dhd_prot_get_read_addr`. -/
structure Call where
  d2hWr : Nat
  bound : Nat
deriving DecidableEq, Repr

def step (ring : MsgbufRing) (c : Call) : Option (MsgbufRing × Option (Nat × Nat)) :=
  some (getReadAddr ring c.d2hWr c.bound)

/-- The items of a returned region. -/
def itemsIn (itemLen : Nat) : Option (Nat × Nat) → List Nat
  | some (addr, len) => List.range' (addr / itemLen) (len / itemLen)
  | none => []

def itemsRead (itemLen : Nat) (tr : List (Call × Option (Nat × Nat))) : List Nat :=
  tr.flatMap fun e => itemsIn itemLen e.2

/-- The published index is one of the ring's. -/
def validWr (ring : MsgbufRing) (c : Call) : Bool := decide (c.d2hWr < ring.maxItems)

/-- `NULL` without moving `rd`, or a region of whole items inside the ring. -/
def readInside (ring : MsgbufRing) (d2hWr bound : Nat) : Prop :=
  match getReadAddr ring d2hWr bound with
  | (ring', none) => ring'.rd = ring.rd
  | (ring', some (addr, len)) =>
    addr + len ≤ ring.maxItems * ring.itemLen ∧ 0 < len ∧ ring.itemLen ∣ len ∧
      ring'.rd < ring.maxItems

/-! ## Lemmas -/

/-- What a call can do. -/
theorem getReadAddr_cases (ring : MsgbufRing) (wr bound : Nat) :
    (getReadAddr ring wr bound = ({ ring with currRd := ring.rd, wr }, none) ∧
      (wr = ring.rd ∨ ring.rd + ring.maxItems < wr)) ∨
    (∃ k, getReadAddr ring wr bound =
        (advanceRd { ring with currRd := ring.rd, wr } k,
          some (ring.rd * ring.itemLen, k * ring.itemLen)) ∧
      k = limitItems (readAvailSpace wr ring.rd ring.maxItems) bound ∧ 0 < k ∧
      wr ≤ ring.rd + ring.maxItems ∧
      k ≤ readAvailSpace wr ring.rd ring.maxItems) := by
  have hrd := ring.rd_lt
  unfold getReadAddr
  simp only
  split
  · next h0 =>
    refine .inl ⟨rfl, .inl ?_⟩
    unfold readAvailSpace at h0
    split at h0 <;> omega
  · next h0 =>
    split
    · next hgt =>
      refine .inl ⟨rfl, .inr ?_⟩
      unfold readAvailSpace at hgt
      split at hgt <;> omega
    · next hle =>
      refine .inr ⟨_, rfl, rfl, ?_, ?_, ?_⟩
      · unfold limitItems
        split <;> omega
      · unfold readAvailSpace at hle
        split at hle <;> omega
      · unfold limitItems
        split <;> omega

theorem itemsIn_region {itemLen rd k : Nat} (h : 0 < itemLen) :
    itemsIn itemLen (some (rd * itemLen, k * itemLen)) = List.range' rd k := by
  unfold itemsIn
  simp only [Nat.mul_div_cancel _ h]

/-- The region is inside exactly when its last item is. -/
theorem region_inside {n itemLen rd k : Nat} (h : 0 < itemLen) :
    rd * itemLen + k * itemLen ≤ n * itemLen ↔ rd + k ≤ n := by
  rw [← Nat.add_mul]
  exact ⟨fun hm => Nat.le_of_mul_le_mul_right hm h, fun hk => Nat.mul_le_mul_right itemLen hk⟩

theorem readInside_iff (ring : MsgbufRing) (wr bound : Nat) :
    readInside ring wr bound ↔
      wr ≤ ring.maxItems ∨ ring.maxItems < wr - ring.rd ∨
        (bound ≠ 0 ∧ ring.rd + bound ≤ ring.maxItems) := by
  have hrd := ring.rd_lt
  unfold readInside
  rcases getReadAddr_cases ring wr bound with ⟨hg, hw⟩ | ⟨k, hg, hk, hpos, hle, -⟩
  · rw [hg]
    simp only [true_iff]
    omega
  · rw [hg]
    have hlen : 0 < k * ring.itemLen := Nat.mul_pos hpos ring.itemLen_pos
    have hlt := (advanceRd { ring with currRd := ring.rd, wr } k).rd_lt
    simp only [region_inside ring.itemLen_pos, hlen, Nat.dvd_mul_left, true_and]
    constructor
    · rintro ⟨hin, -⟩
      unfold limitItems readAvailSpace at hk
      split at hk <;> split at hk <;> omega
    · intro hc
      refine ⟨?_, hlt⟩
      unfold limitItems readAvailSpace at hk
      split at hk <;> split at hk <;> omega

/-- With a published index inside the ring, a call returns the next `k` slots. -/
theorem getReadAddr_next {ring ring' : MsgbufRing} {wr bound r0 R : Nat}
    {res : Option (Nat × Nat)} (hw : wr < ring.maxItems)
    (hrd : ring.rd = (r0 + R) % ring.maxItems) (h : getReadAddr ring wr bound = (ring', res)) :
    ring'.maxItems = ring.maxItems ∧ ring'.itemLen = ring.itemLen ∧ ∃ k,
      ring'.rd = (r0 + (R + k)) % ring.maxItems ∧
      itemsIn ring.itemLen res =
        (List.range' R k).map fun j => (r0 + j) % ring.maxItems := by
  have hlt := ring.rd_lt
  rcases getReadAddr_cases ring wr bound with ⟨hg, -⟩ | ⟨k, hg, hk, -, -, hav⟩
  · rw [hg] at h
    cases h
    exact ⟨rfl, rfl, 0, hrd, rfl⟩
  · rw [hg] at h
    cases h
    have hin : (r0 + R) % ring.maxItems + k ≤ ring.maxItems := by
      rw [← hrd]
      unfold readAvailSpace at hav
      split at hav <;> omega
    refine ⟨rfl, rfl, k, ?_, ?_⟩
    · have hnext : nextRd ring k = (r0 + R + k) % ring.maxItems := by
        rw [add_mod_wrap hin, ← hrd]
        unfold nextRd
        split <;> split <;> omega
      rw [← Nat.add_assoc, ← hnext]
      rfl
    · rw [itemsIn_region ring.itemLen_pos, hrd, range'_mod hin,
        ← List.map_add_range' (a := r0), List.map_map]
      rfl

/-- The invariant of a run from `ring₀`: `R` items were returned. -/
def Inv (ring₀ ring : MsgbufRing) (tr : List (Call × Option (Nat × Nat))) : Prop :=
  ring.maxItems = ring₀.maxItems ∧ ring.itemLen = ring₀.itemLen ∧ ∃ R,
    ring.rd = (ring₀.rd + R) % ring₀.maxItems ∧
    itemsRead ring₀.itemLen tr =
      (List.range R).map fun j => (ring₀.rd + j) % ring₀.maxItems

theorem step_inv {ring₀ : MsgbufRing} (ring : MsgbufRing) (tr : List (Call × Option (Nat × Nat)))
    (c : Call) (ring' : MsgbufRing) (res : Option (Nat × Nat)) (hi : Inv ring₀ ring tr)
    (hc : validWr ring c = true) (hs : step ring c = some (ring', res)) :
    Inv ring₀ ring' (tr ++ [(c, res)]) := by
  obtain ⟨hmax, hlen, R, hrd, hread⟩ := hi
  unfold validWr at hc
  rw [decide_eq_true_eq] at hc
  rw [← hmax] at hrd
  obtain ⟨h1, h2, k, h3, h4⟩ := getReadAddr_next hc hrd (Option.some.inj hs)
  refine ⟨by rw [h1, hmax], by rw [h2, hlen], R + k, by rw [h3, hmax], ?_⟩
  unfold itemsRead at hread ⊢
  rw [List.flatMap_append, hread, List.range_add, List.map_append, ← List.range'_eq_map_range,
    ← hmax, ← h4, hlen]
  simp

theorem runs_keep_inv (ring₀ : MsgbufRing) (es : List Call) (ring : MsgbufRing)
    (tr : List (Call × Option (Nat × Nat))) (hm : meets step validWr ring₀ es = true)
    (h : runs step ring₀ es = some (ring, tr)) : Inv ring₀ ring tr :=
  runs_inv_of_meets step validWr (Inv ring₀) step_inv ring₀ ring es tr
    ⟨rfl, rfl, 0, (Nat.mod_eq_of_lt ring₀.rd_lt).symm, rfl⟩ hm h

/-! ## Top theorem -/

/-- **Reads stay inside the ring exactly when** the published index does, or the bound
or the sanity check on `items` catches it; and over a run of indices inside the ring the
items returned are consecutive slots. -/
theorem readInside_iff_and_runs (ring₀ : MsgbufRing) :
    (∀ wr bound, readInside ring₀ wr bound ↔
      wr ≤ ring₀.maxItems ∨ ring₀.maxItems < wr - ring₀.rd ∨
        (bound ≠ 0 ∧ ring₀.rd + bound ≤ ring₀.maxItems)) ∧
    (∀ es ring tr, meets step validWr ring₀ es = true → runs step ring₀ es = some (ring, tr) →
      itemsRead ring₀.itemLen tr =
        (List.range (itemsRead ring₀.itemLen tr).length).map
          (fun j => (ring₀.rd + j) % ring₀.maxItems) ∧
      ring.rd = (ring₀.rd + (itemsRead ring₀.itemLen tr).length) % ring₀.maxItems) := by
  refine ⟨fun wr bound => readInside_iff ring₀ wr bound, fun es ring tr hm h => ?_⟩
  obtain ⟨-, -, R, hrd, hread⟩ := runs_keep_inv ring₀ es ring tr hm h
  have hlen : (itemsRead ring₀.itemLen tr).length = R := by rw [hread]; simp
  rw [hlen]
  exact ⟨hread, hrd⟩

/-- A ring of 4 items of 8 bytes, read up to item 3. -/
def ringAt3 : MsgbufRing := ⟨4, 8, 3, 0, 0, 0, by decide, by decide⟩

theorem readInside_iff_and_runs_four :
    (readInside ringAt3 1 0 ↔ 1 ≤ 4 ∨ 4 < 1 - 3 ∨ (0 ≠ 0 ∧ 3 + 0 ≤ 4)) ∧
    itemsRead 8 [(⟨1, 0⟩, some (24, 8)), (⟨1, 0⟩, some (0, 8))] =
      (List.range 2).map fun j => (3 + j) % 4 :=
  ⟨(readInside_iff_and_runs ringAt3).1 1 0,
    ((readInside_iff_and_runs ringAt3).2 [⟨1, 0⟩, ⟨1, 0⟩] ⟨4, 8, 1, 1, 0, 0, by decide, by decide⟩
      [(⟨1, 0⟩, some (24, 8)), (⟨1, 0⟩, some (0, 8))] (by decide) (by decide)).1⟩

/-- With `rd` at item 3 of 4, the index 5 is taken for two items, the second of which
lies behind the ring. -/
theorem readInside_fails : ¬ readInside ringAt3 5 0 := by
  rw [readInside_iff]
  decide

end Bcmdhd.D2HRing
