import Bcmdhd.Sdio.GlomRetry
import Bcmdhd.Sdio.PacketChain
import Bcmdhd.Sdio.TxFrame

/-!
# What a superframe is parsed from (`dhdsdio_rxglom`)

The descriptor lists the lengths of the subframes.  A packet is allocated for each; the last one is
lengthened so that the total fills whole blocks.  The superframe is read into the packets, straight
or by way of `bus->dataptr`, and their headers are checked.

    every read is parsed inside what was received  ↔
      the block size is not 0, the last packet was not lengthened to a few bytes,
      no packet is behind the 16 bits of the total,
      and no chain is read by way of the copy buffer              (rxglom_inside_iff)

Lengths and totals have 16 bits: a packet lengthened beyond them is short, and of a longer chain
only a part is read.  In the copy mode a chain of several packets is read to a buffer of the driver,
of which nothing is copied to the packets, and the read succeeds.
-/

namespace Bcmdhd.Sdio.GlomBounds

open GlomRetry (Skb Mem Read pkttotlen)
open PacketChain (COPY_BUF_SIZE)
open RxGlom (SDPCM_GLOM_CHANNEL SDPCM_DATA_CHANNEL SDPCM_HDRLEN roundup)
open TxFrame (DHD_SDALIGN)

/-! ## Algorithm -/

/-- `txglom_mode`: `SDPCM_TXGLOM_CPY` and `SDPCM_TXGLOM_MDESC` -/
inductive GlomMode where
  | cpy
  | mdesc
  deriving DecidableEq

structure Bus where
  useRxchain : Bool
  /-- `bus->dataptr` is not `NULL`. -/
  dataptr : Bool
  blocksize : Nat
  txglomMode : GlomMode

/-- The length of the last packet: adjusted so that the total is a block multiple. -/
def lastLen (blocksize totlen sublen : Nat) : Nat :=
  (0x100000000 + sublen + roundup totlen blocksize - totlen) % 0x10000

/-- The packets that were allocated, and `usechain`. -/
structure Chain where
  lens : List Nat
  usechain : Bool

/-- The descriptor is refused at an entry that is too short.  `num` has 8 bits. -/
def entryBad (num sublen : Nat) : Bool :=
  sublen < SDPCM_HDRLEN ∨ (num % 0x100 = 0 ∧ sublen < 2 * SDPCM_HDRLEN)

/-- The loop over the descriptor; `pktget` are the outcomes of `PKTGET`.  `none` is a division by
zero. -/
def descLoop (blocksize : Nat) (pktget : Nat → Bool) :
    Nat → Nat → Bool → List UInt8 → Option (Option Chain)
  | num, totlen, usechain, b₀ :: b₁ :: dptr =>
    let sublen := b₀.toNat + 0x100 * b₁.toNat
    if entryBad num sublen then some none
    else
      let usechain := usechain && sublen % DHD_SDALIGN = 0
      let totlen := (totlen + sublen) % 0x10000
      -- For last frame, adjust read len so total is a block multiple
      if dptr = [] then
        if blocksize = 0 then none
        else if pktget num then some (some ⟨[lastLen blocksize totlen sublen], usechain⟩)
        else some none
      else if pktget num then
        (descLoop blocksize pktget (num + 1) totlen usechain dptr).map
          (Option.map fun c => ⟨sublen :: c.lens, c.usechain⟩)
      else some none
  | _, _, _, _ => some none

/-- A bad length is ignored with the descriptor. -/
def descBytes (glomd : List UInt8) : List UInt8 :=
  let dlen := glomd.length % 0x10000
  if dlen = 0 ∨ dlen % 2 = 1 then [] else glomd.take dlen

/-- The packets of a chain, by their number. -/
def packets : Nat → List Nat → List Skb
  | _, [] => []
  | k, l :: lens => ⟨k, 0, l⟩ :: packets (k + 1) lens

/-- A subframe that is passed on: the payload is from `doff` to `sublen`. -/
structure Delivered where
  pkt : Skb
  doff : Nat
  sublen : Nat

/-- What a call does: how often the descriptor is freed, and how many bytes of which packets are
read as a header; `got` are the bytes that the read has brought. -/
structure Outcome where
  glomdFreed : Nat
  headers : List (Skb × Nat)
  delivered : List Delivered
  got : Nat → Nat → Bool

/-- Validate all the subframe headers: whether they are, and what is read for it. -/
def validate (mem : Mem) : List Skb → Bool × List (Skb × Nat)
  | [] => (true, [])
  | p :: rest =>
    if p.subframeOk mem then ((validate mem rest).1, (p, 8) :: (validate mem rest).2)
    else (false, [(p, 8)])

/-- Process each packet; one without payload is freed. -/
def deliver (mem : Mem) (pkts : List Skb) : List Delivered :=
  (pkts.map fun p => ⟨p, p.doff mem, p.sublen mem⟩).filter fun d => d.sublen ≠ d.doff

/-- How a superframe comes to its packets. -/
inductive Way where
  /-- straight -/
  | chain
  /-- in the copy mode, where several packets share `localbuf` -/
  | copied
  /-- by way of `bus->dataptr` -/
  | buffer

def way (bus : Bus) (usechain : Bool) (ls : List Nat) : Way :=
  if usechain then if bus.txglomMode = .cpy ∧ 2 ≤ ls.length then .copied else .chain
  else .buffer

/-- What comes of the read; `xfer` are the packets whose own transfer succeeds, in the copy mode. -/
structure Result extends Read where
  xfer : Nat → Bool

/-- The bytes that are received.  The copy mode transfers a packet by itself as long as it and those
behind it exceed `localbuf`; and of `localbuf` nothing is copied back. -/
def gotten (w : Way) (ls : List Nat) (xfer : Nat → Bool) (id i : Nat) : Bool :=
  match w with
  | .chain => true
  | .copied => COPY_BUF_SIZE < (ls.drop id).sum && xfer id
  | .buffer => (ls.take id).sum + i < ls.sum % 0x10000

/-- The superframe was read; `got` are the bytes received. -/
def parse (blocksize : Nat) (ls : List Nat) (got : Nat → Nat → Bool) (mem : Mem) : Outcome :=
  match packets 0 ls with
  | [] => ⟨1, [], [], got⟩
  | p :: rest =>
    if p.superframeOk mem blocksize (pkttotlen (p :: rest) % 0x10000) then
      -- Remove superframe header
      let pkts := p.pull (p.doff mem) :: rest
      let v := validate mem pkts
      if v.1 then ⟨1, (p, 10) :: v.2 ++ pkts.map (·, 8), deliver mem pkts, got⟩
      else ⟨1, (p, 10) :: v.2, [], got⟩
    else ⟨1, [(p, 10)], [], got⟩

/-- The descriptor is freed, and nothing is read. -/
def nothing : Outcome := ⟨1, [], [], fun _ _ => false⟩

/-- Without a packet chain to use and a buffer, the read fails. -/
def readChain (bus : Bus) (read : Result) : Option Chain → Outcome
  | none => nothing
  | some c =>
    if (c.usechain || bus.dataptr) && !read.err then
      parse bus.blocksize c.lens (gotten (way bus c.usechain c.lens) c.lens read.xfer) read.mem
    else nothing

/-- A call with a descriptor. -/
def rxglom (bus : Bus) (pktget : Nat → Bool) (glomd : List UInt8) (read : Result) :
    Option Outcome :=
  (descLoop bus.blocksize pktget 0 0 bus.useRxchain (descBytes glomd)).map (readChain bus read)

/-! ## What it promises -/

/-- Headers are read inside their packets, and payloads consist of bytes received. -/
structure Inside (o : Outcome) : Prop where
  headers : ∀ h ∈ o.headers, h.2 ≤ h.1.len
  payloads : ∀ d ∈ o.delivered, d.doff ≤ d.sublen ∧ d.sublen ≤ d.pkt.len ∧
    ∀ i, d.doff ≤ i → i < d.sublen → o.got d.pkt.id (d.pkt.data + i) = true

/-- The call ends, frees the descriptor once, and reads nothing else. -/
def Safe (r : Option Outcome) : Prop := ∃ o, r = some o ∧ o.glomdFreed = 1 ∧ Inside o

/-! ## Conditions on the descriptor -/

/-- The lengths in a descriptor. -/
def entries : List UInt8 → List Nat
  | b₀ :: b₁ :: rest => (b₀.toNat + 0x100 * b₁.toNat) :: entries rest
  | _ => []

/-- No entry is bad, and each but the last finds a packet. -/
def reached (pktget : Nat → Bool) : Nat → List Nat → Bool
  | _, [] => false
  | num, e :: es =>
    !entryBad num e && (es.isEmpty || (pktget num && reached pktget (num + 1) es))

/-- The lengths of the packets for the entries. -/
def lens (blocksize : Nat) : Nat → List Nat → List Nat
  | _, [] => []
  | totlen, e :: es =>
    if es = [] then [lastLen blocksize ((totlen + e) % 0x10000) e]
    else e :: lens blocksize ((totlen + e) % 0x10000) es

/-- `usechain` -/
def chained (bus : Bus) (es : List Nat) : Bool :=
  bus.useRxchain && es.all (· % DHD_SDALIGN = 0)

/-- The packet is longer than the headers in it. -/
def Roomy (i l : Nat) : Prop := (if i = 0 then 2 * SDPCM_HDRLEN else SDPCM_HDRLEN) < l

/-- A payload can only be where bytes are received. -/
def Received (ls : List Nat) : Way → Prop
  | .chain => True
  | .copied => ∀ i l, ls[i]? = some l → ¬ Roomy i l
  | .buffer => ∀ i l, ls[i]? = some l → Roomy i l → (ls.take i).sum + l ≤ ls.sum % 0x10000

/-- The last packet holds the headers read of it; and where the total can be that of a superframe,
payloads are received. -/
structure Fits (blocksize : Nat) (w : Way) (ls : List Nat) : Prop where
  single : ∀ l, ls = [l] → 10 ≤ l
  last : ∀ l, 2 ≤ ls.length → ls.getLast? = some l → blocksize ∣ ls.sum % 0x10000 →
    8 ≤ l ∧ (SDPCM_HDRLEN ≤ l → Received ls w)

/-! ## The descriptor -/

section
variable {blocksize num totlen : Nat} {pktget : Nat → Bool} {usechain : Bool}

theorem entries_eq_nil {ds : List UInt8} (h : ds.length % 2 = 0) : entries ds = [] ↔ ds = [] := by
  match ds with
  | [] => exact iff_of_true rfl rfl
  | [_] => simp at h
  | _ :: _ :: _ => exact iff_of_false (List.cons_ne_nil _ _) (List.cons_ne_nil _ _)

/-- The loop refuses, divides by zero, or builds the chain of the entries. -/
theorem descLoop_eq : ∀ (num totlen : Nat) (usechain : Bool) (ds : List UInt8),
    ds.length % 2 = 0 → descLoop blocksize pktget num totlen usechain ds =
      if reached pktget num (entries ds) then
        if blocksize = 0 then none
        else if pktget (num + (entries ds).length - 1) then
          some (some ⟨lens blocksize totlen (entries ds),
            usechain && (entries ds).all (· % DHD_SDALIGN = 0)⟩)
        else some none
      else some none
  | _, _, _, [], _ => rfl
  | _, _, _, [_], h => by simp at h
  | num, totlen, usechain, b₀ :: b₁ :: ds, h => by
    have heven : ds.length % 2 = 0 := by
      simp only [List.length_cons] at h
      omega
    unfold descLoop entries reached lens
    dsimp only
    generalize b₀.toNat + 0x100 * b₁.toNat = e
    cases hbad : entryBad num e with
    | true => simp
    | false =>
      by_cases hnil : ds = []
      · subst hnil
        simp [entries]
      · have hne : entries ds ≠ [] := fun hnil' => hnil ((entries_eq_nil heven).1 hnil')
        have hempty : (entries ds).isEmpty = false := by
          rw [List.isEmpty_eq_false_iff]
          exact hne
        have hidx : num + ((entries ds).length + 1) - 1 = num + 1 + (entries ds).length - 1 := by
          omega
        rw [descLoop_eq (num + 1) _ _ ds heven]
        simp only [Bool.false_eq_true, if_false, hnil, hne, hempty, List.length_cons, hidx,
          Bool.not_false, Bool.true_and, Bool.false_or, List.all_cons]
        cases hget : pktget num with
        | false => simp
        | true =>
          cases hre : reached pktget (num + 1) (entries ds) with
          | false => simp
          | true =>
            by_cases hzero : blocksize = 0
            · simp [hzero]
            · cases hlast : pktget (num + 1 + (entries ds).length - 1) with
              | false => simp [hzero]
              | true => simp [hzero, Bool.and_assoc]

theorem descBytes_even (glomd : List UInt8) : (descBytes glomd).length % 2 = 0 := by
  unfold descBytes
  dsimp only
  split
  · rfl
  · rw [List.length_take]
    omega

theorem entries_lt {ds : List UInt8} : ∀ e ∈ entries ds, e < 0x10000 := by
  match ds with
  | [] => exact fun e he => by cases he
  | [_] => exact fun e he => by cases he
  | b₀ :: b₁ :: ds =>
    intro e he
    have h₀ := b₀.toNat_lt
    have h₁ := b₁.toNat_lt
    rcases List.mem_cons.1 he with rfl | he
    · omega
    · exact entries_lt e he

theorem lens_ne_nil {es : List Nat} (h : es ≠ []) : lens blocksize totlen es ≠ [] := by
  cases es with
  | nil => exact absurd rfl h
  | cons e es =>
    unfold lens
    split
    · exact List.cons_ne_nil _ _
    · exact List.cons_ne_nil _ _

/-- What the packets of a chain have in common. -/
structure Shape (ls : List Nat) : Prop where
  ne : ls ≠ []
  lt : ∀ l ∈ ls, l < 0x10000
  /-- all but the last are as long as their entries -/
  short : ∀ i l, i + 1 < ls.length → ls[i]? = some l → SDPCM_HDRLEN ≤ l
  /-- so the first one has room for two headers -/
  first : ∀ l, 2 ≤ ls.length → ls.head? = some l → 2 * SDPCM_HDRLEN ≤ l

theorem entryBad_eq_false {e : Nat} (h : entryBad num e = false) :
    SDPCM_HDRLEN ≤ e ∧ (num % 0x100 = 0 → 2 * SDPCM_HDRLEN ≤ e) := by
  have hno := of_decide_eq_false h
  rw [not_or, not_and] at hno
  exact ⟨Nat.le_of_not_lt hno.1, fun hz => Nat.le_of_not_lt (hno.2 hz)⟩

theorem lens_short {es : List Nat} (h : reached pktget num es = true) :
    ∀ i l, i + 1 < (lens blocksize totlen es).length → (lens blocksize totlen es)[i]? = some l →
      SDPCM_HDRLEN ≤ l := by
  induction es generalizing num totlen with
  | nil => cases h
  | cons e es ih =>
    intro i l hi hget
    unfold reached at h
    rw [Bool.and_eq_true, Bool.not_eq_true'] at h
    obtain ⟨hbad, hrest⟩ := h
    unfold lens at hi hget
    split at hi
    · simp at hi
    · next hne =>
      rw [if_neg hne] at hget
      have hempty : es.isEmpty = false := by
        rw [List.isEmpty_eq_false_iff]
        exact hne
      rw [hempty, Bool.false_or, Bool.and_eq_true] at hrest
      cases i with
      | zero =>
        cases hget
        exact (entryBad_eq_false hbad).1
      | succ i =>
        rw [List.length_cons] at hi
        exact ih hrest.2 i l (by omega) hget

theorem lens_lt {es : List Nat} (h : ∀ e ∈ es, e < 0x10000) :
    ∀ l ∈ lens blocksize totlen es, l < 0x10000 := by
  induction es generalizing totlen with
  | nil =>
    intro l hl
    cases hl
  | cons e es ih =>
    intro l hl
    unfold lens at hl
    split at hl
    · rw [List.mem_singleton] at hl
      subst hl
      exact Nat.mod_lt _ (by decide)
    · rcases List.mem_cons.1 hl with rfl | hl
      · exact h _ List.mem_cons_self
      · exact ih (fun x hx => h x (List.mem_cons_of_mem _ hx)) l hl

theorem shape_lens {ds : List UInt8} (h : reached pktget 0 (entries ds) = true) :
    Shape (lens blocksize totlen (entries ds)) := by
  have hne : entries ds ≠ [] := by
    intro hnil
    rw [hnil] at h
    cases h
  refine ⟨lens_ne_nil hne, lens_lt entries_lt, lens_short h, ?_⟩
  intro l hlen hhead
  cases hes : entries ds with
  | nil => exact absurd hes hne
  | cons e es =>
    rw [hes] at h hlen hhead
    unfold reached at h
    rw [Bool.and_eq_true, Bool.not_eq_true'] at h
    unfold lens at hlen hhead
    split at hlen
    · simp at hlen
    · next hmore =>
      rw [if_neg hmore] at hhead
      cases hhead
      exact (entryBad_eq_false h.1).2 rfl

end

/-! ## The packets -/

section
variable {mem : Mem} {blocksize k l n : Nat} {ls rest : List Nat} {p q : Skb} {pkts : List Skb}
  {w : Way} {xfer : Nat → Bool} {got : Nat → Nat → Bool} {c : UInt8}

theorem mem_packets_iff :
    p ∈ packets k ls ↔ ∃ i, ls[i]? = some p.len ∧ p.id = k + i ∧ p.data = 0 := by
  induction ls generalizing k with
  | nil => simp [packets]
  | cons l ls ih =>
    unfold packets
    rw [List.mem_cons, ih]
    constructor
    · rintro (rfl | ⟨i, hi, hid, hd⟩)
      · exact ⟨0, rfl, rfl, rfl⟩
      · exact ⟨i + 1, hi, by omega, hd⟩
    · rintro ⟨i, hi, hid, hd⟩
      cases i with
      | zero =>
        left
        cases hi
        cases p
        simp only [Nat.add_zero] at hid hd
        rw [hid, hd]
      | succ i => exact .inr ⟨i, hi, by omega, hd⟩

theorem pkttotlen_packets : pkttotlen (packets k ls) = ls.sum := by
  unfold pkttotlen
  induction ls generalizing k with
  | nil => rfl
  | cons l ls ih =>
    unfold packets
    rw [List.map_cons, List.sum_cons, List.sum_cons, ih]

theorem dvd_of_superframeOk {dlen : Nat} (h : p.superframeOk mem blocksize dlen = true) :
    blocksize ∣ dlen := by
  unfold Skb.superframeOk RxGlom.Header.superframeOk at h
  obtain ⟨-, hround, -⟩ := of_decide_eq_true h
  rw [← hround]
  exact Nat.dvd_mul_left _ _

theorem doff_of_superframeOk {dlen : Nat} (h : p.superframeOk mem blocksize dlen = true) :
    12 ≤ p.doff mem ∧ p.doff mem ≤ (p.len + 0x100000000 - 12) % 0x100000000 := by
  unfold Skb.superframeOk RxGlom.Header.superframeOk at h
  obtain ⟨-, -, -, -, hmin, hmax⟩ := of_decide_eq_true h
  exact ⟨hmin, hmax⟩

theorem subframeOk_lengths (h : p.subframeOk mem = true) :
    12 ≤ p.doff mem ∧ p.doff mem ≤ p.sublen mem ∧ p.sublen mem ≤ p.len := by
  unfold Skb.subframeOk RxGlom.Header.subframeOk at h
  obtain ⟨-, hlen, -, -, hmin, hmax⟩ := of_decide_eq_true h
  have hmod := Nat.mod_le p.len 0x10000
  exact ⟨hmin, hmax, Nat.le_trans hlen hmod⟩

theorem validate_fst : (validate mem pkts).1 = pkts.all (Skb.subframeOk mem) := by
  induction pkts with
  | nil => rfl
  | cons p pkts ih =>
    unfold validate
    rw [List.all_cons]
    split
    · next h => rw [ih, h, Bool.true_and]
    · next h => rw [Bool.eq_false_iff.2 h, Bool.false_and]

/-- Only headers of the packets are read. -/
theorem mem_validate {x : Skb × Nat} (h : x ∈ (validate mem pkts).2) : x.1 ∈ pkts ∧ x.2 = 8 := by
  induction pkts with
  | nil => cases h
  | cons p pkts ih =>
    unfold validate at h
    split at h
    · rcases List.mem_cons.1 h with rfl | h
      · exact ⟨List.mem_cons_self, rfl⟩
      · obtain ⟨hmem, heq⟩ := ih h
        exact ⟨List.mem_cons_of_mem _ hmem, heq⟩
    · rw [List.mem_singleton] at h
      subst h
      exact ⟨List.mem_cons_self, rfl⟩

/-- The header behind valid ones is read. -/
theorem validate_reads (hok : ∀ r ∈ pkts, r.subframeOk mem = true) :
    (p, 8) ∈ (validate mem (pkts ++ [p])).2 := by
  induction pkts with
  | nil =>
    show (p, 8) ∈ (validate mem [p]).2
    unfold validate
    split
    · exact List.mem_cons_self
    · exact List.mem_cons_self
  | cons r pkts ih =>
    rw [List.cons_append]
    unfold validate
    rw [if_pos (hok r List.mem_cons_self)]
    exact List.mem_cons_of_mem _ (ih fun x hx => hok x (List.mem_cons_of_mem _ hx))

/-- The first packet behind the superframe header.  One without room for it is left as it is. -/
theorem pull_superframe (hl : l < 0x10000) (h10 : 10 ≤ l) {dlen : Nat}
    (h : Skb.superframeOk mem ⟨0, 0, l⟩ blocksize dlen = true) :
    ∃ q, (⟨0, 0, l⟩ : Skb).pull (Skb.doff mem ⟨0, 0, l⟩) = q ∧ q.id = 0 ∧ q.data + q.len = l ∧
      8 ≤ q.len ∧ (12 ≤ q.data ∨ l < 12) := by
  obtain ⟨hmin, hmax⟩ := doff_of_superframeOk h
  generalize Skb.doff mem ⟨0, 0, l⟩ = d at hmin hmax ⊢
  have hmax' : d ≤ (l + 0x100000000 - 12) % 0x100000000 := hmax
  unfold Skb.pull
  split
  · next hlt =>
    have hlt' : l < d := hlt
    refine ⟨_, rfl, rfl, Nat.zero_add l, ?_, ?_⟩
    · exact Nat.le_trans (by decide) h10
    · right
      omega
  · next hle =>
    have hle' : ¬l < d := hle
    refine ⟨_, rfl, rfl, ?_, ?_, ?_⟩
    · show 0 + d + (l - d) = l
      omega
    · show 8 ≤ l - d
      omega
    · left
      show 12 ≤ 0 + d
      omega

/-! ## What fits is read inside -/

/-- A packet behind the first is not shorter than a header. -/
theorem eight_le_rest (hs : Shape (l :: rest)) (hf : Fits blocksize w (l :: rest))
    (hdvd : blocksize ∣ (l :: rest).sum % 0x10000) (hp : p ∈ packets 1 rest) : 8 ≤ p.len := by
  obtain ⟨i, hi, -, -⟩ := mem_packets_iff.1 hp
  obtain ⟨hlt, -⟩ := List.getElem?_eq_some_iff.1 hi
  have hlen : (l :: rest).length = rest.length + 1 := rfl
  by_cases hmore : i + 1 < rest.length
  · have h12 := hs.short (i + 1) p.len (by omega) hi
    exact Nat.le_trans (by decide) h12
  · have hlast : (l :: rest).getLast? = some p.len := by
      rw [List.getLast?_eq_getElem?, hlen, show rest.length + 1 - 1 = i + 1 by omega]
      exact hi
    exact (hf.last p.len (by omega) hlast hdvd).1

/-- The last of several subframes is valid, so its packet holds a header. -/
theorem received_of_valid (hf : Fits blocksize w (l :: rest))
    (hdvd : blocksize ∣ (l :: rest).sum % 0x10000) (hne : rest ≠ [])
    (hok : ∀ r ∈ packets 1 rest, r.subframeOk mem = true) : Received (l :: rest) w := by
  have hget : rest[rest.length - 1]? = some (rest.getLast hne) := by
    rw [← List.getLast?_eq_getElem?, List.getLast?_eq_some_getLast hne]
  have hmem : (⟨1 + (rest.length - 1), 0, rest.getLast hne⟩ : Skb) ∈ packets 1 rest :=
    mem_packets_iff.2 ⟨_, hget, rfl, rfl⟩
  obtain ⟨hmin, hle, hmax⟩ := subframeOk_lengths (hok _ hmem)
  have hlast : (l :: rest).getLast? = some (rest.getLast hne) := by
    rw [List.getLast?_cons_of_ne_nil hne, List.getLast?_eq_some_getLast hne]
  have hlen : 2 ≤ (l :: rest).length := by
    have hpos := List.length_pos_iff.2 hne
    rw [List.length_cons]
    omega
  exact (hf.last _ hlen hlast hdvd).2 (Nat.le_trans hmin (Nat.le_trans hle hmax))

/-- A packet with a payload is longer than its headers. -/
theorem roomy_of_payload (h24 : 24 ≤ l) (hid : q.id = 0) (hend : q.data + q.len = l)
    (hdata : 12 ≤ q.data ∨ l < 12) (hp : p ∈ q :: packets 1 rest) (h12 : 12 < p.len) :
    ∃ n, (l :: rest)[p.id]? = some n ∧ Roomy p.id n ∧ p.data + p.len = n := by
  unfold Roomy SDPCM_HDRLEN
  rcases List.mem_cons.1 hp with rfl | hp
  · refine ⟨l, ?_, ?_, hend⟩
    · rw [hid]
      rfl
    · rw [if_pos hid]
      omega
  · obtain ⟨j, hj, hpid, hpd⟩ := mem_packets_iff.1 hp
    refine ⟨p.len, ?_, ?_, ?_⟩
    · rw [hpid, Nat.add_comm 1 j, List.getElem?_cons_succ]
      exact hj
    · rw [if_neg (by omega)]
      exact h12
    · rw [hpd, Nat.zero_add]

/-- Bytes of a valid payload were received. -/
theorem got_of_valid (hs : Shape (l :: rest)) (hf : Fits blocksize w (l :: rest))
    (hcopied : w = .copied → rest ≠ []) (hdvd : blocksize ∣ (l :: rest).sum % 0x10000)
    (hid : q.id = 0) (hend : q.data + q.len = l) (hdata : 12 ≤ q.data ∨ l < 12)
    (hok : ∀ r ∈ q :: packets 1 rest, r.subframeOk mem = true) (hp : p ∈ q :: packets 1 rest)
    {i : Nat} (hi₁ : p.doff mem ≤ i) (hi₂ : i < p.sublen mem) :
    gotten w (l :: rest) xfer p.id (p.data + i) = true := by
  obtain ⟨hmin, -, hmax⟩ := subframeOk_lengths (hok p hp)
  by_cases hne : rest = []
  · cases w with
    | chain => rfl
    | copied => exact absurd hne (hcopied rfl)
    | buffer =>
      subst hne
      have hpq : p = q := by simpa [packets] using hp
      have hlt := hs.lt l List.mem_cons_self
      rw [hpq] at hi₂ hmax ⊢
      show decide (([l].take q.id).sum + (q.data + i) < [l].sum % 0x10000) = true
      rw [decide_eq_true_iff, hid, List.take_zero, List.sum_nil, List.sum_singleton]
      omega
  · have hlen : 2 ≤ (l :: rest).length := by
      have hpos := List.length_pos_iff.2 hne
      rw [List.length_cons]
      omega
    have hrec := received_of_valid hf hdvd hne fun r hr => hok r (List.mem_cons_of_mem _ hr)
    obtain ⟨n, hn, hroom, hpn⟩ :=
      roomy_of_payload (hs.first l hlen rfl) hid hend hdata hp (by omega)
    cases w with
    | chain => rfl
    | copied => exact absurd hroom (hrec _ n hn)
    | buffer =>
      have hfit := hrec _ n hn hroom
      show decide (((l :: rest).take p.id).sum + (p.data + i) < (l :: rest).sum % 0x10000) = true
      rw [decide_eq_true_iff]
      omega

theorem parse_inside_of_fits (hs : Shape ls) (hf : Fits blocksize w ls)
    (hcopied : w = .copied → 2 ≤ ls.length) (mem : Mem) :
    Inside (parse blocksize ls (gotten w ls xfer) mem) := by
  cases hls : ls with
  | nil => exact absurd hls hs.ne
  | cons l rest =>
    subst hls
    have h10 : 10 ≤ l := by
      cases hrest : rest with
      | nil =>
        rw [hrest] at hf
        exact hf.single l rfl
      | cons x xs =>
        rw [hrest] at hs
        have h24 := hs.first l (by simp) rfl
        exact Nat.le_trans (by decide) h24
    have htotal : pkttotlen (⟨0, 0, l⟩ :: packets 1 rest) = (l :: rest).sum :=
      @pkttotlen_packets 0 (l :: rest)
    have hmany : w = .copied → rest ≠ [] := by
      rintro hw rfl
      exact absurd (hcopied hw) (by simp)
    unfold parse
    simp only [packets]
    split
    · next hok =>
      rw [htotal] at hok
      have hdvd := dvd_of_superframeOk hok
      obtain ⟨q, hq, hid, hend, h8, hdata⟩ := pull_superframe (hs.lt l List.mem_cons_self) h10 hok
      rw [hq]
      have hall : ∀ r ∈ q :: packets 1 rest, 8 ≤ r.len := by
        intro r hr
        rcases List.mem_cons.1 hr with rfl | hr
        · exact h8
        · exact eight_le_rest hs hf hdvd hr
      have hreads : ∀ x ∈ (⟨0, 0, l⟩, 10) :: (validate mem (q :: packets 1 rest)).2,
          x.2 ≤ Skb.len x.1 := by
        intro x hx
        rcases List.mem_cons.1 hx with rfl | hx
        · exact h10
        · obtain ⟨hmem, h⟩ := mem_validate hx
          rw [h]
          exact hall _ hmem
      split
      · next hvalid =>
        rw [validate_fst, List.all_eq_true] at hvalid
        refine ⟨?_, ?_⟩
        · intro x hx
          rcases List.mem_append.1 hx with hx | hx
          · exact hreads x hx
          · obtain ⟨r, hr, rfl⟩ := List.mem_map.1 hx
            exact hall r hr
        · intro d hd
          obtain ⟨hd, -⟩ := List.mem_filter.1 hd
          obtain ⟨r, hr, rfl⟩ := List.mem_map.1 hd
          obtain ⟨-, hle, hmax⟩ := subframeOk_lengths (hvalid r hr)
          exact ⟨hle, hmax, fun i hi₁ hi₂ =>
            got_of_valid hs hf hmany hdvd hid hend hdata hvalid hr hi₁ hi₂⟩
      · exact ⟨hreads, fun d hd => by cases hd⟩
    · refine ⟨?_, fun d hd => by cases hd⟩
      intro x hx
      rw [List.mem_singleton] at hx
      subst hx
      exact h10

/-! ## What does not fit -/

/-- The bytes of a header: a length, a channel, and the least data offset. -/
def hdrByte (n : Nat) (c : UInt8) : Nat → UInt8
  | 0 => UInt8.ofNat n
  | 1 => UInt8.ofNat (n / 0x100)
  | 2 => UInt8.ofNat (0xFFFF - n)
  | 3 => UInt8.ofNat ((0xFFFF - n) / 0x100)
  | 5 => c
  | 7 => 12
  | _ => 0

/-- A superframe whose subframes fill their packets. -/
def fullMem (ls : List Nat) : Mem := fun id i =>
  if id = 0 then
    if i < 12 then hdrByte (ls.sum % 0x10000) SDPCM_GLOM_CHANNEL i
    else hdrByte (ls.headD 0 - 12) SDPCM_DATA_CHANNEL (i - 12)
  else hdrByte (ls.getD id 0) SDPCM_DATA_CHANNEL i

theorem xor_complement (h : n < 0x10000) : n ^^^ (0xFFFF - n) = 0xFFFF := by
  have hx : (BitVec.ofNat 16 n ^^^ ~~~BitVec.ofNat 16 n).toNat = 0xFFFF := by
    have hall : BitVec.ofNat 16 n ^^^ ~~~BitVec.ofNat 16 n = BitVec.allOnes 16 := by
      apply BitVec.eq_of_getElem_eq
      intro i hi
      rw [BitVec.getElem_xor, BitVec.getElem_not, BitVec.getElem_allOnes]
      cases (BitVec.ofNat 16 n)[i] <;> rfl
    rw [hall]
    rfl
  rw [BitVec.toNat_xor, BitVec.toNat_not, BitVec.toNat_ofNat] at hx
  rwa [Nat.mod_eq_of_lt (show n < 2 ^ 16 from h)] at hx

theorem ofNat_bytes (h : n < 0x10000) :
    (UInt8.ofNat n).toNat + 0x100 * (UInt8.ofNat (n / 0x100)).toNat = n := by
  have h₀ : (UInt8.ofNat n).toNat = n % 256 := UInt8.toNat_ofNat'
  have h₁ : (UInt8.ofNat (n / 0x100)).toNat = n / 0x100 % 256 := UInt8.toNat_ofNat'
  omega

theorem hdr_fields {byte : Nat → UInt8} (h : ∀ i, i < 8 → byte i = hdrByte n c i)
    (hn : n < 0x10000) :
    RxGlom.Header.sublen byte = n ∧ RxGlom.Header.lenOk byte = true ∧ RxGlom.Header.chan byte = c &&& 0x0f ∧
      RxGlom.Header.glomdesc byte = c &&& 0x80 ∧ RxGlom.Header.doff byte = 12 := by
  have hsub : RxGlom.Header.sublen byte = n := by
    unfold RxGlom.Header.sublen RxGlom.Header.ltoh16
    rw [h 0 (by decide), h 1 (by decide)]
    exact ofNat_bytes hn
  have hcheck : RxGlom.Header.check byte = 0xFFFF - n := by
    unfold RxGlom.Header.check RxGlom.Header.ltoh16
    rw [h 2 (by decide), h 3 (by decide)]
    exact ofNat_bytes (by omega)
  refine ⟨hsub, ?_, ?_, ?_, ?_⟩
  · unfold RxGlom.Header.lenOk
    rw [hsub, hcheck]
    exact decide_eq_true (xor_complement hn)
  · unfold RxGlom.Header.chan
    rw [h 5 (by decide)]
    rfl
  · unfold RxGlom.Header.glomdesc
    rw [h 5 (by decide)]
    rfl
  · unfold RxGlom.Header.doff
    rw [h 7 (by decide)]
    rfl

theorem roundup_of_dvd {x y : Nat} (h : y ∣ x) (hx : x < 0x10000) : roundup x y = x := by
  obtain ⟨m, rfl⟩ := h
  unfold roundup
  rcases Nat.eq_zero_or_pos y with rfl | hy
  · simp
  · rcases Nat.eq_zero_or_pos m with rfl | hm
    · rw [Nat.mul_zero, Nat.add_zero, Nat.div_eq_of_lt, Nat.zero_mul]
      by_cases hbig : y < 0x100000000
      · omega
      · exact Nat.lt_of_lt_of_le (Nat.mod_lt _ (by decide)) (Nat.le_of_not_lt hbig)
    · have hle : y ≤ y * m := Nat.le_mul_of_pos_right y hm
      have hmod : (0xFFFFFFFF + y * m + y) % 0x100000000 = y * m + (y - 1) := by omega
      rw [hmod, Nat.mul_add_div hy, Nat.div_eq_of_lt (Nat.sub_lt hy Nat.one_pos), Nat.add_zero,
        Nat.mul_comm]

theorem full_superframeOk (h24 : 24 ≤ l) (hl : l < 0x10000)
    (hdvd : blocksize ∣ (l :: rest).sum % 0x10000) :
    Skb.superframeOk (fullMem (l :: rest)) ⟨0, 0, l⟩ blocksize ((l :: rest).sum % 0x10000) =
      true := by
  have hlt : (l :: rest).sum % 0x10000 < 0x10000 := Nat.mod_lt _ (by decide)
  have hbyte : ∀ i, i < 8 → Skb.byte (fullMem (l :: rest)) ⟨0, 0, l⟩ i =
      hdrByte ((l :: rest).sum % 0x10000) SDPCM_GLOM_CHANNEL i := by
    intro i hi
    show fullMem (l :: rest) 0 (0 + i) = _
    unfold fullMem
    rw [if_pos rfl, Nat.zero_add, if_pos (by omega)]
  obtain ⟨hsub, hlen, hchan, hdesc, hdoff⟩ := hdr_fields hbyte hlt
  unfold Skb.superframeOk RxGlom.Header.superframeOk
  rw [hsub, hlen, hchan, hdesc, hdoff]
  refine decide_eq_true ⟨rfl, roundup_of_dvd hdvd hlt, by decide, by decide, by decide, ?_⟩
  unfold SDPCM_HDRLEN
  show 12 ≤ (l + 0x100000000 - 12) % 0x100000000
  omega

theorem full_subframeOk (hbyte : ∀ i, i < 8 → p.byte mem i = hdrByte p.len SDPCM_DATA_CHANNEL i)
    (h12 : 12 ≤ p.len) (hl : p.len < 0x10000) :
    p.subframeOk mem = true ∧ p.doff mem = 12 ∧ p.sublen mem = p.len := by
  obtain ⟨hsub, hlen, hchan, -, hdoff⟩ := hdr_fields hbyte hl
  refine ⟨?_, hdoff, hsub⟩
  unfold Skb.subframeOk RxGlom.Header.subframeOk
  rw [hsub, hlen, hchan, hdoff]
  refine decide_eq_true ⟨rfl, ?_, h12, by decide, by decide, h12⟩
  omega

theorem packets_concat (k : Nat) (ls : List Nat) (l : Nat) :
    packets k (ls ++ [l]) = packets k ls ++ [⟨k + ls.length, 0, l⟩] := by
  induction ls generalizing k with
  | nil => rfl
  | cons x ls ih =>
    simp only [List.cons_append, packets, ih, List.length_cons]
    rw [Nat.add_assoc, Nat.add_comm 1 ls.length]

/-- The first subframe of the full superframe. -/
theorem full_first (h24 : 24 ≤ l) (hl : l < 0x10000) :
    Skb.subframeOk (fullMem (l :: rest)) ⟨0, 12, l - 12⟩ = true ∧
      Skb.doff (fullMem (l :: rest)) ⟨0, 12, l - 12⟩ = 12 ∧
      Skb.sublen (fullMem (l :: rest)) ⟨0, 12, l - 12⟩ = l - 12 := by
  apply full_subframeOk
  · intro i _
    show fullMem (l :: rest) 0 (12 + i) = hdrByte (l - 12) SDPCM_DATA_CHANNEL i
    unfold fullMem
    rw [if_pos rfl, if_neg (by omega), Nat.add_sub_cancel_left]
    rfl
  · show 12 ≤ l - 12
    omega
  · show l - 12 < 0x10000
    omega

/-- Those behind it. -/
theorem full_rest (hp : p ∈ packets 1 rest) (h12 : 12 ≤ p.len) (hl : p.len < 0x10000) :
    p.subframeOk (fullMem (l :: rest)) = true ∧ p.doff (fullMem (l :: rest)) = 12 ∧
      p.sublen (fullMem (l :: rest)) = p.len := by
  obtain ⟨j, hj, hid, hd⟩ := mem_packets_iff.1 hp
  refine full_subframeOk (fun i _ => ?_) h12 hl
  unfold Skb.byte fullMem
  rw [hid, hd, if_neg (by omega), Nat.add_comm 1 j, Nat.zero_add]
  have hget : (l :: rest).getD (j + 1) 0 = p.len := by
    rw [List.getD_cons_succ, List.getD_eq_getElem?_getD, hj]
    rfl
  rw [hget]

/-- What is read of the full superframe. -/
theorem parse_full (h24 : 24 ≤ l) (hl : l < 0x10000)
    (hdvd : blocksize ∣ (l :: rest).sum % 0x10000) :
    parse blocksize (l :: rest) got (fullMem (l :: rest)) =
      let pkts := ⟨0, 12, l - 12⟩ :: packets 1 rest
      let v := validate (fullMem (l :: rest)) pkts
      if v.1 then ⟨1, (⟨0, 0, l⟩, 10) :: v.2 ++ pkts.map (·, 8),
        deliver (fullMem (l :: rest)) pkts, got⟩
      else ⟨1, (⟨0, 0, l⟩, 10) :: v.2, [], got⟩ := by
  have htotal : pkttotlen (⟨0, 0, l⟩ :: packets 1 rest) = (l :: rest).sum :=
    @pkttotlen_packets 0 (l :: rest)
  have hok := full_superframeOk (by omega) hl hdvd
  have hdoff : Skb.doff (fullMem (l :: rest)) ⟨0, 0, l⟩ = 12 := by
    show (fullMem (l :: rest) 0 (0 + 7)).toNat = 12
    rfl
  have hpull : (⟨0, 0, l⟩ : Skb).pull 12 = ⟨0, 12, l - 12⟩ := by
    unfold Skb.pull
    rw [if_neg (show ¬l < 12 by omega)]
  unfold parse
  simp only [packets, htotal, hok, if_true, hdoff, hpull]

/-- Where it is delivered, the last byte of every payload was received. -/
theorem full_received (h24 : 24 ≤ l) (hlt : ∀ z ∈ l :: rest, z < 0x10000)
    (hdvd : blocksize ∣ (l :: rest).sum % 0x10000)
    (hvalid : (validate (fullMem (l :: rest)) (⟨0, 12, l - 12⟩ :: packets 1 rest)).1 = true)
    (hin : Inside (parse blocksize (l :: rest) got (fullMem (l :: rest)))) {i n : Nat}
    (hn : (l :: rest)[i]? = some n) (hroom : Roomy i n) : got i (n - 1) = true := by
  have hl := hlt l List.mem_cons_self
  rw [parse_full h24 hl hdvd] at hin
  dsimp only at hin
  rw [if_pos hvalid] at hin
  unfold Roomy SDPCM_HDRLEN at hroom
  cases i with
  | zero =>
    cases hn
    rw [if_pos rfl] at hroom
    obtain ⟨-, hdoff, hsub⟩ := @full_first l rest h24 hl
    have hd := hin.payloads ⟨⟨0, 12, l - 12⟩, 12, l - 12⟩ (by
      refine List.mem_filter.2 ⟨List.mem_map.2 ⟨_, List.mem_cons_self, ?_⟩, ?_⟩
      · rw [hdoff, hsub]
      · exact decide_eq_true (show l - 12 ≠ 12 by omega))
    have hgot := hd.2.2 (l - 13) (show 12 ≤ l - 13 by omega) (show l - 13 < l - 12 by omega)
    have heq : 12 + (l - 13) = l - 1 := by omega
    rw [← heq]
    exact hgot
  | succ i =>
    rw [if_neg (Nat.succ_ne_zero i)] at hroom
    have hmem : (⟨1 + i, 0, n⟩ : Skb) ∈ packets 1 rest := mem_packets_iff.2 ⟨i, hn, rfl, rfl⟩
    have hnlt : n < 0x10000 := hlt n (List.mem_of_getElem? hn)
    obtain ⟨-, hdoff, hsub⟩ := @full_rest l rest _ hmem (Nat.le_of_lt hroom) hnlt
    have hd := hin.payloads ⟨⟨1 + i, 0, n⟩, 12, n⟩ (by
      refine List.mem_filter.2 ⟨List.mem_map.2 ⟨_, List.mem_cons_of_mem _ hmem, ?_⟩, ?_⟩
      · rw [hdoff, hsub]
      · exact decide_eq_true (show n ≠ 12 by omega))
    have hgot := hd.2.2 (n - 1) (show 12 ≤ n - 1 by omega) (show n - 1 < n by omega)
    have heq : 0 + (n - 1) = n - 1 := Nat.zero_add _
    rw [Nat.add_comm i 1, ← heq]
    exact hgot

/-- The full superframe shows it, where in the copy mode every transfer fails. -/
theorem fits_of_inside (hs : Shape ls)
    (h : ∀ xfer mem, Inside (parse blocksize ls (gotten w ls xfer) mem)) :
    Fits blocksize w ls := by
  constructor
  · rintro l rfl
    have hin := (h (fun _ => false) fun _ _ => 0).headers (⟨0, 0, l⟩, 10)
    apply hin
    unfold parse
    simp only [packets]
    split
    · split
      · exact List.mem_append_left _ List.mem_cons_self
      · exact List.mem_cons_self
    · exact List.mem_cons_self
  · intro x hlen hlast hdvd
    obtain ⟨l, rest, rfl⟩ := List.exists_cons_of_ne_nil hs.ne
    have hne : rest ≠ [] := by
      rintro rfl
      simp at hlen
    obtain ⟨init, y, rfl⟩ : ∃ init y, rest = init ++ [y] :=
      ⟨rest.dropLast, rest.getLast hne, (List.dropLast_append_getLast hne).symm⟩
    have hyx : y = x := by
      rw [← List.cons_append, List.getLast?_concat] at hlast
      exact Option.some.inj hlast
    subst hyx
    have h24 : 24 ≤ l := hs.first l hlen rfl
    have hl := hs.lt l List.mem_cons_self
    have hin := h (fun _ => false) (fullMem (l :: (init ++ [y])))
    -- all subframes but the last are valid
    have hinit : ∀ r ∈ ⟨0, 12, l - 12⟩ :: packets 1 init,
        Skb.subframeOk (fullMem (l :: (init ++ [y]))) r = true := by
      intro r hr
      rcases List.mem_cons.1 hr with rfl | hr
      · exact (full_first h24 hl).1
      · have hmem : r ∈ packets 1 (init ++ [y]) := by
          rw [packets_concat]
          exact List.mem_append_left _ hr
        obtain ⟨j, hj, -, -⟩ := mem_packets_iff.1 hr
        obtain ⟨hlt, -⟩ := List.getElem?_eq_some_iff.1 hj
        have hget : (l :: (init ++ [y]))[j + 1]? = some r.len := by
          rw [List.getElem?_cons_succ, List.getElem?_append_left hlt, hj]
        have h12 := hs.short (j + 1) r.len (by simp; omega) hget
        exact (full_rest hmem h12 (hs.lt _ (List.mem_of_getElem? hget))).1
    have hcat : (⟨0, 12, l - 12⟩ : Skb) :: packets 1 (init ++ [y]) =
        (⟨0, 12, l - 12⟩ :: packets 1 init) ++ [⟨1 + init.length, 0, y⟩] := by
      rw [packets_concat, List.cons_append]
    refine ⟨?_, ?_⟩
    · have hread := @validate_reads _ ⟨1 + init.length, 0, y⟩ _ hinit
      rw [← hcat] at hread
      rw [parse_full h24 hl hdvd] at hin
      dsimp only at hin
      split at hin
      · exact hin.headers _ (List.mem_append_left _ (List.mem_cons_of_mem _ hread))
      · exact hin.headers _ (List.mem_cons_of_mem _ hread)
    · intro h12
      have hymem : (⟨1 + init.length, 0, y⟩ : Skb) ∈ packets 1 (init ++ [y]) := by
        rw [packets_concat]
        simp
      have hvalid : (validate (fullMem (l :: (init ++ [y])))
          (⟨0, 12, l - 12⟩ :: packets 1 (init ++ [y]))).1 = true := by
        rw [validate_fst, hcat, List.all_append, Bool.and_eq_true]
        refine ⟨List.all_eq_true.2 hinit, ?_⟩
        rw [List.all_cons, List.all_nil, Bool.and_true]
        exact (full_rest hymem h12 (hs.lt y (by simp))).1
      cases w with
      | chain => exact trivial
      | copied =>
        intro i n hn hroom
        have hgot := full_received h24 hs.lt hdvd hvalid hin hn hroom
        rw [gotten, Bool.and_false] at hgot
        cases hgot
      | buffer =>
        intro i n hn hroom
        have hgot := full_received h24 hs.lt hdvd hvalid hin hn hroom
        have hlt := of_decide_eq_true hgot
        unfold Roomy at hroom
        omega

end

theorem safe_nothing : Safe (some nothing) :=
  ⟨_, rfl, rfl, ⟨fun x hx => (by cases hx), fun d hd => (by cases hd)⟩⟩

theorem parse_freed {blocksize : Nat} {ls : List Nat} {got : Nat → Nat → Bool} {mem : Mem} :
    (parse blocksize ls got mem).glomdFreed = 1 := by
  unfold parse
  split
  · rfl
  · dsimp only
    split
    · split
      · rfl
      · rfl
    · rfl

/-- A chain that is read is parsed. -/
theorem safe_readChain_iff {bus : Bus} {read : Result} {c : Chain} :
    Safe (some (readChain bus read (some c))) ↔
      ((c.usechain || bus.dataptr) = true → read.err = false →
        Inside (parse bus.blocksize c.lens
          (gotten (way bus c.usechain c.lens) c.lens read.xfer) read.mem)) := by
  unfold readChain
  dsimp only
  split
  · next hcan =>
    rw [Bool.and_eq_true, Bool.not_eq_true'] at hcan
    constructor
    · rintro ⟨o, ho, -, hin⟩ - -
      rwa [Option.some.inj ho]
    · exact fun hin => ⟨_, rfl, parse_freed, hin hcan.1 hcan.2⟩
  · next hcan =>
    rw [Bool.and_eq_true, Bool.not_eq_true'] at hcan
    exact iff_of_true safe_nothing fun h₁ h₂ => absurd ⟨h₁, h₂⟩ hcan

theorem several_of_copied {bus : Bus} {usechain : Bool} {ls : List Nat}
    (h : way bus usechain ls = .copied) : 2 ≤ ls.length := by
  unfold way at h
  split at h
  · split at h
    · next hmode => exact hmode.2
    · cases h
  · cases h

/-- **Whatever is read, it is parsed inside what was received, just when the descriptor is refused
or the packets of its chain fit.** -/
theorem rxglom_inside_iff (bus : Bus) (pktget : Nat → Bool) (glomd : List UInt8) :
    (∀ read, Safe (rxglom bus pktget glomd read)) ↔
      (reached pktget 0 (entries (descBytes glomd)) = true → bus.blocksize ≠ 0 ∧
        (pktget ((entries (descBytes glomd)).length - 1) = true →
          (chained bus (entries (descBytes glomd)) || bus.dataptr) = true →
            let ls := lens bus.blocksize 0 (entries (descBytes glomd))
            Fits bus.blocksize (way bus (chained bus (entries (descBytes glomd))) ls) ls)) := by
  unfold rxglom
  rw [descLoop_eq 0 0 bus.useRxchain _ (descBytes_even glomd), Nat.zero_add]
  cases hreach : reached pktget 0 (entries (descBytes glomd)) with
  | false => exact iff_of_true (fun _ => safe_nothing) (fun h => by cases h)
  | true =>
    have hshape : Shape (lens bus.blocksize 0 (entries (descBytes glomd))) := shape_lens hreach
    rw [if_pos rfl]
    by_cases hzero : bus.blocksize = 0
    · rw [if_pos hzero]
      refine iff_of_false (fun h => ?_) (fun h => (h rfl).1 hzero)
      obtain ⟨o, ho, -⟩ := h ⟨⟨false, fun _ _ => 0⟩, fun _ => true⟩
      cases ho
    · rw [if_neg hzero]
      cases hlast : pktget ((entries (descBytes glomd)).length - 1) with
      | false => exact iff_of_true (fun _ => safe_nothing) (fun _ => ⟨hzero, fun h => by cases h⟩)
      | true =>
        rw [if_pos rfl]
        constructor
        · intro h _
          refine ⟨hzero, fun _ hcan => fits_of_inside hshape fun xfer mem => ?_⟩
          exact safe_readChain_iff.1 (h ⟨⟨false, mem⟩, xfer⟩) hcan rfl
        · intro h read
          refine safe_readChain_iff.2 fun hcan _ => ?_
          exact parse_inside_of_fits hshape ((h rfl).2 rfl hcan) several_of_copied read.mem

/-- One subframe of 65504 bytes, lengthened to whole blocks of 64: its packet has no bytes, and ten
are read of it. -/
theorem rxglom_not_inside :
    ¬∀ read, Safe (rxglom ⟨false, true, 64, .cpy⟩ (fun _ => true) [0xE0, 0xFF] read) := by
  intro h
  obtain ⟨o, ho, -, hin⟩ := h ⟨⟨false, fun _ _ => 0⟩, fun _ => true⟩
  have hheaders : (rxglom ⟨false, true, 64, .cpy⟩ (fun _ => true) [0xE0, 0xFF]
      ⟨⟨false, fun _ _ => 0⟩, fun _ => true⟩).map Outcome.headers = some [(⟨0, 0, 0⟩, 10)] := by
    decide +kernel
  rw [ho] at hheaders
  have hmem : (⟨0, 0, 0⟩, 10) ∈ o.headers := by
    rw [Option.some.inj hheaders]
    exact List.mem_cons_self
  exact absurd (hin.headers _ hmem) (by decide)

end Bcmdhd.Sdio.GlomBounds
