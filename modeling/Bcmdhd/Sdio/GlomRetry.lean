import Bcmdhd.Sdio.RxGlom
import Mathlib.Algebra.GroupWithZero.Nat

/-!
# A superframe that is read again (`dhdsdio_rxglom`)

A superframe that fails a check stays in `bus->glom`, and the dongle is asked to send it again, three
times; then the packets are freed.  The superframe header is pulled from the first packet before the
checks are known, and pushed back for the next attempt.  `skb_pull` refuses an offset behind the end
of the packet, and the push is done all the same.

    rejected →
      (the chain is as it was or freed once ↔
        the read failed, or it is freed, or the offset is not behind the end)
    a chain stays at most three times                              (rejected_retryable_iff)
-/

namespace Bcmdhd.Sdio.GlomRetry

open RxGlom (MAX_RX_DATASZ)

/-! ## Packets -/

/-- A packet: `len` bytes at `data`, an offset in its buffer. -/
structure Skb where
  id : Nat
  data : Nat
  len : Nat
  deriving DecidableEq

/-- The bytes of all buffers. -/
abbrev Mem := Nat → Nat → UInt8

namespace Skb

variable (mem : Mem) (p : Skb)

/-- `skb_pull`, which pulls nothing where the packet is shorter. -/
def pull (n : Nat) : Skb := if p.len < n then p else { p with data := p.data + n, len := p.len - n }

/-- `skb_push`; `none` is `skb_under_panic`. -/
def push (n : Nat) : Option Skb :=
  if p.data < n then none else some { p with data := p.data - n, len := p.len + n }

def byte (i : Nat) : UInt8 := mem p.id (p.data + i)

def seq : UInt8 := RxGlom.Header.seq (p.byte mem)
def sublen : Nat := RxGlom.Header.sublen (p.byte mem)
def nextlen : Nat := RxGlom.Header.nextlen (p.byte mem)
def doff : Nat := RxGlom.Header.doff (p.byte mem)
def window : UInt8 := RxGlom.Header.window (p.byte mem)

def superframeOk (blocksize dlen : Nat) : Bool :=
  RxGlom.Header.superframeOk (p.byte mem) p.len blocksize dlen

def subframeOk : Bool := RxGlom.Header.subframeOk (p.byte mem) p.len

end Skb

/-! ## Algorithm -/

structure Bus where
  glom : List Skb
  glomerr : Nat
  nextlen : Nat
  txSeq : UInt8
  txMax : UInt8
  rxBadseq : Nat
  rxErrors : Nat
  rxglomfail : Nat

/-- What comes of the read: an error or none, and what is then in the buffers. -/
structure Read where
  err : Bool
  mem : Mem

/-- What an attempt leaves: the packets freed and those passed on, and of `dhdsdio_rxfail` the
argument `rtx`. -/
structure Attempt where
  bus : Bus
  freed : List Skb
  delivered : List Skb
  rxfail : Option Bool

/-- `PKTFREE(bus->glom)`; `chain` is what it holds by then. -/
def free (bus : Bus) (chain : List Skb) : Attempt :=
  ⟨{ bus with glomerr := 0, rxglomfail := bus.rxglomfail + 1, glom := [] }, chain, [], some false⟩

def again (bus : Bus) (chain : List Skb) : Attempt :=
  ⟨{ bus with glomerr := bus.glomerr + 1, glom := chain }, [], [], some true⟩

/-- On failure, kill the superframe, allow a couple retries -/
def readFailed (bus : Bus) : Attempt :=
  let bus := { bus with rxErrors := bus.rxErrors + 1 }
  if bus.glomerr < 3 then again bus bus.glom else free bus bus.glom

/-- The sequence number, the window and `nextlen` are taken from any header. -/
def readHeader (bus : Bus) (mem : Mem) (p : Skb) (rxseq : UInt8) : Bus :=
  { bus with
    nextlen := if p.nextlen mem * 0x10 > MAX_RX_DATASZ then 0 else p.nextlen mem
    txMax := if (p.window mem - bus.txSeq).toNat > 0x70 then bus.txMax else p.window mem
    rxBadseq := if rxseq ≠ p.seq mem then bus.rxBadseq + 1 else bus.rxBadseq }

def pkttotlen (chain : List Skb) : Nat := (chain.map Skb.len).sum

/-- The header of the superframe, and those of the subframes behind it. -/
def valid (blocksize : Nat) (mem : Mem) (p : Skb) (rest : List Skb) : Bool :=
  p.superframeOk mem blocksize (pkttotlen (p :: rest) % 0x10000) &&
    (p.pull (p.doff mem) :: rest).all (Skb.subframeOk mem)

/-- Terminate frame on error, request a couple retries; `q` is `pfirst`, with its header pulled. -/
def terminate (bus : Bus) (q : Skb) (rest : List Skb) (sfdoff : Nat) : Option Attempt :=
  if bus.glomerr < 3 then
    -- Restore superframe header space
    (q.push sfdoff).map fun q => again { bus with nextlen := 0 } (q :: rest)
  else some (free { bus with nextlen := 0 } (q :: rest))

/-- A call that finds a chain in `bus->glom`; `none` is a kernel panic. -/
def rxglom (blocksize : Nat) (bus : Bus) (rxseq : UInt8) (read : Read) : Option Attempt :=
  match bus.glom with
  | [] => some ⟨bus, [], [], none⟩
  | p :: rest =>
    if read.err then some (readFailed bus)
    else
      let bus := readHeader bus read.mem p rxseq
      let q := p.pull (p.doff read.mem)
      if valid blocksize read.mem p rest then some ⟨{ bus with glom := [] }, [], q :: rest, none⟩
      else terminate bus q rest (p.doff read.mem)

/-- How often the chain stays, over attempt after attempt. -/
def retries (blocksize : Nat) : Bus → List (UInt8 × Read) → Nat
  | _, [] => 0
  | bus, (rxseq, read) :: reads =>
    match rxglom blocksize bus rxseq read with
    | none => 0
    | some a => if a.bus.glom = [] then 0 else retries blocksize a.bus reads + 1

/-! ## Conditions -/

/-- The read fails, or a check does. -/
def Rejects (blocksize : Nat) (p : Skb) (rest : List Skb) (read : Read) : Prop :=
  read.err = true ∨ valid blocksize read.mem p rest = false

/-- Nothing is passed on, and the packets are where they were, or each of them is freed. -/
def Retryable (chain : List Skb) (r : Option Attempt) : Prop :=
  ∃ a, r = some a ∧ a.delivered = [] ∧
    ((a.bus.glom = chain ∧ a.freed = [] ∧ a.rxfail = some true) ∨
     (a.bus.glom = [] ∧ a.freed.map Skb.id = chain.map Skb.id ∧ a.rxfail = some false))

/-! ## An attempt -/

section
variable {blocksize : Nat} {bus : Bus} {p q : Skb} {rest chain : List Skb} {read : Read}
  {rxseq : UInt8} {n : Nat} {a : Attempt}

theorem pull_id : (p.pull n).id = p.id := by
  unfold Skb.pull
  split
  · rfl
  · rfl

/-- A pull that is done is undone by the push. -/
theorem push_pull (h : n ≤ p.len) : (p.pull n).push n = some p := by
  have hpull : p.pull n = { p with data := p.data + n, len := p.len - n } := if_neg (by omega)
  rw [hpull]
  unfold Skb.push
  rw [if_neg (Nat.not_lt.2 (Nat.le_add_left n p.data))]
  show some (⟨p.id, p.data + n - n, p.len - n + n⟩ : Skb) = some p
  rw [Nat.add_sub_cancel, Nat.sub_add_cancel h]

/-- One that is refused is not. -/
theorem push_pull_ne (h : p.len < n) : (p.pull n).push n ≠ some p := by
  unfold Skb.pull Skb.push
  rw [if_pos h]
  intro heq
  split at heq
  · cases heq
  · have hlen := congrArg (fun s => s.map Skb.len) heq
    simp at hlen
    omega

theorem again_retryable (bus : Bus) (chain : List Skb) : Retryable chain (some (again bus chain)) :=
  ⟨_, rfl, rfl, .inl ⟨rfl, rfl, rfl⟩⟩

theorem free_retryable (bus : Bus) (h : chain.map Skb.id = (p :: rest).map Skb.id) :
    Retryable (p :: rest) (some (free bus chain)) :=
  ⟨_, rfl, rfl, .inr ⟨rfl, h, rfl⟩⟩

theorem terminate_retryable_iff (bus : Bus) (p : Skb) (rest : List Skb) (n : Nat) :
    Retryable (p :: rest) (terminate bus (p.pull n) rest n) ↔ 3 ≤ bus.glomerr ∨ n ≤ p.len := by
  unfold terminate
  split
  · next hretry =>
    constructor
    · rintro ⟨a, ha, -, hkept | hfreed⟩
      · refine .inr (Nat.le_of_not_lt fun hlt => push_pull_ne hlt ?_)
        obtain ⟨q, hq, rfl⟩ := Option.map_eq_some_iff.1 ha
        have heq : q :: rest = p :: rest := hkept.1
        rw [hq, (List.cons.inj heq).1]
      · obtain ⟨q, hq, rfl⟩ := Option.map_eq_some_iff.1 ha
        have hnil : q :: rest = [] := hfreed.1
        cases hnil
    · rintro (hmax | hle)
      · omega
      · rw [push_pull hle]
        exact again_retryable _ _
  · next hmax =>
    refine ⟨fun _ => .inl (by omega), fun _ => free_retryable _ ?_⟩
    rw [List.map_cons, List.map_cons, pull_id]

theorem readFailed_retryable (h : bus.glom = p :: rest) :
    Retryable bus.glom (some (readFailed bus)) := by
  unfold readFailed
  dsimp only
  split
  · exact again_retryable _ _
  · rw [h]
    exact free_retryable _ rfl

/-- An attempt that leaves the chain has been counted. -/
theorem rxglom_counts (h : rxglom blocksize bus rxseq read = some a) (hkept : a.bus.glom ≠ []) :
    bus.glomerr < 3 ∧ a.bus.glomerr = bus.glomerr + 1 := by
  unfold rxglom at h
  split at h
  · next hnil =>
    cases h
    exact absurd hnil hkept
  · next p rest hglom =>
    split at h
    · cases h
      unfold readFailed at hkept ⊢
      dsimp only at hkept ⊢
      split at hkept
      · next hlt =>
        rw [if_pos hlt]
        exact ⟨hlt, rfl⟩
      · exact absurd rfl hkept
    · split at h
      · cases h
        exact absurd rfl hkept
      · unfold terminate at h
        dsimp only at h
        split at h
        · next hlt =>
          obtain ⟨q, -, rfl⟩ := Option.map_eq_some_iff.1 h
          exact ⟨hlt, rfl⟩
        · cases h
          exact absurd rfl hkept

theorem retries_le (blocksize : Nat) (bus : Bus) (reads : List (UInt8 × Read)) :
    retries blocksize bus reads ≤ 3 - bus.glomerr := by
  induction reads generalizing bus with
  | nil => exact Nat.zero_le _
  | cons r reads ih =>
    unfold retries
    split
    · exact Nat.zero_le _
    · next a ha =>
      split
      · exact Nat.zero_le _
      · next hkept =>
        obtain ⟨hlt, hcount⟩ := rxglom_counts ha hkept
        have hrest := ih a.bus
        omega

/-- **A rejected superframe can be read again, unless its offset is behind the first packet.** -/
theorem rejected_retryable_iff (hglom : bus.glom = p :: rest)
    (hrej : Rejects blocksize p rest read) :
    (Retryable bus.glom (rxglom blocksize bus rxseq read) ↔
      read.err = true ∨ 3 ≤ bus.glomerr ∨ p.doff read.mem ≤ p.len) ∧
    ∀ reads, retries blocksize bus reads ≤ 3 := by
  refine ⟨?_, fun reads => Nat.le_trans (retries_le blocksize bus reads) (Nat.sub_le _ _)⟩
  unfold rxglom
  rw [hglom]
  by_cases herr : read.err = true
  · have hread := readFailed_retryable hglom
    rw [hglom] at hread
    simp only [herr, if_true, true_or, iff_true]
    exact hread
  · have hbad := hrej.resolve_left herr
    simp only [herr, hbad, Bool.false_eq_true, if_false, false_or]
    exact terminate_retryable_iff (readHeader bus read.mem p rxseq) p rest (p.doff read.mem)

end

/-- A chain of one packet, with a headroom of 64 bytes. -/
def onePacket : Bus := ⟨[⟨0, 64, 32⟩], 0, 0, 0, 0, 0, 0, 0⟩

/-- All bytes are `b`: no header is valid, and the data offset is `b`. -/
def noise (b : UInt8) : Read := ⟨false, fun _ _ => b⟩

theorem rejected_retryable_iff_one :
    (Retryable [⟨0, 64, 32⟩] (rxglom 64 onePacket 0 (noise 16)) ↔
      (noise 16).err = true ∨ 3 ≤ onePacket.glomerr ∨
        Skb.doff (noise 16).mem ⟨0, 64, 32⟩ ≤ 32) ∧
    ∀ reads, retries 64 onePacket reads ≤ 3 :=
  rejected_retryable_iff rfl (.inr (by decide))

/-- The packet is moved into its headroom, or out of its buffer. -/
theorem rejected_not_retryable :
    (rxglom 64 onePacket 0 (noise 40)).map (fun a => a.bus.glom) = some [⟨0, 24, 72⟩] ∧
    ¬Retryable [⟨0, 64, 32⟩] (rxglom 64 onePacket 0 (noise 40)) ∧
    rxglom 64 onePacket 0 (noise 200) = none := by
  have hmoved : (rxglom 64 onePacket 0 (noise 40)).map (fun a => a.bus.glom) =
      some [⟨0, 24, 72⟩] := by decide
  refine ⟨hmoved, ?_, by decide⟩
  rintro ⟨a, ha, -, hkept⟩
  rw [ha, Option.map_some, Option.some.injEq] at hmoved
  rcases hkept with ⟨hglom, -⟩ | ⟨hglom, -⟩
  · rw [hmoved] at hglom
    exact absurd hglom (by decide)
  · rw [hmoved] at hglom
    cases hglom

end Bcmdhd.Sdio.GlomRetry
