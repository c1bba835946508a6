import Bcmdhd.Lib.LittleEndian

/-!
# Framing of what the SDIO bus sends (`dhdsdio_txpkt_preprocess`, `_postprocess`)

A frame is a packet with an SDPCM header, with padding in front of the payload that aligns it and
padding behind that fills a block.  Where the room of the packet does not do, a copy is sent.  The
build has DHDENABLE_TAILPAD; txglom_ext is off, and there is no padding packet.

    the frame describes itself, and the packet is given back as it was  ↔
      there is room in the packet, and length and padding have 16 bits    (txpkt_reversible_iff)

`dhdsdio_txpkt` undoes the framing of the packets it sent.  Of a packet that it sent a copy of, the
header stays pushed.
-/

namespace Bcmdhd.Sdio.TxFrame

open Records

/-! ## Packets -/

/-- A `sk_buff` with its buffer, from `head` to `endAddr`.  Numbers are addresses. -/
structure Skb where
  head : Nat
  /-- `PKTDATA` -/
  data : Nat
  /-- `PKTLEN` -/
  len : Nat
  endAddr : Nat
  mem : Nat → UInt8

namespace Skb

variable (p : Skb)

/-- `PKTHEADROOM` -/
def headroom : Nat := p.data - p.head

/-- `PKTTAILROOM` -/
def tailroom : Nat := p.endAddr - (p.data + p.len)

/-- `PKTPUSH` -/
def push (n : Nat) : Skb := { p with data := p.data - n, len := p.len + n }

/-- `PKTPULL` -/
def pull (n : Nat) : Skb := if n ≤ p.len then { p with data := p.data + n, len := p.len - n } else p

/-- `PKTSETLEN`, without a check of the room -/
def setLen (n : Nat) : Skb := { p with len := n }

def bytes : List UInt8 := readAt p.mem p.data p.len

/-- A number of `w` bytes goes to `PKTDATA + i`. -/
def put (i w n : Nat) : Skb := { p with mem := store p.mem (p.data + i) w n }

def get (i w : Nat) : Nat := load p.mem (p.data + i) w

def copyIn (bs : List UInt8) : Skb := { p with mem := writeAt p.mem p.data bs }

end Skb

/-! ## Algorithm -/

def DHD_SDALIGN : Nat := 32
def SDPCM_FRAMETAG_LEN : Nat := 4
def SDPCM_HWEXT_LEN : Nat := 8
def SDPCM_SWHEADER_LEN : Nat := 8
def SDPCM_SEQUENCE_WRAP : Nat := 256
def BCME_NOMEM : Int := -27

structure Bus where
  txglomEnable : Bool
  blocksize : Nat

def Bus.swhdrOffset (bus : Bus) : Nat :=
  SDPCM_FRAMETAG_LEN + if bus.txglomEnable then SDPCM_HWEXT_LEN else 0

def Bus.sdpcmHdrlen (bus : Bus) : Nat := bus.swhdrOffset + SDPCM_SWHEADER_LEN

/-- The `modulo` of the source: what is missing to a multiple of `n`. -/
def padTo (n x : Nat) : Nat := if 0 < x % n then n - x % n else 0

/-- Total pkt chain length needs to be aligned by block size, unless it is a single pkt chain with
total length less than one block size. -/
def Bus.chainAligned (bus : Bus) (prevChainTotalLen total : Nat) (lastChainedPkt : Bool) : Bool :=
  lastChainedPkt ∧ bus.blocksize ≠ 0 ∧ (bus.blocksize < total ∨ 0 < prevChainTotalLen)

def Bus.chainTailPadding (bus : Bus) (prev total : Nat) (last : Bool) : Nat :=
  if bus.chainAligned prev total last then padTo bus.blocksize total else 0

structure Padding where
  head : Nat
  tail : Nat

/-- All packets need to be aligned by DHD_SDALIGN. -/
def sdTailPadding (p : Skb) : Nat := padTo DHD_SDALIGN (p.len % 0x10000 + p.data % DHD_SDALIGN)

/-- The length of the chain before it is aligned. -/
def chainLen (p : Skb) (prev : Nat) : Nat :=
  prev + (p.data % DHD_SDALIGN + p.len % 0x10000 + sdTailPadding p)

/-- The padding in the packet, with its header pushed; `none` is `alloc_new_pkt`.  There is no
padding packet. -/
def inPlace (bus : Bus) (p : Skb) (prev : Nat) (last : Bool) : Option Padding :=
  let headPadding := p.data % DHD_SDALIGN
  if p.headroom < headPadding then none
  else
    let chainTailPadding := bus.chainTailPadding prev (chainLen p prev) last
    if p.tailroom < sdTailPadding p then none
    else if p.tailroom < sdTailPadding p + chainTailPadding then none
    else some ⟨headPadding, sdTailPadding p + chainTailPadding⟩

/-- The padding of the copy, whose head pointer is aligned. -/
def copyPadding (bus : Bus) (p : Skb) (prev : Nat) (last : Bool) : Padding :=
  let pktLen := p.len % 0x10000
  if bus.chainAligned prev (prev + pktLen) last then ⟨0, padTo bus.blocksize (prev + pktLen)⟩
  else ⟨0, padTo DHD_SDALIGN pktLen⟩

/-- 4-byte HW frame tag: length, ~length -/
def putFrameTag (p : Skb) (n : Nat) : Skb := (p.put 0 2 n).put 2 2 (0xFFFF - n % 0x10000)

/-- `hwheader1`: a `uint32` of the packet length without the HW tag and the padding, and the flag of
the last packet. -/
def hwheader1 (pktLen : Nat) (last : Bool) : Nat :=
  (0x100000000 + pktLen - SDPCM_FRAMETAG_LEN) % 0x100000000 ||| (if last then 0x1000000 else 0)

/-- Data offset, channel and sequence have bits of their own. -/
def swheader (chan txseq dataOffset : Nat) : Nat :=
  0x1000000 * (dataOffset % 0x100) + 0x100 * (chan % 0x10) + txseq % SDPCM_SEQUENCE_WRAP

/-- The header of the frame at `PKTDATA`, and the length with the padding behind. -/
def writeHeader (bus : Bus) (p : Skb) (chan txseq : Nat) (pad : Padding) (last : Bool) : Skb :=
  let pktLen := p.len % 0x10000
  let p := p.copyIn (List.replicate (pad.head + bus.sdpcmHdrlen) 0)
  let p := putFrameTag p pktLen
  let p :=
    if bus.txglomEnable then
      (p.put SDPCM_FRAMETAG_LEN 4 (hwheader1 pktLen last)).put (SDPCM_FRAMETAG_LEN + 4) 4
        (0x10000 * pad.tail)
    else p
  let p := p.setLen (pktLen + pad.tail)
  let p := p.put bus.swhdrOffset 4 (swheader chan txseq (pad.head + bus.sdpcmHdrlen))
  p.put (bus.swhdrOffset + 4) 4 0

/-- `PKTALIGN` -/
def pktalign (p : Skb) (len align : Nat) : Skb := (p.pull (padTo align p.data)).setLen len

/-- What a call returns, and leaves. -/
structure Result where
  ret : Int
  pkt : Skb
  newPkt : Option Skb

/-- The length is an `int` and the lengths of a chain do not add up to more than one;
`pktget` is `PKTGET`. -/
def dhdsdioTxpktPreprocess (bus : Bus) (pktget : Nat → Option Skb) (pkt : Skb) (chan txseq : Nat)
    (prev : Nat) (last : Bool) : Result :=
  let pkt := pkt.push bus.sdpcmHdrlen
  match inPlace bus pkt prev last with
  | some pad =>
    let pkt := writeHeader bus (pkt.push pad.head) chan txseq pad last
    ⟨pkt.len, pkt, none⟩
  | none =>
    match pktget (pkt.len + bus.blocksize + DHD_SDALIGN) with
    | none => ⟨BCME_NOMEM, pkt, none⟩
    | some tmp =>
      let tmp := (pktalign tmp pkt.len DHD_SDALIGN).copyIn pkt.bytes
      let tmp := writeHeader bus tmp chan txseq (copyPadding bus pkt prev last) last
      ⟨tmp.len, pkt, some tmp⟩

def dhdsdioTxpktPostprocess (bus : Bus) (pkt : Skb) : Skb :=
  -- exclude the tail padding
  let len :=
    if bus.txglomEnable then pkt.len - pkt.get (SDPCM_FRAMETAG_LEN + 4) 4 / 0x10000 else pkt.get 0 2
  (pkt.setLen len).pull (pkt.get bus.swhdrOffset 4 / 0x1000000)

/-- The packet that is sent. -/
def Result.sent (r : Result) : Skb := r.newPkt.getD r.pkt

/-- The frame tag of the first packet of a glom is the total length. -/
def setGlomLen (bus : Bus) (total : Option Nat) (p : Skb) : Skb :=
  match bus.txglomEnable, total with
  | true, some n => putFrameTag p n
  | _, _ => p

/-- The frame after `dhdsdio_txpkt` has sent it.  `total` is for the first packet of a chain. -/
def Result.sentAfter (bus : Bus) (total : Option Nat) (r : Result) : Skb :=
  dhdsdioTxpktPostprocess bus (setGlomLen bus total r.sent)

/-- The packet that `dhdsdio_txpkt` was given, when it is done: only what was sent is
postprocessed. -/
def Result.pktAfter (bus : Bus) (total : Option Nat) (r : Result) : Skb :=
  match r.newPkt with
  | none => dhdsdioTxpktPostprocess bus (setGlomLen bus total r.pkt)
  | some _ => r.pkt

/-! ## What it promises -/

/-- The length in the frame tag. -/
def Skb.tagLen (f : Skb) : Nat := f.get 0 2

def Skb.dataOffset (bus : Bus) (f : Skb) : Nat := f.get bus.swhdrOffset 4 / 0x1000000

/-- The frame `f` describes itself, with the payload of `p` in it. -/
structure Framed (bus : Bus) (p : Skb) (chan txseq : Nat) (last : Bool) (f : Skb) : Prop where
  aligned : f.data % DHD_SDALIGN = 0
  inside : f.head ≤ f.data ∧ f.data + f.len ≤ f.endAddr
  complement : f.get 2 2 + f.tagLen = 0xFFFF
  payload : readAt f.mem (f.data + f.dataOffset bus) (f.tagLen - f.dataOffset bus) = p.bytes
  channel : f.get bus.swhdrOffset 4 / 0x100 % 0x10 = chan % 0x10
  sequence : f.get bus.swhdrOffset 4 % 0x100 = txseq % SDPCM_SEQUENCE_WRAP
  /-- the extension: the length, the flag of the last packet, and the padding behind -/
  extension : bus.txglomEnable = true →
    f.get SDPCM_FRAMETAG_LEN 4 % 0x10000 + SDPCM_FRAMETAG_LEN = f.tagLen ∧
    (f.get SDPCM_FRAMETAG_LEN 4 / 0x1000000 = if last then 1 else 0) ∧
    f.tagLen + f.get (SDPCM_FRAMETAG_LEN + 4) 4 / 0x10000 = f.len

/-- Whole blocks, unless it is a single packet of at most one block. -/
def WholeBlocks (bus : Bus) (prev : Nat) (last : Bool) (f : Skb) : Prop :=
  last = true → bus.blocksize ≠ 0 → 0 < prev ∨ bus.blocksize < prev + f.len →
    bus.blocksize ∣ prev + f.len

/-- Behind frames of whole units, one more. -/
def WholeUnits (bus : Bus) (prev : Nat) (f : Skb) : Prop :=
  DHD_SDALIGN ∣ bus.blocksize → DHD_SDALIGN ∣ prev → DHD_SDALIGN ∣ f.len

/-- The data pointer, the length and the bytes are those of `p`. -/
def Restored (p q : Skb) : Prop := q.data = p.data ∧ q.len = p.len ∧ q.bytes = p.bytes

/-- Everything the framing promises. -/
def Reversible (bus : Bus) (p : Skb) (chan txseq prev : Nat) (last : Bool) (r : Result) : Prop :=
  Framed bus p chan txseq last r.sent ∧ WholeBlocks bus prev last r.sent ∧
    WholeUnits bus prev r.sent ∧
    ∀ total, (r.sentAfter bus total).bytes = p.bytes ∧ Restored p (r.pktAfter bus total)

/-- The header fits in front of the packet, and the packet in its buffer. -/
structure Skb.Sendable (bus : Bus) (p : Skb) : Prop where
  headroom : p.head + bus.sdpcmHdrlen ≤ p.data
  inside : p.data + p.len ≤ p.endAddr

/-- The padding behind that fills 32 bytes, and the last block. -/
def tailNeeded (bus : Bus) (p : Skb) (prev : Nat) (last : Bool) : Nat :=
  let len := p.len + bus.sdpcmHdrlen + (p.data - bus.sdpcmHdrlen) % DHD_SDALIGN
  let aligned := len + padTo DHD_SDALIGN len
  padTo DHD_SDALIGN len + bus.chainTailPadding prev (prev + aligned) last

/-- There is room for the padding, and the lengths have 16 bits. -/
structure Fits (bus : Bus) (p : Skb) (prev : Nat) (last : Bool) : Prop where
  headroom : p.head + bus.sdpcmHdrlen + (p.data - bus.sdpcmHdrlen) % DHD_SDALIGN ≤ p.data
  tailroom : p.data + p.len + tailNeeded bus p prev last ≤ p.endAddr
  length : p.len + bus.sdpcmHdrlen + (p.data - bus.sdpcmHdrlen) % DHD_SDALIGN ≤ 0xFFFF
  padding : bus.txglomEnable = true → tailNeeded bus p prev last ≤ 0xFFFF

/-! ## The header -/

section
variable {bus : Bus} {p : Skb} {chan txseq prev : Nat} {pad : Padding} {last : Bool}

theorem swhdrOffset_glom (h : bus.txglomEnable = true) : bus.swhdrOffset = 12 := by
  unfold Bus.swhdrOffset
  rw [h]
  rfl

theorem swhdrOffset_plain (h : bus.txglomEnable = false) : bus.swhdrOffset = 4 := by
  unfold Bus.swhdrOffset
  rw [h]
  rfl

theorem writeHeader_mem_glom (h : bus.txglomEnable = true) :
    (writeHeader bus p chan txseq pad last).mem =
      store (store (store (store (store (store
        (writeAt p.mem p.data (List.replicate (pad.head + bus.sdpcmHdrlen) 0))
        p.data 2 (p.len % 0x10000)) (p.data + 2) 2 (0xFFFF - p.len % 0x10000 % 0x10000))
        (p.data + 4) 4 (hwheader1 (p.len % 0x10000) last)) (p.data + 8) 4 (0x10000 * pad.tail))
        (p.data + bus.swhdrOffset) 4 (swheader chan txseq (pad.head + bus.sdpcmHdrlen)))
        (p.data + (bus.swhdrOffset + 4)) 4 0 := by
  simp only [writeHeader, putFrameTag, Skb.put, Skb.copyIn, Skb.setLen, SDPCM_FRAMETAG_LEN, h]
  simp only [ite_true, Nat.add_zero, Nat.reduceAdd]

theorem writeHeader_mem_plain (h : bus.txglomEnable = false) :
    (writeHeader bus p chan txseq pad last).mem =
      store (store (store (store
        (writeAt p.mem p.data (List.replicate (pad.head + bus.sdpcmHdrlen) 0))
        p.data 2 (p.len % 0x10000)) (p.data + 2) 2 (0xFFFF - p.len % 0x10000 % 0x10000))
        (p.data + bus.swhdrOffset) 4 (swheader chan txseq (pad.head + bus.sdpcmHdrlen)))
        (p.data + (bus.swhdrOffset + 4)) 4 0 := by
  simp only [writeHeader, putFrameTag, Skb.put, Skb.copyIn, Skb.setLen, SDPCM_FRAMETAG_LEN, h]
  simp only [Bool.false_eq_true, ite_false, Nat.add_zero, Nat.reduceAdd]

/-- The packet stays where it is, and takes the padding in. -/
theorem writeHeader_place :
    (writeHeader bus p chan txseq pad last).head = p.head ∧
      (writeHeader bus p chan txseq pad last).data = p.data ∧
      (writeHeader bus p chan txseq pad last).endAddr = p.endAddr ∧
      (writeHeader bus p chan txseq pad last).len = p.len % 0x10000 + pad.tail := by
  cases h : bus.txglomEnable <;>
    simp only [writeHeader, putFrameTag, Skb.put, Skb.copyIn, Skb.setLen, h, ite_true,
      Bool.false_eq_true, ite_false, and_self]

theorem writeHeader_tag :
    (writeHeader bus p chan txseq pad last).get 0 2 = p.len % 0x10000 ∧
      (writeHeader bus p chan txseq pad last).get 2 2 = 0xFFFF - p.len % 0x10000 := by
  obtain ⟨-, hdata, -, -⟩ := @writeHeader_place bus p chan txseq pad last
  unfold Skb.get
  rw [hdata]
  cases h : bus.txglomEnable with
  | true =>
    rw [writeHeader_mem_glom h, swhdrOffset_glom h]
    constructor
    · rw [load_store_of_off (by omega), load_store_of_off (by omega), load_store_of_off (by omega),
        load_store_of_off (by omega), load_store_of_off (by omega), Nat.add_zero, load_store]
      omega
    · rw [load_store_of_off (by omega), load_store_of_off (by omega), load_store_of_off (by omega),
        load_store_of_off (by omega), load_store]
      omega
  | false =>
    rw [writeHeader_mem_plain h, swhdrOffset_plain h]
    constructor
    · rw [load_store_of_off (by omega), load_store_of_off (by omega), load_store_of_off (by omega),
        Nat.add_zero, load_store]
      omega
    · rw [load_store_of_off (by omega), load_store_of_off (by omega), load_store]
      omega

theorem swheader_lt (offset : Nat) : swheader chan txseq offset < 0x100000000 := by
  unfold swheader SDPCM_SEQUENCE_WRAP
  omega

theorem writeHeader_sw : (writeHeader bus p chan txseq pad last).get bus.swhdrOffset 4 =
    swheader chan txseq (pad.head + bus.sdpcmHdrlen) := by
  obtain ⟨-, hdata, -, -⟩ := @writeHeader_place bus p chan txseq pad last
  have hlt : swheader chan txseq (pad.head + bus.sdpcmHdrlen) < 0x100000000 := swheader_lt _
  unfold Skb.get
  rw [hdata]
  cases h : bus.txglomEnable with
  | true =>
    rw [writeHeader_mem_glom h, load_store_of_off (by omega), load_store]
    omega
  | false =>
    rw [writeHeader_mem_plain h, load_store_of_off (by omega), load_store]
    omega

theorem writeHeader_ext (h : bus.txglomEnable = true) :
    (writeHeader bus p chan txseq pad last).get 4 4 = hwheader1 (p.len % 0x10000) last % 256 ^ 4 ∧
      (writeHeader bus p chan txseq pad last).get 8 4 = 0x10000 * pad.tail % 256 ^ 4 := by
  obtain ⟨-, hdata, -, -⟩ := @writeHeader_place bus p chan txseq pad last
  unfold Skb.get
  rw [hdata, writeHeader_mem_glom h, swhdrOffset_glom h]
  constructor
  · rw [load_store_of_off (by omega), load_store_of_off (by omega), load_store_of_off (by omega),
      load_store]
  · rw [load_store_of_off (by omega), load_store_of_off (by omega), load_store]

/-- What is behind the header stays. -/
theorem writeHeader_payload {a n : Nat} (ha : p.data + pad.head + bus.sdpcmHdrlen ≤ a) :
    readAt (writeHeader bus p chan txseq pad last).mem a n = readAt p.mem a n := by
  have hhdr : bus.sdpcmHdrlen = bus.swhdrOffset + 8 := rfl
  have hzero : readAt (writeAt p.mem p.data
      (List.replicate (pad.head + bus.sdpcmHdrlen) 0)) a n = readAt p.mem a n := by
    rw [readAt_writeAt_of_off]
    rw [List.length_replicate]
    omega
  cases h : bus.txglomEnable with
  | true =>
    have hoff := swhdrOffset_glom h
    rw [writeHeader_mem_glom h, readAt_store_of_off (by omega), readAt_store_of_off (by omega),
      readAt_store_of_off (by omega), readAt_store_of_off (by omega),
      readAt_store_of_off (by omega), readAt_store_of_off (by omega), hzero]
  | false =>
    have hoff := swhdrOffset_plain h
    rw [writeHeader_mem_plain h, readAt_store_of_off (by omega), readAt_store_of_off (by omega),
      readAt_store_of_off (by omega), readAt_store_of_off (by omega), hzero]

end

/-! ## Padding -/

section
variable {bus : Bus} {p : Skb} {prev : Nat} {pad : Padding} {last : Bool}

theorem dvd_add_padTo {n : Nat} (hn : n ≠ 0) (x : Nat) : n ∣ x + padTo n x := by
  have hdiv := Nat.div_add_mod x n
  have hlt := Nat.mod_lt x (Nat.pos_of_ne_zero hn)
  unfold padTo
  split
  · refine ⟨x / n + 1, ?_⟩
    rw [Nat.mul_succ]
    omega
  · exact ⟨x / n, by omega⟩

theorem swhdrOffset_le : bus.swhdrOffset ≤ 12 := by
  cases h : bus.txglomEnable with
  | true => exact Nat.le_of_eq (swhdrOffset_glom h)
  | false =>
    rw [swhdrOffset_plain h]
    decide

theorem hdrlen_range : 0 < bus.sdpcmHdrlen ∧ bus.sdpcmHdrlen ≤ 20 := by
  have hle : bus.swhdrOffset ≤ 12 := swhdrOffset_le
  have heq : bus.sdpcmHdrlen = bus.swhdrOffset + 8 := rfl
  omega

theorem inPlace_iff : inPlace bus p prev last = some pad ↔
    p.data % DHD_SDALIGN ≤ p.headroom ∧
      sdTailPadding p + bus.chainTailPadding prev (chainLen p prev) last ≤ p.tailroom ∧
      pad = ⟨p.data % DHD_SDALIGN,
        sdTailPadding p + bus.chainTailPadding prev (chainLen p prev) last⟩ := by
  unfold inPlace
  dsimp only
  split
  · refine iff_of_false (fun h => by cases h) ?_
    omega
  · split
    · refine iff_of_false (fun h => by cases h) ?_
      omega
    · split
      · refine iff_of_false (fun h => by cases h) ?_
        omega
      · rw [Option.some.injEq, eq_comm]
        refine (and_iff_right ?_).symm.trans (and_congr_right fun _ => (and_iff_right ?_).symm)
        · omega
        · omega

/-- With lengths of 16 bits, the padding is what the alignment needs. -/
theorem padding_push (prev : Nat) (last : Bool)
    (hlen : p.len + bus.sdpcmHdrlen + (p.data - bus.sdpcmHdrlen) % DHD_SDALIGN ≤ 0xFFFF) :
    sdTailPadding (p.push bus.sdpcmHdrlen) +
        bus.chainTailPadding prev (chainLen (p.push bus.sdpcmHdrlen) prev) last =
      tailNeeded bus p prev last := by
  have hmod : (p.len + bus.sdpcmHdrlen) % 0x10000 = p.len + bus.sdpcmHdrlen := by omega
  have hsd : sdTailPadding (p.push bus.sdpcmHdrlen) = padTo DHD_SDALIGN
      (p.len + bus.sdpcmHdrlen + (p.data - bus.sdpcmHdrlen) % DHD_SDALIGN) := by
    unfold sdTailPadding Skb.push
    rw [hmod]
  have hchain : chainLen (p.push bus.sdpcmHdrlen) prev = prev +
      (p.len + bus.sdpcmHdrlen + (p.data - bus.sdpcmHdrlen) % DHD_SDALIGN + padTo DHD_SDALIGN
        (p.len + bus.sdpcmHdrlen + (p.data - bus.sdpcmHdrlen) % DHD_SDALIGN)) := by
    unfold chainLen
    rw [hsd]
    unfold Skb.push
    dsimp only
    rw [hmod]
    omega
  rw [hchain, hsd]
  rfl

theorem fits_iff (hs : p.Sendable bus) :
    Fits bus p prev last ↔ ∃ pad, inPlace bus (p.push bus.sdpcmHdrlen) prev last = some pad ∧
      p.len + bus.sdpcmHdrlen + pad.head ≤ 0xFFFF ∧
      (bus.txglomEnable = true → pad.tail ≤ 0xFFFF) := by
  have hroom := hs.headroom
  have hin := hs.inside
  have hhead : (p.push bus.sdpcmHdrlen).headroom = p.data - bus.sdpcmHdrlen - p.head := rfl
  have htail : (p.push bus.sdpcmHdrlen).tailroom =
      p.endAddr - (p.data - bus.sdpcmHdrlen + (p.len + bus.sdpcmHdrlen)) := rfl
  have hdata : (p.push bus.sdpcmHdrlen).data = p.data - bus.sdpcmHdrlen := rfl
  constructor
  · intro h
    have hpad := padding_push prev last h.length
    have hfit₁ := h.headroom
    have hfit₂ := h.tailroom
    refine ⟨_, inPlace_iff.2 ⟨?_, ?_, rfl⟩, h.length, ?_⟩
    · rw [hhead, hdata]
      omega
    · rw [hpad, htail]
      omega
    · rw [hpad]
      exact h.padding
  · rintro ⟨pad, hplace, hlen, hglom⟩
    obtain ⟨hfit₁, hfit₂, rfl⟩ := inPlace_iff.1 hplace
    have hpad := padding_push prev last hlen
    rw [hpad] at hfit₂ hglom
    rw [hhead, hdata] at hfit₁
    rw [htail] at hfit₂
    exact ⟨by omega, by omega, hlen, hglom⟩

end

/-! ## The frame -/

section
variable {bus : Bus} {p : Skb} {pktget : Nat → Option Skb} {chan txseq prev : Nat} {pad : Padding}
  {last : Bool} {total : Option Nat} {f : Skb}

/-- The frame in the packet itself. -/
def inPlaceFrame (bus : Bus) (p : Skb) (chan txseq : Nat) (pad : Padding) (last : Bool) : Skb :=
  writeHeader bus ((p.push bus.sdpcmHdrlen).push pad.head) chan txseq pad last

theorem preprocess_inPlace (h : inPlace bus (p.push bus.sdpcmHdrlen) prev last = some pad) :
    dhdsdioTxpktPreprocess bus pktget p chan txseq prev last =
      ⟨(inPlaceFrame bus p chan txseq pad last).len, inPlaceFrame bus p chan txseq pad last,
        none⟩ := by
  simp only [dhdsdioTxpktPreprocess, h]
  rfl

/-- Without room in the packet, a copy is sent or nothing. -/
theorem preprocess_copied (h : inPlace bus (p.push bus.sdpcmHdrlen) prev last = none)
    (hret : 0 < (dhdsdioTxpktPreprocess bus pktget p chan txseq prev last).ret) :
    ∃ tmp, (dhdsdioTxpktPreprocess bus pktget p chan txseq prev last).newPkt = some tmp ∧
      (dhdsdioTxpktPreprocess bus pktget p chan txseq prev last).pkt = p.push bus.sdpcmHdrlen := by
  simp only [dhdsdioTxpktPreprocess, h] at hret ⊢
  cases hget : pktget ((p.push bus.sdpcmHdrlen).len + bus.blocksize + DHD_SDALIGN) with
  | none =>
    simp only [hget] at hret
    exact absurd hret (by decide)
  | some tmp => exact ⟨_, rfl, rfl⟩

/-- A copy leaves the header on the packet. -/
theorem copied_not_restored (hs : p.Sendable bus)
    (h : inPlace bus (p.push bus.sdpcmHdrlen) prev last = none)
    (hret : 0 < (dhdsdioTxpktPreprocess bus pktget p chan txseq prev last).ret) :
    ¬Restored p ((dhdsdioTxpktPreprocess bus pktget p chan txseq prev last).pktAfter bus total) := by
  obtain ⟨tmp, hnew, hpkt⟩ := preprocess_copied h hret
  have hpos : 0 < bus.sdpcmHdrlen := hdrlen_range.1
  have hroom := hs.headroom
  unfold Result.pktAfter
  rw [hnew, hpkt]
  rintro ⟨hdata, -⟩
  have hpush : (p.push bus.sdpcmHdrlen).data = p.data - bus.sdpcmHdrlen := rfl
  rw [hpush] at hdata
  omega

theorem inPlaceFrame_place :
    (inPlaceFrame bus p chan txseq pad last).head = p.head ∧
      (inPlaceFrame bus p chan txseq pad last).data = p.data - bus.sdpcmHdrlen - pad.head ∧
      (inPlaceFrame bus p chan txseq pad last).endAddr = p.endAddr ∧
      (inPlaceFrame bus p chan txseq pad last).len =
        (p.len + bus.sdpcmHdrlen + pad.head) % 0x10000 + pad.tail :=
  writeHeader_place

theorem inPlaceFrame_tag : (inPlaceFrame bus p chan txseq pad last).tagLen =
    (p.len + bus.sdpcmHdrlen + pad.head) % 0x10000 :=
  writeHeader_tag.1

theorem inPlaceFrame_dataOffset (hpad : pad.head < DHD_SDALIGN) :
    (inPlaceFrame bus p chan txseq pad last).dataOffset bus = pad.head + bus.sdpcmHdrlen := by
  have hle : bus.sdpcmHdrlen ≤ 20 := hdrlen_range.2
  unfold DHD_SDALIGN at hpad
  unfold Skb.dataOffset inPlaceFrame
  rw [writeHeader_sw]
  unfold swheader SDPCM_SEQUENCE_WRAP
  omega

theorem inPlaceFrame_padding (h : bus.txglomEnable = true) :
    (inPlaceFrame bus p chan txseq pad last).get (SDPCM_FRAMETAG_LEN + 4) 4 / 0x10000 =
      pad.tail % 0x10000 := by
  have hext : (inPlaceFrame bus p chan txseq pad last).get 8 4 = 0x10000 * pad.tail % 256 ^ 4 :=
    (writeHeader_ext h).2
  show (inPlaceFrame bus p chan txseq pad last).get 8 4 / 0x10000 = _
  rw [hext]
  omega

/-- The payload is where it was. -/
theorem inPlaceFrame_payload (hroom : bus.sdpcmHdrlen + pad.head ≤ p.data) :
    readAt (inPlaceFrame bus p chan txseq pad last).mem p.data p.len = p.bytes := by
  unfold inPlaceFrame
  rw [writeHeader_payload]
  · rfl
  · show p.data - bus.sdpcmHdrlen - pad.head + pad.head + bus.sdpcmHdrlen ≤ p.data
    omega

theorem hwheader1_eq {n : Nat} (h4 : 4 ≤ n) (h : n ≤ 0xFFFF) :
    hwheader1 n last = n - 4 + if last then 0x1000000 else 0 := by
  have hsub : (0x100000000 + n - SDPCM_FRAMETAG_LEN) % 0x100000000 = n - 4 := by
    unfold SDPCM_FRAMETAG_LEN
    omega
  unfold hwheader1
  rw [hsub]
  cases last with
  | false => simp
  | true =>
    have hor := Nat.two_pow_add_eq_or_of_lt (show n - 4 < 2 ^ 24 by omega) 1
    rw [if_pos rfl, Nat.or_comm, ← hor]
    omega

/-- The frame in the packet describes itself. -/
theorem inPlaceFrame_framed (hhead : pad.head = (p.data - bus.sdpcmHdrlen) % DHD_SDALIGN)
    (hroom : p.head + bus.sdpcmHdrlen + pad.head ≤ p.data)
    (htail : p.data + p.len + pad.tail ≤ p.endAddr)
    (hlen : p.len + bus.sdpcmHdrlen + pad.head ≤ 0xFFFF)
    (hglom : bus.txglomEnable = true → pad.tail ≤ 0xFFFF) :
    Framed bus p chan txseq last (inPlaceFrame bus p chan txseq pad last) := by
  obtain ⟨hh, hd, he, hl⟩ := @inPlaceFrame_place bus p chan txseq pad last
  have htag := @inPlaceFrame_tag bus p chan txseq pad last
  have hsw : (inPlaceFrame bus p chan txseq pad last).get bus.swhdrOffset 4 =
      swheader chan txseq (pad.head + bus.sdpcmHdrlen) := writeHeader_sw
  have hcheck : (inPlaceFrame bus p chan txseq pad last).get 2 2 =
      0xFFFF - (p.len + bus.sdpcmHdrlen + pad.head) % 0x10000 := writeHeader_tag.2
  have hlt : pad.head < DHD_SDALIGN := by
    rw [hhead]
    exact Nat.mod_lt _ (by decide)
  rw [Nat.mod_eq_of_lt (Nat.lt_succ_of_le hlen)] at hl htag hcheck
  refine ⟨?_, ?_, ?_, ?_, ?_, ?_, ?_⟩
  · rw [hd, hhead]
    unfold DHD_SDALIGN
    omega
  · omega
  · omega
  · rw [inPlaceFrame_dataOffset hlt, htag, hd]
    have hpos : p.data - bus.sdpcmHdrlen - pad.head + (pad.head + bus.sdpcmHdrlen) = p.data := by
      omega
    have hn : p.len + bus.sdpcmHdrlen + pad.head - (pad.head + bus.sdpcmHdrlen) = p.len := by
      omega
    rw [hpos, hn]
    exact inPlaceFrame_payload (by omega)
  · rw [hsw]
    unfold swheader SDPCM_SEQUENCE_WRAP
    omega
  · rw [hsw]
    unfold swheader SDPCM_SEQUENCE_WRAP
    omega
  · intro hon
    have hext : (inPlaceFrame bus p chan txseq pad last).get SDPCM_FRAMETAG_LEN 4 =
        hwheader1 ((p.len + bus.sdpcmHdrlen + pad.head) % 0x10000) last % 256 ^ 4 :=
      (writeHeader_ext hon).1
    have hhdr : 8 ≤ bus.sdpcmHdrlen := Nat.le_add_left 8 bus.swhdrOffset
    have htail16 := hglom hon
    rw [Nat.mod_eq_of_lt (Nat.lt_succ_of_le hlen), hwheader1_eq (by omega) hlen] at hext
    rw [inPlaceFrame_padding hon, hext, htag, hl]
    unfold SDPCM_FRAMETAG_LEN
    refine ⟨?_, ?_, ?_⟩
    · cases last <;> simp only [Bool.false_eq_true, ite_false, ite_true] <;> omega
    · cases last <;> simp only [Bool.false_eq_true, ite_false, ite_true] <;> omega
    · omega

/-- The chain with this frame. -/
theorem inPlaceFrame_total (hplace : inPlace bus (p.push bus.sdpcmHdrlen) prev last = some pad)
    (hlen : p.len + bus.sdpcmHdrlen + pad.head ≤ 0xFFFF) :
    prev + (inPlaceFrame bus p chan txseq pad last).len =
      chainLen (p.push bus.sdpcmHdrlen) prev +
        bus.chainTailPadding prev (chainLen (p.push bus.sdpcmHdrlen) prev) last := by
  obtain ⟨-, -, -, hl⟩ := @inPlaceFrame_place bus p chan txseq pad last
  obtain ⟨-, -, hpad⟩ := inPlace_iff.1 hplace
  rw [Nat.mod_eq_of_lt (Nat.lt_succ_of_le hlen)] at hl
  have hdata : pad.head = (p.push bus.sdpcmHdrlen).data % DHD_SDALIGN := by rw [hpad]
  have htail : pad.tail = sdTailPadding (p.push bus.sdpcmHdrlen) +
      bus.chainTailPadding prev (chainLen (p.push bus.sdpcmHdrlen) prev) last := by rw [hpad]
  have hmod : (p.push bus.sdpcmHdrlen).len % 0x10000 = p.len + bus.sdpcmHdrlen := by
    show (p.len + bus.sdpcmHdrlen) % 0x10000 = _
    omega
  unfold chainLen at htail ⊢
  rw [hl, htail, hmod, ← hdata]
  omega

theorem inPlaceFrame_wholeBlocks (hplace : inPlace bus (p.push bus.sdpcmHdrlen) prev last = some pad)
    (hlen : p.len + bus.sdpcmHdrlen + pad.head ≤ 0xFFFF) :
    WholeBlocks bus prev last (inPlaceFrame bus p chan txseq pad last) := by
  intro hlast hblock hmore
  rw [inPlaceFrame_total hplace hlen] at hmore ⊢
  unfold Bus.chainTailPadding at hmore ⊢
  by_cases hal : bus.chainAligned prev (chainLen (p.push bus.sdpcmHdrlen) prev) last = true
  · rw [if_pos hal]
    exact dvd_add_padTo hblock _
  · rw [if_neg hal, Nat.add_zero] at hmore
    refine absurd (decide_eq_true ⟨hlast, hblock, ?_⟩) hal
    exact hmore.symm

theorem inPlaceFrame_wholeUnits (hplace : inPlace bus (p.push bus.sdpcmHdrlen) prev last = some pad)
    (hlen : p.len + bus.sdpcmHdrlen + pad.head ≤ 0xFFFF) :
    WholeUnits bus prev (inPlaceFrame bus p chan txseq pad last) := by
  intro hblock hprev
  have hunit : DHD_SDALIGN ∣ chainLen (p.push bus.sdpcmHdrlen) prev := by
    have hsd := dvd_add_padTo (show DHD_SDALIGN ≠ 0 by decide)
      ((p.push bus.sdpcmHdrlen).len % 0x10000 + (p.push bus.sdpcmHdrlen).data % DHD_SDALIGN)
    unfold chainLen
    rw [Nat.add_comm (_ % DHD_SDALIGN)]
    exact Nat.dvd_add hprev hsd
  rw [← Nat.dvd_add_right hprev, inPlaceFrame_total hplace hlen]
  unfold Bus.chainTailPadding
  split
  · next hal =>
    obtain ⟨-, hne, -⟩ := of_decide_eq_true hal
    exact Nat.dvd_trans hblock (dvd_add_padTo hne _)
  · exact hunit

/-! ## Undoing it -/

theorem setGlomLen_place : (setGlomLen bus total f).data = f.data ∧
    (setGlomLen bus total f).len = f.len := by
  unfold setGlomLen
  split
  · exact ⟨rfl, rfl⟩
  · exact ⟨rfl, rfl⟩

theorem setGlomLen_plain (h : bus.txglomEnable = false) : setGlomLen bus total f = f := by
  unfold setGlomLen
  split
  · next hon =>
    rw [h] at hon
    cases hon
  · rfl

/-- Behind the frame tag nothing changes. -/
theorem setGlomLen_get {i w : Nat} (hi : 4 ≤ i) :
    (setGlomLen bus total f).get i w = f.get i w := by
  unfold setGlomLen
  split
  · unfold putFrameTag Skb.put Skb.get
    dsimp only
    rw [load_store_of_off (by omega), load_store_of_off (by omega)]
  · rfl

theorem setGlomLen_readAt {a n : Nat} (ha : f.data + 4 ≤ a) :
    readAt (setGlomLen bus total f).mem a n = readAt f.mem a n := by
  unfold setGlomLen
  split
  · unfold putFrameTag Skb.put
    dsimp only
    rw [readAt_store_of_off (by omega), readAt_store_of_off (by omega)]
  · rfl

theorem pull_of_le {n : Nat} (h : n ≤ f.len) :
    f.pull n = { f with data := f.data + n, len := f.len - n } := if_pos h

/-- The header and the padding go, and the packet is as it was. -/
theorem inPlaceFrame_restored (hhead : pad.head < DHD_SDALIGN)
    (hroom : p.head + bus.sdpcmHdrlen + pad.head ≤ p.data)
    (hlen : p.len + bus.sdpcmHdrlen + pad.head ≤ 0xFFFF)
    (hglom : bus.txglomEnable = true → pad.tail ≤ 0xFFFF) :
    Restored p (dhdsdioTxpktPostprocess bus
      (setGlomLen bus total (inPlaceFrame bus p chan txseq pad last))) := by
  obtain ⟨-, hd, -, hl⟩ := @inPlaceFrame_place bus p chan txseq pad last
  have htag := @inPlaceFrame_tag bus p chan txseq pad last
  have hoff := @inPlaceFrame_dataOffset bus p chan txseq pad last hhead
  have hbytes := @inPlaceFrame_payload bus p chan txseq pad last (by omega)
  rw [Nat.mod_eq_of_lt (Nat.lt_succ_of_le hlen)] at hl htag
  have hhdr : 8 ≤ bus.sdpcmHdrlen := Nat.le_add_left 8 bus.swhdrOffset
  obtain ⟨hgd, hgl⟩ := @setGlomLen_place bus total (inPlaceFrame bus p chan txseq pad last)
  have hgread := @setGlomLen_readAt bus total (inPlaceFrame bus p chan txseq pad last) p.data p.len
    (by omega)
  have hgoff : (setGlomLen bus total (inPlaceFrame bus p chan txseq pad last)).get
      bus.swhdrOffset 4 / 0x1000000 = pad.head + bus.sdpcmHdrlen := by
    rw [setGlomLen_get (show 4 ≤ bus.swhdrOffset from Nat.le_add_right 4 _)]
    exact hoff
  -- the length without the tail padding
  have hn : (if bus.txglomEnable = true then
      (setGlomLen bus total (inPlaceFrame bus p chan txseq pad last)).len -
        (setGlomLen bus total (inPlaceFrame bus p chan txseq pad last)).get
          (SDPCM_FRAMETAG_LEN + 4) 4 / 0x10000
      else (setGlomLen bus total (inPlaceFrame bus p chan txseq pad last)).get 0 2) =
      p.len + bus.sdpcmHdrlen + pad.head := by
    split
    · next hon =>
      have htail := hglom hon
      rw [setGlomLen_get (by decide), inPlaceFrame_padding hon, hgl, hl]
      omega
    · next hoff' =>
      rw [setGlomLen_plain (Bool.eq_false_iff.2 hoff')]
      exact htag
  unfold dhdsdioTxpktPostprocess
  rw [hn, hgoff, pull_of_le]
  · refine ⟨?_, ?_, ?_⟩
    · show (setGlomLen bus total (inPlaceFrame bus p chan txseq pad last)).data + _ = _
      omega
    · show p.len + bus.sdpcmHdrlen + pad.head - (pad.head + bus.sdpcmHdrlen) = p.len
      omega
    · show readAt (setGlomLen bus total (inPlaceFrame bus p chan txseq pad last)).mem
        ((setGlomLen bus total (inPlaceFrame bus p chan txseq pad last)).data +
          (pad.head + bus.sdpcmHdrlen))
        (p.len + bus.sdpcmHdrlen + pad.head - (pad.head + bus.sdpcmHdrlen)) = _
      have hpos : (setGlomLen bus total (inPlaceFrame bus p chan txseq pad last)).data +
          (pad.head + bus.sdpcmHdrlen) = p.data := by omega
      have hcount : p.len + bus.sdpcmHdrlen + pad.head - (pad.head + bus.sdpcmHdrlen) = p.len := by
        omega
      rw [hpos, hcount, hgread, hbytes]
  · show pad.head + bus.sdpcmHdrlen ≤ p.len + bus.sdpcmHdrlen + pad.head
    omega

/-- A frame that describes itself has lengths of 16 bits. -/
theorem lengths_of_framed (hhead : pad.head < DHD_SDALIGN)
    (h : Framed bus p chan txseq last (inPlaceFrame bus p chan txseq pad last)) :
    p.len + bus.sdpcmHdrlen + pad.head ≤ 0xFFFF ∧
      (bus.txglomEnable = true → pad.tail ≤ 0xFFFF) := by
  obtain ⟨-, -, -, hl⟩ := @inPlaceFrame_place bus p chan txseq pad last
  have htag := @inPlaceFrame_tag bus p chan txseq pad last
  have hle : bus.sdpcmHdrlen ≤ 20 := hdrlen_range.2
  have hbytes := congrArg List.length h.payload
  rw [inPlaceFrame_dataOffset hhead, htag, readAt_length, Skb.bytes, readAt_length] at hbytes
  unfold DHD_SDALIGN at hhead
  constructor
  · omega
  · intro hon
    obtain ⟨-, -, hpad⟩ := h.extension hon
    rw [inPlaceFrame_padding hon, htag, hl] at hpad
    omega

/-- **What is sent describes itself and is undone, just when there is room for the padding in the
packet and its lengths have 16 bits.** -/
theorem txpkt_reversible_iff (hs : p.Sendable bus)
    (hret : 0 < (dhdsdioTxpktPreprocess bus pktget p chan txseq prev last).ret) :
    Reversible bus p chan txseq prev last
        (dhdsdioTxpktPreprocess bus pktget p chan txseq prev last) ↔
      Fits bus p prev last := by
  rw [fits_iff hs]
  cases hplace : inPlace bus (p.push bus.sdpcmHdrlen) prev last with
  | none =>
    constructor
    · rintro ⟨-, -, -, hafter⟩
      exact absurd (hafter none).2 (copied_not_restored hs hplace hret)
    · rintro ⟨pad, hnone, -⟩
      cases hnone
  | some pad =>
    obtain ⟨hroom, htail, hpad⟩ := inPlace_iff.1 hplace
    have hs₁ := hs.headroom
    have hs₂ := hs.inside
    have hhead : pad.head = (p.data - bus.sdpcmHdrlen) % DHD_SDALIGN := by
      rw [hpad]
      rfl
    have hlt : pad.head < DHD_SDALIGN := by
      rw [hhead]
      exact Nat.mod_lt _ (by decide)
    have hroom' : p.head + bus.sdpcmHdrlen + pad.head ≤ p.data := by
      have hq : (p.data - bus.sdpcmHdrlen) % DHD_SDALIGN ≤ p.data - bus.sdpcmHdrlen - p.head :=
        hroom
      omega
    have htail' : p.data + p.len + pad.tail ≤ p.endAddr := by
      have hq : pad.tail ≤
          p.endAddr - (p.data - bus.sdpcmHdrlen + (p.len + bus.sdpcmHdrlen)) := by
        rw [hpad]
        exact htail
      omega
    rw [preprocess_inPlace hplace]
    constructor
    · rintro ⟨hframed, -⟩
      exact ⟨pad, rfl, lengths_of_framed hlt hframed⟩
    · rintro ⟨_, hsome, hlen, hglom⟩
      cases hsome
      refine ⟨inPlaceFrame_framed hhead hroom' htail' hlen hglom,
        inPlaceFrame_wholeBlocks hplace hlen, inPlaceFrame_wholeUnits hplace hlen,
        fun total => ?_⟩
      have hrest := @inPlaceFrame_restored bus p chan txseq pad last total hlt hroom' hlen hglom
      refine ⟨?_, hrest⟩
      obtain ⟨-, -, hbytes⟩ := hrest
      exact hbytes

end

/-- Packets of 100 bytes, with room for the header in front. -/
def aPacket (endAddr : Nat) : Skb := ⟨64, 76, 100, endAddr, fun _ => 0⟩

def aBus : Bus := ⟨false, 256⟩

/-- `PKTGET` finds memory. -/
def freshPacket (n : Nat) : Option Skb := some ⟨4096, 4096, n, 4096 + n, fun _ => 0⟩

theorem txpkt_reversible_aPacket : Reversible aBus (aPacket 192) 2 7 0 true
    (dhdsdioTxpktPreprocess aBus freshPacket (aPacket 192) 2 7 0 true) :=
  (txpkt_reversible_iff ⟨by decide, by decide⟩ (by decide)).2
    ⟨by decide, by decide, by decide, nofun⟩

/-- Without room behind for 16 bytes of padding, a copy is sent, and the packet keeps the header. -/
theorem txpkt_not_reversible : (aPacket 176).Sendable aBus ∧
    0 < (dhdsdioTxpktPreprocess aBus freshPacket (aPacket 176) 2 7 0 true).ret ∧
    ¬Reversible aBus (aPacket 176) 2 7 0 true
      (dhdsdioTxpktPreprocess aBus freshPacket (aPacket 176) 2 7 0 true) := by
  have hs : (aPacket 176).Sendable aBus := ⟨by decide, by decide⟩
  have hplace : inPlace aBus ((aPacket 176).push aBus.sdpcmHdrlen) 0 true = none := by decide
  have hret : 0 < (dhdsdioTxpktPreprocess aBus freshPacket (aPacket 176) 2 7 0 true).ret := by decide
  refine ⟨hs, hret, ?_⟩
  rintro ⟨-, -, -, hafter⟩
  exact copied_not_restored hs hplace hret (hafter none).2

end Bcmdhd.Sdio.TxFrame
