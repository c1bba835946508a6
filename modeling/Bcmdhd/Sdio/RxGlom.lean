import Bcmdhd.HostReorder
import Bcmdhd.Wlfc.Signals

/-!
# Receive superframes of the SDIO bus (`dhdsdio_rxglom`)

A superframe that was read is validated, and its subframes are passed to `dhd_rx_frame` in one
chain for each interface.  A subframe with reorder information is handed to the reorder code first,
which gives back any chain of packets.  `num` counts the packets of these chains;
`dhdsdio_readframes` advances the sequence number that it expects by it.

    validated setup bus →
      (Delivers calls setup bus st uninit rxseq ↔
        reorder counts and chains agree, each interface gets fewer than 256 packets, and the
        packets counted lead from rxseq to behind the last subframe)   (rxglom_delivers_iff)
-/

namespace Bcmdhd.Sdio.RxGlom

open Wlfc.Signals

def SDPCM_EVENT_CHANNEL : UInt8 := 1
def SDPCM_DATA_CHANNEL : UInt8 := 2
def SDPCM_GLOM_CHANNEL : UInt8 := 3
def SDPCM_HDRLEN : Nat := 12
def MAX_RX_DATASZ : Nat := 2048
def DHD_MAX_IFS : Nat := 16

/-- `ROUNDUP`, of `uint`s -/
def roundup (x y : Nat) : Nat := (0xFFFFFFFF + x + y) % 0x100000000 / y * y

/-! ## Headers

The hardware frame tag takes 4 bytes, and the software header of 8 bytes follows. -/

namespace Header

variable (byte : Nat → UInt8)

def ltoh16 (i : Nat) : Nat := (byte i).toNat + 0x100 * (byte (i + 1)).toNat

def sublen : Nat := ltoh16 byte 0
def check : Nat := ltoh16 byte 2
def seq : UInt8 := byte 4
def chan : UInt8 := byte 5 &&& 0x0f
def glomdesc : UInt8 := byte 5 &&& 0x80
def nextlen : Nat := (byte 6).toNat
def doff : Nat := (byte 7).toNat
def window : UInt8 := byte 9

/-- No bit of `~(sublen^check)` is set. -/
def lenOk : Bool := sublen byte ^^^ check byte = 0xffff

/-- The superframe header, in a packet of `len` bytes; `dlen` bytes were read. -/
def superframeOk (len blocksize dlen : Nat) : Bool :=
  lenOk byte ∧ roundup (sublen byte) blocksize = dlen ∧ chan byte = SDPCM_GLOM_CHANNEL ∧
    glomdesc byte = 0 ∧ SDPCM_HDRLEN ≤ doff byte ∧
    doff byte ≤ (len + 0x100000000 - SDPCM_HDRLEN) % 0x100000000

def subframeOk (len : Nat) : Bool :=
  lenOk byte ∧ sublen byte ≤ len % 0x10000 ∧ SDPCM_HDRLEN ≤ sublen byte ∧
    (chan byte = SDPCM_DATA_CHANNEL ∨ chan byte = SDPCM_EVENT_CHANNEL) ∧
    SDPCM_HDRLEN ≤ doff byte ∧ doff byte ≤ sublen byte

end Header

/-! ## Packets -/

/-- A packet: `data` are the `PKTLEN` bytes from `PKTDATA` on. -/
structure Pkt where
  id : Nat
  data : List UInt8
  sumGood : Bool
  prio : UInt8
deriving DecidableEq, Repr

namespace Pkt

variable (p : Pkt)

def len : Nat := p.data.length

def byte (i : Nat) : UInt8 := p.data.getD i 0

/-- `PKTPULL`, which pulls nothing where the packet is shorter -/
def pull (n : Nat) : Pkt := if p.len < n then p else { p with data := p.data.drop n }

/-- `PKTSETLEN`, to a length that is not above the present one -/
def setLen (n : Nat) : Pkt := { p with data := p.data.take n }

def sublen : Nat := Header.sublen p.byte
def seq : UInt8 := Header.seq p.byte
def nextlen : Nat := Header.nextlen p.byte
def doff : Nat := Header.doff p.byte
def window : UInt8 := Header.window p.byte

end Pkt

/-! ## Validation -/

/-- The superframe header in the first packet -/
def superframeOk (blocksize dlen : Nat) (p : Pkt) : Bool :=
  Header.superframeOk p.byte p.len blocksize dlen

def subframeOk (p : Pkt) : Bool := Header.subframeOk p.byte p.len

/-- `pkttotlen` -/
def pkttotlen (glom : List Pkt) : Nat := (glom.flatMap Pkt.data).length

/-- The subframes: the superframe header is pulled from the first packet. -/
def subframes : List Pkt → List Pkt
  | [] => []
  | p :: rest => p.pull p.doff :: rest

/-- The packet chain was read and passes every check. -/
def validated (blocksize : Nat) : List Pkt → Bool
  | [] => false
  | p :: rest =>
    superframeOk blocksize (pkttotlen (p :: rest) % 0x10000) p &&
      (subframes (p :: rest)).all subframeOk

/-! ## Algorithm -/

/-- What is called for a subframe, on a state of its own.  `dhd_wlfc_parse_header_info` is given
the packet's bytes, how many are signals, and `reorder_info_buf`, and returns the buffer and
`reorder_info_len`.  `dhd_process_pkt_reorder_info` returns a chain and the count given with it. -/
structure Calls (σ : Type) where
  parseHeaderInfo : σ → List UInt8 → Nat → List UInt8 → σ × List UInt8 × Nat
  processPktReorderInfo : σ → List UInt8 → Nat → Pkt → σ × List Pkt × UInt32

section
variable {σ : Type} (calls : Calls σ)

/-- What `dhd_prot_hdrpull` hands back when it returns 0. -/
structure Pulled (σ : Type) where
  ifidx : Nat
  pkt : Pkt
  st : σ
  buf : List UInt8
  reorderInfoLen : Nat

def BDC_HEADER_LEN : Nat := 4
def BDC_PROTO_VER_1 : UInt8 := 1
def BDC_PROTO_VER : UInt8 := 2

/-- `none` is `BCME_ERROR`. -/
def hdrpull (st : σ) (buf : List UInt8) (p : Pkt) : Option (Pulled σ) :=
  if p.len < BDC_HEADER_LEN then none
  else
    let ver := (p.byte 0 &&& 0xf0) >>> 4
    if ver ≠ BDC_PROTO_VER ∧ ver ≠ BDC_PROTO_VER_1 then none
    else
      let dataOffset := if ver = BDC_PROTO_VER then (p.byte 3).toNat * 4 else 0
      let body := { p with
        sumGood := p.sumGood || p.byte 0 &&& 0x04 ≠ 0, prio := p.byte 1 &&& 0x07 }.pull
          BDC_HEADER_LEN
      let r := calls.parseHeaderInfo st body.data dataOffset buf
      some {
        ifidx := (p.byte 2 &&& 0x0f).toNat, pkt := body.pull dataOffset, st := r.1, buf := r.2.1,
        reorderInfoLen := r.2.2 }

/-- Local variables of the loop over the subframes, with the packets that were freed and handed to
the reorder code; `lists` are the chains from `list_head` to `list_tail`. -/
structure Loop (σ : Type) where
  st : σ
  buf : List UInt8
  rxseq : UInt8
  num : UInt8
  lists : Nat → List Pkt
  freed : List Pkt
  reordered : List Pkt
  rxBadseq : Nat
  rxErrors : Nat

def Loop.checkSeq (s : Loop σ) (seq : UInt8) : Loop σ :=
  if s.rxseq ≠ seq then { s with rxBadseq := s.rxBadseq + 1, rxseq := seq } else s

/-- The chain goes behind `list_tail[ifidx]`. -/
def Loop.attach (s : Loop σ) (ifidx : Nat) (chain : List Pkt) (count : UInt8) : Loop σ :=
  { s with
    lists := Function.update s.lists ifidx (s.lists ifidx ++ chain), num := s.num + count }

/-- A subframe with its headers pulled.  `none`: the end of a chain that is `NULL` is looked for. -/
def payload (s : Loop σ) (p : Pkt) : Option (Loop σ) :=
  if p.len = 0 then some { s with freed := s.freed ++ [p] }
  else
    match hdrpull calls s.st s.buf p with
    | none => some { s with rxErrors := s.rxErrors + 1, freed := s.freed ++ [p] }
    | some q =>
      if q.reorderInfoLen ≠ 0 then
        let r := calls.processPktReorderInfo q.st q.buf q.reorderInfoLen q.pkt
        let s := { s with st := r.1, buf := q.buf, reordered := s.reordered ++ [q.pkt] }
        if r.2.2 = 0 then some s
        else if r.2.1 = [] then none
        else some (s.attach q.ifidx r.2.1 r.2.2.toUInt8)
      else some ({ s with st := q.st, buf := q.buf }.attach q.ifidx [q.pkt] 1)

/-- The body of the loop, and `rxseq++`. -/
def subframe (s : Loop σ) (p : Pkt) : Option (Loop σ) :=
  (payload calls (s.checkSeq p.seq) ((p.setLen p.sublen).pull p.doff)).map fun s =>
    { s with rxseq := s.rxseq + 1 }

def rxLoop : Loop σ → List Pkt → Option (Loop σ)
  | s, [] => some s
  | s, p :: rest =>
    match subframe calls s p with
    | none => none
    | some s => rxLoop s rest

/-- A call of `dhd_rx_frame`. -/
structure RxFrame where
  ifidx : Nat
  chain : List Pkt
  cnt : UInt8
deriving DecidableEq, Repr

/-- `do { temp = PKTNEXT(temp); cnt++; } while (temp)` -/
def chainCnt : List Pkt → UInt8
  | [] => 0
  | _ :: rest => chainCnt rest + 1

def rxFrame (lists : Nat → List Pkt) (idx : Nat) : List RxFrame :=
  if lists idx ≠ [] ∧ chainCnt (lists idx) ≠ 0 then
    [⟨idx, lists idx, chainCnt (lists idx)⟩]
  else []

def rxFrames (lists : Nat → List Pkt) (n : Nat) : List RxFrame :=
  (List.range n).flatMap (rxFrame lists)

/-- Fields of `dhd_bus_t` and of its `dhd_pub_t`; `glom` is the packet chain of a superframe. -/
structure Bus where
  glom : List Pkt
  txSeq : UInt8
  txMax : UInt8
  nextlen : Nat
  glomerr : Nat
  rxglomfail : Nat
  rxglomframes : Nat
  rxglompkts : Nat
  rxBadseq : Nat
  rxErrors : Nat
deriving Repr

/-- What `dhdsdio_rxglom` leaves: the packets freed and handed to the reorder code, the calls of
`dhd_rx_frame`, and of `dhdsdio_rxfail` the argument `rtx`. -/
structure Result (σ : Type) where
  bus : Bus
  st : σ
  num : UInt8
  freed : List Pkt
  reordered : List Pkt
  frames : List RxFrame
  rxfail : Option Bool

/-- What is read of the superframe header, whether it is valid or not; and the sequence number that
the first subframe is to have. -/
def readHeader (bus : Bus) (p : Pkt) (rxseq : UInt8) : Bus × UInt8 :=
  ({ bus with
      nextlen := if p.nextlen * 0x10 > MAX_RX_DATASZ then 0 else p.nextlen
      txMax := if (p.window - bus.txSeq).toNat > 0x70 then bus.txMax else p.window
      rxBadseq := if rxseq ≠ p.seq then bus.rxBadseq + 1 else bus.rxBadseq }, p.seq)

/-- The superframe is not valid: it is read again, at most three times.  Where the packets' data
then starts is in `GlomRetry`. -/
def terminate (bus : Bus) (st : σ) (glom : List Pkt) : Result σ :=
  let bus := { bus with nextlen := 0 }
  if bus.glomerr < 3 then
    { bus := { bus with glomerr := bus.glomerr + 1 }, st := st, num := 0, freed := [],
      reordered := [], frames := [], rxfail := some true }
  else
    { bus := { bus with glomerr := 0, rxglomfail := bus.rxglomfail + 1, glom := [] }, st := st,
      num := 0, freed := subframes glom, reordered := [], frames := [], rxfail := some false }

def Loop.start (bus : Bus) (st : σ) (uninit : List UInt8) (rxseq : UInt8) : Loop σ where
  st := st
  buf := uninit
  rxseq := rxseq
  num := 0
  lists := fun _ => []
  freed := []
  reordered := []
  rxBadseq := bus.rxBadseq
  rxErrors := bus.rxErrors

/-- The subframes are done: the chains are passed up. -/
def finish (bus : Bus) (s : Loop σ) : Result σ where
  bus := { bus with
    glom := [], rxglomframes := bus.rxglomframes + 1, rxglompkts := bus.rxglompkts + s.num.toNat,
    rxBadseq := s.rxBadseq, rxErrors := s.rxErrors }
  st := s.st
  num := s.num
  freed := s.freed
  reordered := s.reordered
  frames := rxFrames s.lists DHD_MAX_IFS
  rxfail := none

/-- The superframe in `bus->glom` was read; `uninit` is what `reorder_info_buf` holds at first. -/
def rxglom (blocksize : Nat) (bus : Bus) (st : σ) (uninit : List UInt8) (rxseq : UInt8) :
    Option (Result σ) :=
  match bus.glom with
  | [] =>
    some { bus := bus, st := st, num := 0, freed := [], reordered := [], frames := [],
           rxfail := none }
  | p :: rest =>
    let h := readHeader bus p rxseq
    if validated blocksize (p :: rest) then
      (rxLoop calls (Loop.start h.1 st uninit h.2) (subframes (p :: rest))).map (finish h.1)
    else some (terminate h.1 st (p :: rest))

end

/-- `rxseq += cnt - 1` of `dhdsdio_readframes`, and the `rxseq++` of its loop -/
def nextExpected (rxseq cnt : UInt8) : UInt8 := rxseq + (cnt - 1) + 1

/-! ## Delivery -/

/-- What a subframe is. -/
inductive Fate
  | empty (p : Pkt)
  | rejected (p : Pkt)
  | up (ifidx : Nat) (p : Pkt)
  | reordered (ifidx : Nat) (p : Pkt) (chain : List Pkt) (count : UInt32)

namespace Fate

/-- The packets that are for `dhd_rx_frame` of interface `i`. -/
def pktsFor (i : Nat) : Fate → List Pkt
  | .up ifidx p => if ifidx = i then [p] else []
  | .reordered ifidx _ chain _ => if ifidx = i then chain else []
  | .empty _ | .rejected _ => []

def toFree : Fate → List Pkt
  | .empty p | .rejected p => [p]
  | .up _ _ | .reordered _ _ _ _ => []

def toReorder : Fate → List Pkt
  | .reordered _ p _ _ => [p]
  | .empty _ | .rejected _ | .up _ _ => []

/-- How many packets are counted. -/
def counted : Fate → UInt8
  | .up _ _ => 1
  | .reordered _ _ _ count => count.toUInt8
  | .empty _ | .rejected _ => 0

/-- The reorder code gives the count 0 with no packet, and with no packet only. -/
def agrees : Fate → Bool
  | .reordered _ _ chain count => count = 0 ↔ chain = []
  | .empty _ | .rejected _ | .up _ _ => true

end Fate

/-- With the state and the `reorder_info_buf` behind the subframe. -/
structure Fated (σ : Type) where
  fate : Fate
  st : σ
  buf : List UInt8

variable {fs : List Fate} {i : Nat}

section
variable {σ : Type} (calls : Calls σ)

def payloadFate (st : σ) (buf : List UInt8) (p : Pkt) : Fated σ :=
  if p.len = 0 then ⟨.empty p, st, buf⟩
  else
    match hdrpull calls st buf p with
    | none => ⟨.rejected p, st, buf⟩
    | some q =>
      if q.reorderInfoLen = 0 then ⟨.up q.ifidx q.pkt, q.st, q.buf⟩
      else
        let r := calls.processPktReorderInfo q.st q.buf q.reorderInfoLen q.pkt
        ⟨.reordered q.ifidx q.pkt r.2.1 r.2.2, r.1, q.buf⟩

def fateOf (st : σ) (buf : List UInt8) (p : Pkt) : Fated σ :=
  payloadFate calls st buf ((p.setLen p.sublen).pull p.doff)

def fates (st : σ) (buf : List UInt8) : List Pkt → List Fate
  | [] => []
  | p :: rest =>
    let f := fateOf calls st buf p
    f.fate :: fates f.st f.buf rest

def pktsFor (i : Nat) (fs : List Fate) : List Pkt := fs.flatMap (Fate.pktsFor i)

def counted : List Fate → UInt8
  | [] => 0
  | f :: fs => f.counted + counted fs

/-- The packets passed to `dhd_rx_frame` for interface `i`. -/
def passed (frames : List RxFrame) (i : Nat) : List Pkt :=
  (frames.filter (·.ifidx = i)).flatMap RxFrame.chain

/-- Every subframe with a payload and a header that is accepted is passed up for its interface, in
the order of the superframe, or is handed to the reorder code, whose packets are passed up in its
place; the others are freed; and the next number expected is the one behind the last subframe. -/
structure Delivered (fs : List Fate) (rxseq : UInt8) (last : Option Pkt) (r : Result σ) :
    Prop where
  passed_eq : ∀ i, passed r.frames i = pktsFor i fs
  cnt_eq : ∀ f ∈ r.frames, f.cnt.toNat = f.chain.length
  reordered_eq : r.reordered = fs.flatMap Fate.toReorder
  freed_eq : r.freed = fs.flatMap Fate.toFree
  next_eq : ∀ p ∈ last, nextExpected rxseq r.num = p.seq + 1

def Delivers (blocksize : Nat) (bus : Bus) (st : σ) (uninit : List UInt8) (rxseq : UInt8) : Prop :=
  ∃ r, rxglom calls blocksize bus st uninit rxseq = some r ∧
    Delivered (fates calls st uninit (subframes bus.glom)) rxseq (subframes bus.glom).getLast? r

/-- The counts of the reorder code agree with its chains, no interface gets 256 packets, and the
packets counted are as many, mod 256, as there are numbers from `rxseq` to the last subframe's. -/
structure CountsMatch (fs : List Fate) (rxseq : UInt8) (last : Option Pkt) : Prop where
  agrees : ∀ f ∈ fs, f.agrees = true
  length_lt : ∀ i, (pktsFor i fs).length < 0x100
  counted_eq : ∀ p ∈ last, rxseq + counted fs = p.seq + 1

/-! ## One subframe -/

/-- The packets linked into the chain of interface `i`: a chain with the count 0 is not. -/
def Fate.linked (i : Nat) : Fate → List Pkt
  | .reordered ifidx _ chain count => if count = 0 then [] else if ifidx = i then chain else []
  | f => f.pktsFor i

/-- The loop does not run into a chain that is `NULL`. -/
def Fate.survives : Fate → Bool
  | .reordered _ _ chain count => chain = [] → count = 0
  | _ => true

theorem Fate.survives_of_agrees {f : Fate} (h : f.agrees = true) : f.survives = true := by
  cases f with
  | reordered ifidx p chain count =>
    have hiff := of_decide_eq_true h
    exact decide_eq_true hiff.mpr
  | empty p => rfl
  | rejected p => rfl
  | up ifidx p => rfl

theorem Fate.linked_of_agrees {f : Fate} (h : f.agrees = true) (i : Nat) :
    f.linked i = f.pktsFor i := by
  cases f with
  | reordered ifidx p chain count =>
    have hiff := of_decide_eq_true h
    show (if count = 0 then [] else if ifidx = i then chain else []) =
      if ifidx = i then chain else []
    by_cases hc : count = 0
    · rw [if_pos hc, hiff.mp hc, ite_self]
    · rw [if_neg hc]
  | empty p => rfl
  | rejected p => rfl
  | up ifidx p => rfl

/-- What the loop does for a subframe. -/
def Loop.apply (s : Loop σ) (f : Fated σ) : Loop σ where
  st := f.st
  buf := f.buf
  rxseq := s.rxseq
  num := s.num + f.fate.counted
  lists := fun i => s.lists i ++ f.fate.linked i
  freed := s.freed ++ f.fate.toFree
  reordered := s.reordered ++ f.fate.toReorder
  rxBadseq := s.rxBadseq
  rxErrors := match f.fate with
    | .rejected _ => s.rxErrors + 1
    | _ => s.rxErrors

/-- The loop after a subframe, if it goes on. -/
def Loop.take (s : Loop σ) (f : Fated σ) : Option (Loop σ) :=
  if f.fate.survives then some (s.apply f) else none

theorem take_eq_some {s t : Loop σ} {f : Fated σ} :
    s.take f = some t ↔ f.fate.survives = true ∧ s.apply f = t := by
  unfold Loop.take
  split
  case isTrue h => simp [h]
  case isFalse h => simp [h]

theorem attach_lists (s : Loop σ) (ifidx : Nat) (chain : List Pkt) (count : UInt8) :
    (s.attach ifidx chain count).lists =
      fun i => s.lists i ++ if ifidx = i then chain else [] := by
  funext i
  show Function.update s.lists ifidx _ i = _
  by_cases h : ifidx = i
  · subst h
    rw [Function.update_self, if_pos rfl]
  · rw [Function.update_of_ne (Ne.symm h), if_neg h, List.append_nil]

/-- A chain that is linked in. -/
theorem attach_eq (s : Loop σ) (ifidx : Nat) (chain : List Pkt) (count : UInt8) :
    s.attach ifidx chain count =
      { s with
        lists := fun i => s.lists i ++ if ifidx = i then chain else [], num := s.num + count } := by
  rw [← attach_lists s ifidx chain count]
  rfl

theorem take_freed (s : Loop σ) (p : Pkt) :
    s.take ⟨.empty p, s.st, s.buf⟩ = some { s with freed := s.freed ++ [p] } := by
  simp [Loop.take, Loop.apply, Fate.survives, Fate.counted, Fate.linked, Fate.pktsFor,
    Fate.toFree, Fate.toReorder]

theorem take_rejected (s : Loop σ) (p : Pkt) :
    s.take ⟨.rejected p, s.st, s.buf⟩ =
      some { s with rxErrors := s.rxErrors + 1, freed := s.freed ++ [p] } := by
  simp [Loop.take, Loop.apply, Fate.survives, Fate.counted, Fate.linked, Fate.pktsFor,
    Fate.toFree, Fate.toReorder]

theorem take_up (s : Loop σ) (ifidx : Nat) (p : Pkt) (st : σ) (buf : List UInt8) :
    s.take ⟨.up ifidx p, st, buf⟩ =
      some ({ s with st := st, buf := buf }.attach ifidx [p] 1) := by
  rw [attach_eq]
  simp [Loop.take, Loop.apply, Fate.survives, Fate.counted, Fate.linked, Fate.pktsFor,
    Fate.toFree, Fate.toReorder]

theorem take_reordered (s : Loop σ) (ifidx : Nat) (p : Pkt) (chain : List Pkt) (count : UInt32)
    (st : σ) (buf : List UInt8) :
    s.take ⟨.reordered ifidx p chain count, st, buf⟩ =
      let t := { s with st := st, buf := buf, reordered := s.reordered ++ [p] }
      if count = 0 then some t
      else if chain = [] then none
      else some (t.attach ifidx chain count.toUInt8) := by
  dsimp only
  rw [attach_eq]
  by_cases hc : count = 0
  · subst hc
    simp [Loop.take, Loop.apply, Fate.survives, Fate.counted, Fate.linked, Fate.toFree,
      Fate.toReorder]
  by_cases hn : chain = []
  · simp [Loop.take, Fate.survives, hc, hn]
  · simp [Loop.take, Loop.apply, Fate.survives, Fate.counted, Fate.linked, Fate.toFree,
      Fate.toReorder, hc, hn]

theorem payload_eq (s : Loop σ) (p : Pkt) :
    payload calls s p = s.take (payloadFate calls s.st s.buf p) := by
  unfold payload payloadFate
  by_cases hlen : p.len = 0
  · rw [if_pos hlen, if_pos hlen]
    exact (take_freed s p).symm
  rw [if_neg hlen, if_neg hlen]
  cases hdrpull calls s.st s.buf p with
  | none => exact (take_rejected s p).symm
  | some q =>
    dsimp only
    by_cases hinfo : q.reorderInfoLen = 0
    · rw [if_neg (not_not.mpr hinfo), if_pos hinfo]
      exact (take_up s q.ifidx q.pkt q.st q.buf).symm
    · rw [if_pos hinfo, if_neg hinfo]
      exact (take_reordered s q.ifidx q.pkt _ _ _ q.buf).symm

theorem checkSeq_eq (s : Loop σ) (seq : UInt8) : s.checkSeq seq =
    { s with rxBadseq := (s.checkSeq seq).rxBadseq, rxseq := seq } := by
  unfold Loop.checkSeq
  by_cases h : s.rxseq = seq
  · subst h
    rw [if_neg (not_not.mpr rfl)]
  · rw [if_pos h]

theorem subframe_eq_some {s t : Loop σ} {p : Pkt} :
    subframe calls s p = some t ↔
      (fateOf calls s.st s.buf p).fate.survives = true ∧
        { (s.checkSeq p.seq).apply (fateOf calls s.st s.buf p) with rxseq := p.seq + 1 } = t := by
  unfold subframe
  rw [payload_eq, checkSeq_eq, Option.map_eq_some_iff]
  dsimp only
  constructor
  · rintro ⟨u, hu, rfl⟩
    obtain ⟨hs, rfl⟩ := take_eq_some.mp hu
    exact ⟨hs, rfl⟩
  · rintro ⟨hs, rfl⟩
    exact ⟨_, take_eq_some.mpr ⟨hs, rfl⟩, rfl⟩

/-! ## The loop -/

/-- What a run of the loop adds. -/
structure After (s : Loop σ) (fs : List Fate) (t : Loop σ) : Prop where
  num_eq : t.num = s.num + counted fs
  lists_eq : ∀ i, t.lists i = s.lists i ++ fs.flatMap (Fate.linked i)
  freed_eq : t.freed = s.freed ++ fs.flatMap Fate.toFree
  reordered_eq : t.reordered = s.reordered ++ fs.flatMap Fate.toReorder

/-- Each step adds what the subframe's fate says. -/
theorem After.cons {s t : Loop σ} {p : Pkt}
    (h : After { (s.checkSeq p.seq).apply (fateOf calls s.st s.buf p) with rxseq := p.seq + 1 }
      fs t) : After s ((fateOf calls s.st s.buf p).fate :: fs) t := by
  rw [checkSeq_eq] at h
  refine ⟨?_, ?_, ?_, ?_⟩
  · rw [h.num_eq]
    exact UInt8.add_assoc _ _ _
  · intro i
    rw [h.lists_eq, List.flatMap_cons]
    exact List.append_assoc _ _ _
  · rw [h.freed_eq, List.flatMap_cons]
    exact List.append_assoc _ _ _
  · rw [h.reordered_eq, List.flatMap_cons]
    exact List.append_assoc _ _ _

theorem rxLoop_spec {ps : List Pkt} {s t : Loop σ} (h : rxLoop calls s ps = some t) :
    (∀ f ∈ fates calls s.st s.buf ps, f.survives = true) ∧
      After s (fates calls s.st s.buf ps) t := by
  induction ps generalizing s with
  | nil =>
    cases h
    refine ⟨nofun, ?_, ?_, ?_, ?_⟩
    · exact (UInt8.add_zero _).symm
    · exact fun i => (List.append_nil _).symm
    · exact (List.append_nil _).symm
    · exact (List.append_nil _).symm
  | cons p rest ih =>
    unfold rxLoop at h
    cases hsub : subframe calls s p with
    | none =>
      rw [hsub] at h
      cases h
    | some u =>
      rw [hsub] at h
      obtain ⟨hf, rfl⟩ := (subframe_eq_some calls).mp hsub
      obtain ⟨hrest, hafter⟩ := ih h
      rw [checkSeq_eq] at hrest
      refine ⟨?_, After.cons calls ?_⟩
      · exact List.forall_mem_cons.mpr ⟨hf, hrest⟩
      · rw [checkSeq_eq] at hafter ⊢
        exact hafter

theorem rxLoop_ends {ps : List Pkt} {s : Loop σ}
    (h : ∀ f ∈ fates calls s.st s.buf ps, f.survives = true) :
    ∃ t, rxLoop calls s ps = some t := by
  induction ps generalizing s with
  | nil => exact ⟨s, rfl⟩
  | cons p rest ih =>
    obtain ⟨hf, hrest⟩ := List.forall_mem_cons.mp h
    unfold rxLoop
    rw [(subframe_eq_some calls).mpr ⟨hf, rfl⟩, checkSeq_eq]
    exact ih hrest

/-! ## The calls of `dhd_rx_frame` -/

theorem chainCnt_eq (l : List Pkt) : (chainCnt l).toNat = l.length % 0x100 := by
  induction l with
  | nil => rfl
  | cons p rest ih =>
    unfold chainCnt
    rw [UInt8.toNat_add, ih, List.length_cons]
    exact Nat.mod_add_mod _ _ _

theorem passed_append (fs gs : List RxFrame) (i : Nat) :
    passed (fs ++ gs) i = passed fs i ++ passed gs i := by
  unfold passed
  rw [List.filter_append, List.flatMap_append]

theorem passed_rxFrame (lists : Nat → List Pkt) (idx i : Nat) :
    passed (rxFrame lists idx) i =
      if idx = i ∧ chainCnt (lists i) ≠ 0 then lists i else [] := by
  by_cases hi : idx = i
  · subst hi
    by_cases hnil : lists idx = []
    · simp [rxFrame, passed, hnil]
    · by_cases hcnt : chainCnt (lists idx) = 0
      · simp [rxFrame, passed, hcnt]
      · simp [rxFrame, passed, hnil, hcnt]
  · rw [if_neg fun h => hi h.1]
    unfold rxFrame
    by_cases hcall : lists idx ≠ [] ∧ chainCnt (lists idx) ≠ 0
    · rw [if_pos hcall]
      simp [passed, hi]
    · rw [if_neg hcall]
      rfl

theorem passed_rxFrames (lists : Nat → List Pkt) (n i : Nat) :
    passed (rxFrames lists n) i =
      if i < n ∧ chainCnt (lists i) ≠ 0 then lists i else [] := by
  induction n with
  | zero => rfl
  | succ n ih =>
    have hsplit : rxFrames lists (n + 1) = rxFrames lists n ++ rxFrame lists n := by
      unfold rxFrames
      rw [List.range_succ, List.flatMap_append]
      simp
    rw [hsplit, passed_append, ih, passed_rxFrame]
    by_cases hcnt : chainCnt (lists i) = 0
    · simp [hcnt]
    · by_cases hlt : i < n
      · have hne : n ≠ i := by omega
        simp [hcnt, hlt, hne, Nat.lt_succ_of_lt hlt]
      · by_cases heq : n = i
        · subst heq
          simp [hcnt]
        · have hge : ¬ i < n + 1 := by omega
          simp [hlt, heq, hge]

theorem mem_rxFrames {lists : Nat → List Pkt} {n : Nat} {f : RxFrame} (h : f ∈ rxFrames lists n) :
    ∃ i, f = ⟨i, lists i, chainCnt (lists i)⟩ := by
  obtain ⟨idx, _, hf⟩ := List.mem_flatMap.mp h
  unfold rxFrame at hf
  split at hf
  · exact ⟨idx, List.mem_singleton.mp hf⟩
  · cases hf

theorem rxFrames_mem {lists : Nat → List Pkt} {n : Nat} (hi : i < n)
    (hcnt : chainCnt (lists i) ≠ 0) : ⟨i, lists i, chainCnt (lists i)⟩ ∈ rxFrames lists n := by
  have hne : lists i ≠ [] := by
    intro hnil
    rw [hnil] at hcnt
    exact hcnt rfl
  apply List.mem_flatMap.mpr
  refine ⟨i, List.mem_range.mpr hi, ?_⟩
  unfold rxFrame
  rw [if_pos ⟨hne, hcnt⟩]
  exact List.mem_singleton_self _

/-- The count is that of the chain where it is below 256. -/
theorem chainCnt_eq_length {l : List Pkt} : (chainCnt l).toNat = l.length ↔ l.length < 0x100 := by
  rw [chainCnt_eq]
  constructor
  · intro h
    rw [← h]
    exact Nat.mod_lt _ (by decide)
  · exact Nat.mod_eq_of_lt

/-! ## Interfaces -/

theorem hdrpull_ifidx {st : σ} {buf : List UInt8} {p : Pkt} {q : Pulled σ}
    (h : hdrpull calls st buf p = some q) : q.ifidx < DHD_MAX_IFS := by
  unfold hdrpull at h
  dsimp only at h
  split at h
  · cases h
  · split at h
    · cases h
    · cases h
      show (p.byte 2 &&& 0x0f).toNat < DHD_MAX_IFS
      rw [UInt8.toNat_and]
      exact Nat.lt_of_le_of_lt Nat.and_le_right (by decide)

theorem fate_pktsFor (st : σ) (buf : List UInt8) (p : Pkt) (hi : DHD_MAX_IFS ≤ i) :
    (fateOf calls st buf p).fate.pktsFor i = [] := by
  unfold fateOf payloadFate
  split
  · rfl
  · split
    · rfl
    · rename_i q hpull
      have hne : q.ifidx ≠ i := Nat.ne_of_lt (Nat.lt_of_lt_of_le (hdrpull_ifidx calls hpull) hi)
      split
      · exact if_neg hne
      · exact if_neg hne

theorem pktsFor_of_le (hi : DHD_MAX_IFS ≤ i) (st : σ) (buf : List UInt8) (ps : List Pkt) :
    pktsFor i (fates calls st buf ps) = [] := by
  induction ps generalizing st buf with
  | nil => rfl
  | cons p rest ih =>
    show (fateOf calls st buf p).fate.pktsFor i ++ pktsFor i _ = []
    rw [fate_pktsFor calls st buf p hi, ih]
    rfl

/-! ## Chains that are not looked at -/

theorem linked_sublist (f : Fate) (i : Nat) : List.Sublist (f.linked i) (f.pktsFor i) := by
  cases f with
  | reordered ifidx p chain count =>
    show List.Sublist (if count = 0 then [] else if ifidx = i then chain else [])
      (if ifidx = i then chain else [])
    by_cases hc : count = 0
    · rw [if_pos hc]
      exact List.nil_sublist _
    · rw [if_neg hc]
  | empty p => exact List.Sublist.refl _
  | rejected p => exact List.Sublist.refl _
  | up ifidx p => exact List.Sublist.refl _

theorem linked_flatMap_sublist (fs : List Fate) (i : Nat) :
    List.Sublist (fs.flatMap (Fate.linked i)) (pktsFor i fs) :=
  List.Sublist.flatMap_right fs fun f _ => linked_sublist f i

/-- Where no chain is left out, each is linked in. -/
theorem linked_eq_of_flatMap (h : fs.flatMap (Fate.linked i) = pktsFor i fs) :
    ∀ f ∈ fs, f.linked i = f.pktsFor i := by
  induction fs with
  | nil => exact nofun
  | cons f fs ih =>
    have hlen := congrArg List.length h
    unfold pktsFor at hlen
    rw [List.flatMap_cons, List.flatMap_cons, List.length_append, List.length_append] at hlen
    have hhead := (linked_sublist f i).length_le
    have htail := (linked_flatMap_sublist fs i).length_le
    unfold pktsFor at htail
    have hf : f.linked i = f.pktsFor i := (linked_sublist f i).eq_of_length (by omega)
    have hfs : fs.flatMap (Fate.linked i) = pktsFor i fs :=
      (linked_flatMap_sublist fs i).eq_of_length (by unfold pktsFor; omega)
    exact List.forall_mem_cons.mpr ⟨hf, ih hfs⟩

/-- A chain that is linked in everywhere agrees with its count. -/
theorem agrees_of_linked {f : Fate} (hs : f.survives = true)
    (h : ∀ i, f.linked i = f.pktsFor i) : f.agrees = true := by
  cases f with
  | reordered ifidx p chain count =>
    apply decide_eq_true
    refine ⟨?_, of_decide_eq_true hs⟩
    rintro rfl
    have hnil : [] = if ifidx = ifidx then chain else [] := h ifidx
    rw [if_pos rfl] at hnil
    exact hnil.symm
  | empty p => rfl
  | rejected p => rfl
  | up ifidx p => rfl

/-! ## Delivery of a superframe -/

theorem nextExpected_eq (rxseq cnt : UInt8) : nextExpected rxseq cnt = rxseq + cnt := by
  unfold nextExpected
  rw [UInt8.add_assoc, UInt8.sub_add_cancel]

theorem rxglom_of_validated {blocksize : Nat} {bus : Bus} (st : σ) (uninit : List UInt8)
    (rxseq : UInt8) (hv : validated blocksize bus.glom = true) :
    ∃ b q, rxglom calls blocksize bus st uninit rxseq =
      (rxLoop calls (Loop.start b st uninit q) (subframes bus.glom)).map (finish b) := by
  unfold rxglom
  cases hglom : bus.glom with
  | nil =>
    rw [hglom] at hv
    cases hv
  | cons p rest =>
    rw [hglom] at hv
    dsimp only
    rw [if_pos hv]
    exact ⟨_, _, rfl⟩

/-- The packets of an interface that is passed all that is for it. -/
theorem lists_of_passed {lists : Nat → List Pkt} (hlists : lists i = fs.flatMap (Fate.linked i))
    (hpassed : passed (rxFrames lists DHD_MAX_IFS) i = pktsFor i fs) :
    lists i = pktsFor i fs := by
  have hsub : List.Sublist (lists i) (pktsFor i fs) := by
    rw [hlists]
    exact linked_flatMap_sublist fs i
  rw [passed_rxFrames] at hpassed
  split at hpassed
  · exact hpassed
  · rw [← hpassed] at hsub ⊢
    exact List.sublist_nil.mp hsub

theorem countsMatch_of_delivered {start t : Loop σ} {rxseq : UInt8} {last : Option Pkt} {bus : Bus}
    (hlists : start.lists = fun _ => []) (hnum : start.num = 0)
    (hsurvive : ∀ f ∈ fs, f.survives = true) (hafter : After start fs t)
    (h : Delivered fs rxseq last (finish bus t)) : CountsMatch fs rxseq last := by
  have hlinked : ∀ i, t.lists i = fs.flatMap (Fate.linked i) := by
    intro i
    rw [hafter.lists_eq, hlists]
    rfl
  have hall : ∀ i, t.lists i = pktsFor i fs := fun i =>
    lists_of_passed (hlinked i) (h.passed_eq i)
  refine ⟨?_, ?_, ?_⟩
  · intro f hf
    apply agrees_of_linked (hsurvive f hf)
    intro i
    exact linked_eq_of_flatMap ((hlinked i).symm.trans (hall i)) f hf
  · intro i
    have hpassed := h.passed_eq i
    rw [← hall i] at hpassed ⊢
    have hpassed' : passed (rxFrames t.lists DHD_MAX_IFS) i = t.lists i := hpassed
    rw [passed_rxFrames] at hpassed'
    split at hpassed'
    · rename_i hi
      exact chainCnt_eq_length.mp (h.cnt_eq _ (rxFrames_mem hi.1 hi.2))
    · rw [← hpassed']
      exact Nat.zero_lt_succ _
  · intro p hp
    have hnext := h.next_eq p hp
    rw [nextExpected_eq] at hnext
    rw [← hnext]
    show rxseq + counted fs = rxseq + t.num
    rw [hafter.num_eq, hnum, UInt8.zero_add]

theorem delivered_of_countsMatch {ps : List Pkt} {start t : Loop σ} {rxseq : UInt8}
    {last : Option Pkt} {bus : Bus} {q : UInt8} {uninit : List UInt8} {st : σ}
    (hstart : start = Loop.start bus st uninit q) (hafter : After start (fates calls st uninit ps) t)
    (h : CountsMatch (fates calls st uninit ps) rxseq last) :
    Delivered (fates calls st uninit ps) rxseq last (finish bus t) := by
  subst hstart
  have hall : ∀ i, t.lists i = pktsFor i (fates calls st uninit ps) := by
    intro i
    rw [hafter.lists_eq]
    exact List.flatMap_congr fun f hf => Fate.linked_of_agrees (h.agrees f hf) i
  have hlen : ∀ i, (chainCnt (t.lists i)).toNat = (t.lists i).length := by
    intro i
    rw [chainCnt_eq_length, hall i]
    exact h.length_lt i
  refine ⟨?_, ?_, ?_, ?_, ?_⟩
  · intro i
    show passed (rxFrames t.lists DHD_MAX_IFS) i = _
    rw [passed_rxFrames]
    split
    · exact hall i
    · rename_i hno
      by_cases hi : i < DHD_MAX_IFS
      · have hzero : chainCnt (t.lists i) = 0 := by
          by_contra hne
          exact hno ⟨hi, hne⟩
        have hnil := hlen i
        rw [hzero] at hnil
        rw [← hall i]
        exact (List.length_eq_zero_iff.mp hnil.symm).symm
      · exact (pktsFor_of_le calls (Nat.le_of_not_lt hi) st uninit ps).symm
  · intro f hf
    obtain ⟨i, rfl⟩ := mem_rxFrames hf
    exact hlen i
  · exact hafter.reordered_eq
  · exact hafter.freed_eq
  · intro p hp
    rw [nextExpected_eq, ← h.counted_eq p hp]
    show rxseq + t.num = _
    rw [hafter.num_eq]
    exact congrArg (rxseq + ·) (UInt8.zero_add _)

theorem rxglom_delivers_iff (blocksize : Nat) (bus : Bus) (st : σ) (uninit : List UInt8)
    (rxseq : UInt8) (hv : validated blocksize bus.glom = true) :
    Delivers calls blocksize bus st uninit rxseq ↔
      CountsMatch (fates calls st uninit (subframes bus.glom)) rxseq
        (subframes bus.glom).getLast? := by
  obtain ⟨b, q, hrun⟩ := rxglom_of_validated calls st uninit rxseq hv
  constructor
  · rintro ⟨r, hr, hdel⟩
    rw [hrun] at hr
    obtain ⟨t, ht, rfl⟩ := Option.map_eq_some_iff.mp hr
    obtain ⟨hsurvive, hafter⟩ := rxLoop_spec calls ht
    exact countsMatch_of_delivered rfl rfl hsurvive hafter hdel
  · intro h
    have hsurvive : ∀ f ∈ fates calls st uninit (subframes bus.glom), f.survives = true :=
      fun f hf => Fate.survives_of_agrees (h.agrees f hf)
    obtain ⟨t, ht⟩ := rxLoop_ends calls (s := Loop.start b st uninit q) hsurvive
    obtain ⟨_, hafter⟩ := rxLoop_spec calls ht
    refine ⟨finish b t, ?_, delivered_of_countsMatch calls rfl hafter h⟩
    rw [hrun, ht]
    rfl

end


/-! ## The calls of the host -/

/-- `reorder_bufs`, and the packets handed over so far. -/
structure HostState where
  flows : Nat → Option HostReorder.ReorderInfo
  pkts : List Pkt

def HostState.pkt (st : HostState) (id : Nat) : Pkt :=
  (st.pkts.find? (·.id = id)).getD ⟨id, [], false, 0⟩

def infoBuf (buf : List UInt8) : HostReorder.InfoBuf where
  flags := buf.getD 4 0
  maxIdx := buf.getD 2 0
  curIdx := buf.getD 6 0
  expIdx := buf.getD 8 0

/-- The signals of a host that uses them for reordering only.  A call that reads or writes out of
bounds is taken for one that returns `NULL` with the count 1. -/
def hostCalls (cfg : SigCfg) (malloc : Bool) : Calls HostState where
  parseHeaderInfo st data n buf :=
    match parseHeaderInfo { cfg with mode := .onlyAmpduHostreorder } none (data.take n) with
    | .ok (some t) =>
      match t.info with
      | some bs => (st, bs ++ buf.drop bs.length, bs.length)
      | none => (st, buf, 0)
    | _ => (st, buf, 0)
  processPktReorderInfo st buf _ p :=
    let st := { st with pkts := p :: st.pkts }
    let flow := (buf.getD 0 0).toNat
    match HostReorder.processPktReorderInfo (st.flows flow) (infoBuf buf) p.id malloc with
    | none => (st, [], 1)
    | some (ptr, r) =>
      ({ st with flows := Function.update st.flows flow ptr }, r.chain.map fun x => st.pkt x.2,
        UInt32.ofNat r.pktCount)

/-- Where memory is there, the counts of the host agree with its chains. -/
theorem hostCalls_agrees (cfg : SigCfg) (st : HostState) (buf : List UInt8) (n ifidx : Nat)
    (p : Pkt)
    (hok : HostReorder.processPktReorderInfo (st.flows (buf.getD 0 0).toNat) (infoBuf buf) p.id true
      ≠ none) :
    let r := (hostCalls cfg true).processPktReorderInfo st buf n p
    (Fate.reordered ifidx p r.2.1 r.2.2).agrees = true := by
  obtain ⟨⟨ptr, r⟩, hr⟩ := Option.ne_none_iff_exists'.mp hok
  obtain ⟨hcount, hle⟩ := HostReorder.processPktReorderInfo_count hr
  apply decide_eq_true
  unfold hostCalls
  dsimp only
  rw [hr]
  dsimp only
  rw [List.map_eq_nil_iff, ← List.length_eq_zero_iff, ← hcount, ← UInt32.toNat_inj,
    UInt32.toNat_ofNat', UInt32.toNat_zero, Nat.mod_eq_of_lt (by omega)]

/-- A superframe header for `total` bytes, and subframe headers. -/
def superHdr (total seq : UInt8) : List UInt8 := [total, 0, ~~~total, 0xff, seq, 3, 0, 12, 0, 0, 0, 0]
def subHdr (total seq : UInt8) : List UInt8 := [total, 0, ~~~total, 0xff, seq, 2, 0, 12, 0, 0, 0, 0]

def glomBus (glom : List (List UInt8)) : Bus where
  glom := glom.zipIdx.map fun x => ⟨x.2, x.1, false, 0⟩
  txSeq := 0
  txMax := 0
  nextlen := 0
  glomerr := 0
  rxglomfail := 0
  rxglomframes := 0
  rxglompkts := 0
  rxBadseq := 0
  rxErrors := 0

def noFlows : HostState := { flows := fun _ => none, pkts := [] }

/-- Two subframes for interface 0, the second one with reorder information of a flow. -/
def twoSubframes : List (List UInt8) :=
  [superHdr 64 5 ++ subHdr 20 5 ++ [0x20, 0, 0, 0] ++ [1, 2, 3, 4],
   subHdr 32 6 ++ [0x20, 0, 0, 3] ++ [14, 10, 0, 0, 3, 0, 0, 0, 0, 0, 0, 0] ++ [5, 6, 7, 8]]

theorem rxglom_delivers_iff_two :
    Delivers (hostCalls exampleCfg true) 4 (glomBus twoSubframes) noFlows (List.replicate 12 0)
      5 := by
  apply (rxglom_delivers_iff _ 4 (glomBus twoSubframes) _ _ 5 (by decide)).mpr
  refine ⟨by decide, ?_, by decide⟩
  intro i
  by_cases hi : i < DHD_MAX_IFS
  · have hall : ∀ i < DHD_MAX_IFS, (pktsFor i (fates (hostCalls exampleCfg true) noFlows
        (List.replicate 12 0) (subframes (glomBus twoSubframes).glom))).length < 0x100 := by
      decide
    exact hall i hi
  · rw [pktsFor_of_le _ (Nat.le_of_not_lt hi)]
    exact Nat.zero_lt_succ _

/-- Where the second subframe is empty, its number is expected once more. -/
theorem rxglom_delivers_fails :
    ¬ ∀ (calls : Calls HostState) blocksize bus st uninit rxseq,
      validated blocksize bus.glom = true → Delivers calls blocksize bus st uninit rxseq := by
  intro h
  obtain ⟨r, hr, hdel⟩ := h (hostCalls exampleCfg true) 4
    (glomBus [superHdr 44 5 ++ subHdr 20 5 ++ [0x20, 0, 0, 0] ++ [1, 2, 3, 4], subHdr 12 6])
    noFlows (List.replicate 12 0) 5 (by decide)
  cases hr
  exact absurd (hdel.next_eq _ rfl) (by decide)

end Bcmdhd.Sdio.RxGlom
