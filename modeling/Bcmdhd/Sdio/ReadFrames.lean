import Bcmdhd.Sdio.RxGlom
import Bcmdhd.Sdio.TxFrame

/-!
# Who owns a receive buffer (`dhdsdio_readframes`)

Each turn of the loop reads a frame: at once where its length is known from the frame before, else
its header first and the rest then.  A packet is allocated for it, and freed, stored, or handed on.

    every packet has exactly one owner, which gets bytes that were read  ↔
      no frame of the glom channel is without the descriptor flag, and
      none that is accepted is rounded behind 16 bits           (readframes_oneOwner_iff)

A frame of the glom channel without the flag is reported and its packet forgotten.  The build is
that of the Makefile: `firstread` is a variable, and the test channel is one like the others.  The
bus is SDIO.
-/

namespace Bcmdhd.Sdio.ReadFrames

open Records
open TxFrame (Skb pktalign padTo DHD_SDALIGN)
open RxGlom (SDPCM_EVENT_CHANNEL SDPCM_GLOM_CHANNEL SDPCM_HDRLEN MAX_RX_DATASZ roundup
  BDC_HEADER_LEN BDC_PROTO_VER BDC_PROTO_VER_1)

/-! ## The header -/

def SDPCM_CONTROL_CHANNEL : UInt8 := 0

/-- `bus->rxhdr` -/
structure Hdr where
  byte : Nat → UInt8

namespace Hdr

variable (hdr : Hdr)

def len : Nat := RxGlom.Header.sublen hdr.byte
def check : Nat := RxGlom.Header.check hdr.byte
def seq : UInt8 := RxGlom.Header.seq hdr.byte
def chan : UInt8 := RxGlom.Header.chan hdr.byte
def glomdesc : UInt8 := RxGlom.Header.glomdesc hdr.byte
def nextlen : Nat := RxGlom.Header.nextlen hdr.byte
def doff : Nat := RxGlom.Header.doff hdr.byte
def fcbits : UInt8 := hdr.byte 8
def txmax : UInt8 := RxGlom.Header.window hdr.byte

/-- The readahead length, if there is one -/
def readahead : Nat := if MAX_RX_DATASZ < hdr.nextlen * 0x10 then 0 else hdr.nextlen

theorem readahead_le : hdr.readahead * 0x10 ≤ MAX_RX_DATASZ := by
  unfold readahead
  split <;> omega

end Hdr

/-! ## Algorithm -/

def ALIGNMENT : Nat := 4

/-- Variables of the driver, and of the bus when it is up.  `dhd_firstread=` is an `int`. -/
structure Settings where
  firstread : Nat
  firstread_lt : firstread < 0x80000000
  roundup : Nat
  blocksize : Nat
  forcealign : Bool
  readahead : Bool
  retrydata : Bool

/-- Fields of `dhd_bus_t`.  Whoever writes `nextlen` compares it with `MAX_RX_DATASZ`. -/
structure Bus where
  rxSeq : UInt8
  txSeq : UInt8
  txMax : UInt8
  flowcontrol : UInt8
  nextlen : Nat
  nextlen_le : nextlen * 0x10 ≤ MAX_RX_DATASZ
  rxskip : Bool
  /-- `busstate` is `DHD_BUS_DOWN`. -/
  down : Bool
  kso : Bool
  /-- There is a packet chain for a superframe. -/
  glom : Bool
  glomd : Option Skb

def Bus.clearNextlen (bus : Bus) : Bus :=
  { bus with nextlen := 0, nextlen_le := Nat.le_of_lt (by decide) }

/-- How the register accesses of `dhdsdio_rxfail` end. -/
structure Regs where
  /-- an error before `bus->nextlen` is cleared -/
  err : Bool
  /-- The NAK was written within the retries. -/
  nak : Bool
  regfail : Bool

/-- What a turn of the loop meets: the results of what it calls.  `none` is an error; `recvBuf` is
the memory after the read.  What `transmit`, `readControl` and `rxFrame` do to the bus is theirs. -/
structure Env where
  transmit : Bus → Bus
  rxglom : Bus → UInt8 → Bus × UInt8
  pktget : (n : Nat) → Option { p : Skb // p.len = n }
  recvHdr : Option Hdr
  recvBuf : Option (Nat → UInt8)
  regs : Regs
  readControl : Bus → Bus
  reorderInfoLen : Nat
  pktCount : Nat
  rxFrame : Bus → Bus

def rxfail (regs : Regs) (rtx : Bool) (bus : Bus) : Bus :=
  if !bus.kso then bus
  else if regs.err then { bus with down := true }
  else
    -- Clear partial in any case
    { bus.clearNextlen with
      rxskip := bus.rxskip || (rtx && regs.nak), down := bus.down || regs.regfail }

def retrychan (cfg : Settings) (chan : UInt8) : Bool := chan = SDPCM_EVENT_CHANNEL || cfg.retrydata

/-- Pad read to blocksize for efficiency.  `pad` and `rdlen` have 16 bits. -/
def padRead (cfg : Settings) (rdlen : Nat) : Nat :=
  if cfg.roundup ≠ 0 ∧ cfg.blocksize ≠ 0 then
    let pad := (cfg.blocksize - rdlen % cfg.blocksize) % 0x10000
    if pad ≤ cfg.roundup ∧ pad < cfg.blocksize ∧ rdlen + pad + cfg.firstread < MAX_RX_DATASZ then
      rdlen + pad
    else rdlen
  else (rdlen + padTo DHD_SDALIGN rdlen) % 0x10000

/-- Satisfy length-alignment requirements -/
def alignRead (cfg : Settings) (rdlen : Nat) : Nat :=
  if cfg.forcealign ∧ rdlen % ALIGNMENT ≠ 0 then roundup rdlen ALIGNMENT % 0x10000 else rdlen

/-- The bus, and local variables of the loop. -/
structure Vars where
  bus : Bus
  rxseq : UInt8
  rxleft : Nat

def Vars.onBus (v : Vars) (f : Bus → Bus) : Vars := { v with bus := f v.bus }

/-- The software header of a frame: readahead length, flow control, sequence number, window. -/
def Vars.takeHeader (v : Vars) (hdr : Hdr) : Vars :=
  { v with
    rxseq := hdr.seq
    bus := { v.bus with
      nextlen := hdr.readahead
      nextlen_le := hdr.readahead_le
      flowcontrol := hdr.fcbits
      txMax := if 0x70 < hdr.txmax - v.bus.txSeq then v.bus.txMax else hdr.txmax } }

/-- How the first part of a turn ends: without a packet, with no more frames, with the packet freed,
or at `deliver`, where `got` bytes are read from `PKTDATA` on. -/
inductive Fetched where
  | skip (v : Vars)
  | finished (v : Vars)
  | freed (v : Vars)
  | frame (v : Vars) (hdr : Hdr) (pkt : Skb) (got : Nat)

def badDoff (hdr : Hdr) : Bool := hdr.doff < SDPCM_HDRLEN ∨ hdr.len < hdr.doff

/-- The frame was read with its header, after what `nextlen` announced. -/
def checkReadahead (env : Env) (v : Vars) (nextlen : Nat) (hdr : Hdr) (pkt : Skb) (got : Nat) :
    Fetched :=
  -- All zeros means readahead info was bad
  if hdr.len = 0 ∧ hdr.check = 0 then .freed v
  else if hdr.len ^^^ hdr.check ≠ 0xffff then .freed (v.onBus (rxfail env.regs false))
  else if hdr.len < SDPCM_HDRLEN then .freed v
  else if nextlen ≠ roundup hdr.len 16 / 16 then .freed (v.onBus (rxfail env.regs true))
  else
    let v := v.takeHeader hdr
    if hdr.chan = SDPCM_CONTROL_CHANNEL then
      -- Force retry w/normal header read
      .freed (v.onBus fun bus => rxfail env.regs true bus.clearNextlen)
    else if badDoff hdr then .freed (v.onBus (rxfail env.regs false))
    else .frame v hdr pkt got

/-- Single read of a frame whose length is known. -/
def readAhead (cfg : Settings) (env : Env) (v : Vars) : Fetched :=
  let nextlen := v.bus.nextlen
  let v := v.onBus Bus.clearNextlen
  let rdlen := padRead cfg (nextlen * 0x10)
  match env.pktget (rdlen + DHD_SDALIGN) with
  | none => .skip v
  | some p =>
    let pkt := pktalign p rdlen DHD_SDALIGN
    match env.recvBuf with
    | none => .freed (v.onBus (rxfail env.regs true))
    | some mem =>
      checkReadahead env v nextlen ⟨fun i => mem (pkt.data + i)⟩ { pkt with mem := mem } rdlen

/-- The rest of a frame whose header was read. -/
def readRest (cfg : Settings) (env : Env) (v : Vars) (hdr : Hdr) : Fetched :=
  let rdlen := if cfg.firstread < hdr.len then hdr.len - cfg.firstread else 0
  let rdlen := alignRead cfg (padRead cfg rdlen)
  -- Too long -- skip this frame
  if MAX_RX_DATASZ < rdlen + cfg.firstread then .skip (v.onBus (rxfail env.regs false))
  else
    match env.pktget (rdlen + cfg.firstread + DHD_SDALIGN) with
    | none => .skip (v.onBus (rxfail env.regs (retrychan cfg hdr.chan)))
    | some p =>
      -- Leave room for what we already read, and align remainder
      let pkt := pktalign (p.val.pull cfg.firstread) rdlen DHD_SDALIGN
      match env.recvBuf with
      | none => .freed (v.onBus (rxfail env.regs (retrychan cfg hdr.chan)))
      | some mem =>
        let pkt := { pkt with mem := mem }.push cfg.firstread
        .frame v hdr (pkt.copyIn (readAt hdr.byte 0 cfg.firstread)) (cfg.firstread + rdlen)

/-- Header first. -/
def readHeader (cfg : Settings) (env : Env) (v : Vars) : Fetched :=
  match env.recvHdr with
  | none => .skip (v.onBus (rxfail env.regs true))
  | some hdr =>
    -- All zeros means no more frames
    if hdr.len = 0 ∧ hdr.check = 0 then .finished v
    else if hdr.len ^^^ hdr.check ≠ 0xffff then .skip (v.onBus (rxfail env.regs false))
    else if hdr.len < SDPCM_HDRLEN then .skip v
    else if badDoff hdr then .skip (v.onBus (rxfail env.regs false))
    else
      let v := v.takeHeader hdr
      if hdr.chan = SDPCM_CONTROL_CHANNEL then .skip (v.onBus env.readControl)
      else readRest cfg env v hdr

def triesReadahead (cfg : Settings) (bus : Bus) : Bool := cfg.readahead ∧ bus.nextlen ≠ 0

def fetch (cfg : Settings) (env : Env) (v : Vars) : Fetched :=
  if triesReadahead cfg v.bus then readAhead cfg env v else readHeader cfg env v

/-- What becomes of a packet.  The reorder code gives back `pktCount` packets, which go to
`dhd_rx_frame`. -/
inductive Fate where
  | freed
  | glomd (pkt : Skb)
  | reorder (pkt : Skb) (pktCount : Nat)
  | rxFrame (pkt : Skb)

/-- `dhd_prot_hdrpull`, as far as it moves the data; `none` is an error. -/
def hdrpull (p : Skb) : Option Skb :=
  if p.len < BDC_HEADER_LEN then none
  else
    let ver := ((p.mem p.data) &&& 0xf0) >>> 4
    if ver ≠ BDC_PROTO_VER ∧ ver ≠ BDC_PROTO_VER_1 then none
    else
      let dataOffset := if ver = BDC_PROTO_VER then (p.mem (p.data + 3)).toNat * 4 else 0
      some ((p.pull BDC_HEADER_LEN).pull dataOffset)

/-- The packet with its length, and the headers of the bus pulled. -/
def payload (hdr : Hdr) (pkt : Skb) : Skb := (pkt.setLen hdr.len).pull hdr.doff

/-- `deliver:` to the end of the turn -/
def deliver (env : Env) (v : Vars) (hdr : Hdr) (pkt : Skb) : Vars × List Fate :=
  if hdr.chan = SDPCM_GLOM_CHANNEL then
    if hdr.glomdesc ≠ 0 then
      let pkt := (pkt.setLen hdr.len).pull SDPCM_HDRLEN
      (v.onBus fun bus => { bus with glomd := some pkt }, [.glomd pkt])
    else
      -- glom superframe w/o descriptor!
      (v.onBus (rxfail env.regs false), [])
  else
    let pkt := payload hdr pkt
    if pkt.len = 0 then (v, [.freed])
    else
      match hdrpull pkt with
      | none => (v, [.freed])
      | some pkt =>
        if env.reorderInfoLen ≠ 0 then
          (if env.pktCount = 0 then v else v.onBus env.rxFrame, [.reorder pkt env.pktCount])
        else (v.onBus env.rxFrame, [.rxFrame pkt])

/-- A packet that was allocated: the bytes that were read are the `got` bytes at `start`. -/
structure Packet where
  start : Nat
  got : Nat
  fates : List Fate

/-- A turn of the loop, to its `continue` or `break`. -/
structure Turn where
  vars : Vars
  finished : Bool
  packet : Option Packet

/-- The glomming is handled separately: `cnt` frames. -/
def glomTurn (env : Env) (v : Vars) : Turn :=
  let r := env.rxglom v.bus v.rxseq
  { vars := {
      bus := r.1
      rxseq := v.rxseq + (r.2 - 1)
      rxleft := if r.2.toNat < v.rxleft then v.rxleft - r.2.toNat else 1 }
    finished := false
    packet := none }

def frameTurn (env : Env) : Fetched → Turn
  | .skip v => ⟨v, false, none⟩
  | .finished v => ⟨v, true, none⟩
  | .freed v => ⟨v, false, some ⟨0, 0, [.freed]⟩⟩
  | .frame v hdr pkt got =>
    let r := deliver env v hdr pkt
    ⟨r.1, false, some ⟨pkt.data, got, r.2⟩⟩

def glomming (bus : Bus) : Bool := bus.glom ∨ bus.glomd.isSome

def turn (cfg : Settings) (env : Env) (v : Vars) : Turn :=
  let v := v.onBus env.transmit
  if glomming v.bus then glomTurn env v else frameTurn env (fetch cfg env v)

def Vars.ended (v : Vars) : Bool := v.bus.rxskip ∨ v.rxleft = 0 ∨ v.bus.down

/-- A run of the loop: what each turn started with, and the variables behind. -/
structure Run where
  turns : List (Env × Vars)
  vars : Vars
  finished : Bool

/-- The loop with at most as many turns as the first argument says; `none` is one that did not end.
`env` is what each turn meets. -/
def loop (cfg : Settings) : Nat → (Nat → Env) → Vars → Option Run
  | 0, _, v => if v.ended then some ⟨[], v, false⟩ else none
  | n + 1, env, v =>
    if v.ended then some ⟨[], v, false⟩
    else
      let t := turn cfg (env 0) v
      if t.finished then some ⟨[(env 0, v)], t.vars, true⟩
      else
        (loop cfg n (fun i => env (i + 1))
          { t.vars with rxseq := t.vars.rxseq + 1, rxleft := t.vars.rxleft - 1 }).map fun r =>
            { r with turns := (env 0, v) :: r.turns }

/-- What `dhdsdio_readframes` returns and leaves. -/
structure Result where
  turns : List (Env × Vars)
  bus : Bus
  rxcount : Nat
  finished : Bool

def readframes (cfg : Settings) (env : Nat → Env) (bus : Bus) (maxframes : Nat) : Option Result :=
  if !bus.kso then some ⟨[], bus, 0, false⟩
  else
    (loop cfg maxframes env ⟨bus, bus.rxSeq, maxframes⟩).map fun r =>
      { turns := r.turns
        -- Back off rxseq if awaiting rtx
        bus := { r.vars.bus with
          rxSeq := if r.vars.bus.rxskip then r.vars.rxseq - 1 else r.vars.rxseq }
        rxcount := maxframes - r.vars.rxleft
        finished := r.finished }

/-! ## One owner -/

/-- A packet that is passed on is inside the bytes that were read, behind the header. -/
def Fate.inside (start got : Nat) : Fate → Prop
  | .freed => True
  | .glomd p | .reorder p _ | .rxFrame p =>
    start + SDPCM_HDRLEN ≤ p.data ∧ p.data + p.len ≤ start + got

/-- A packet for `bus->glomd` is there. -/
def Fate.stored (bus : Bus) : Fate → Prop
  | .glomd p => bus.glomd = some p
  | .freed | .reorder _ _ | .rxFrame _ => True

/-- A packet that is allocated meets one fate. -/
def Turn.OneOwner (t : Turn) : Prop :=
  ∀ p, t.packet = some p →
    ∃ f, p.fates = [f] ∧ f.inside p.start p.got ∧ f.stored t.vars.bus

/-- A frame of the glom channel without the descriptor flag. -/
def Stray (hdr : Hdr) : Prop := hdr.chan = SDPCM_GLOM_CHANNEL ∧ hdr.glomdesc = 0

/-- What is left of the frame behind `firstread` is rounded up to 2^16. -/
def Overlong (cfg : Settings) (hdr : Hdr) : Prop :=
  (65504 < hdr.len - cfg.firstread ∧ (cfg.roundup = 0 ∨ cfg.blocksize = 0)) ∨
    (65532 < hdr.len - cfg.firstread ∧ cfg.forcealign = true)

/-- The payload is passed on, or the descriptor stored. -/
def Accepted (hdr : Hdr) (pkt : Skb) : Prop :=
  hdr.chan = SDPCM_GLOM_CHANNEL ∨ hdrpull (payload hdr pkt) ≠ none

/-- The turn that starts with these variables handles the frame that it comes to `deliver` with. -/
def Handled (cfg : Settings) (env : Env) (v : Vars) : Prop :=
  let v := v.onBus env.transmit
  ¬ glomming v.bus → ∀ v' hdr pkt got, fetch cfg env v = .frame v' hdr pkt got →
    ¬ Stray hdr ∧ (¬ triesReadahead cfg v.bus → Overlong cfg hdr → ¬ Accepted hdr pkt)

/-! ## What is read of a frame -/

section
variable {cfg : Settings} {env : Env} {v v' : Vars} {hdr hdr' : Hdr} {pkt pkt' : Skb}
  {got got' nextlen rdlen : Nat}

theorem Hdr.len_lt (hdr : Hdr) : hdr.len < 0x10000 := by
  have h₀ := (hdr.byte 0).toNat_lt
  have h₁ := (hdr.byte 1).toNat_lt
  show (hdr.byte 0).toNat + 0x100 * (hdr.byte 1).toNat < 0x10000
  omega

theorem padTo_lt (x : Nat) : padTo DHD_SDALIGN x < 32 := by
  unfold padTo DHD_SDALIGN
  split <;> omega

/-- What is padded is not cut off, where 16 bits do. -/
theorem le_padRead (h : rdlen + padTo DHD_SDALIGN rdlen < 0x10000) : rdlen ≤ padRead cfg rdlen := by
  unfold padRead
  split
  · dsimp only
    split <;> omega
  · rw [Nat.mod_eq_of_lt h]
    omega

theorem checkReadahead_frame
    (h : checkReadahead env v nextlen hdr pkt got = .frame v' hdr' pkt' got') :
    hdr' = hdr ∧ got' = got ∧ nextlen = roundup hdr.len 16 / 16 ∧ badDoff hdr = false := by
  unfold checkReadahead at h
  dsimp only at h
  split at h
  · cases h
  · split at h
    · cases h
    · split at h
      · cases h
      · split at h
        · cases h
        · rename_i hnext
          split at h
          · cases h
          · split at h
            · cases h
            · rename_i hdoff
              cases h
              exact ⟨rfl, rfl, Decidable.not_not.mp hnext, Bool.not_eq_true _ ▸ hdoff⟩

/-- What was announced is read, and the frame is not longer. -/
theorem readAhead_frame (h : readAhead cfg env v = .frame v' hdr pkt got) :
    badDoff hdr = false ∧ hdr.len ≤ got := by
  unfold readAhead at h
  dsimp only at h
  split at h
  · cases h
  · split at h
    · cases h
    · obtain ⟨hhdr, hgot, hnext, hdoff⟩ := checkReadahead_frame h
      have hlen := hdr.len_lt
      subst hhdr hgot
      refine ⟨hdoff, ?_⟩
      have hmax := v.bus.nextlen_le
      have hpad := padTo_lt (v.bus.nextlen * 0x10)
      have hle : v.bus.nextlen * 0x10 ≤ padRead cfg (v.bus.nextlen * 0x10) := by
        apply le_padRead
        unfold MAX_RX_DATASZ at hmax
        omega
      unfold roundup at hnext
      omega

theorem padTo_sdalign (x : Nat) : padTo DHD_SDALIGN x = (32 - x % 32) % 32 := by
  unfold padTo DHD_SDALIGN
  split <;> omega

theorem padRead_sdalign (h : cfg.roundup = 0 ∨ cfg.blocksize = 0) :
    padRead cfg rdlen = (rdlen + (32 - rdlen % 32) % 32) % 0x10000 := by
  unfold padRead
  rw [if_neg (by omega), padTo_sdalign]

/-- A block is filled of what is short only. -/
theorem padRead_block (h : ¬ (cfg.roundup = 0 ∨ cfg.blocksize = 0)) :
    padRead cfg rdlen = rdlen ∨
      (rdlen ≤ padRead cfg rdlen ∧ padRead cfg rdlen < MAX_RX_DATASZ) := by
  unfold padRead
  rw [if_pos (by omega)]
  dsimp only
  split
  · exact Or.inr (by omega)
  · exact Or.inl rfl

theorem alignRead_of_dvd (h : rdlen % 4 = 0) : alignRead cfg rdlen = rdlen := by
  unfold alignRead ALIGNMENT
  rw [if_neg (fun hc => hc.2 h)]

theorem le_alignRead (h : rdlen ≤ 65532) : rdlen ≤ alignRead cfg rdlen := by
  unfold alignRead roundup ALIGNMENT
  split <;> omega

theorem alignRead_overlong (hforce : cfg.forcealign = true) (h : 65532 < rdlen)
    (hlt : rdlen < 0x10000) : alignRead cfg rdlen = 0 := by
  unfold alignRead roundup ALIGNMENT
  rw [if_pos ⟨hforce, by omega⟩]
  omega

theorem alignRead_plain (hforce : ¬ cfg.forcealign = true) : alignRead cfg rdlen = rdlen := by
  unfold alignRead
  rw [if_neg (fun hc => hforce hc.1)]

/-- The rest is read up to the end of the frame, or nothing of it. -/
theorem rest_read (hdr : Hdr) :
    let rdlen := alignRead cfg (padRead cfg (hdr.len - cfg.firstread))
    (Overlong cfg hdr → cfg.firstread + rdlen < hdr.len) ∧
      (¬ Overlong cfg hdr → hdr.len ≤ cfg.firstread + rdlen) := by
  have hlt := hdr.len_lt
  dsimp only
  unfold Overlong
  by_cases hblock : cfg.roundup = 0 ∨ cfg.blocksize = 0
  · rw [padRead_sdalign hblock, alignRead_of_dvd (by omega)]
    omega
  · by_cases hlong : 65532 < hdr.len - cfg.firstread
    · -- Nothing is filled up then.
      have hpad : padRead cfg (hdr.len - cfg.firstread) = hdr.len - cfg.firstread := by
        have hor := @padRead_block cfg (hdr.len - cfg.firstread) hblock
        unfold MAX_RX_DATASZ at hor
        omega
      rw [hpad]
      by_cases hforce : cfg.forcealign = true
      · rw [alignRead_overlong hforce hlong (by omega)]
        constructor
        · intro _
          omega
        · intro hnot
          exact absurd (Or.inr ⟨hlong, hforce⟩) hnot
      · rw [alignRead_plain hforce]
        constructor
        · intro hover
          exact absurd hover (by simp [hblock, hforce])
        · intro _
          omega
    · have hpad := @padRead_block cfg (hdr.len - cfg.firstread) hblock
      have hle : padRead cfg (hdr.len - cfg.firstread) ≤
          alignRead cfg (padRead cfg (hdr.len - cfg.firstread)) := by
        apply le_alignRead
        unfold MAX_RX_DATASZ at hpad
        omega
      constructor
      · intro hover
        exact absurd hover (by simp [hblock, hlong])
      · intro _
        omega

theorem readRest_frame (h : readRest cfg env v hdr' = .frame v' hdr pkt got) :
    hdr' = hdr ∧ (Overlong cfg hdr → got < hdr.len) ∧ (¬ Overlong cfg hdr → hdr.len ≤ got) := by
  unfold readRest at h
  have hrest : (if cfg.firstread < hdr'.len then hdr'.len - cfg.firstread else 0) =
      hdr'.len - cfg.firstread := by
    split <;> omega
  rw [hrest] at h
  dsimp only at h
  split at h
  · cases h
  · split at h
    · cases h
    · split at h
      · cases h
      · cases h
        exact ⟨rfl, rest_read hdr⟩

theorem readHeader_frame (h : readHeader cfg env v = .frame v' hdr pkt got) :
    badDoff hdr = false ∧ (Overlong cfg hdr → got < hdr.len) ∧
      (¬ Overlong cfg hdr → hdr.len ≤ got) := by
  unfold readHeader at h
  split at h
  · cases h
  · dsimp only at h
    split at h
    · cases h
    · split at h
      · cases h
      · split at h
        · cases h
        · split at h
          · cases h
          · rename_i hdoff
            split at h
            · cases h
            · obtain ⟨hhdr, hread⟩ := readRest_frame h
              subst hhdr
              exact ⟨Bool.not_eq_true _ ▸ hdoff, hread⟩

/-- What comes to `deliver` has its data offset in the frame, and the frame in what was read
unless it is rounded off. -/
theorem fetch_frame (h : fetch cfg env v = .frame v' hdr pkt got) :
    badDoff hdr = false ∧
      (got < hdr.len ↔ ¬ triesReadahead cfg v.bus ∧ Overlong cfg hdr) := by
  unfold fetch at h
  split at h
  · rename_i htry
    obtain ⟨hdoff, hle⟩ := readAhead_frame h
    refine ⟨hdoff, iff_of_false (by omega) (fun hc => hc.1 htry)⟩
  · rename_i htry
    obtain ⟨hdoff, hover, hnot⟩ := readHeader_frame h
    refine ⟨hdoff, fun hlt => ⟨htry, ?_⟩, fun hc => hover hc.2⟩
    by_contra hno
    have hle := hnot hno
    omega

end

/-! ## The fate of the packet -/

section
variable {env : Env} {v : Vars} {hdr : Hdr} {p q pkt : Skb} {got : Nat}

/-- Data that is pulled leaves the end where it is. -/
theorem pull_end (p : Skb) (n : Nat) :
    p.data ≤ (p.pull n).data ∧ (p.pull n).data + (p.pull n).len = p.data + p.len := by
  unfold Skb.pull
  split
  · constructor <;> (dsimp only; omega)
  · exact ⟨Nat.le_refl _, rfl⟩

theorem hdrpull_end (h : hdrpull p = some q) :
    p.data ≤ q.data ∧ q.data + q.len = p.data + p.len := by
  unfold hdrpull at h
  split at h
  · cases h
  · dsimp only at h
    split at h
    · cases h
    · cases h
      obtain ⟨hle₁, hend₁⟩ := pull_end p BDC_HEADER_LEN
      have hpull := pull_end (p.pull BDC_HEADER_LEN)
      refine ⟨?_, ?_⟩
      · exact Nat.le_trans hle₁ (hpull _).1
      · rw [(hpull _).2, hend₁]

/-- The header is pulled from what is as long as the frame. -/
theorem setLen_pull (pkt : Skb) {n m : Nat} (h : m ≤ n) :
    ((pkt.setLen n).pull m).data = pkt.data + m ∧ ((pkt.setLen n).pull m).len = n - m := by
  unfold Skb.pull Skb.setLen
  dsimp only
  rw [if_pos h]
  exact ⟨rfl, rfl⟩

theorem hdrpull_of_empty (h : p.len = 0) : hdrpull p = none := by
  unfold hdrpull
  rw [if_pos (by rw [h]; decide)]

theorem doff_of_not_bad (h : badDoff hdr = false) :
    SDPCM_HDRLEN ≤ hdr.doff ∧ hdr.doff ≤ hdr.len := by
  have hnot := of_decide_eq_false h
  omega

/-- The fate passes the packet `q` on. -/
def Fate.passes (q : Skb) (f : Fate) : Prop :=
  ∀ start got, f.inside start got ↔
    start + SDPCM_HDRLEN ≤ q.data ∧ q.data + q.len ≤ start + got

/-- A descriptor that is stored. -/
theorem deliver_glomd (hchan : hdr.chan = SDPCM_GLOM_CHANNEL) (hdesc : hdr.glomdesc ≠ 0)
    (hmin : SDPCM_HDRLEN ≤ hdr.len) :
    ∃ f q, (deliver env v hdr pkt).2 = [f] ∧ f.stored (deliver env v hdr pkt).1.bus ∧
      f.passes q ∧ pkt.data + SDPCM_HDRLEN ≤ q.data ∧ q.data + q.len = pkt.data + hdr.len := by
  obtain ⟨hdata, hlen⟩ := setLen_pull pkt hmin
  unfold deliver
  rw [if_pos hchan, if_pos hdesc]
  refine ⟨_, _, rfl, rfl, fun _ _ => Iff.rfl, ?_, ?_⟩
  · rw [hdata]
  · rw [hdata, hlen]
    omega

theorem deliver_stray (h : Stray hdr) : (deliver env v hdr pkt).2 = [] := by
  unfold deliver
  rw [if_pos h.1, if_neg (fun hne => hne h.2)]

theorem deliver_rejected (hchan : hdr.chan ≠ SDPCM_GLOM_CHANNEL)
    (h : hdrpull (payload hdr pkt) = none) : (deliver env v hdr pkt).2 = [.freed] := by
  unfold deliver
  rw [if_neg hchan]
  dsimp only
  split
  · rfl
  · rw [h]

theorem deliver_accepted (hchan : hdr.chan ≠ SDPCM_GLOM_CHANNEL) (hdoff : badDoff hdr = false)
    (h : hdrpull (payload hdr pkt) = some q) :
    ∃ f, (deliver env v hdr pkt).2 = [f] ∧ f.stored (deliver env v hdr pkt).1.bus ∧
      f.passes q ∧ pkt.data + SDPCM_HDRLEN ≤ q.data ∧ q.data + q.len = pkt.data + hdr.len := by
  obtain ⟨hmin, hmax⟩ := doff_of_not_bad hdoff
  obtain ⟨hdata, hlen⟩ := setLen_pull pkt hmax
  obtain ⟨hle, hend⟩ := hdrpull_end h
  unfold payload at hle hend
  rw [hdata] at hle
  rw [hdata, hlen] at hend
  have hplace : pkt.data + SDPCM_HDRLEN ≤ q.data ∧ q.data + q.len = pkt.data + hdr.len :=
    ⟨by omega, by omega⟩
  have hne : (payload hdr pkt).len ≠ 0 := by
    intro hzero
    rw [hdrpull_of_empty hzero] at h
    cases h
  unfold deliver
  rw [if_neg hchan]
  dsimp only
  rw [if_neg hne, h]
  dsimp only
  split
  · exact ⟨.reorder q env.pktCount, rfl, trivial, fun _ _ => Iff.rfl, hplace⟩
  · exact ⟨.rxFrame q, rfl, trivial, fun _ _ => Iff.rfl, hplace⟩

theorem frameTurn_oneOwner : (frameTurn env (.frame v hdr pkt got)).OneOwner ↔
    ∃ f, (deliver env v hdr pkt).2 = [f] ∧ f.inside pkt.data got ∧
      f.stored (deliver env v hdr pkt).1.bus := by
  constructor
  · intro h
    exact h _ rfl
  · rintro h p hp
    cases hp
    exact h

/-- A packet with the whole frame is passed on: the frame is to be in what was read. -/
theorem passed_oneOwner {f : Fate} (hf : (deliver env v hdr pkt).2 = [f])
    (hstored : f.stored (deliver env v hdr pkt).1.bus) (hpasses : f.passes q)
    (hstart : pkt.data + SDPCM_HDRLEN ≤ q.data) (hend : q.data + q.len = pkt.data + hdr.len) :
    (frameTurn env (.frame v hdr pkt got)).OneOwner ↔ hdr.len ≤ got := by
  rw [frameTurn_oneOwner]
  constructor
  · rintro ⟨g, hg, hin, -⟩
    rw [hf] at hg
    obtain rfl := List.singleton_injective hg
    have hto := ((hpasses _ _).mp hin).2
    omega
  · intro hle
    exact ⟨f, hf, (hpasses _ _).mpr ⟨hstart, by omega⟩, hstored⟩

/-- What `deliver` does with a frame whose data offset is checked. -/
theorem deliver_oneOwner (hdoff : badDoff hdr = false) :
    (frameTurn env (.frame v hdr pkt got)).OneOwner ↔
      ¬ Stray hdr ∧ (got < hdr.len → ¬ Accepted hdr pkt) := by
  have hcond : ¬ Stray hdr → Accepted hdr pkt →
      (hdr.len ≤ got ↔ ¬ Stray hdr ∧ (got < hdr.len → ¬ Accepted hdr pkt)) := by
    intro hstray haccepted
    rw [← Nat.not_lt]
    exact ⟨fun hnot => ⟨hstray, fun hlt => absurd hlt hnot⟩, fun h hlt => h.2 hlt haccepted⟩
  by_cases hchan : hdr.chan = SDPCM_GLOM_CHANNEL
  · by_cases hdesc : hdr.glomdesc = 0
    · -- The packet is forgotten.
      refine iff_of_false ?_ (fun h => h.1 ⟨hchan, hdesc⟩)
      rw [frameTurn_oneOwner]
      rintro ⟨f, hf, -, -⟩
      rw [deliver_stray ⟨hchan, hdesc⟩] at hf
      cases hf
    · obtain ⟨hmin, hmax⟩ := doff_of_not_bad hdoff
      obtain ⟨f, q, hf, hstored, hpasses, hstart, hend⟩ :=
        @deliver_glomd env v hdr pkt hchan hdesc (Nat.le_trans hmin hmax)
      rw [passed_oneOwner hf hstored hpasses hstart hend]
      exact hcond (fun h => hdesc h.2) (Or.inl hchan)
  · cases hpull : hdrpull (payload hdr pkt) with
    | none =>
      have hnot : ¬ Accepted hdr pkt := by
        rintro (h | h)
        · exact hchan h
        · exact h hpull
      refine iff_of_true ?_ ⟨fun h => hchan h.1, fun _ => hnot⟩
      rw [frameTurn_oneOwner]
      exact ⟨.freed, deliver_rejected hchan hpull, trivial, trivial⟩
    | some q =>
      obtain ⟨f, hf, hstored, hpasses, hstart, hend⟩ :=
        @deliver_accepted env v hdr q pkt hchan hdoff hpull
      rw [passed_oneOwner hf hstored hpasses hstart hend]
      refine hcond (fun h => hchan h.1) (Or.inr ?_)
      rw [hpull]
      exact Option.some_ne_none q

end

/-! ## A turn, and the loop -/

section
variable {cfg : Settings} {env : Env} {v : Vars}

theorem turn_oneOwner_iff : (turn cfg env v).OneOwner ↔ Handled cfg env v := by
  unfold turn Handled
  dsimp only
  by_cases hglom : glomming (v.onBus env.transmit).bus = true
  · -- There is no packet in this turn.
    rw [if_pos hglom]
    refine iff_of_true ?_ (fun hnot => absurd hglom hnot)
    intro p hp
    cases hp
  · rw [if_neg hglom]
    cases hfetch : fetch cfg env (v.onBus env.transmit) with
    | skip w =>
      refine iff_of_true ?_ (fun _ _ _ _ _ h => by cases h)
      intro p hp
      cases hp
    | finished w =>
      refine iff_of_true ?_ (fun _ _ _ _ _ h => by cases h)
      intro p hp
      cases hp
    | freed w =>
      refine iff_of_true ?_ (fun _ _ _ _ _ h => by cases h)
      intro p hp
      cases hp
      exact ⟨.freed, rfl, trivial, trivial⟩
    | frame w hdr pkt got =>
      obtain ⟨hdoff, hshort⟩ := fetch_frame hfetch
      rw [deliver_oneOwner hdoff, hshort]
      constructor
      · rintro ⟨hstray, himp⟩ - w' hdr' pkt' got' h
        cases h
        exact ⟨hstray, fun htry hover => himp ⟨htry, hover⟩⟩
      · intro h
        obtain ⟨hstray, himp⟩ := h hglom w hdr pkt got rfl
        exact ⟨hstray, fun hc => himp hc.1 hc.2⟩

/-- The variables with which the first part of a turn ends. -/
def Fetched.vars : Fetched → Vars
  | .skip v | .finished v | .freed v | .frame v _ _ _ => v

theorem checkReadahead_rxleft (nextlen : Nat) (hdr : Hdr) (pkt : Skb) (got : Nat) :
    (checkReadahead env v nextlen hdr pkt got).vars.rxleft = v.rxleft := by
  unfold checkReadahead
  dsimp only
  repeat' split
  all_goals rfl

theorem fetch_rxleft : (fetch cfg env v).vars.rxleft = v.rxleft := by
  unfold fetch
  split
  · unfold readAhead
    dsimp only
    split
    · rfl
    · split
      · rfl
      · exact checkReadahead_rxleft _ _ _ _
  · unfold readHeader readRest
    dsimp only
    repeat' split
    all_goals rfl

theorem deliver_rxleft (hdr : Hdr) (pkt : Skb) : (deliver env v hdr pkt).1.rxleft = v.rxleft := by
  unfold deliver
  dsimp only
  repeat' split
  all_goals rfl

theorem turn_rxleft (h : 0 < v.rxleft) : (turn cfg env v).vars.rxleft ≤ v.rxleft := by
  unfold turn
  dsimp only
  split
  · -- At least one frame is counted, or the last one.
    show (if _ then _ else 1) ≤ v.rxleft
    split
    · exact Nat.sub_le _ _
    · exact h
  · have hfetch : (fetch cfg env (v.onBus env.transmit)).vars.rxleft = v.rxleft := fetch_rxleft
    cases hf : fetch cfg env (v.onBus env.transmit) with
    | skip w | finished w | freed w =>
      rw [hf] at hfetch
      exact Nat.le_of_eq hfetch
    | frame w hdr pkt got =>
      rw [hf] at hfetch
      exact Nat.le_of_eq ((deliver_rxleft hdr pkt).trans hfetch)

end

/-- The loop ends, and does not take more turns than there are frames left. -/
theorem loop_ends (cfg : Settings) (n : Nat) (env : Nat → Env) (v : Vars) (h : v.rxleft ≤ n) :
    ∃ r, loop cfg n env v = some r ∧ r.turns.length ≤ v.rxleft := by
  induction n generalizing env v with
  | zero =>
    have hended : v.ended = true := by simp [Vars.ended, Nat.le_zero.mp h]
    unfold loop
    rw [if_pos hended]
    exact ⟨_, rfl, Nat.zero_le _⟩
  | succ n ih =>
    unfold loop
    split
    · exact ⟨_, rfl, Nat.zero_le _⟩
    · rename_i hended
      have hleft : 0 < v.rxleft := by
        by_contra hzero
        exact hended (by simp [Vars.ended, Nat.eq_zero_of_not_pos hzero])
      dsimp only
      split
      · exact ⟨_, rfl, hleft⟩
      · have hturn := @turn_rxleft cfg (env 0) v hleft
        obtain ⟨r, hr, hlen⟩ := ih (fun i => env (i + 1))
          { (turn cfg (env 0) v).vars with
            rxseq := (turn cfg (env 0) v).vars.rxseq + 1
            rxleft := (turn cfg (env 0) v).vars.rxleft - 1 } (by dsimp only; omega)
        rw [hr]
        refine ⟨_, rfl, ?_⟩
        dsimp only at hlen ⊢
        rw [List.length_cons]
        omega

/-- The loop ends in time, and every packet has one owner if and only if every turn handles its
frame. -/
theorem readframes_oneOwner_iff (cfg : Settings) (env : Nat → Env) (bus : Bus) (maxframes : Nat) :
    ∃ r, readframes cfg env bus maxframes = some r ∧ r.turns.length ≤ maxframes ∧
      ((∀ t ∈ r.turns, (turn cfg t.1 t.2).OneOwner) ↔ ∀ t ∈ r.turns, Handled cfg t.1 t.2) := by
  have hiff : ∀ turns : List (Env × Vars),
      (∀ t ∈ turns, (turn cfg t.1 t.2).OneOwner) ↔ ∀ t ∈ turns, Handled cfg t.1 t.2 := by
    intro turns
    constructor
    · intro h t ht
      exact turn_oneOwner_iff.mp (h t ht)
    · intro h t ht
      exact turn_oneOwner_iff.mpr (h t ht)
  unfold readframes
  split
  · exact ⟨_, rfl, Nat.zero_le _, hiff _⟩
  · obtain ⟨r, hr, hlen⟩ := loop_ends cfg maxframes env ⟨bus, bus.rxSeq, maxframes⟩ (Nat.le_refl _)
    rw [hr]
    exact ⟨_, rfl, hlen, hiff _⟩

/-- A frame of 16 bytes for the glom channel, without the flag. -/
def strayFrame : Hdr where
  byte i := [16, 0, 0xef, 0xff, 0, 3, 0, 12].getD i 0

def plainSettings : Settings where
  firstread := 32
  firstread_lt := by decide
  roundup := 512
  blocksize := 512
  forcealign := true
  readahead := true
  retrydata := false

def plainBus : Bus where
  rxSeq := 0
  txSeq := 0
  txMax := 4
  flowcontrol := 0
  nextlen := 0
  nextlen_le := by decide
  rxskip := false
  down := false
  kso := true
  glom := false
  glomd := none

/-- Every read brings `hdr`, and nothing fails. -/
def plainEnv (hdr : Hdr) : Env where
  transmit := id
  rxglom bus _ := (bus, 0)
  pktget n := some ⟨⟨0x1000, 0x1000, n, 0x1000 + n, fun _ => 0⟩, rfl⟩
  recvHdr := some hdr
  recvBuf := some fun _ => 0
  regs := ⟨false, true, false⟩
  readControl := id
  reorderInfoLen := 0
  pktCount := 0
  rxFrame := id

/-- The packet of such a frame has no owner. -/
theorem readframes_not_oneOwner : ¬ ∀ cfg env bus maxframes,
    ∃ r, readframes cfg env bus maxframes = some r ∧ r.turns.length ≤ maxframes ∧
      ∀ t ∈ r.turns, (turn cfg t.1 t.2).OneOwner := by
  intro h
  obtain ⟨r, hr, -, howner⟩ := h plainSettings (fun _ => plainEnv strayFrame) plainBus 1
  have hturns : r.turns = [(plainEnv strayFrame, ⟨plainBus, 0, 1⟩)] := by
    cases hr
    rfl
  rw [hturns] at howner
  obtain ⟨f, hf, -⟩ := howner _ (List.mem_singleton_self _) ⟨0x1000, 32, []⟩ rfl
  cases hf

end Bcmdhd.Sdio.ReadFrames
