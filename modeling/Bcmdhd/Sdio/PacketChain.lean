import Mathlib.Data.List.Basic
import Mathlib.Data.Nat.Bitwise

/-!
# Transfer of a chain of packets (`sdioh_request_packet_chain`)

A glom of packets is written or read by commands of the SD host, each of which moves a number of
blocks.  In the mode with several descriptors a command has a scatter list whose entries point into
the packets; in the copy mode the packets are copied to one buffer.

    requestMdesc host … pkts = (cmds, ok) →
      the cells of the commands, put together, are those of the packets, or the first of them
      if it fails; each command has whole blocks, as many as it says, and no more than the host
      can take; and it is for the address behind the commands before it     (mdesc_transfers)
    the packets are whole blocks, and few → it fails by an error of the host only
                                                                            (mdesc_succeeds)
    the transfers of the copy mode have all bytes of the packets, in order, each filled up to
      what the device takes, and never more than the buffer has             (copy_transfers)

The copy mode passes over the host's errors, and what it reads is not copied to the packets.
-/

namespace Bcmdhd.Sdio.PacketChain

/-! ## Algorithm -/

/-- `ARRAYSIZE(sd->sg_list)` -/
def SDIOH_SDMMC_MAX_SG_ENTRIES : Nat := 64

def MAX_IO_RW_EXTENDED_BLK : Nat := 511

def SDPCM_MAXGLOM_SIZE : Nat := 36

def COPY_BUF_SIZE : Nat := SDPCM_MAXGLOM_SIZE * 1600

/-- Limits of the SD host, and `client_block_size` of the function -/
structure Host where
  blkSize : Nat
  maxBlkCount : Nat
  maxReqSize : Nat
  maxSegSize : Nat

/-- `max_req_size`: what one command can move -/
def Host.maxReq (host : Host) : Nat :=
  min (min host.maxBlkCount MAX_IO_RW_EXTENDED_BLK * host.blkSize) host.maxReqSize

/-- What is asked for: `fix_inc`, `write`, `func` -/
structure Request where
  fifo : Bool
  write : Bool
  func : BitVec 32

/-- SD_IO_RW_EXTENDED: its argument, and the data -/
structure Cmd (α : Type) where
  addr : Nat
  arg : BitVec 32
  blocks : Nat
  sgList : List (List α)

variable {α : Type}

/-- The memory that is moved -/
def Cmd.cells (c : Cmd α) : List α := c.sgList.flatten

def bitIf (c : Bool) (n : Nat) : BitVec 32 := if c then BitVec.twoPow 32 n else 0

def cmdArg (req : Request) (addr blkNum : Nat) : BitVec 32 :=
  bitIf req.write 31 ||| (req.func &&& 0x7) <<< 28 ||| bitIf true 27 ||| bitIf (!req.fifo) 26 |||
    (BitVec.ofNat 32 addr &&& 0x1FFFF) <<< 9 ||| (BitVec.ofNat 32 blkNum &&& 0x1FF)

/-- Where the loops are: the packets from `pnext` on, and `pkt_offset`. -/
structure Pos (α : Type) where
  pnext : List (List α)
  pktOffset : Nat

/-- A scatter list, with `ttl_len` -/
structure Sg (α : Type) where
  pos : Pos α
  sgList : List (List α)
  ttlLen : Nat

def sgDataSize (host : Host) (ttlLen pktLen pktOffset : Nat) : Nat :=
  let size := pktLen - pktOffset
  let size := if host.maxReq - ttlLen < size then host.maxReq - ttlLen else size
  if host.maxSegSize < size then host.maxSegSize else size

def sgTurn (host : Host) (g : Sg α) (pkt : List α) (rest : List (List α)) : Sg α :=
  let size := sgDataSize host g.ttlLen pkt.length g.pos.pktOffset
  { pos := if g.pos.pktOffset + size = pkt.length then ⟨rest, 0⟩
      else ⟨pkt :: rest, g.pos.pktOffset + size⟩
    sgList := g.sgList ++ [(pkt.drop g.pos.pktOffset).take size]
    ttlLen := g.ttlLen + size }

/-- Set up scatter-gather DMA descriptors, with so many entries left; `none`: they exceed the
limit. -/
def fillSg (host : Host) : Nat → Sg α → Option (Sg α)
  | slots, g =>
    match g.pos.pnext with
    | [] => some g
    | pkt :: rest =>
      if g.ttlLen < host.maxReq then
        match slots with
        | 0 => none
        | slots + 1 => fillSg host slots (sgTurn host g pkt rest)
      else some g

/-- One turn of the loop over the packets: the command, unless the list cannot be set up. -/
def mdescTurn (host : Host) (req : Request) (addr : Nat) (pos : Pos α) :
    Option (Cmd α × Nat × Pos α) :=
  match fillSg host SDIOH_SDMMC_MAX_SG_ENTRIES ⟨pos, [], 0⟩ with
  | none => none
  | some g =>
    if g.ttlLen % host.blkSize ≠ 0 then none
    else
      let blkNum := g.ttlLen / host.blkSize
      some (⟨addr, cmdArg req addr blkNum, blkNum, g.sgList⟩,
        if req.fifo then addr else addr + g.ttlLen, g.pos)

/-- The commands, and whether it succeeds; `none` if it has not ended after so many turns.
`err i`: the host's error for the command `i` from here on. -/
def mdescLoop (host : Host) (req : Request) (err : Nat → Bool) :
    Nat → Nat → Pos α → Option (List (Cmd α) × Bool)
  | 0, _, _ => none
  | turns + 1, addr, pos =>
    if pos.pnext.isEmpty then some ([], true)
    else
      match mdescTurn host req addr pos with
      | none => some ([], false)
      | some (cmd, addr, pos) =>
        if err 0 then some ([cmd], false)
        else (mdescLoop host req (fun i => err (i + 1)) turns addr pos).map fun r =>
          (cmd :: r.1, r.2)

/-- What is left of the packets -/
def Pos.cells (pos : Pos α) : List α := pos.pnext.flatten.drop pos.pktOffset

def Pos.size (pos : Pos α) : Nat := pos.pnext.length + pos.cells.length

/-- `SDPCM_TXGLOM_MDESC` -/
def requestMdesc (host : Host) (req : Request) (err : Nat → Bool) (addr : Nat)
    (pkts : List (List α)) : Option (List (Cmd α) × Bool) :=
  mdescLoop host req err (Pos.size ⟨pkts, 0⟩ + 1) addr ⟨pkts, 0⟩

/-- A packet that is handed to the host by itself, or a buffer of several: `len` bytes from `data`
on, filled up -/
structure Transfer (α : Type) where
  addr : Nat
  data : List α
  len : Nat
  fromCopyBuf : Bool

/-- `copied`: what is in `localbuf`, or `none` for NULL -/
structure Copy (α : Type) where
  copied : Option (List α)
  ttlLen : Nat
  addr : Nat
  transfers : List (Transfer α)

/-- Align Patch -/
def alignLen (host : Host) (req : Request) (pktLen : Nat) : Nat :=
  if ¬ req.write ∨ pktLen < 32 then (pktLen + 3) / 4 * 4
  else if pktLen % host.blkSize ≠ 0 then pktLen + (host.blkSize - pktLen % host.blkSize)
  else pktLen

def transfer (host : Host) (req : Request) (c : Copy α) (data : List α) (fromCopyBuf : Bool) :
    Copy α :=
  let len := alignLen host req data.length
  { c with
    addr := if req.fifo then c.addr else c.addr + len
    transfers := c.transfers ++ [⟨c.addr, data, len, fromCopyBuf⟩] }

/-- A packet is copied behind those before it, and the last one leads to the transfer.  Without a
buffer, it is transferred by itself. -/
def copyTurn (host : Host) (req : Request) (c : Copy α) (pkt : List α) (last : Bool) : Copy α :=
  match c.copied with
  | none =>
    if c.ttlLen ≤ COPY_BUF_SIZE then
      let c := { c with copied := some pkt }
      if last then transfer host req c pkt true else c
    else transfer host req { c with ttlLen := c.ttlLen - pkt.length } pkt false
  | some buf =>
    let c := { c with copied := some (buf ++ pkt) }
    if last then transfer host req c (buf ++ pkt) true else c

def copyLoop (host : Host) (req : Request) : Copy α → List (List α) → Copy α
  | c, [] => c
  | c, pkt :: rest => copyLoop host req (copyTurn host req c pkt rest.isEmpty) rest

/-- `SDPCM_TXGLOM_CPY`.  The host's errors are not returned. -/
def requestCopy (host : Host) (req : Request) (addr : Nat) (pkts : List (List α)) :
    List (Transfer α) :=
  (copyLoop host req ⟨none, pkts.flatten.length, addr, []⟩ pkts).transfers

/-- What a command says of itself, and what the host asks of it -/
structure Cmd.Fits (host : Host) (req : Request) (c : Cmd α) : Prop where
  whole : c.cells.length = c.blocks * host.blkSize
  bound : c.cells.length ≤ host.maxReq
  count : (c.arg &&& 0x1FF).toNat = c.blocks
  address : (c.arg >>> 9 &&& 0x1FFFF).toNat = c.addr % 2 ^ 17
  direction : c.arg.getLsbD 31 = req.write
  entries : c.sgList.length ≤ SDIOH_SDMMC_MAX_SG_ENTRIES
  seg : ∀ seg ∈ c.sgList, seg.length ≤ host.maxSegSize

/-- What a transfer asks of the device, and of the buffer -/
structure Transfer.Fits (host : Host) (t : Transfer α) : Prop where
  filled : t.data.length ≤ t.len
  aligned : if t.data.length < 32 then 4 ∣ t.len else host.blkSize ∣ t.len
  least : t.len < t.data.length + (if t.data.length < 32 then 4 else host.blkSize)
  buffer : t.fromCopyBuf → host.blkSize ∣ COPY_BUF_SIZE → t.len ≤ COPY_BUF_SIZE

/-- Each transfer is for the address behind the one before it, or all are for the same. -/
def Addressed (fifo : Bool) : Nat → List (Nat × Nat) → Prop
  | _, [] => True
  | addr, (a, len) :: l => a = addr ∧ Addressed fifo (if fifo then addr else addr + len) l

/-! ## The argument of a command -/

theorem getLsbD_bitIf (c : Bool) {n : Nat} (hn : n < 32) (i : Nat) :
    (bitIf c n).getLsbD i = (c && decide (i = n)) := by
  unfold bitIf
  cases c
  · simp
  · rw [if_pos rfl, BitVec.getLsbD_twoPow, decide_eq_true hn, Bool.true_and, Bool.true_and]
    exact decide_eq_decide.mpr eq_comm

theorem getLsbD_low {k : Nat} (hk : k ≤ 32) (i : Nat) :
    (BitVec.ofNat 32 (2 ^ k - 1)).getLsbD i = decide (i < k) := by
  rw [BitVec.getLsbD_ofNat, Nat.testBit_two_pow_sub_one]
  by_cases hi : i < k
  · rw [decide_eq_true hi, decide_eq_true (Nat.lt_of_lt_of_le hi hk)]
    rfl
  · rw [decide_eq_false hi, Bool.and_false]

theorem mask9 (i : Nat) : BitVec.getLsbD (0x1FF : BitVec 32) i = decide (i < 9) :=
  @getLsbD_low 9 (by omega) i

theorem mask17 (i : Nat) : BitVec.getLsbD (0x1FFFF : BitVec 32) i = decide (i < 17) :=
  @getLsbD_low 17 (by omega) i

theorem getLsbD_cmdArg (req : Request) (addr blkNum : Nat) {i : Nat} (hi : i < 32) :
    (cmdArg req addr blkNum).getLsbD i =
      if i < 9 then blkNum.testBit i
      else if i < 26 then addr.testBit (i - 9)
      else if i = 26 then !req.fifo
      else if i = 27 then true
      else if i < 31 then req.func.getLsbD (i - 28)
      else req.write := by
  have h3 : ∀ j, BitVec.getLsbD (0x7 : BitVec 32) j = decide (j < 3) :=
    @getLsbD_low 3 (by omega)
  have hbit : ∀ c n, n < 32 → (bitIf c n).getLsbD i = (c && decide (i = n)) :=
    fun c n hn => getLsbD_bitIf c hn i
  unfold cmdArg
  simp only [BitVec.getLsbD_or, hbit _ 31 (by omega), hbit _ 27 (by omega), hbit _ 26 (by omega),
    BitVec.getLsbD_shiftLeft, BitVec.getLsbD_and, h3, mask9, mask17, BitVec.getLsbD_ofNat]
  grind

/-- `mmc_dat.blocks` is also in the argument. -/
theorem cmdArg_count (req : Request) (addr blkNum : Nat) :
    (cmdArg req addr blkNum &&& 0x1FF).toNat = blkNum % 2 ^ 9 := by
  apply Nat.eq_of_testBit_eq
  intro i
  rw [Nat.testBit_mod_two_pow, BitVec.testBit_toNat, BitVec.getLsbD_and, mask9]
  by_cases hi : i < 9
  · rw [getLsbD_cmdArg req addr blkNum (by omega), if_pos hi, Bool.and_comm]
  · rw [decide_eq_false hi, Bool.and_false, Bool.false_and]

theorem cmdArg_address (req : Request) (addr blkNum : Nat) :
    (cmdArg req addr blkNum >>> 9 &&& 0x1FFFF).toNat = addr % 2 ^ 17 := by
  apply Nat.eq_of_testBit_eq
  intro i
  rw [Nat.testBit_mod_two_pow, BitVec.testBit_toNat, BitVec.getLsbD_and, mask17,
    BitVec.getLsbD_ushiftRight]
  by_cases hi : i < 17
  · rw [getLsbD_cmdArg req addr blkNum (by omega), if_neg (by omega), if_pos (by omega),
      Nat.add_sub_cancel_left, Bool.and_comm]
  · rw [decide_eq_false hi, Bool.and_false, Bool.false_and]

/-! ## Several descriptors -/

variable {host : Host} {req : Request} {g g' : Sg α} {pkt : List α} {rest : List (List α)}

theorem sgDataSize_eq (host : Host) (ttlLen pktLen pktOffset : Nat) :
    sgDataSize host ttlLen pktLen pktOffset =
      min (min (pktLen - pktOffset) (host.maxReq - ttlLen)) host.maxSegSize := by
  unfold sgDataSize
  dsimp only
  split <;> split <;> omega

def Pos.Within (pos : Pos α) : Prop :=
  match pos.pnext with
  | [] => True
  | pkt :: _ => pos.pktOffset ≤ pkt.length

theorem cells_of_empty {pos : Pos α} (h : pos.pnext = []) : pos.cells = [] := by
  unfold Pos.cells
  rw [h, List.flatten_nil, List.drop_nil]

theorem cells_cons {off : Nat} (h : off ≤ pkt.length) :
    Pos.cells ⟨pkt :: rest, off⟩ = pkt.drop off ++ rest.flatten := by
  unfold Pos.cells
  rw [List.flatten_cons, List.drop_append_of_le_length h]

/-- What is in the scatter list, and what is left, are what the packets were. -/
structure Filled (host : Host) (start : List α) (g : Sg α) : Prop where
  within : g.pos.Within
  cells : g.sgList.flatten ++ g.pos.cells = start
  ttl : g.ttlLen = g.sgList.flatten.length
  bound : g.ttlLen ≤ host.maxReq
  seg : ∀ seg ∈ g.sgList, seg.length ≤ host.maxSegSize

theorem Filled.turn {start : List α} (h : Filled host start g) (hnext : g.pos.pnext = pkt :: rest) :
    Filled host start (sgTurn host g pkt rest) := by
  obtain ⟨⟨pnext, off⟩, sg, ttl⟩ := g
  obtain rfl : pnext = pkt :: rest := hnext
  have hoff : off ≤ pkt.length := h.within
  have hsize := sgDataSize_eq host ttl pkt.length off
  have hcells := h.cells
  have httl := h.ttl
  have hbound := h.bound
  dsimp only at hcells httl hbound
  rw [cells_cons hoff] at hcells
  unfold sgTurn
  dsimp only
  generalize sgDataSize host ttl pkt.length off = size at hsize ⊢
  have hlen : ((pkt.drop off).take size).length = size := by
    rw [List.length_take, List.length_drop]
    omega
  refine ⟨?_, ?_, ?_, ?_, ?_⟩
  · split
    · cases rest with
      | nil => trivial
      | cons pkt' rest' => exact Nat.zero_le _
    · show off + size ≤ pkt.length
      omega
  · rw [← hcells, List.flatten_append, List.flatten_cons, List.flatten_nil, List.append_nil,
      List.append_assoc]
    congr 1
    split
    · next hdone =>
      rw [List.take_of_length_le (by rw [List.length_drop]; omega)]
      rfl
    · rw [cells_cons (by omega), ← List.append_assoc, ← List.drop_drop, List.take_append_drop]
  · rw [List.flatten_append, List.length_append, httl]
    simp only [List.flatten_cons, List.flatten_nil, List.append_nil, hlen]
  · show ttl + size ≤ host.maxReq
    omega
  · intro seg hseg
    rcases List.mem_append.mp hseg with hseg | hseg
    · exact h.seg seg hseg
    · rw [List.mem_singleton.mp hseg, hlen, hsize]
      exact Nat.min_le_right _ _

theorem pnext_turn (host : Host) (g : Sg α) (hnext : g.pos.pnext = pkt :: rest) :
    (sgTurn host g pkt rest).pos.pnext <:+ g.pos.pnext := by
  rw [hnext]
  unfold sgTurn
  dsimp only
  split
  · exact List.suffix_cons pkt rest
  · exact List.suffix_refl _

/-- The list goes on where it ended, until the packets or the command are full. -/
theorem Filled.fill {start : List α} {slots : Nat} (h : Filled host start g)
    (hf : fillSg host slots g = some g') :
    Filled host start g' ∧ g'.sgList.length ≤ g.sgList.length + slots ∧
      (g'.pos.pnext = [] ∨ host.maxReq ≤ g'.ttlLen) ∧ g'.pos.pnext <:+ g.pos.pnext := by
  induction slots generalizing g with
  | zero =>
    unfold fillSg at hf
    split at hf
    · next hnil =>
      cases hf
      exact ⟨h, Nat.le_refl _, Or.inl hnil, List.suffix_refl _⟩
    · split at hf
      · cases hf
      · next hfull =>
        cases hf
        exact ⟨h, Nat.le_refl _, Or.inr (Nat.not_lt.mp hfull), List.suffix_refl _⟩
  | succ slots ih =>
    unfold fillSg at hf
    split at hf
    · next hnil =>
      cases hf
      exact ⟨h, Nat.le_add_right _ _, Or.inl hnil, List.suffix_refl _⟩
    · next pkt rest hnext =>
      split at hf
      · obtain ⟨hfill, hlen, hend, hsuffix⟩ := ih (h.turn hnext) hf
        refine ⟨hfill, ?_, hend, hsuffix.trans (pnext_turn host g hnext)⟩
        have hone : (sgTurn host g pkt rest).sgList.length = g.sgList.length + 1 := by
          unfold sgTurn
          rw [List.length_append]
          rfl
        omega
      · next hfull =>
        cases hf
        exact ⟨h, Nat.le_add_right _ _, Or.inr (Nat.not_lt.mp hfull), List.suffix_refl _⟩



theorem Filled.offset {start : List α} (h : Filled host start g)
    (hnext : g.pos.pnext = pkt :: rest) : g.pos.pktOffset ≤ pkt.length := by
  have hwithin := h.within
  unfold Pos.Within at hwithin
  rw [hnext] at hwithin
  exact hwithin

theorem size_turn (host : Host) (g : Sg α) (hnext : g.pos.pnext = pkt :: rest)
    (hoff : g.pos.pktOffset ≤ pkt.length) :
    (sgTurn host g pkt rest).pos.size < g.pos.size ∨
      (sgTurn host g pkt rest).pos = g.pos ∧ (sgTurn host g pkt rest).ttlLen = g.ttlLen := by
  obtain ⟨⟨pnext, off⟩, sg, ttl⟩ := g
  obtain rfl : pnext = pkt :: rest := hnext
  have hoff : off ≤ pkt.length := hoff
  have hsize := sgDataSize_eq host ttl pkt.length off
  unfold sgTurn
  dsimp only
  generalize sgDataSize host ttl pkt.length off = size at hsize ⊢
  split
  · left
    unfold Pos.size
    rw [cells_cons hoff]
    simp only [Pos.cells, List.drop_zero, List.length_append, List.length_cons, List.length_drop]
    omega
  · rcases Nat.eq_zero_or_pos size with rfl | hpos
    · exact Or.inr ⟨rfl, rfl⟩
    · left
      unfold Pos.size
      rw [cells_cons hoff, cells_cons (by omega)]
      simp only [List.length_append, List.length_cons, List.length_drop]
      omega

theorem fillSg_size {start : List α} {slots : Nat} (hw : Filled host start g)
    (hf : fillSg host slots g = some g') :
    g'.pos.size ≤ g.pos.size ∧
      (g.pos.pnext ≠ [] → g.ttlLen < host.maxReq → g'.pos.size < g.pos.size) := by
  induction slots generalizing g with
  | zero =>
    unfold fillSg at hf
    split at hf
    · next hnil =>
      cases hf
      exact ⟨Nat.le_refl _, fun h => absurd hnil h⟩
    · split at hf
      · cases hf
      · next hfull =>
        cases hf
        exact ⟨Nat.le_refl _, fun _ h => absurd h hfull⟩
  | succ slots ih =>
    unfold fillSg at hf
    split at hf
    · next hnil =>
      cases hf
      exact ⟨Nat.le_refl _, fun h => absurd hnil h⟩
    · next pkt rest hnext =>
      split at hf
      · next hroom =>
        obtain ⟨hle, hlt⟩ := ih (hw.turn hnext) hf
        rcases size_turn host g hnext (hw.offset hnext) with hless | ⟨hpos, httl⟩
        · have hless := Nat.lt_of_le_of_lt hle hless
          exact ⟨Nat.le_of_lt hless, fun _ _ => hless⟩
        · -- an entry of no bytes: it goes on where it was
          rw [hpos, httl] at hlt
          have hless := hlt (by rw [hnext]; exact List.cons_ne_nil _ _) hroom
          exact ⟨Nat.le_of_lt hless, fun _ _ => hless⟩
      · next hfull =>
        cases hf
        exact ⟨Nat.le_refl _, fun _ h => absurd h hfull⟩

theorem Filled.start (host : Host) {pos : Pos α} (hw : pos.Within) :
    Filled host pos.cells ⟨pos, [], 0⟩ where
  within := hw
  cells := rfl
  ttl := rfl
  bound := Nat.zero_le _
  seg := fun _ hseg => absurd hseg List.not_mem_nil

/-- What one command does: it takes as many of the cells as it can. -/
theorem mdescTurn_some {addr addr' : Nat} {pos pos' : Pos α} {cmd : Cmd α} (hw : pos.Within)
    (ht : mdescTurn host req addr pos = some (cmd, addr', pos')) :
    pos'.Within ∧ cmd.cells ++ pos'.cells = pos.cells ∧ cmd.addr = addr ∧
      addr' = (if req.fifo then addr else addr + cmd.cells.length) ∧ cmd.Fits host req ∧
      (pos.pnext ≠ [] → 0 < host.maxReq → pos'.size < pos.size) := by
  unfold mdescTurn at ht
  split at ht
  · cases ht
  · next g hfill =>
    obtain ⟨hfilled, hlen, -⟩ := (Filled.start host hw).fill hfill
    split at ht
    · cases ht
    next halign =>
    simp only [Option.some.injEq, Prod.mk.injEq] at ht
    obtain ⟨rfl, rfl, rfl⟩ := ht
    have hcells : g.sgList.flatten.length = g.ttlLen := hfilled.ttl.symm
    have hwhole : g.ttlLen / host.blkSize * host.blkSize = g.ttlLen :=
      Nat.div_mul_cancel (Nat.dvd_of_mod_eq_zero (not_not.mp halign))
    refine ⟨hfilled.within, hfilled.cells, rfl, ?_, ?_, ?_⟩
    · unfold Cmd.cells
      rw [hcells]
    · refine ⟨?_, ?_, ?_, ?_, ?_, ?_, hfilled.seg⟩
      · show g.sgList.flatten.length = g.ttlLen / host.blkSize * host.blkSize
        rw [hcells, hwhole]
      · show g.sgList.flatten.length ≤ host.maxReq
        rw [hcells]
        exact hfilled.bound
      · show (cmdArg req addr (g.ttlLen / host.blkSize) &&& 0x1FF).toNat = g.ttlLen / host.blkSize
        have hblocks : g.ttlLen ≤ MAX_IO_RW_EXTENDED_BLK * host.blkSize :=
          calc
            g.ttlLen ≤ host.maxReq := hfilled.bound
            _ ≤ min host.maxBlkCount MAX_IO_RW_EXTENDED_BLK * host.blkSize := Nat.min_le_left _ _
            _ ≤ MAX_IO_RW_EXTENDED_BLK * host.blkSize :=
              Nat.mul_le_mul_right _ (Nat.min_le_right _ _)
        have hcount : g.ttlLen / host.blkSize ≤ 511 := Nat.div_le_of_le_mul (by
          rw [Nat.mul_comm]
          exact hblocks)
        rw [cmdArg_count]
        exact Nat.mod_eq_of_lt (Nat.lt_succ_of_le hcount)
      · exact cmdArg_address req addr _
      · show (cmdArg req addr _).getLsbD 31 = req.write
        rw [getLsbD_cmdArg req addr _ (by omega)]
        rfl
      · simpa using hlen
    · intro hnext hmax
      exact (fillSg_size (Filled.start host hw) hfill).2 hnext hmax

theorem mdescLoop_spec (hmax : 0 < host.maxReq) {err : Nat → Bool} {turns addr : Nat}
    {pos : Pos α} (hw : pos.Within) (hsize : pos.size < turns) :
    ∃ cmds ok, mdescLoop host req err turns addr pos = some (cmds, ok) ∧
      cmds.flatMap Cmd.cells <+: pos.cells ∧
      (ok = true → cmds.flatMap Cmd.cells = pos.cells) ∧ (∀ c ∈ cmds, c.Fits host req) ∧
      Addressed req.fifo addr (cmds.map fun c => (c.addr, c.cells.length)) := by
  induction turns generalizing err addr pos with
  | zero => omega
  | succ turns ih =>
    unfold mdescLoop
    split
    · next hempty =>
      rw [cells_of_empty (List.isEmpty_iff.mp hempty)]
      exact ⟨[], true, rfl, List.prefix_refl _, fun _ => rfl,
        fun _ hc => absurd hc List.not_mem_nil, trivial⟩
    · next hnext =>
      split
      · exact ⟨[], false, rfl, List.nil_prefix, Bool.false_ne_true.elim,
          fun _ hc => absurd hc List.not_mem_nil, trivial⟩
      · next cmd addr' pos' hturn =>
        obtain ⟨hw', hcells, rfl, haddr, hfits, hless⟩ := mdescTurn_some hw hturn
        have hless := hless (fun h => hnext (List.isEmpty_iff.mpr h)) hmax
        split
        · refine ⟨[cmd], false, rfl, ?_, Bool.false_ne_true.elim, ?_, rfl, trivial⟩
          · rw [List.flatMap_singleton, ← hcells]
            exact List.prefix_append _ _
          · intro c hc
            rw [List.mem_singleton.mp hc]
            exact hfits
        · obtain ⟨cmds, ok, hloop, hprefix, hall, hfit, hadd⟩ :=
            @ih (fun i => err (i + 1)) addr' pos' hw' (by omega)
          rw [hloop]
          refine ⟨cmd :: cmds, ok, rfl, ?_, ?_, ?_, rfl, ?_⟩
          · rw [List.flatMap_cons, ← hcells]
            exact (List.prefix_append_right_inj _).mpr hprefix
          · intro hok
            rw [List.flatMap_cons, ← hcells, hall hok]
          · intro c hc
            rcases List.mem_cons.mp hc with rfl | hc
            · exact hfits
            · exact hfit c hc
          · rw [haddr] at hadd
            exact hadd

/-- **The commands have the cells of the packets, in order**, or the first of them if it fails;
each is one the host can take, and for the address behind the one before it. -/
theorem mdesc_transfers (host : Host) (req : Request) (err : Nat → Bool) (addr : Nat)
    (pkts : List (List α)) (hmax : 0 < host.maxReq) :
    ∃ cmds ok, requestMdesc host req err addr pkts = some (cmds, ok) ∧
      cmds.flatMap Cmd.cells <+: pkts.flatten ∧
      (ok = true → cmds.flatMap Cmd.cells = pkts.flatten) ∧ (∀ c ∈ cmds, c.Fits host req) ∧
      Addressed req.fifo addr (cmds.map fun c => (c.addr, c.cells.length)) := by
  have hw : Pos.Within ⟨pkts, 0⟩ := by
    cases pkts with
    | nil => trivial
    | cons pkt rest => exact Nat.zero_le _
  exact mdescLoop_spec hmax hw (Nat.lt_succ_self _)

theorem mdesc_transfers_two :
    ∃ cmds ok, requestMdesc ⟨4, 2, 8, 3⟩ ⟨false, true, 2⟩ (fun _ => false) 0
        [[1, 2, 3, 4, 5, 6], [7, 8, 9, 10, 11, 12]] = some (cmds, ok) ∧
      cmds.flatMap Cmd.cells <+: [1, 2, 3, 4, 5, 6, 7, 8, 9, 10, 11, 12] ∧
      (ok = true → cmds.flatMap Cmd.cells = [1, 2, 3, 4, 5, 6, 7, 8, 9, 10, 11, 12]) ∧
      (∀ c ∈ cmds, c.Fits ⟨4, 2, 8, 3⟩ ⟨false, true, 2⟩) ∧
      Addressed false 0 (cmds.map fun c => (c.addr, c.cells.length)) :=
  mdesc_transfers ⟨4, 2, 8, 3⟩ ⟨false, true, 2⟩ (fun _ => false) 0
    [[1, 2, 3, 4, 5, 6], [7, 8, 9, 10, 11, 12]] (by decide)

/-! ## When it succeeds -/

/-- Each entry is the last of its packet or of the list, or has all that an entry can. -/
theorem fillSg_exists {start : List α} {slots k : Nat} (h : Filled host start g)
    (hseg : host.maxReq - g.ttlLen ≤ k * host.maxSegSize)
    (hslots : g.pos.pnext.length + k ≤ slots) : ∃ g', fillSg host slots g = some g' := by
  induction slots generalizing g k with
  | zero =>
    have hnil : g.pos.pnext = [] := List.length_eq_zero_iff.mp (by omega)
    unfold fillSg
    rw [hnil]
    exact ⟨g, rfl⟩
  | succ slots ih =>
    unfold fillSg
    split
    · exact ⟨g, rfl⟩
    · next pkt rest hnext =>
      split
      · next hroom =>
        have hturn := h.turn hnext
        have hoff := h.offset hnext
        have hsize := sgDataSize_eq host g.ttlLen pkt.length g.pos.pktOffset
        rw [hnext, List.length_cons] at hslots
        by_cases hdone : g.pos.pktOffset +
            sgDataSize host g.ttlLen pkt.length g.pos.pktOffset = pkt.length
        · apply @ih _ k hturn
          · show host.maxReq - (g.ttlLen + _) ≤ k * host.maxSegSize
            omega
          · unfold sgTurn
            dsimp only
            rw [if_pos hdone]
            show rest.length + k ≤ slots
            omega
        · obtain ⟨k, rfl⟩ : ∃ k', k = k' + 1 := Nat.exists_eq_succ_of_ne_zero (by
            rintro rfl
            omega)
          rw [Nat.succ_mul] at hseg
          apply @ih _ k hturn
          · show host.maxReq - (g.ttlLen + _) ≤ k * host.maxSegSize
            omega
          · unfold sgTurn
            dsimp only
            rw [if_neg hdone]
            show rest.length + 1 + k ≤ slots
            omega
      · exact ⟨g, rfl⟩

/-- A command is full, or the last, so it has whole blocks. -/
theorem mdescTurn_exists {k addr : Nat} {pos : Pos α} (hw : pos.Within)
    (hmax : host.blkSize ∣ host.maxReq) (hcells : host.blkSize ∣ pos.cells.length)
    (hseg : host.maxReq ≤ k * host.maxSegSize)
    (hentries : pos.pnext.length + k ≤ SDIOH_SDMMC_MAX_SG_ENTRIES) :
    ∃ cmd addr' pos', mdescTurn host req addr pos = some (cmd, addr', pos') ∧
      host.blkSize ∣ pos'.cells.length ∧ pos'.pnext.length ≤ pos.pnext.length := by
  obtain ⟨g, hfill⟩ := fillSg_exists (Filled.start host hw) hseg hentries
  obtain ⟨hfilled, -, hend, hsuffix⟩ := (Filled.start host hw).fill hfill
  have hsum : g.ttlLen + g.pos.cells.length = pos.cells.length := by
    rw [← hfilled.cells, List.length_append, hfilled.ttl]
  have hwhole : host.blkSize ∣ g.ttlLen := by
    rcases hend with hnil | hfull
    · rw [cells_of_empty hnil] at hsum
      rw [show g.ttlLen = pos.cells.length from hsum]
      exact hcells
    · rw [Nat.le_antisymm hfilled.bound hfull]
      exact hmax
  unfold mdescTurn
  rw [hfill]
  dsimp only
  rw [if_neg (not_not.mpr (Nat.mod_eq_zero_of_dvd hwhole))]
  exact ⟨_, _, _, rfl, (Nat.dvd_add_right hwhole).mp (hsum ▸ hcells), hsuffix.length_le⟩

theorem mdescLoop_ok {k : Nat} (hpos : 0 < host.maxReq) (hmax : host.blkSize ∣ host.maxReq)
    (hseg : host.maxReq ≤ k * host.maxSegSize) {err : Nat → Bool} {turns addr : Nat}
    {pos : Pos α} (hw : pos.Within) (hsize : pos.size < turns)
    (hcells : host.blkSize ∣ pos.cells.length)
    (hentries : pos.pnext.length + k ≤ SDIOH_SDMMC_MAX_SG_ENTRIES) :
    ∃ cmds ok, mdescLoop host req err turns addr pos = some (cmds, ok) ∧
      (ok = true ↔ ∀ i < cmds.length, err i = false) := by
  induction turns generalizing err addr pos with
  | zero => omega
  | succ turns ih =>
    unfold mdescLoop
    split
    · exact ⟨[], true, rfl, iff_of_true rfl fun i hi => absurd hi (Nat.not_lt_zero i)⟩
    · next hnext =>
      obtain ⟨cmd, addr', pos', hturn, hcells', hlen⟩ :=
        @mdescTurn_exists _ host req k addr pos hw hmax hcells hseg hentries
      rw [hturn]
      dsimp only
      split
      · next herr =>
        refine ⟨[cmd], false, rfl, iff_of_false Bool.false_ne_true fun hall => ?_⟩
        rw [hall 0 Nat.zero_lt_one] at herr
        exact Bool.false_ne_true herr
      · next herr =>
        obtain ⟨hw', -, -, -, -, hless⟩ := mdescTurn_some hw hturn
        have hless := hless (fun h => hnext (List.isEmpty_iff.mpr h)) hpos
        obtain ⟨cmds, ok, hloop, hok⟩ := @ih (fun i => err (i + 1)) addr' pos' hw' (by omega)
          hcells' (by omega)
        rw [hloop]
        refine ⟨cmd :: cmds, ok, rfl, hok.trans ⟨fun h i hi => ?_, fun h i hi => ?_⟩⟩
        · cases i with
          | zero => exact Bool.eq_false_iff.mpr herr
          | succ i => exact h i (Nat.lt_of_succ_lt_succ hi)
        · exact h (i + 1) (Nat.succ_lt_succ hi)

/-- **It fails by an error of the host only**, where the packets are whole blocks together, and
few enough for the entries: `k` is how many a command needs if no packet ends in it. -/
theorem mdesc_succeeds (host : Host) (req : Request) (err : Nat → Bool) (addr : Nat)
    (pkts : List (List α)) (k : Nat) (hpos : 0 < host.maxReq)
    (hmax : host.blkSize ∣ host.maxReq) (htotal : host.blkSize ∣ pkts.flatten.length)
    (hseg : host.maxReq ≤ k * host.maxSegSize)
    (hentries : pkts.length + k ≤ SDIOH_SDMMC_MAX_SG_ENTRIES) :
    ∃ cmds ok, requestMdesc host req err addr pkts = some (cmds, ok) ∧
      (ok = true ↔ ∀ i < cmds.length, err i = false) := by
  have hw : Pos.Within ⟨pkts, 0⟩ := by
    cases pkts with
    | nil => trivial
    | cons pkt rest => exact Nat.zero_le _
  exact mdescLoop_ok hpos hmax hseg hw (Nat.lt_succ_self _) htotal hentries

theorem mdesc_succeeds_two :
    ∃ cmds ok, requestMdesc ⟨4, 2, 8, 3⟩ ⟨false, true, 2⟩ (fun _ => false) 0
        [[1, 2, 3, 4, 5, 6], [7, 8, 9, 10, 11, 12]] = some (cmds, ok) ∧
      (ok = true ↔ ∀ i < cmds.length, (fun _ => false) i = false) :=
  mdesc_succeeds ⟨4, 2, 8, 3⟩ ⟨false, true, 2⟩ (fun _ => false) 0
    [[1, 2, 3, 4, 5, 6], [7, 8, 9, 10, 11, 12]] 3 (by decide) (by decide) (by decide) (by decide)
    (by decide)

/-! ## The copy mode -/

theorem alignLen_write (h : req.write = true) (pktLen : Nat) :
    alignLen host req pktLen =
      if pktLen < 32 then (pktLen + 3) / 4 * 4
      else if pktLen % host.blkSize = 0 then pktLen
      else pktLen + (host.blkSize - pktLen % host.blkSize) := by
  unfold alignLen
  rw [h]
  simp only [not_true, false_or, ite_not]

/-- Rounded up: a multiple that has what is to be moved is not exceeded. -/
theorem alignLen_spec (hblk : 0 < host.blkSize) (hwrite : req.write = true) (pktLen : Nat) :
    pktLen ≤ alignLen host req pktLen ∧
      (if pktLen < 32 then 4 ∣ alignLen host req pktLen
        else host.blkSize ∣ alignLen host req pktLen) ∧
      alignLen host req pktLen < pktLen + (if pktLen < 32 then 4 else host.blkSize) ∧
      ∀ m, 4 ∣ m → host.blkSize ∣ m → pktLen ≤ m → alignLen host req pktLen ≤ m := by
  rw [alignLen_write hwrite]
  split
  · exact ⟨by omega, Nat.dvd_mul_left _ _, by omega, fun m hm _ hle => by omega⟩
  · have hmod := Nat.mod_lt pktLen hblk
    have hdiv := Nat.div_add_mod pktLen host.blkSize
    split
    · next hdvd =>
      exact ⟨Nat.le_refl _, Nat.dvd_of_mod_eq_zero hdvd, by omega, fun _ _ _ hle => hle⟩
    · next hrest =>
      have hup : pktLen + (host.blkSize - pktLen % host.blkSize) =
          host.blkSize * (pktLen / host.blkSize + 1) := by
        rw [Nat.mul_succ]
        omega
      refine ⟨Nat.le_add_right _ _, ?_, by omega, fun m _ hm hle => ?_⟩
      · rw [hup]
        exact Nat.dvd_mul_right _ _
      · obtain ⟨q, rfl⟩ := hm
        rw [hup]
        apply Nat.mul_le_mul_left
        by_contra hlt
        have hq : host.blkSize * q ≤ host.blkSize * (pktLen / host.blkSize) :=
          Nat.mul_le_mul_left _ (by omega)
        omega

theorem transfer_fits (hblk : 0 < host.blkSize) (hwrite : req.write = true) (addr : Nat)
    {data : List α} {fromCopyBuf : Bool} (hbuf : fromCopyBuf → data.length ≤ COPY_BUF_SIZE) :
    Transfer.Fits host ⟨addr, data, alignLen host req data.length, fromCopyBuf⟩ := by
  obtain ⟨hfilled, haligned, hleast, hup⟩ := alignLen_spec hblk hwrite data.length
  exact ⟨hfilled, haligned, hleast, fun hfrom hdvd => hup _ (by decide) hdvd (hbuf hfrom)⟩

/-- Once there is a buffer, the packets that are left go out with it. -/
theorem copyLoop_some (host : Host) (req : Request) {c : Copy α} {buf : List α}
    (hbuf : c.copied = some buf) (pkt : List α) (rest : List (List α)) :
    (copyLoop host req c (pkt :: rest)).transfers = c.transfers ++
      [⟨c.addr, buf ++ (pkt :: rest).flatten,
        alignLen host req (buf ++ (pkt :: rest).flatten).length, true⟩] := by
  induction rest generalizing c buf pkt with
  | nil =>
    unfold copyLoop copyTurn
    rw [hbuf, List.flatten_cons, List.flatten_nil, List.append_nil]
    rfl
  | cons pkt' rest ih =>
    unfold copyLoop
    have hturn : copyTurn host req c pkt (pkt' :: rest).isEmpty =
        { c with copied := some (buf ++ pkt) } := by
      unfold copyTurn
      rw [hbuf]
      rfl
    have hcells : buf ++ (pkt :: pkt' :: rest).flatten =
        buf ++ pkt ++ (pkt' :: rest).flatten := by
      rw [List.flatten_cons, List.append_assoc]
    rw [hturn, ih rfl, hcells]

/-- The bytes that go out for packets, from the state on in which there is no buffer -/
structure Sent (host : Host) (req : Request) (addr : Nat) (pkts : List (List α))
    (ts : List (Transfer α)) : Prop where
  data : ts.flatMap Transfer.data = pkts.flatten
  fits : ∀ t ∈ ts, t.Fits host
  addressed : Addressed req.fifo addr (ts.map fun t => (t.addr, t.len))

theorem Sent.last (hblk : 0 < host.blkSize) (hwrite : req.write = true) (addr : Nat)
    {pkts : List (List α)} (hlen : pkts.flatten.length ≤ COPY_BUF_SIZE) :
    Sent host req addr pkts
      [⟨addr, pkts.flatten, alignLen host req pkts.flatten.length, true⟩] where
  data := List.flatMap_singleton _ _
  fits := by
    intro t ht
    rw [List.mem_singleton.mp ht]
    exact transfer_fits hblk hwrite addr fun _ => hlen
  addressed := ⟨rfl, trivial⟩

theorem copyLoop_none (hblk : 0 < host.blkSize) (hwrite : req.write = true) {c : Copy α}
    {pkts : List (List α)} (hbuf : c.copied = none) (hlen : c.ttlLen = pkts.flatten.length) :
    ∃ ts, (copyLoop host req c pkts).transfers = c.transfers ++ ts ∧
      Sent host req c.addr pkts ts := by
  induction pkts generalizing c with
  | nil =>
    exact ⟨[], (List.append_nil _).symm, rfl, fun _ ht => absurd ht List.not_mem_nil, trivial⟩
  | cons pkt rest ih =>
    unfold copyLoop copyTurn
    rw [hbuf]
    dsimp only
    split
    · next hfit =>
      rw [hlen] at hfit
      refine ⟨_, ?_, Sent.last hblk hwrite c.addr hfit⟩
      cases rest with
      | nil =>
        rw [List.flatten_cons, List.flatten_nil, List.append_nil]
        rfl
      | cons pkt' rest =>
        rw [List.flatten_cons]
        exact copyLoop_some host req rfl pkt' rest
    · -- it does not fit, and this packet goes out by itself
      have hrest : c.ttlLen - pkt.length = rest.flatten.length := by
        rw [hlen, List.flatten_cons, List.length_append, Nat.add_sub_cancel_left]
      obtain ⟨ts, hts, hsent⟩ :=
        @ih (transfer host req
          { c with copied := none, ttlLen := c.ttlLen - pkt.length } pkt false) rfl hrest
      refine ⟨⟨c.addr, pkt, alignLen host req pkt.length, false⟩ :: ts, ?_, ?_, ?_, rfl,
        hsent.addressed⟩
      · rw [hts]
        exact List.append_assoc _ _ _
      · rw [List.flatMap_cons, hsent.data, List.flatten_cons]
      · intro t ht
        rcases List.mem_cons.mp ht with rfl | ht
        · exact transfer_fits hblk hwrite c.addr fun h => nomatch h
        · exact hsent.fits t ht

/-- **Written by copy, all bytes go out in order**, each transfer filled up to what the device
takes, and within the buffer if that is whole blocks. -/
theorem copy_transfers (host : Host) (req : Request) (addr : Nat) (pkts : List (List α))
    (hblk : 0 < host.blkSize) (hwrite : req.write = true) :
    Sent host req addr pkts (requestCopy host req addr pkts) := by
  obtain ⟨ts, hts, hsent⟩ := @copyLoop_none _ host req hblk hwrite
    ⟨none, pkts.flatten.length, addr, []⟩ pkts rfl rfl
  unfold requestCopy
  rw [hts, List.nil_append]
  exact hsent

theorem copy_transfers_two :
    Sent ⟨256, 2, 8, 3⟩ ⟨true, true, 2⟩ 0 [[1, 2, 3, 4, 5], [6, 7]]
      (requestCopy ⟨256, 2, 8, 3⟩ ⟨true, true, 2⟩ 0 [[1, 2, 3, 4, 5], [6, 7]]) :=
  copy_transfers ⟨256, 2, 8, 3⟩ ⟨true, true, 2⟩ 0 [[1, 2, 3, 4, 5], [6, 7]] (by decide) rfl

end Bcmdhd.Sdio.PacketChain
