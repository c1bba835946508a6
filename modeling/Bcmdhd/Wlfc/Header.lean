import Bcmdhd.Lib.Records
import Bcmdhd.Wlfc.Commit
import Bcmdhd.Wlfc.Signals

/-!
# Headers of the packets to the dongle (`_dhd_wlfc_pushheader`, `_dhd_wlfc_pullheader`)

A header is a BDC header with flow control TLVs behind it, written in front of a packet.  The pull
knows of it only the `dataOffset` of the BDC header, which counts words of four bytes.

    the headroom is enough →
      pullheader (pushheader p) = p  ∧
      the area between the BDC header and the packet parses as the TLVs, to its end
                                                                     (pushheader_pullheader)

On the bytes of a packet these are the push and the pull of a commit (`bytes_pushheader`,
`bytes_pullheader`); `parse` stops where `dhd_wlfc_parse_header_info` does
(`parse_of_parseHeaderInfo`).
-/

namespace Bcmdhd.Wlfc.Header

open Chain Records
open Commit (le16 le32 wlHeader Signal HostCfg)
open Signals (maxProcessed)

def TLV_TAG_OFF : Nat := 0
def TLV_LEN_OFF : Nat := 1
def TLV_HDR_LEN : Nat := 2
def WLFC_CTL_TYPE_PKTTAG : UInt8 := 5
def WLFC_CTL_TYPE_PENDING_TRAFFIC_BMP : UInt8 := 12
def WLFC_CTL_TYPE_FILLER : UInt8 := 255
def WLFC_CTL_VALUE_LEN_PKTTAG : Nat := 4
def WLFC_CTL_VALUE_LEN_SEQ : Nat := 2
def WLFC_CTL_VALUE_LEN_PENDING_TRAFFIC_BMP : Nat := 2
def BDC_HEADER_LEN : Nat := 4
def BDC_PROTO_VER : UInt8 := 2
def BDC_FLAG_VER_SHIFT : UInt8 := 4
def BDC_FLAG_SUM_NEEDED : UInt8 := 0x08
def BDC_PRIORITY_MASK : UInt32 := 0x07
def BDC_FLAG2_IF_MASK : UInt8 := 0x0f
def DHD_PKTTAG_IF_MASK : UInt16 := 0xf

/-! ## Packets -/

/-- A `sk_buff`; addresses count from its `head`. -/
structure Pkt where
  mem : Nat → UInt8
  /-- `PKTDATA` -/
  data : Nat
  /-- `PKTLEN` -/
  len : Nat
  /-- `PKTSUMNEEDED` -/
  sumNeeded : Bool
  /-- `PKTPRIO` -/
  prio : UInt32
  /-- of `PKTTAG` -/
  ifFlags : UInt16

/-- `PKTPUSH`, which panics where the headroom is too small. -/
def Pkt.push (p : Pkt) (n : Nat) : Option Pkt :=
  if n ≤ p.data then some { p with data := p.data - n, len := p.len + n } else none

/-- `PKTPULL` -/
def Pkt.pull (p : Pkt) (n : Nat) : Pkt :=
  if n ≤ p.len then { p with data := p.data + n, len := p.len - n } else p

/-- The bytes go to `PKTDATA + i`. -/
def Pkt.store (p : Pkt) (i : Nat) (bs : List UInt8) : Pkt :=
  { p with mem := writeAt p.mem (p.data + i) bs }

def Pkt.load (p : Pkt) (i : Nat) : UInt8 := p.mem (p.data + i)

def Pkt.bytes (p : Pkt) : List UInt8 := readAt p.mem p.data p.len

/-! ## Algorithm -/

/-- Arguments of `_dhd_wlfc_pushheader`. -/
structure Args where
  timSignal : Bool
  timBmp : UInt8
  macHandle : UInt8
  htodtag : UInt32
  htodseq : UInt16
  skipWlfcHdr : Bool

def roundup (x y : Nat) : Nat := (x + (y - 1)) / y * y

def Args.timSignalLen (a : Args) : Nat :=
  if a.timSignal then TLV_HDR_LEN + WLFC_CTL_VALUE_LEN_PENDING_TRAFFIC_BMP else 0

/-- `dataOffset` without the fillers -/
def Args.tlvsLen (a : Args) (reuseSeq : Bool) : Nat :=
  let dataOffset := WLFC_CTL_VALUE_LEN_PKTTAG + TLV_HDR_LEN + a.timSignalLen
  if reuseSeq then dataOffset + WLFC_CTL_VALUE_LEN_SEQ else dataOffset

def Args.fillers (a : Args) (reuseSeq : Bool) : Nat :=
  roundup (a.tlvsLen reuseSeq) 4 - a.tlvsLen reuseSeq

def Args.dataOffset (a : Args) (reuseSeq : Bool) : Nat :=
  a.tlvsLen reuseSeq + a.fillers reuseSeq

/-- What is written at `wlh`. -/
def writeTlvs (reuseSeq : Bool) (a : Args) (p : Pkt) : Pkt :=
  let p := p.store TLV_TAG_OFF [WLFC_CTL_TYPE_PKTTAG]
  let p := p.store TLV_LEN_OFF [UInt8.ofNat WLFC_CTL_VALUE_LEN_PKTTAG]
  let p := p.store TLV_HDR_LEN (le32 a.htodtag.toNat)
  let p :=
    if reuseSeq then
      let p := p.store TLV_LEN_OFF [p.load TLV_LEN_OFF + UInt8.ofNat WLFC_CTL_VALUE_LEN_SEQ]
      p.store (TLV_HDR_LEN + WLFC_CTL_VALUE_LEN_PKTTAG) (le16 a.htodseq.toNat)
    else p
  let p :=
    if a.timSignalLen ≠ 0 then
      let tim := a.dataOffset reuseSeq - a.fillers reuseSeq - a.timSignalLen
      let p := p.store tim [WLFC_CTL_TYPE_PENDING_TRAFFIC_BMP]
      let p := p.store (tim + 1) [UInt8.ofNat WLFC_CTL_VALUE_LEN_PENDING_TRAFFIC_BMP]
      let p := p.store (tim + 2) [a.macHandle]
      p.store (tim + 3) [a.timBmp]
    else p
  if a.fillers reuseSeq ≠ 0 then
    p.store (a.dataOffset reuseSeq - a.fillers reuseSeq)
      (List.replicate (a.fillers reuseSeq) WLFC_CTL_TYPE_FILLER)
  else p

/-- `struct bdc_header` -/
structure BdcHeader where
  flags : UInt8
  priority : UInt8
  flags2 : UInt8
  dataOffset : UInt8

def BdcHeader.bytes (h : BdcHeader) : List UInt8 := [h.flags, h.priority, h.flags2, h.dataOffset]

/-- `BDC_SET_IF_IDX` -/
def BdcHeader.setIfIdx (h : BdcHeader) (idx : UInt8) : BdcHeader :=
  { h with flags2 := (h.flags2 &&& ~~~BDC_FLAG2_IF_MASK) ||| idx }

def bdcHeader (p : Pkt) (dataOffset : Nat) : BdcHeader :=
  let flags := BDC_PROTO_VER <<< BDC_FLAG_VER_SHIFT
  let h : BdcHeader := {
    flags := if p.sumNeeded then flags ||| BDC_FLAG_SUM_NEEDED else flags
    priority := (p.prio &&& BDC_PRIORITY_MASK).toUInt8
    flags2 := 0
    dataOffset := UInt8.ofNat (dataOffset / 4) }
  h.setIfIdx (p.ifFlags &&& DHD_PKTTAG_IF_MASK).toUInt8

def pushBdc (p : Pkt) (dataOffset : Nat) : Option Pkt :=
  match p.push BDC_HEADER_LEN with
  | none => none
  | some p => some (p.store 0 (bdcHeader p dataOffset).bytes)

def pushheader (reuseSeq : Bool) (a : Args) (p : Pkt) : Option Pkt :=
  if a.skipWlfcHdr then pushBdc p 0
  else
    match p.push (a.dataOffset reuseSeq) with
    | none => none
    | some p => pushBdc (writeTlvs reuseSeq a p) (a.dataOffset reuseSeq)

/-- The packet, and whether the result is `BCME_OK`. -/
def pullheader (p : Pkt) : Pkt × Bool :=
  if p.len < BDC_HEADER_LEN then (p, false)
  else
    let h := p.data
    let p := p.pull BDC_HEADER_LEN
    let dataOffset := 4 * (p.mem (h + 3)).toNat
    if p.len < dataOffset then (p, false) else (p.pull dataOffset, true)

/-! ## TLVs -/

inductive Ctl
  | filler
  | value (type : UInt8) (v : List UInt8)
  deriving DecidableEq

def Ctl.bytes : Ctl → List UInt8
  | .filler => [WLFC_CTL_TYPE_FILLER]
  | .value type v => type :: UInt8.ofNat v.length :: v

/-- It has bytes of its own. -/
def Ctl.Fits : Ctl → Prop
  | .filler => True
  | .value type v => type ≠ WLFC_CTL_TYPE_FILLER ∧ v.length < 0x100

def encode (cs : List Ctl) : List UInt8 := cs.flatMap Ctl.bytes

/-- What stands at `processed`, and its size; `none` where the parser breaks off. -/
def next (area : List UInt8) (processed remainder : Nat) : Except Fault (Option (Ctl × Nat)) := do
  let type ← rd area processed
  if type = WLFC_CTL_TYPE_FILLER then return some (.filler, 1)
  else do
    let len ← rd area (processed + 1)
    if remainder < 2 + len.toNat then return none
    else do
      let v ← rdN area (processed + 2) len.toNat
      return some (.value type v, 2 + len.toNat)

/-- The loop of `dhd_wlfc_parse_header_info`: what it comes to, and the `remainder` at its end. -/
def parseLoop (area : List UInt8) : Nat → Nat → Nat → Except Fault (List Ctl × Nat)
  | 0, _, _ => .error .fuel
  | k + 1, processed, remainder =>
    if processed < maxProcessed ∧ remainder ≠ 0 then do
      match ← next area processed remainder with
      | none => return ([], remainder)
      | some (c, n) => do
        let r ← parseLoop area k (processed + n) (remainder - n)
        return (c :: r.1, r.2)
    else .ok ([], remainder)

def parse (area : List UInt8) : Except Fault (List Ctl × Nat) :=
  parseLoop area (maxProcessed + 2) 0 area.length

def Args.pkttag (a : Args) (reuseSeq : Bool) : Ctl :=
  .value WLFC_CTL_TYPE_PKTTAG
    (le32 a.htodtag.toNat ++ if reuseSeq then le16 a.htodseq.toNat else [])

def Args.pendingTraffic (a : Args) : List Ctl :=
  if a.timSignal then [.value WLFC_CTL_TYPE_PENDING_TRAFFIC_BMP [a.macHandle, a.timBmp]] else []

/-- The TLVs of a header. -/
def Args.tlvs (a : Args) (reuseSeq : Bool) : List Ctl :=
  if a.skipWlfcHdr then []
  else a.pkttag reuseSeq :: (a.pendingTraffic ++ List.replicate (a.fillers reuseSeq) .filler)

/-- Bytes between the BDC header and the packet. -/
def Args.areaLen (a : Args) (reuseSeq : Bool) : Nat :=
  if a.skipWlfcHdr then 0 else a.dataOffset reuseSeq

/-- The headroom that a header takes. -/
def Args.room (a : Args) (reuseSeq : Bool) : Nat := BDC_HEADER_LEN + a.areaLen reuseSeq

/-! ## Parsing -/

theorem encode_cons (c : Ctl) (cs : List Ctl) : encode (c :: cs) = c.bytes ++ encode cs :=
  List.flatMap_cons

theorem Ctl.bytes_pos (c : Ctl) : 0 < c.bytes.length := by
  cases c with
  | filler => exact Nat.one_pos
  | value type v => exact Nat.succ_pos _

theorem rd_append (pre post : List UInt8) (b : UInt8) :
    rd (pre ++ b :: post) pre.length = .ok b := by
  rw [rd_of_lt (by simp), List.getElem_append_right (Nat.le_refl _)]
  simp

/-- What stands behind `pre` is found, with its size. -/
theorem next_bytes (pre post : List UInt8) {c : Ctl} (hc : c.Fits) {remainder : Nat}
    (hr : c.bytes.length ≤ remainder) :
    next (pre ++ (c.bytes ++ post)) pre.length remainder = .ok (some (c, c.bytes.length)) := by
  unfold next
  cases c with
  | filler =>
    show rd (pre ++ WLFC_CTL_TYPE_FILLER :: post) pre.length >>= _ = _
    rw [rd_append]
    rfl
  | value type v =>
    obtain ⟨htype, hlen⟩ := hc
    have hv : (UInt8.ofNat v.length).toNat = v.length := by
      rw [UInt8.toNat_ofNat']
      omega
    have hsize : (Ctl.value type v).bytes.length = 2 + v.length := by
      show v.length + 1 + 1 = _
      omega
    have hfit : ¬ remainder < 2 + v.length := by omega
    have hlenAt : rd (pre ++ type :: UInt8.ofNat v.length :: (v ++ post)) (pre.length + 1) =
        .ok (UInt8.ofNat v.length) := by
      have h := rd_append (pre ++ [type]) (v ++ post) (UInt8.ofNat v.length)
      rw [List.length_append, List.append_assoc] at h
      exact h
    have hvalAt : rdN (pre ++ type :: UInt8.ofNat v.length :: (v ++ post)) (pre.length + 2)
        v.length = .ok v := by
      rw [rdN_of_le (by simp; omega)]
      simp [List.drop_append, List.drop_eq_nil_of_le]
    show rd (pre ++ type :: UInt8.ofNat v.length :: (v ++ post)) pre.length >>= _ = _
    rw [rd_append, Loop.ok_bind, if_neg htype]
    show rd (pre ++ type :: UInt8.ofNat v.length :: (v ++ post)) (pre.length + 1) >>= _ = _
    rw [hlenAt, Loop.ok_bind, hv, if_neg hfit]
    show rdN (pre ++ type :: UInt8.ofNat v.length :: (v ++ post)) (pre.length + 2) v.length >>= _ = _
    rw [hvalAt, hsize]
    rfl

variable {k : Nat} {cfg : SigCfg} {t : Parser} {a : Args} {p : Pkt}

/-- The loop goes through what has been encoded, and leaves nothing. -/
theorem parseLoop_encode {cs : List Ctl} (hcs : ∀ c ∈ cs, c.Fits) (pre : List UInt8)
    (hle : pre.length + (encode cs).length ≤ maxProcessed) (hk : cs.length < k) :
    parseLoop (pre ++ encode cs) k pre.length (encode cs).length = .ok (cs, 0) := by
  induction cs generalizing pre k with
  | nil =>
    obtain ⟨k, rfl⟩ := Nat.exists_eq_succ_of_ne_zero (Nat.ne_of_gt hk)
    unfold parseLoop
    rw [if_neg fun h => h.2 rfl]
    rfl
  | cons c cs ih =>
    obtain ⟨k, rfl⟩ := Nat.exists_eq_succ_of_ne_zero (Nat.ne_of_gt (Nat.zero_lt_of_lt hk))
    have hpos := c.bytes_pos
    rw [encode_cons, List.length_append] at hle ⊢
    have hrest := ih (fun x hx => hcs x (List.mem_cons_of_mem c hx)) (pre ++ c.bytes)
      (by rw [List.length_append]; omega) (k := k) (by rw [List.length_cons] at hk; omega)
    rw [List.append_assoc, List.length_append] at hrest
    unfold parseLoop
    rw [if_pos ⟨by omega, by omega⟩,
      next_bytes pre (encode cs) (hcs c List.mem_cons_self) (Nat.le_add_right _ _), Loop.ok_bind]
    show parseLoop _ k (pre.length + c.bytes.length) (c.bytes.length + (encode cs).length -
      c.bytes.length) >>= _ = _
    rw [Nat.add_sub_cancel_left, hrest]
    rfl

/-- **What is encoded parses to its end.** -/
theorem parse_encode {cs : List Ctl} (hcs : ∀ c ∈ cs, c.Fits)
    (hle : (encode cs).length ≤ maxProcessed) : parse (encode cs) = .ok (cs, 0) := by
  have hlen : cs.length ≤ (encode cs).length := by
    clear hcs hle
    induction cs with
    | nil => exact Nat.le_refl 0
    | cons c cs ih =>
      have hpos := c.bytes_pos
      rw [encode_cons, List.length_append, List.length_cons]
      omega
  exact parseLoop_encode hcs [] (by simpa using hle) (by omega)

section Signals

open Signals (SigCfg Parser parseTlv parseValue parseTlv_inside parseHeaderInfo)

theorem ofByte_eq_filler (b : UInt8) :
    Signals.Ctl.ofByte b = .filler ↔ b = WLFC_CTL_TYPE_FILLER := by
  constructor
  · intro h
    unfold Signals.Ctl.ofByte at h
    split at h
    case h_15 hb => exact UInt8.toNat_inj.mp hb
    all_goals cases h
  · rintro rfl
    rfl

/-- Without a `wlfc_state` a step of the parser goes over what `next` finds. -/
theorem parseTlv_next {u : Parser} (hi : t.Inside) (hhost : t.host = none)
    (h : parseTlv cfg t = .ok u) :
    (next t.area t.processed t.remainder = .ok none ∧ u = { t with stop := true }) ∨
      ∃ c n info, next t.area t.processed t.remainder = .ok (some (c, n)) ∧
        u = { t with processed := t.processed + n, remainder := t.remainder - n, info := info } := by
  unfold Parser.Inside at hi
  unfold parseTlv at h
  unfold next
  obtain ⟨type, htype, h⟩ := Loop.bind_eq_ok.mp h
  rw [htype, Loop.ok_bind]
  by_cases hf : type = WLFC_CTL_TYPE_FILLER
  · rw [if_pos ((ofByte_eq_filler type).mpr hf)] at h
    rw [if_pos hf]
    cases h
    exact Or.inr ⟨_, _, t.info, rfl, rfl⟩
  · rw [if_neg (fun hc => hf ((ofByte_eq_filler type).mp hc))] at h
    rw [if_neg hf]
    obtain ⟨len, hlen, h⟩ := Loop.bind_eq_ok.mp h
    rw [hlen, Loop.ok_bind]
    split at h
    · next hr =>
      cases h
      exact Or.inl ⟨if_pos hr, rfl⟩
    · next hr =>
      rw [if_neg hr, rdN_of_le (by omega), Loop.ok_bind]
      unfold parseValue at h
      obtain ⟨info, _, h⟩ := Loop.bind_eq_ok.mp h
      rw [hhost] at h
      cases h
      rw [← hhost]
      exact Or.inr ⟨_, _, info, rfl, rfl⟩

theorem loop_of_done {u : Parser} (hd : t.done = true)
    (h : Loop.loop .fuel Parser.done (parseTlv cfg) k t = .ok u) : u = t := by
  unfold Loop.loop at h
  split at h
  all_goals
    rw [if_pos hd] at h
    cases h
    rfl

theorem parseLoop_of_done (hd : t.done = true) (hstop : t.stop = false) :
    parseLoop t.area (k + 1) t.processed t.remainder = .ok ([], t.remainder) := by
  unfold Parser.done at hd
  rw [hstop, Bool.false_or, Bool.or_eq_true, decide_eq_true_iff, decide_eq_true_iff] at hd
  unfold parseLoop
  rw [if_neg]
  rintro ⟨hlt, hne⟩
  rcases hd with hd | hd
  · omega
  · exact hne hd

/-- `parseLoop` is the loop of the parser, with what it goes over. -/
theorem parseLoop_of_loop {u : Parser} (hi : t.Inside) (hhost : t.host = none)
    (hstop : t.stop = false) (h : Loop.loop .fuel Parser.done (parseTlv cfg) k t = .ok u) :
    ∃ cs, parseLoop t.area (k + 1) t.processed t.remainder = .ok (cs, u.remainder) := by
  induction k generalizing t with
  | zero =>
    by_cases hd : t.done = true
    · rw [loop_of_done hd h]
      exact ⟨[], parseLoop_of_done hd hstop⟩
    · unfold Loop.loop at h
      rw [if_neg hd] at h
      cases h
  | succ k ih =>
    by_cases hd : t.done = true
    · rw [loop_of_done hd h]
      exact ⟨[], parseLoop_of_done hd hstop⟩
    · have hgo := Signals.not_done_iff.mp (Bool.eq_false_iff.mpr hd)
      unfold Loop.loop at h
      rw [if_neg hd] at h
      unfold parseLoop
      rw [if_pos hgo.2]
      cases ht : parseTlv cfg t with
      | error e =>
        rw [ht] at h
        cases h
      | ok v =>
        rw [ht] at h
        rcases parseTlv_next hi hhost ht with ⟨hnext, rfl⟩ | ⟨c, n, info, hnext, rfl⟩
        · rw [loop_of_done rfl h, hnext]
          exact ⟨[], rfl⟩
        · have hin := parseTlv_inside hi (Bool.eq_false_iff.mpr hd) ht
          obtain ⟨cs, hcs⟩ := ih hin hhost hstop h
          dsimp only at hcs
          rw [hnext, Loop.ok_bind]
          dsimp only
          rw [hcs]
          exact ⟨c :: cs, rfl⟩

/-- What the parser leaves of an area, `parse` leaves of it. -/
theorem parse_of_parseHeaderInfo {area : List UInt8} (hlen : area.length < 0x10000)
    (hmode : cfg.mode = .onlyAmpduHostreorder) (h : parseHeaderInfo cfg none area = .ok (some t)) :
    ∃ cs, parse area = .ok (cs, t.remainder) := by
  unfold parseHeaderInfo at h
  rw [if_pos hmode] at h
  obtain ⟨u, hu, h⟩ := Loop.bind_eq_ok.mp h
  cases h
  have hrem : (Parser.start none area).remainder = area.length := Nat.mod_eq_of_lt hlen
  obtain ⟨cs, hcs⟩ := parseLoop_of_loop (t := Parser.start none area)
    (by unfold Parser.Inside; rw [hrem]; exact Nat.le_of_eq (Nat.zero_add _)) rfl rfl hu
  rw [hrem] at hcs
  exact ⟨cs, hcs⟩

end Signals

/-! ## Pushing -/

section Stores

variable (p : Pkt) {i j : Nat} (as bs : List UInt8)

theorem store_store (h : j = i + as.length) : (p.store i as).store j bs = p.store i (as ++ bs) := by
  subst h
  unfold Pkt.store
  dsimp only
  rw [← Nat.add_assoc, writeAt_append]

theorem store_over (h : j + bs.length ≤ as.length) :
    (p.store 0 as).store j bs = p.store 0 (as.take j ++ bs ++ as.drop (j + bs.length)) := by
  unfold Pkt.store
  dsimp only
  rw [Nat.add_zero, writeAt_inside _ _ h]

theorem load_store (h : j < as.length) : (p.store 0 as).load j = as[j] := by
  unfold Pkt.store Pkt.load writeAt
  dsimp only
  rw [if_pos (by omega), Nat.add_zero, Nat.add_sub_cancel_left, List.getElem?_eq_getElem h,
    Option.getD_some]

end Stores

theorem words (a : Args) (reuseSeq : Bool) :
    4 ∣ a.dataOffset reuseSeq ∧ a.dataOffset reuseSeq ≤ 12 := by
  unfold Args.dataOffset Args.fillers Args.tlvsLen Args.timSignalLen
  cases reuseSeq <;> cases a.timSignal <;> decide

/-- The tag, with the length that it has in this mode. -/
theorem store_pkttag (p : Pkt) (a : Args) (reuseSeq : Bool) :
    (let q := ((p.store TLV_TAG_OFF [WLFC_CTL_TYPE_PKTTAG]).store TLV_LEN_OFF
        [UInt8.ofNat WLFC_CTL_VALUE_LEN_PKTTAG]).store TLV_HDR_LEN (le32 a.htodtag.toNat)
      if reuseSeq then
        let q := q.store TLV_LEN_OFF [q.load TLV_LEN_OFF + UInt8.ofNat WLFC_CTL_VALUE_LEN_SEQ]
        q.store (TLV_HDR_LEN + WLFC_CTL_VALUE_LEN_PKTTAG) (le16 a.htodseq.toNat)
      else q) = p.store 0 (a.pkttag reuseSeq).bytes := by
  have hbase : ((p.store TLV_TAG_OFF [WLFC_CTL_TYPE_PKTTAG]).store TLV_LEN_OFF
      [UInt8.ofNat WLFC_CTL_VALUE_LEN_PKTTAG]).store TLV_HDR_LEN (le32 a.htodtag.toNat) =
      p.store 0 (5 :: 4 :: le32 a.htodtag.toNat) := by
    unfold TLV_TAG_OFF
    rw [store_store p (i := 0) (j := TLV_LEN_OFF) _ _ rfl,
      store_store p (i := 0) (j := TLV_HDR_LEN) _ _ rfl]
    rfl
  cases reuseSeq with
  | false => exact hbase
  | true =>
    dsimp only
    have hlen : (p.store 0 (5 :: 4 :: le32 a.htodtag.toNat)).load TLV_LEN_OFF = 4 :=
      load_store p _ (show 1 < 6 by decide)
    have hover : (p.store 0 (5 :: 4 :: le32 a.htodtag.toNat)).store TLV_LEN_OFF
        [4 + UInt8.ofNat WLFC_CTL_VALUE_LEN_SEQ] = p.store 0 (5 :: 6 :: le32 a.htodtag.toNat) :=
      store_over p _ _ (show 2 ≤ 6 by decide)
    rw [hbase, if_pos rfl, hlen, hover,
      store_store p (i := 0) (j := TLV_HDR_LEN + WLFC_CTL_VALUE_LEN_PKTTAG) _ _ rfl]
    rfl

/-- A traffic indication behind it. -/
theorem store_tim (p : Pkt) (a : Args) (bs : List UInt8) :
    (if a.timSignalLen ≠ 0 then
        (((p.store 0 bs).store bs.length [WLFC_CTL_TYPE_PENDING_TRAFFIC_BMP]).store (bs.length + 1)
          [UInt8.ofNat WLFC_CTL_VALUE_LEN_PENDING_TRAFFIC_BMP]).store (bs.length + 2)
            [a.macHandle] |>.store (bs.length + 3) [a.timBmp]
      else p.store 0 bs) = p.store 0 (bs ++ encode a.pendingTraffic) := by
  unfold Args.timSignalLen Args.pendingTraffic
  cases a.timSignal with
  | false => simp [encode]
  | true =>
    rw [store_store _ _ _ (Nat.zero_add _).symm, store_store _ _ _ (by simp),
      store_store _ _ _ (by simp), store_store _ _ _ (by simp)]
    simp [encode, Ctl.bytes, TLV_HDR_LEN, WLFC_CTL_VALUE_LEN_PENDING_TRAFFIC_BMP]

theorem pkttag_length (a : Args) (reuseSeq : Bool) :
    (a.pkttag reuseSeq).bytes.length + a.timSignalLen = a.tlvsLen reuseSeq := by
  unfold Args.pkttag Args.tlvsLen
  generalize a.timSignalLen = n
  cases reuseSeq with
  | false => rfl
  | true =>
    show 8 + n = 6 + n + 2
    omega

theorem pendingTraffic_length (a : Args) : (encode a.pendingTraffic).length = a.timSignalLen := by
  unfold Args.pendingTraffic Args.timSignalLen
  cases a.timSignal <;> rfl

theorem encode_fillers (n : Nat) :
    encode (List.replicate n .filler) = List.replicate n WLFC_CTL_TYPE_FILLER := by
  induction n with
  | zero => rfl
  | succ n ih =>
    rw [List.replicate_succ, encode_cons, ih]
    rfl

theorem encode_tlvs (hskip : a.skipWlfcHdr = false) (reuseSeq : Bool) :
    encode (a.tlvs reuseSeq) = (a.pkttag reuseSeq).bytes ++
      (encode a.pendingTraffic ++ List.replicate (a.fillers reuseSeq) WLFC_CTL_TYPE_FILLER) := by
  unfold Args.tlvs
  rw [hskip, if_neg Bool.false_ne_true, encode_cons, ← encode_fillers]
  unfold encode
  rw [List.flatMap_append]

theorem encode_tlvs_length (hskip : a.skipWlfcHdr = false) (reuseSeq : Bool) :
    (encode (a.tlvs reuseSeq)).length = a.dataOffset reuseSeq := by
  have hlen := pkttag_length a reuseSeq
  unfold Args.dataOffset
  rw [encode_tlvs hskip, List.length_append, List.length_append, List.length_replicate,
    pendingTraffic_length]
  omega

/-- The TLVs are written as they are encoded. -/
theorem writeTlvs_eq (hskip : a.skipWlfcHdr = false) (reuseSeq : Bool) (p : Pkt) :
    writeTlvs reuseSeq a p = p.store 0 (encode (a.tlvs reuseSeq)) := by
  have htag := store_pkttag p a reuseSeq
  have hlen := pkttag_length a reuseSeq
  have hoff : a.dataOffset reuseSeq - a.fillers reuseSeq = a.tlvsLen reuseSeq :=
    Nat.add_sub_cancel _ _
  have htim : a.tlvsLen reuseSeq - a.timSignalLen = (a.pkttag reuseSeq).bytes.length := by omega
  rw [encode_tlvs hskip]
  unfold writeTlvs
  dsimp only at htag ⊢
  rw [htag, hoff, htim, store_tim]
  split
  · rw [store_store _ _ _ (by rw [List.length_append, pendingTraffic_length]; omega),
      List.append_assoc]
  · next h => rw [not_not.mp h, List.replicate_zero, List.append_nil]

/-! ## Round trip -/

theorem areaLen_le (a : Args) (reuseSeq : Bool) :
    4 ∣ a.areaLen reuseSeq ∧ a.areaLen reuseSeq ≤ 12 := by
  unfold Args.areaLen
  split
  · exact ⟨Nat.dvd_zero 4, Nat.zero_le 12⟩
  · exact words a reuseSeq

theorem tlvs_length (a : Args) (reuseSeq : Bool) :
    (encode (a.tlvs reuseSeq)).length = a.areaLen reuseSeq := by
  unfold Args.areaLen
  cases hskip : a.skipWlfcHdr with
  | true =>
    unfold Args.tlvs
    rw [hskip]
    rfl
  | false => exact encode_tlvs_length hskip reuseSeq

theorem tlvs_fit (a : Args) (reuseSeq : Bool) : ∀ c ∈ a.tlvs reuseSeq, c.Fits := by
  have htag : (a.pkttag reuseSeq).Fits := by
    refine ⟨by decide, ?_⟩
    rw [List.length_append]
    cases reuseSeq
    · show 4 + 0 < _
      omega
    · show 4 + 2 < _
      omega
  have htim : ∀ c ∈ a.pendingTraffic, c.Fits := by
    unfold Args.pendingTraffic
    split
    · intro c hc
      rw [List.mem_singleton.mp hc]
      exact ⟨by decide, show 2 < _ by omega⟩
    · nofun
  unfold Args.tlvs
  split
  · nofun
  · intro c hc
    rcases List.mem_cons.mp hc with rfl | hc
    · exact htag
    · rcases List.mem_append.mp hc with hc | hc
      · exact htim c hc
      · rw [List.eq_of_mem_replicate hc]
        exact trivial

theorem bdcHeader_length (p : Pkt) (dataOffset : Nat) :
    (bdcHeader p dataOffset).bytes.length = BDC_HEADER_LEN := rfl

theorem push_of_le {n : Nat} (h : n ≤ p.data) :
    p.push n = some { p with data := p.data - n, len := p.len + n } :=
  if_pos h

theorem pull_of_le {n : Nat} (h : n ≤ p.len) :
    p.pull n = { p with data := p.data + n, len := p.len - n } :=
  if_pos h

theorem pushBdc_eq (dataOffset : Nat) (h : BDC_HEADER_LEN ≤ p.data) :
    pushBdc p dataOffset = some { p with
      mem := writeAt p.mem (p.data - BDC_HEADER_LEN) (bdcHeader p dataOffset).bytes
      data := p.data - BDC_HEADER_LEN
      len := p.len + BDC_HEADER_LEN } := by
  unfold pushBdc
  rw [push_of_le h]
  rfl

/-- What a push writes, and where. -/
theorem pushheader_eq {reuseSeq : Bool} (h : a.room reuseSeq ≤ p.data) :
    pushheader reuseSeq a p = some { p with
      mem := writeAt p.mem (p.data - a.room reuseSeq)
        ((bdcHeader p (a.areaLen reuseSeq)).bytes ++ encode (a.tlvs reuseSeq))
      data := p.data - a.room reuseSeq
      len := p.len + a.room reuseSeq } := by
  have htlvs := tlvs_length a reuseSeq
  unfold Args.room Args.areaLen at *
  unfold pushheader
  cases hskip : a.skipWlfcHdr with
  | true =>
    rw [hskip] at h htlvs
    rw [List.eq_nil_of_length_eq_zero htlvs, List.append_nil]
    exact pushBdc_eq 0 h
  | false =>
    rw [hskip] at h
    have hroom : BDC_HEADER_LEN + a.dataOffset reuseSeq ≤ p.data := h
    have hdata : p.data - a.dataOffset reuseSeq - BDC_HEADER_LEN =
        p.data - (BDC_HEADER_LEN + a.dataOffset reuseSeq) := by omega
    have hlen : p.len + a.dataOffset reuseSeq + BDC_HEADER_LEN =
        p.len + (BDC_HEADER_LEN + a.dataOffset reuseSeq) := by omega
    simp only [Bool.false_eq_true, if_false]
    rw [push_of_le (by omega)]
    dsimp only
    rw [writeTlvs_eq hskip]
    unfold Pkt.store
    dsimp only
    rw [pushBdc_eq _ (show BDC_HEADER_LEN ≤ p.data - a.dataOffset reuseSeq by omega)]
    dsimp only
    rw [Nat.add_zero, hdata, hlen, writeAt_front (by rw [bdcHeader_length]; omega)]
    rfl

/-- What has been written is read in its two parts. -/
theorem readAt_parts (buf : Nat → UInt8) (pos : Nat) (as bs : List UInt8) :
    readAt (writeAt buf pos (as ++ bs)) pos as.length = as ∧
      readAt (writeAt buf pos (as ++ bs)) (pos + as.length) bs.length = bs := by
  have h := readAt_writeAt buf pos (as ++ bs)
  rw [List.length_append, readAt_add] at h
  exact List.append_inj h (readAt_length _ _ _)

theorem dataOffset_written (buf : Nat → UInt8) (pos : Nat) (p : Pkt) (words : Nat)
    (area : List UInt8) :
    writeAt buf pos ((bdcHeader p (4 * words)).bytes ++ area) (pos + 3) = UInt8.ofNat words := by
  unfold writeAt
  rw [if_pos (by omega), Nat.add_sub_cancel_left]
  show UInt8.ofNat (4 * words / 4) = _
  rw [Nat.mul_div_cancel_left words (by omega)]

/-- The pull takes the header and as many words as it says. -/
theorem pullheader_eq {q : Pkt} {words : Nat} (hw : words < 0x100)
    (hoff : q.mem (q.data + 3) = UInt8.ofNat words) (hlen : BDC_HEADER_LEN + 4 * words ≤ q.len) :
    pullheader q = ({ q with
      data := q.data + BDC_HEADER_LEN + 4 * words
      len := q.len - BDC_HEADER_LEN - 4 * words }, true) := by
  have hbdc : BDC_HEADER_LEN = 4 := rfl
  have hn : (UInt8.ofNat words).toNat = words := by
    rw [UInt8.toNat_ofNat']
    omega
  unfold pullheader
  rw [if_neg (by omega), pull_of_le (by omega)]
  dsimp only
  rw [hoff, hn, if_neg (by omega), pull_of_le (by dsimp only; omega)]

/-- **Header push and pull are inverse.** -/
theorem pushheader_pullheader (reuseSeq : Bool) (a : Args) (p : Pkt)
    (h : a.room reuseSeq ≤ p.data) :
    ∃ q, pushheader reuseSeq a p = some q ∧
      pullheader q = ({ p with mem := q.mem }, true) ∧
      (∀ i, p.data ≤ i → q.mem i = p.mem i) ∧
      ∃ words, words < 0x100 ∧ q.mem (q.data + 3) = UInt8.ofNat words ∧
        readAt q.mem q.data BDC_HEADER_LEN = (bdcHeader p (4 * words)).bytes ∧
        q.data + BDC_HEADER_LEN + 4 * words = p.data ∧
        parse (readAt q.mem (q.data + BDC_HEADER_LEN) (4 * words)) =
          .ok (a.tlvs reuseSeq, 0) := by
  obtain ⟨⟨words, hwords⟩, hle⟩ := areaLen_le a reuseSeq
  have htlvs := tlvs_length a reuseSeq
  have hroom : a.room reuseSeq = BDC_HEADER_LEN + a.areaLen reuseSeq := rfl
  have hbdc : BDC_HEADER_LEN = 4 := rfl
  have hparse : parse (encode (a.tlvs reuseSeq)) = .ok (a.tlvs reuseSeq, 0) :=
    parse_encode (tlvs_fit a reuseSeq) (by unfold maxProcessed; omega)
  rw [hwords] at htlvs hroom
  refine ⟨_, pushheader_eq h, ?_⟩
  rw [hwords, hroom]
  obtain ⟨hhdr, harea⟩ := readAt_parts p.mem (p.data - (BDC_HEADER_LEN + 4 * words))
    (bdcHeader p (4 * words)).bytes (encode (a.tlvs reuseSeq))
  rw [bdcHeader_length, htlvs] at harea
  rw [bdcHeader_length] at hhdr
  have hoff := dataOffset_written p.mem (p.data - (BDC_HEADER_LEN + 4 * words)) p words
    (encode (a.tlvs reuseSeq))
  refine ⟨?_, ?_, words, by omega, hoff, hhdr, by dsimp only; omega, ?_⟩
  · rw [pullheader_eq (by omega) hoff (Nat.le_add_left _ _)]
    dsimp only
    rw [show p.data - (BDC_HEADER_LEN + 4 * words) + BDC_HEADER_LEN + 4 * words = p.data by omega,
      show p.len + (BDC_HEADER_LEN + 4 * words) - BDC_HEADER_LEN - 4 * words = p.len by omega]
  · intro i hi
    apply writeAt_of_off
    right
    rw [List.length_append, bdcHeader_length, htlvs]
    omega
  · dsimp only
    rw [harea]
    exact hparse

def sleepingArgs : Args where
  timSignal := true
  timBmp := 0x03
  macHandle := 7
  htodtag := 0x12345678
  htodseq := 0x9abc
  skipWlfcHdr := false

/-- A packet of 60 bytes behind 64 bytes of headroom. -/
def sleepingPkt : Pkt where
  mem := fun i => UInt8.ofNat i
  data := 64
  len := 60
  sumNeeded := true
  prio := 6
  ifFlags := 0x21

theorem pushheader_pullheader_sleeping :
    ∃ q, pushheader true sleepingArgs sleepingPkt = some q ∧
      pullheader q = ({ sleepingPkt with mem := q.mem }, true) ∧
      (∀ i, 64 ≤ i → q.mem i = sleepingPkt.mem i) ∧
      ∃ words, words < 0x100 ∧ q.mem (q.data + 3) = UInt8.ofNat words ∧
        readAt q.mem q.data BDC_HEADER_LEN = (bdcHeader sleepingPkt (4 * words)).bytes ∧
        q.data + BDC_HEADER_LEN + 4 * words = 64 ∧
        parse (readAt q.mem (q.data + BDC_HEADER_LEN) (4 * words)) =
          .ok (sleepingArgs.tlvs true, 0) :=
  pushheader_pullheader true sleepingArgs sleepingPkt (by decide)

example : (pushheader true sleepingArgs sleepingPkt).map (fun q => readAt q.mem q.data 16) =
    some [0x28, 6, 1, 3, 5, 6, 0x78, 0x56, 0x34, 0x12, 0xbc, 0x9a, 12, 2, 7, 3] := by decide

/-! ## The header of a commit -/

def Args.signal (a : Args) : Option Signal :=
  if a.timSignal then some ⟨a.macHandle, a.timBmp⟩ else none

theorem wlHeader_eq (hskip : a.skipWlfcHdr = false) (reuseSeq : Bool) :
    wlHeader reuseSeq a.signal a.htodtag.toNat a.htodseq.toNat = encode (a.tlvs reuseSeq) := by
  have htag : (le32 a.htodtag.toNat).length = 4 := rfl
  have hseq : (le16 a.htodseq.toNat).length = 2 := rfl
  rw [encode_tlvs hskip]
  unfold wlHeader Args.signal Args.pkttag Args.pendingTraffic Args.fillers Args.tlvsLen
    Args.timSignalLen
  cases reuseSeq <;> cases a.timSignal <;>
    simp [encode, Ctl.bytes, roundup, htag, hseq, TLV_HDR_LEN, WLFC_CTL_VALUE_LEN_PKTTAG,
      WLFC_CTL_VALUE_LEN_SEQ, WLFC_CTL_VALUE_LEN_PENDING_TRAFFIC_BMP, WLFC_CTL_TYPE_PKTTAG,
      WLFC_CTL_TYPE_PENDING_TRAFFIC_BMP, WLFC_CTL_TYPE_FILLER]

/-- The packet of a configuration. -/
structure Describes (cfg : HostCfg) (id : Id) (p : Pkt) : Prop where
  sumNeeded : cfg.sumNeeded id = p.sumNeeded
  prio : cfg.prio id = p.prio.toUInt8
  ifid : UInt8.ofNat (cfg.pkt id).ifid.val = (p.ifFlags &&& DHD_PKTTAG_IF_MASK).toUInt8

theorem bytes_pushheader {cfg : HostCfg} {id : Id} (hp : Describes cfg id p)
    (hskip : a.skipWlfcHdr = false) (h : a.room cfg.reuseSeq ≤ p.data) :
    (pushheader cfg.reuseSeq a p).map Pkt.bytes = some
      (Commit.pushheader cfg id a.signal a.htodtag.toNat a.htodseq.toNat ++ p.bytes) := by
  have hhdr : Commit.pushheader cfg id a.signal a.htodtag.toNat a.htodseq.toNat =
      (bdcHeader p (a.areaLen cfg.reuseSeq)).bytes ++ encode (a.tlvs cfg.reuseSeq) := by
    unfold Commit.pushheader
    rw [wlHeader_eq hskip, hp.sumNeeded, hp.prio, hp.ifid]
    dsimp only
    rw [tlvs_length]
    unfold bdcHeader BdcHeader.bytes BdcHeader.setIfIdx
    have hver : (0x20 : UInt8) = BDC_PROTO_VER <<< BDC_FLAG_VER_SHIFT := by decide
    have hsum : (0x28 : UInt8) = 0x20 ||| BDC_FLAG_SUM_NEEDED := by decide
    rw [hsum, hver]
    cases p.sumNeeded <;> simp [BDC_PRIORITY_MASK]
  have hlen : ((bdcHeader p (a.areaLen cfg.reuseSeq)).bytes ++
      encode (a.tlvs cfg.reuseSeq)).length = a.room cfg.reuseSeq := by
    rw [List.length_append, tlvs_length]
    rfl
  rw [pushheader_eq h, Option.map_some, hhdr]
  unfold Pkt.bytes
  dsimp only
  rw [Nat.add_comm p.len, readAt_add, ← hlen, readAt_writeAt, hlen, Nat.sub_add_cancel h,
    readAt_writeAt_of_off (Or.inr (by omega))]

theorem bytes_pullheader (q : Pkt) :
    ((pullheader q).1.bytes, (pullheader q).2) = Commit.pullheader q.bytes := by
  have hlen : q.bytes.length = q.len := readAt_length _ _ _
  unfold pullheader Commit.pullheader
  rw [hlen]
  by_cases h : q.len < BDC_HEADER_LEN
  · rw [if_pos h, if_pos (show q.len < 4 from h)]
  · have hle : BDC_HEADER_LEN ≤ q.len := by omega
    have hoff : q.bytes.getD 3 0 = q.mem (q.data + 3) := getD_readAt _ hle 0
    have hdrop : q.bytes.drop 4 = (q.pull BDC_HEADER_LEN).bytes := by
      rw [pull_of_le hle]
      exact drop_readAt _ hle
    rw [if_neg h, if_neg (show ¬ q.len < 4 from h)]
    dsimp only
    rw [hoff, hdrop]
    have hrest : (q.pull BDC_HEADER_LEN).bytes.length = (q.pull BDC_HEADER_LEN).len :=
      readAt_length _ _ _
    have hmem : (q.pull BDC_HEADER_LEN).mem = q.mem := by rw [pull_of_le hle]
    rw [hrest, hmem]
    generalize q.pull BDC_HEADER_LEN = r at *
    by_cases hr : r.len < 4 * (q.mem (q.data + 3)).toNat
    · rw [if_pos hr, if_pos hr]
    · rw [if_neg hr, if_neg hr, pull_of_le (by omega)]
      exact Prod.ext (drop_readAt _ (by omega)).symm rfl

end Bcmdhd.Wlfc.Header
