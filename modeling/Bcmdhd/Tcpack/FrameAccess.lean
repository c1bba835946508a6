import Bcmdhd.Lib.Logged
import Bcmdhd.Tcpack.Hold
import Bcmdhd.Tcpack.PshInfo
import Bcmdhd.Tcpack.Suppress

/-!
# The bytes of a frame that are looked at (`dhd_ip.c`)

`dhd_tcpdata_info_get`, `dhd_tcpack_suppress`, `dhd_tcpack_hold`, `dhd_tcpdata_get_flag` and
`pkt_frag_info` with every access to a frame in a log.  An ASSERT is no check.

    every access is inside its frame, and only an old packet is written  ↔  fits
                                                                    (accesses_inside_iff)

`pkt_frag_info` is always inside.  The others trust the IP header length, and two of them read the
Ethernet type of frames without one.
-/

namespace Bcmdhd.Tcpack.FrameAccess

open Records
open Psh (Flow minus TCP_FLAG_PSH TCPDATA_INFO_MAXNUM)
open Suppress (sameHdrLens)

/-! ## Accesses -/

/-- A byte of a frame of `len` bytes, in an old packet or in the one passed in. -/
structure Access where
  old : Bool
  write : Bool
  len : Nat
  offset : Nat
  deriving DecidableEq

def Access.Inside (a : Access) : Prop := a.offset < a.len ∧ (a.write = true → a.old = true)

def span (old write : Bool) (f : Frame) (i n : Nat) : List Access :=
  (List.range n).map fun k => ⟨old, write, f.len, i + k⟩

abbrev byteAt (old : Bool) (f : Frame) (i : Nat) : Logged Access Nat :=
  ⟨f.byte i, span old false f i 1⟩

abbrev ntoh16At (old : Bool) (f : Frame) (i : Nat) : Logged Access Nat :=
  ⟨f.ntoh16 i, span old false f i 2⟩

abbrev ntoh32At (old : Bool) (f : Frame) (i : Nat) : Logged Access Nat :=
  ⟨f.ntoh32 i, span old false f i 4⟩

abbrev bytesAt (old : Bool) (f : Frame) (i n : Nat) : Logged Access (List UInt8) :=
  ⟨readAt f.data i n, span old false f i n⟩

/-- `memcmp(..) == 0 && memcmp(..) == 0 && ..`: places, lengths and what is compared with. -/
def memcmps (f : Frame) : List (Nat × Nat × List UInt8) → Logged Access Bool
  | [] => pure true
  | (i, n, bs) :: cs => do
    let b ← bytesAt false f i n
    if b = bs then memcmps f cs else pure false

/-! ## Headers -/

/-- An Ethernet frame with IPv4 and TCP; `tooShort` is the check behind the Ethernet header. -/
def readIpTcp (f : Frame) (tooShort : Bool) : Logged Access Bool := do
  let etherType ← ntoh16At false f 12
  if etherType ≠ ETHER_TYPE_IP then pure false
  else if tooShort then pure false
  else do
    let verHl ← byteAt false f ETHER_HDR_LEN
    if verHl / 0x10 ≠ IP_VER_4 then pure false
    else do
      let prot ← byteAt false f (ETHER_HDR_LEN + 9)
      pure (decide (prot = IP_PROT_TCP))

/-- The checks of `dhd_tcpdata_info_get`. -/
def readPsh (f : Frame) : Logged Access Bool := do
  let framelen := minus f.len ETHER_HDR_LEN
  let tcp ← readIpTcp f (framelen < IPV4_MIN_HEADER_LEN)
  if tcp = false then pure false
  else if minus framelen f.ipHdrLen < TCP_MIN_HEADER_LEN then pure false
  else do
    let ipTotalLen ← ntoh16At false f (ETHER_HDR_LEN + 2)
    let hlen ← byteAt false f (f.tcpHdr + 12)
    if ipTotalLen = f.ipHdrLen + 4 * (hlen / 0x10) then pure false
    else do
      let flags ← byteAt false f (f.tcpHdr + 13)
      pure (decide (flags / TCP_FLAG_PSH % 2 ≠ 0))

/-- The checks of `dhd_tcpack_suppress`, and of `dhd_tcpack_hold`. -/
def readTcpack (f : Frame) : Logged Access Bool :=
  if f.len < TCPACKSZMIN ∨ TCPACKSZMAX < f.len then pure false
  else do
    let tcp ← readIpTcp f false
    if tcp = false then pure false
    else do
      let flags ← byteAt false f (f.tcpHdr + 13)
      if flags ≠ TCP_FLAG_ACK then pure false
      else do
        let ipTotalLen ← ntoh16At false f (ETHER_HDR_LEN + 2)
        let hlen ← byteAt false f (f.tcpHdr + 12)
        if f.ipHdrLen + 4 * (hlen / 0x10) < ipTotalLen then pure false
        else do
          let _ ← ntoh32At false f (f.tcpHdr + 8)
          pure true

/-! ## Received data -/

/-- The flows that the loop comes to. -/
def compareFlows (f : Frame) : List Flow → Logged Access Unit
  | [] => pure ()
  | x :: xs => do
    let _ ← memcmps f [(ETHER_HDR_LEN + 12, 8, x.1), (f.tcpHdr, 4, x.2)]
    compareFlows f xs

/-- `dhd_tcpdata_info_get` behind its checks. -/
def recordEnd (f : Frame) (clock : Nat → BitVec 32) (m : Psh.Module) : Logged Access Unit :=
  match Psh.search clock f.flow (m.tcpdataInfoCnt + 1) 0 0 m with
  | none => pure ()
  | some s => do
    compareFlows f s.visited
    let _ ← ntoh32At false f (f.tcpHdr + 4)
    if s.found ∨ TCPDATA_INFO_MAXNUM ≤ s.idx then pure ()
    else do
      let _ ← bytesAt false f (ETHER_HDR_LEN + 12) 8
      let _ ← bytesAt false f f.tcpHdr 4
      pure ()

/-- `dhd_tcpdata_info_get` -/
def tcpdataInfoGet (mode : Mode) (mod : Option Psh.Module) (f : Frame) (clock : Nat → BitVec 32) :
    Logged Access Unit :=
  if mode ≠ .delaytx then pure ()
  else do
    let psh ← readPsh f
    if psh = false then pure ()
    else
      match mod with
      | none => pure ()
      | some m => recordEnd f clock m

/-- `dhd_tcpdata_get_flag` -/
inductive TcpHdrFlag
  | others | sync | syncack
  deriving DecidableEq

def TCP_FLAG_SYN : Nat := 0x02

def tcpdataGetFlag (f : Frame) : Logged Access TcpHdrFlag := do
  let tcp ← readIpTcp f (minus f.len ETHER_HDR_LEN < IPV4_MIN_HEADER_LEN)
  if tcp = false then pure .others
  else do
    let flags ← byteAt false f (f.tcpHdr + 13)
    pure (
      if flags / TCP_FLAG_SYN % 2 = 0 then .others
      else if flags / TCP_FLAG_ACK % 2 = 0 then .sync
      else .syncack)

/-! ## Sent ACKs -/

/-- The search of `dhd_tcpdata_psh_acked`. -/
def findAcked (f : Frame) : List Flow → Logged Access Bool
  | [] => pure false
  | x :: xs => do
    let same ← memcmps f [(ETHER_HDR_LEN + 12, 4, x.1.drop 4), (ETHER_HDR_LEN + 16, 4, x.1.take 4),
      (f.tcpHdr, 2, x.2.drop 2), (f.tcpHdr + 2, 2, x.2.take 2)]
    if same then pure true else findAcked f xs

/-- `dhd_tcpdata_psh_acked` -/
def tcpdataPshAcked (mode : Mode) (infos : List Flow) (f : Frame) : Logged Access Bool :=
  if mode = .delaytx then findAcked f infos else pure false

/-- The addresses, and if they are the same the ports. -/
def sameFlow (new old : Frame) : Logged Access Bool := do
  let addrs ← bytesAt true old (ETHER_HDR_LEN + 12) 8
  let same ← memcmps new [(ETHER_HDR_LEN + 12, 8, addrs)]
  if same then do
    let ports ← bytesAt true old old.tcpHdr 4
    memcmps new [(new.tcpHdr, 4, ports)]
  else pure false

/-- The loop of `dhd_tcpack_suppress` over the old packets. -/
def scanOlds (new : Frame) : List (Option Frame) → Logged Access (Option Frame)
  | [] => pure none
  | none :: _ => pure none
  | some old :: olds => do
    let _ ← byteAt true old ETHER_HDR_LEN
    let _ ← byteAt true old (old.tcpHdr + 12)
    let same ← sameFlow new old
    if same then pure (some old) else scanOlds new olds

/-- `bcopy(new_ip_hdr, old_ip_hdr, new_ip_total_len)` -/
def bcopy (new old : Frame) : Logged Access Unit :=
  ⟨(), span false false new ETHER_HDR_LEN new.ipTotalLen ++
    span true true old ETHER_HDR_LEN new.ipTotalLen⟩

def replaceOlder (new old : Frame) (ackNum : Nat) : Logged Access Bool :=
  if tcpseqGt new.tcpAckNum ackNum ∧ sameHdrLens new old then do
    bcopy new old
    pure true
  else pure false

/-- Whether the new packet takes the place of the old one. -/
def replace (new : Frame) : Option Frame → Logged Access Bool
  | none => pure false
  | some old => do
    let ackNum ← ntoh32At true old (old.tcpHdr + 8)
    replaceOlder new old ackNum

/-- `dhd_tcpack_suppress`: `infos` are the flows of received data, `olds` the frames of
`tcpack_info_tbl` from `pkt_ether_hdr` on. -/
def tcpackSuppress (mode : Mode) (infos : List Flow) (olds : List (Option Frame)) (f : Frame) :
    Logged Access Bool :=
  if mode = .off then pure false
  else do
    let ack ← readTcpack f
    if ack = false then pure false
    else do
      let _ ← tcpdataPshAcked mode infos f
      let old ← scanOlds f olds
      replace f old

/-- The loop of `dhd_tcpack_hold` over its slots. -/
def scanSlots (new : Frame) : List (Option Frame) → Logged Access (Option Frame)
  | [] => pure none
  | none :: slots => scanSlots new slots
  | some old :: slots => do
    let _ ← byteAt true old ETHER_HDR_LEN
    let same ← sameFlow new old
    if same then pure (some old) else scanSlots new slots

/-- The packet of the flow that is held. -/
def heldAck : Option Frame → Logged Access (Option Nat)
  | none => pure none
  | some old => do
    let ackNum ← ntoh32At true old (old.tcpHdr + 8)
    pure (some ackNum)

/-- `dhd_tcpack_hold`, and the ACK number of the packet that is held. -/
def tcpackHold (cfg : Hold.Cfg) (slots : List (Option Frame)) (f : Frame) :
    Logged Access (Option Nat) :=
  if cfg.mode ≠ .hold then pure none
  else if cfg.ratio = 1 then pure none
  else do
    let ack ← readTcpack f
    if ack = false then pure none
    else do
      let old ← scanSlots f slots
      heldAck old

/-! ## Fragments -/

def ETHER_TYPE_MIN : Nat := 0x0600
def ETHER_TYPE_8021Q : Nat := 0x8100
def SNAP_HDR_LEN : Nat := 6
def ETHER_TYPE_LEN : Nat := 2
def VLAN_TAG_LEN : Nat := 4
def IPV4_OPTIONS_OFFSET : Nat := 20
def llcSnapHdr : List UInt8 := [0xaa, 0xaa, 0x03, 0x00, 0x00, 0x00]

/-- `pkt_frag_t` -/
inductive PktFrag
  | none | first | cont | last
  deriving DecidableEq

/-- `DONT`, `MORE` and the offset -/
def fragOf (frag : Nat) : PktFrag :=
  if frag / 0x4000 % 2 ≠ 0 then .none
  else if frag / 0x2000 % 2 = 0 then .last
  else if frag % 0x2000 ≠ 0 then .cont
  else .first

/-- From the IP header on; `pt` is the place of the type. -/
def fragOfIp (f : Frame) (length : Int) (pt ethertype : Nat) : Logged Access PktFrag :=
  if ethertype ≠ ETHER_TYPE_IP then pure .none
  else if length - (pt + ETHER_TYPE_LEN : Nat) < IPV4_OPTIONS_OFFSET then pure .none
  else do
    let verHl ← byteAt false f (pt + ETHER_TYPE_LEN)
    if verHl / 0x10 ≠ IP_VER_4 then pure .none
    else do
      let frag ← ntoh16At false f (pt + ETHER_TYPE_LEN + 6)
      pure (fragOf frag)

/-- From the type on; a VLAN tag is skipped. -/
def fragOfType (f : Frame) (length : Int) (pt : Nat) : Logged Access PktFrag := do
  let ethertype ← ntoh16At false f pt
  if ethertype = ETHER_TYPE_8021Q then
    if length < (pt + VLAN_TAG_LEN + ETHER_TYPE_LEN : Nat) then pure .none
    else do
      let ethertype ← ntoh16At false f (pt + VLAN_TAG_LEN)
      fragOfIp f length (pt + VLAN_TAG_LEN) ethertype
  else fragOfIp f length pt ethertype

/-- `PKTLEN` as an `int` -/
def intLen (f : Frame) : Int := if f.len < 0x80000000 then f.len else f.len - 0x100000000

/-- `pkt_frag_info` -/
def pktFragInfo (f : Frame) : Logged Access PktFrag :=
  let length := intLen f
  if length < ETHER_HDR_LEN then pure .none
  else do
    let type ← ntoh16At false f 12
    if ETHER_TYPE_MIN ≤ type then fragOfType f length 12
    else if length < (ETHER_HDR_LEN + SNAP_HDR_LEN + ETHER_TYPE_LEN : Nat) then pure .none
    else do
      let hdr ← bytesAt false f ETHER_HDR_LEN SNAP_HDR_LEN
      if hdr = llcSnapHdr then fragOfType f length (ETHER_HDR_LEN + SNAP_HDR_LEN) else pure .none

/-! ## Calls -/

/-- A frame with a length of 32 bits. -/
structure Packet where
  frame : Frame
  len_lt : frame.len < 0x100000000

inductive Call
  | tcpdataInfoGet (mode : Mode) (mod : Option Psh.Module) (pkt : Packet) (clock : Nat → BitVec 32)
  | tcpackSuppress (mode : Mode) (infos : List Flow) (olds : List (Option Frame)) (pkt : Packet)
  | tcpackHold (cfg : Hold.Cfg) (slots : List (Option Frame)) (pkt : Packet)
  | tcpdataGetFlag (pkt : Packet)
  | pktFragInfo (pkt : Packet)

def accesses : Call → List Access
  | .tcpdataInfoGet mode mod pkt clock => (tcpdataInfoGet mode mod pkt.frame clock).log
  | .tcpackSuppress mode infos olds pkt => (tcpackSuppress mode infos olds pkt.frame).log
  | .tcpackHold cfg slots pkt => (tcpackHold cfg slots pkt.frame).log
  | .tcpdataGetFlag pkt => (tcpdataGetFlag pkt.frame).log
  | .pktFragInfo pkt => (pktFragInfo pkt.frame).log

/-! ## Conditions -/

def isIpTcp (f : Frame) : Bool :=
  f.etherType = ETHER_TYPE_IP ∧ f.ipVer = IP_VER_4 ∧ f.ipProt = IP_PROT_TCP

/-- There is an Ethernet header, and where IPv4 and TCP are looked at `n` bytes from the TCP
header on. -/
def headersFit (f : Frame) (n : Nat) : Bool :=
  ETHER_HDR_LEN ≤ f.len &&
    (!(ETHER_HDR_LEN + IPV4_MIN_HEADER_LEN ≤ f.len && isIpTcp f) || f.tcpHdr + n ≤ f.len)

/-- A frame of the size of an ACK has its TCP flags, if it is IPv4 and TCP. -/
def ackFits (f : Frame) : Bool :=
  !(TCPACKSZMIN ≤ f.len && f.len ≤ TCPACKSZMAX && isIpTcp f) || f.tcpHdr + 14 ≤ f.len

/-- What is copied over an old packet. -/
def copyFits (new old : Frame) : Bool :=
  !(tcpseqGt new.tcpAckNum old.tcpAckNum && sameHdrLens new old) ||
    (ETHER_HDR_LEN + new.ipTotalLen ≤ new.len && ETHER_HDR_LEN + new.ipTotalLen ≤ old.len)

/-- Up to the first old packet of the flow. -/
def oldsFit (new : Frame) : List (Option Frame) → Bool
  | some old :: olds =>
    (ETHER_HDR_LEN + IPV4_MIN_HEADER_LEN ≤ old.len && old.tcpHdr + 13 ≤ old.len) &&
      if old.flow = new.flow then copyFits new old else oldsFit new olds
  | _ => true

def slotsFit (new : Frame) : List (Option Frame) → Bool
  | [] => true
  | none :: slots => slotsFit new slots
  | some old :: slots =>
    (ETHER_HDR_LEN + IPV4_MIN_HEADER_LEN ≤ old.len &&
      (old.flow.1 ≠ new.flow.1 || old.tcpHdr + 4 ≤ old.len)) &&
      if old.flow = new.flow then old.tcpHdr + 12 ≤ old.len else slotsFit new slots

def fits : Call → Bool
  | .tcpdataInfoGet mode _ pkt _ => mode ≠ .delaytx || headersFit pkt.frame 0
  | .tcpackSuppress mode _ olds pkt =>
    mode = .off || ackFits pkt.frame && (!pkt.frame.isTcpack || oldsFit pkt.frame olds)
  | .tcpackHold cfg slots pkt =>
    cfg.mode ≠ .hold || cfg.ratio = 1 ||
      ackFits pkt.frame && (!pkt.frame.isTcpack || slotsFit pkt.frame slots)
  | .tcpdataGetFlag pkt => headersFit pkt.frame 14
  | .pktFragInfo _ => true

/-! ## Single accesses -/

theorem inside_span {old write : Bool} (hw : write = true → old = true) (f : Frame) (i n : Nat) :
    (∀ a ∈ span old write f i n, a.Inside) ↔ n = 0 ∨ i + n ≤ f.len := by
  unfold span Access.Inside
  rw [List.forall_mem_map]
  constructor
  · intro h
    rcases Nat.eq_zero_or_pos n with hn | hn
    · exact .inl hn
    · have hlast : i + (n - 1) < f.len := (h (n - 1) (List.mem_range.mpr (by omega))).1
      omega
  · intro h k hk
    rw [List.mem_range] at hk
    exact ⟨show i + k < f.len by omega, hw⟩

theorem inside_read (old : Bool) (f : Frame) (i n : Nat) :
    (∀ a ∈ span old false f i n, a.Inside) ↔ n = 0 ∨ i + n ≤ f.len :=
  inside_span Bool.false_ne_true.elim f i n

section
variable (old : Bool) (f : Frame) (i : Nat)

@[simp] theorem all_byteAt : (byteAt old f i).All Access.Inside ↔ i + 1 ≤ f.len :=
  (inside_read old f i 1).trans (or_iff_right (by decide))

@[simp] theorem all_ntoh16At : (ntoh16At old f i).All Access.Inside ↔ i + 2 ≤ f.len :=
  (inside_read old f i 2).trans (or_iff_right (by decide))

@[simp] theorem all_ntoh32At : (ntoh32At old f i).All Access.Inside ↔ i + 4 ≤ f.len :=
  (inside_read old f i 4).trans (or_iff_right (by decide))

@[simp] theorem all_bytesAt (n : Nat) :
    (bytesAt old f i n).All Access.Inside ↔ n = 0 ∨ i + n ≤ f.len :=
  inside_read old f i n

end

theorem all_memcmps {f : Frame} {cs : List (Nat × Nat × List UInt8)}
    (h : ∀ c ∈ cs, c.1 + c.2.1 ≤ f.len) : (memcmps f cs).All Access.Inside := by
  induction cs with
  | nil => exact Logged.all_pure _
  | cons c cs ih =>
    obtain ⟨hc, hcs⟩ := List.forall_mem_cons.mp h
    unfold memcmps
    rw [Logged.all_bind, all_bytesAt, Logged.all_ite]
    exact ⟨.inr hc, fun _ => ih hcs, fun _ => Logged.all_pure _⟩

/-! ## Headers -/

variable {new : Frame}

section
variable {f : Frame}

theorem isIpTcp_iff : isIpTcp f = true ↔
    f.etherType = ETHER_TYPE_IP ∧ f.ipVer = IP_VER_4 ∧ f.ipProt = IP_PROT_TCP := by
  unfold isIpTcp
  exact decide_eq_true_iff

theorem val_readIpTcp (f : Frame) (tooShort : Bool) :
    (readIpTcp f tooShort).val = true ↔ tooShort = false ∧ isIpTcp f = true := by
  rw [isIpTcp_iff]
  unfold readIpTcp Frame.etherType Frame.ipVer Frame.ipProt
  simp only [Logged.val_bind, Logged.val_ite, Logged.val_pure]
  split
  · next he => exact iff_of_false Bool.false_ne_true fun h => he h.2.1
  · next he =>
    split
    · next hs => exact iff_of_false Bool.false_ne_true fun h => by simp [hs] at h
    · next hs =>
      split
      · next hv => exact iff_of_false Bool.false_ne_true fun h => hv h.2.2.1
      · next hv =>
        rw [decide_eq_true_iff]
        rw [not_not] at he hv
        exact ⟨fun hp => ⟨by simpa using hs, he, hv, hp⟩, fun h => h.2.2.2⟩

theorem all_readIpTcp (f : Frame) (tooShort : Bool) :
    (readIpTcp f tooShort).All Access.Inside ↔
      ETHER_HDR_LEN ≤ f.len ∧ (f.etherType = ETHER_TYPE_IP → tooShort = false →
        ETHER_HDR_LEN + 1 ≤ f.len ∧ (f.ipVer = IP_VER_4 → ETHER_HDR_LEN + 10 ≤ f.len)) := by
  unfold readIpTcp Frame.etherType Frame.ipVer
  simp only [Logged.all_bind, Logged.all_ite, Logged.all_pure, all_ntoh16At, all_byteAt]
  simp only [and_true, implies_true, true_and, not_not, Bool.not_eq_true]
  rfl

theorem ipHdrLen_le (f : Frame) : f.ipHdrLen ≤ 60 := by
  unfold Frame.ipHdrLen
  omega

/-- The checks are those of `pshEndSeq`. -/
theorem val_readPsh (f : Frame) : (readPsh f).val = (Psh.pshEndSeq f).isSome := by
  have hval := val_readIpTcp f (minus f.len ETHER_HDR_LEN < IPV4_MIN_HEADER_LEN)
  rw [decide_eq_false_iff_not, isIpTcp_iff] at hval
  unfold readPsh Psh.pshEndSeq
  simp only [Logged.val_bind, Logged.val_ite, Logged.val_pure]
  show (if _ then _ else if _ then _ else if f.ipTotalLen = f.ipHdrLen + f.tcpHdrLen then _
    else decide (f.tcpFlags / TCP_FLAG_PSH % 2 ≠ 0)) = _
  by_cases hval' : (readIpTcp f (minus f.len ETHER_HDR_LEN < IPV4_MIN_HEADER_LEN)).val = true
  · obtain ⟨hs, he, hv, hp⟩ := hval.mp hval'
    have hne : (readIpTcp f (minus f.len ETHER_HDR_LEN < IPV4_MIN_HEADER_LEN)).val ≠ false := by
      rw [hval']
      nofun
    have hvp : ¬(f.ipVer ≠ IP_VER_4 ∨ f.ipProt ≠ IP_PROT_TCP) :=
      not_or.mpr ⟨not_not.mpr hv, not_not.mpr hp⟩
    rw [if_neg hne, if_neg (show ¬f.etherType ≠ ETHER_TYPE_IP from not_not.mpr he), if_neg hs,
      if_neg hvp]
    by_cases hm : minus (minus f.len ETHER_HDR_LEN) f.ipHdrLen < TCP_MIN_HEADER_LEN
    · rw [if_pos hm, if_pos hm]
      rfl
    · rw [if_neg hm, if_neg hm]
      by_cases ht : f.ipTotalLen = f.ipHdrLen + f.tcpHdrLen
      · rw [if_pos ht, if_pos ht]
        rfl
      · rw [if_neg ht, if_neg ht]
        by_cases hf : f.tcpFlags / TCP_FLAG_PSH % 2 = 0
        · rw [if_pos hf]
          exact decide_eq_false (not_not.mpr hf)
        · rw [if_neg hf]
          exact decide_eq_true hf
  · have hno := (not_congr hval).mp hval'
    rw [if_pos (by simpa using hval')]
    split
    · rfl
    · next he =>
      split
      · rfl
      · next hs =>
        split
        · rfl
        · next hvp =>
          rw [not_or, not_not, not_not] at hvp
          exact absurd ⟨hs, not_not.mp he, hvp.1, hvp.2⟩ hno

theorem val_readTcpack (f : Frame) : (readTcpack f).val = f.isTcpack := by
  have hval := val_readIpTcp f false
  rw [isIpTcp_iff] at hval
  rw [Bool.eq_iff_iff]
  unfold readTcpack Frame.isTcpack
  simp only [Logged.val_bind, Logged.val_ite, Logged.val_pure]
  show (if _ then _ else if _ then _ else if f.tcpFlags ≠ TCP_FLAG_ACK then _
    else if f.ipHdrLen + f.tcpHdrLen < f.ipTotalLen then _ else _) = true ↔ _
  rw [decide_eq_true_iff]
  by_cases hsize : f.len < TCPACKSZMIN ∨ TCPACKSZMAX < f.len
  · rw [if_pos hsize]
    exact iff_of_false Bool.false_ne_true fun h => by omega
  · rw [if_neg hsize]
    by_cases htcp : (readIpTcp f false).val = false
    · rw [if_pos htcp]
      refine iff_of_false Bool.false_ne_true fun h => ?_
      rw [htcp] at hval
      exact Bool.false_ne_true (hval.mpr ⟨rfl, h.2.2.1, h.2.2.2.1, h.2.2.2.2.1⟩)
    · rw [if_neg htcp]
      obtain ⟨-, he, hv, hp⟩ := hval.mp (by simpa using htcp)
      by_cases hflags : f.tcpFlags ≠ TCP_FLAG_ACK
      · rw [if_pos hflags]
        exact iff_of_false Bool.false_ne_true fun h => hflags h.2.2.2.2.2.1
      · rw [if_neg hflags]
        by_cases hlen : f.ipHdrLen + f.tcpHdrLen < f.ipTotalLen
        · rw [if_pos hlen]
          exact iff_of_false Bool.false_ne_true fun h => absurd h.2.2.2.2.2.2 (Nat.not_le.mpr hlen)
        · rw [if_neg hlen]
          exact iff_of_true rfl ⟨by omega, by omega, he, hv, hp, not_not.mp hflags, by omega⟩

theorem minus_eq {a b : Nat} (h : b ≤ a) (ha : a < 0x100000000) : minus a b = a - b := by
  unfold minus
  omega

theorem minus_wraps {a b : Nat} (h : a < b) :
    minus a b = a + 0x100000000 - b := by
  unfold minus
  omega

theorem headersFit_iff {n : Nat} : headersFit f n = true ↔
    14 ≤ f.len ∧ (34 ≤ f.len → isIpTcp f = true → f.tcpHdr + n ≤ f.len) := by
  unfold headersFit
  rw [Bool.and_eq_true, decide_eq_true_iff, Bool.or_eq_true, Bool.not_eq_true', Bool.and_eq_false_iff,
    decide_eq_false_iff_not, decide_eq_true_iff]
  show 14 ≤ f.len ∧ ((¬34 ≤ f.len ∨ isIpTcp f = false) ∨ f.tcpHdr + n ≤ f.len) ↔ _
  cases isIpTcp f
  · simp
  · simp only [Bool.true_eq_false, or_false, forall_const]
    omega

theorem ackFits_iff : ackFits f = true ↔
    (54 ≤ f.len → f.len ≤ 154 → isIpTcp f = true → f.tcpHdr + 14 ≤ f.len) := by
  unfold ackFits
  rw [Bool.or_eq_true, Bool.not_eq_true', Bool.and_eq_false_iff, Bool.and_eq_false_iff,
    decide_eq_false_iff_not, decide_eq_false_iff_not, decide_eq_true_iff]
  show ((¬54 ≤ f.len ∨ ¬f.len ≤ 154) ∨ isIpTcp f = false) ∨ f.tcpHdr + 14 ≤ f.len ↔ _
  cases isIpTcp f
  · simp
  · simp only [Bool.true_eq_false, or_false, forall_const]
    omega

/-- Behind the Ethernet header, for the two that check what is left. -/
theorem all_readIpTcp_checked (hlen : f.len < 0x100000000) :
    (readIpTcp f (minus f.len ETHER_HDR_LEN < IPV4_MIN_HEADER_LEN)).All Access.Inside ↔
      14 ≤ f.len := by
  rw [all_readIpTcp]
  have hE : ETHER_HDR_LEN = 14 := rfl
  have hI : IPV4_MIN_HEADER_LEN = 20 := rfl
  refine ⟨fun h => h.1, fun h => ⟨h, fun _ hs => ?_⟩⟩
  rw [decide_eq_false_iff_not, minus_eq (show ETHER_HDR_LEN ≤ f.len from h) hlen] at hs
  exact ⟨by omega, fun _ => by omega⟩

theorem val_readIpTcp_checked (hlen : f.len < 0x100000000) (h14 : 14 ≤ f.len) :
    (readIpTcp f (minus f.len ETHER_HDR_LEN < IPV4_MIN_HEADER_LEN)).val = true ↔
      34 ≤ f.len ∧ isIpTcp f = true := by
  have hE : ETHER_HDR_LEN = 14 := rfl
  have hI : IPV4_MIN_HEADER_LEN = 20 := rfl
  rw [val_readIpTcp, decide_eq_false_iff_not, minus_eq (show ETHER_HDR_LEN ≤ f.len from h14) hlen]
  refine and_congr_left fun _ => ?_
  omega

/-- A header length beyond the frame passes the check behind it. -/
theorem room_iff (hlen : f.len < 0x100000000) (h34 : 34 ≤ f.len) :
    ¬ minus (minus f.len ETHER_HDR_LEN) f.ipHdrLen < TCP_MIN_HEADER_LEN ↔
      f.len < f.tcpHdr ∨ f.tcpHdr + 20 ≤ f.len := by
  have hE : ETHER_HDR_LEN = 14 := rfl
  have hT : TCP_MIN_HEADER_LEN = 20 := rfl
  have hihl := ipHdrLen_le f
  have htcp : f.tcpHdr = 14 + f.ipHdrLen := rfl
  rw [minus_eq (by omega) hlen]
  rcases Nat.lt_or_ge (f.len - ETHER_HDR_LEN) f.ipHdrLen with h | h
  · rw [minus_wraps h]
    omega
  · rw [minus_eq h (by omega)]
    omega

theorem all_readPsh (hlen : f.len < 0x100000000) :
    (readPsh f).All Access.Inside ↔ headersFit f 0 = true := by
  rw [headersFit_iff]
  unfold readPsh
  simp only [Logged.all_bind, Logged.all_ite, Logged.all_pure, all_ntoh16At, all_byteAt]
  simp only [implies_true, true_and, and_true, Bool.not_eq_false]
  rw [all_readIpTcp_checked hlen]
  refine and_congr_right fun h14 => ?_
  rw [val_readIpTcp_checked hlen h14]
  have hE : ETHER_HDR_LEN = 14 := rfl
  constructor
  · intro h h34 htcp
    by_contra hout
    have hread := (h ⟨h34, htcp⟩ ((room_iff hlen h34).mpr (by omega))).2.1
    omega
  · rintro h ⟨h34, htcp⟩ hroom
    have hin := h h34 htcp
    rcases (room_iff hlen h34).mp hroom with hout | hfit
    · omega
    · exact ⟨by omega, by omega, fun _ => by omega⟩

/-- Where the checks are passed. -/
theorem psh_room (hlen : f.len < 0x100000000) (hfit : headersFit f 0 = true)
    (hpsh : (readPsh f).val = true) : 34 ≤ f.len ∧ f.tcpHdr + 20 ≤ f.len := by
  rw [headersFit_iff] at hfit
  obtain ⟨h14, hfit⟩ := hfit
  unfold readPsh at hpsh
  simp only [Logged.val_bind, Logged.val_ite, Logged.val_pure] at hpsh
  split at hpsh
  · cases hpsh
  · next htcp =>
    obtain ⟨h34, htcp⟩ := (val_readIpTcp_checked hlen h14).mp (by simpa using htcp)
    split at hpsh
    · cases hpsh
    · next hroom =>
      have hin := hfit h34 htcp
      have := (room_iff hlen h34).mp hroom
      exact ⟨h34, by omega⟩

theorem all_tcpdataGetFlag (hlen : f.len < 0x100000000) :
    (tcpdataGetFlag f).All Access.Inside ↔ headersFit f 14 = true := by
  rw [headersFit_iff]
  unfold tcpdataGetFlag
  simp only [Logged.all_bind, Logged.all_ite, Logged.all_pure, all_byteAt]
  simp only [implies_true, true_and, and_true, Bool.not_eq_false]
  rw [all_readIpTcp_checked hlen]
  refine and_congr_right fun h14 => ?_
  rw [val_readIpTcp_checked hlen h14]
  exact and_imp

theorem all_readTcpack (f : Frame) : (readTcpack f).All Access.Inside ↔ ackFits f = true := by
  rw [ackFits_iff]
  unfold readTcpack
  simp only [Logged.all_bind, Logged.all_ite, Logged.all_pure, all_ntoh16At, all_ntoh32At,
    all_byteAt]
  simp only [implies_true, true_and, and_true, Bool.not_eq_false, val_readIpTcp, not_or, Nat.not_lt]
  rw [all_readIpTcp]
  have hE : ETHER_HDR_LEN = 14 := rfl
  have hmin : TCPACKSZMIN = 54 := rfl
  have hmax : TCPACKSZMAX = 154 := rfl
  constructor
  · intro h h54 h154 htcp
    have hread := ((h ⟨by omega, by omega⟩).2 htcp).1
    omega
  · rintro h ⟨h54, h154⟩
    refine ⟨⟨by omega, fun _ _ => ⟨by omega, fun _ => by omega⟩⟩, fun htcp => ?_⟩
    have hin := h (by omega) (by omega) htcp
    exact ⟨by omega, fun _ => ⟨by omega, by omega, fun _ => by omega⟩⟩

/-- An ACK that fits has its header up to the flags. -/
theorem ack_room (hfit : ackFits f = true) (hack : f.isTcpack = true) :
    34 ≤ f.len ∧ f.tcpHdr + 14 ≤ f.len := by
  obtain ⟨h54, h154, he, hv, hp, -⟩ := of_decide_eq_true hack
  have hmin : TCPACKSZMIN = 54 := rfl
  have hmax : TCPACKSZMAX = 154 := rfl
  exact ⟨by omega, ackFits_iff.mp hfit (by omega) (by omega) (isIpTcp_iff.mpr ⟨he, hv, hp⟩)⟩

/-! ## Flows -/

theorem all_compareFlows (h34 : 34 ≤ f.len) (hports : f.tcpHdr + 4 ≤ f.len) (xs : List Flow) :
    (compareFlows f xs).All Access.Inside := by
  have hE : ETHER_HDR_LEN = 14 := rfl
  induction xs with
  | nil => exact Logged.all_pure _
  | cons x xs ih =>
    unfold compareFlows
    rw [Logged.all_bind]
    refine ⟨all_memcmps ?_, ih⟩
    intro c hc
    rw [List.mem_cons, List.mem_singleton] at hc
    rcases hc with rfl | rfl
    · show ETHER_HDR_LEN + 12 + 8 ≤ f.len
      omega
    · exact hports

theorem all_findAcked (h34 : 34 ≤ f.len) (hports : f.tcpHdr + 4 ≤ f.len) (xs : List Flow) :
    (findAcked f xs).All Access.Inside := by
  have hE : ETHER_HDR_LEN = 14 := rfl
  induction xs with
  | nil => exact Logged.all_pure _
  | cons x xs ih =>
    unfold findAcked
    rw [Logged.all_bind, Logged.all_ite]
    refine ⟨all_memcmps ?_, fun _ => Logged.all_pure _, fun _ => ih⟩
    intro c hc
    rw [List.mem_cons, List.mem_cons, List.mem_cons, List.mem_singleton] at hc
    rcases hc with rfl | rfl | rfl | rfl
    · show ETHER_HDR_LEN + 12 + 4 ≤ f.len
      omega
    · show ETHER_HDR_LEN + 16 + 4 ≤ f.len
      omega
    · show f.tcpHdr + 2 ≤ f.len
      omega
    · show f.tcpHdr + 2 + 2 ≤ f.len
      omega

theorem all_recordEnd (h34 : 34 ≤ f.len) (hroom : f.tcpHdr + 20 ≤ f.len)
    (clock : Nat → BitVec 32) (m : Psh.Module) : (recordEnd f clock m).All Access.Inside := by
  have hE : ETHER_HDR_LEN = 14 := rfl
  unfold recordEnd
  split
  · exact Logged.all_pure _
  · next s _ =>
    simp only [Logged.all_bind, Logged.all_ite, Logged.all_pure, all_ntoh32At, all_bytesAt]
    refine ⟨all_compareFlows h34 (by omega) _, by omega, fun _ => trivial, fun _ => ?_⟩
    exact ⟨.inr (by omega), .inr (by omega), trivial⟩

theorem all_tcpdataInfoGet (hlen : f.len < 0x100000000) (mode : Mode) (mod : Option Psh.Module)
    (clock : Nat → BitVec 32) : (tcpdataInfoGet mode mod f clock).All Access.Inside ↔
      (mode = .delaytx → headersFit f 0 = true) := by
  unfold tcpdataInfoGet
  rw [Logged.all_ite, not_not]
  refine (and_iff_right fun _ => Logged.all_pure _).trans (imp_congr_right fun _ => ?_)
  rw [Logged.all_bind, all_readPsh hlen, Logged.all_ite]
  refine and_iff_left_of_imp fun hfit => ⟨fun _ => Logged.all_pure _, fun hpsh => ?_⟩
  obtain ⟨h34, hroom⟩ := psh_room hlen hfit (by simpa using hpsh)
  cases mod with
  | none => exact Logged.all_pure _
  | some m => exact all_recordEnd h34 hroom clock m

theorem val_sameFlow (new old : Frame) :
    (sameFlow new old).val = true ↔ old.flow = new.flow := by
  unfold sameFlow Frame.flow memcmps memcmps
  simp only [Logged.val_bind, Logged.val_ite, Logged.val_pure]
  rw [Prod.mk.injEq]
  by_cases haddrs : readAt old.data (ETHER_HDR_LEN + 12) 8 = readAt new.data (ETHER_HDR_LEN + 12) 8
  · rw [if_pos haddrs.symm, if_pos rfl]
    by_cases hports : readAt old.data old.tcpHdr 4 = readAt new.data new.tcpHdr 4
    · rw [if_pos hports.symm]
      exact iff_of_true rfl ⟨haddrs, hports⟩
    · rw [if_neg (Ne.symm hports)]
      exact iff_of_false Bool.false_ne_true fun h => hports h.2
  · rw [if_neg (Ne.symm haddrs), if_neg Bool.false_ne_true]
    exact iff_of_false Bool.false_ne_true fun h => haddrs h.1

theorem all_sameFlow {old : Frame} (h34 : 34 ≤ new.len) (hports : new.tcpHdr + 4 ≤ new.len) :
    (sameFlow new old).All Access.Inside ↔
      34 ≤ old.len ∧ (old.flow.1 = new.flow.1 → old.tcpHdr + 4 ≤ old.len) := by
  have hE : ETHER_HDR_LEN = 14 := rfl
  unfold sameFlow memcmps memcmps Frame.flow
  simp only [Logged.all_bind, Logged.all_ite, Logged.all_pure, all_bytesAt, Logged.val_bind,
    Logged.val_ite, Logged.val_pure]
  simp only [implies_true, and_true]
  by_cases haddrs : readAt old.data (ETHER_HDR_LEN + 12) 8 = readAt new.data (ETHER_HDR_LEN + 12) 8
  · rw [if_pos haddrs.symm]
    simp only [haddrs, forall_const]
    omega
  · rw [if_neg (Ne.symm haddrs)]
    simp only [haddrs, Bool.false_eq_true, false_imp_iff, and_true]
    omega

/-! ## Old packets -/

theorem all_bcopy {old : Frame} : (bcopy new old).All Access.Inside ↔
    new.ipTotalLen = 0 ∨
      ETHER_HDR_LEN + new.ipTotalLen ≤ new.len ∧ ETHER_HDR_LEN + new.ipTotalLen ≤ old.len := by
  unfold bcopy Logged.All
  rw [List.forall_mem_append, inside_read, inside_span fun _ => rfl, ← or_and_left]

theorem all_replaceOlder (new old : Frame) (ackNum : Nat) :
    (replaceOlder new old ackNum).All Access.Inside ↔
      (tcpseqGt new.tcpAckNum ackNum = true ∧ sameHdrLens new old = true →
        (bcopy new old).All Access.Inside) := by
  unfold replaceOlder
  rw [Logged.all_ite, Logged.all_bind]
  constructor
  · exact fun h hgt => (h.1 hgt).1
  · exact fun h => ⟨fun hgt => ⟨h hgt, Logged.all_pure _⟩, fun _ => Logged.all_pure _⟩

theorem all_replace {old : Frame} (hnew : 14 ≤ new.len) (hold : 14 ≤ old.len) :
    (replace new (some old)).All Access.Inside ↔
      old.tcpHdr + 12 ≤ old.len ∧ copyFits new old = true := by
  have hE : ETHER_HDR_LEN = 14 := rfl
  unfold replace copyFits
  rw [Logged.all_bind, all_ntoh32At, all_replaceOlder, all_bcopy, Bool.or_eq_true,
    Bool.not_eq_true', Bool.and_eq_false_iff, Bool.and_eq_true, decide_eq_true_iff,
    decide_eq_true_iff]
  show _ ∧ (tcpseqGt new.tcpAckNum old.tcpAckNum = true ∧ sameHdrLens new old = true → _) ↔ _
  cases tcpseqGt new.tcpAckNum old.tcpAckNum
  · simp
  · cases sameHdrLens new old
    · simp
    · simp only [true_and, forall_const, Bool.true_eq_false, false_or]
      omega

theorem all_scanOlds (h34 : 34 ≤ new.len) (hports : new.tcpHdr + 4 ≤ new.len)
    (olds : List (Option Frame)) :
    (scanOlds new olds >>= replace new).All Access.Inside ↔ oldsFit new olds = true := by
  have hE : ETHER_HDR_LEN = 14 := rfl
  have hI : IPV4_MIN_HEADER_LEN = 20 := rfl
  induction olds with
  | nil => exact iff_of_true ((Logged.all_bind _ _).mpr ⟨Logged.all_pure _, Logged.all_pure _⟩) rfl
  | cons old olds ih =>
    cases old with
    | none =>
      exact iff_of_true ((Logged.all_bind _ _).mpr ⟨Logged.all_pure _, Logged.all_pure _⟩) rfl
    | some old =>
      rw [Logged.all_bind] at ih ⊢
      unfold scanOlds oldsFit
      simp only [Logged.all_bind, Logged.all_ite, Logged.all_pure, all_byteAt, all_sameFlow h34 hports,
        Logged.val_bind, Logged.val_ite, Logged.val_pure, val_sameFlow]
      rw [Bool.and_eq_true, Bool.and_eq_true, decide_eq_true_iff, decide_eq_true_iff]
      by_cases hflow : old.flow = new.flow
      · rw [if_pos hflow, if_pos hflow]
        constructor
        · rintro ⟨⟨-, htcp, ⟨hlen, -⟩, -⟩, hrep⟩
          exact ⟨⟨by omega, by omega⟩, ((all_replace (by omega) (by omega)).mp hrep).2⟩
        · rintro ⟨⟨hlen, htcp⟩, hcopy⟩
          refine ⟨⟨by omega, by omega, ⟨by omega, fun _ => by omega⟩, fun _ => trivial,
            fun hn => absurd hflow hn⟩, (all_replace (by omega) (by omega)).mpr ⟨by omega, hcopy⟩⟩
      · rw [if_neg hflow, if_neg hflow]
        constructor
        · rintro ⟨⟨-, htcp, ⟨hlen, -⟩, -, hrest⟩, hrep⟩
          exact ⟨⟨by omega, by omega⟩, ih.mp ⟨hrest hflow, hrep⟩⟩
        · rintro ⟨⟨hlen, htcp⟩, hfit⟩
          obtain ⟨hrest, hrep⟩ := ih.mpr hfit
          exact ⟨⟨by omega, by omega, ⟨by omega, fun _ => by omega⟩, fun h => absurd h hflow,
            fun _ => hrest⟩, hrep⟩

theorem all_tcpackSuppress (f : Frame) (mode : Mode) (infos : List Flow)
    (olds : List (Option Frame)) : (tcpackSuppress mode infos olds f).All Access.Inside ↔
      (mode ≠ .off → ackFits f = true ∧ (f.isTcpack = true → oldsFit f olds = true)) := by
  unfold tcpackSuppress
  rw [Logged.all_ite]
  refine (and_iff_right fun _ => Logged.all_pure _).trans (imp_congr_right fun _ => ?_)
  rw [Logged.all_bind, all_readTcpack, val_readTcpack, Logged.all_ite]
  refine and_congr_right fun hfit => (and_iff_right fun _ => Logged.all_pure _).trans ?_
  rw [Bool.not_eq_false]
  refine imp_congr_right fun hack => ?_
  obtain ⟨h34, hroom⟩ := ack_room hfit hack
  have hports : f.tcpHdr + 4 ≤ f.len := by omega
  rw [Logged.all_bind, all_scanOlds h34 hports]
  refine and_iff_right ?_
  unfold tcpdataPshAcked
  rw [Logged.all_ite]
  exact ⟨fun _ => all_findAcked h34 hports infos, fun _ => Logged.all_pure _⟩

theorem all_scanSlots (h34 : 34 ≤ new.len) (hports : new.tcpHdr + 4 ≤ new.len)
    (slots : List (Option Frame)) :
    (scanSlots new slots >>= heldAck).All Access.Inside ↔ slotsFit new slots = true := by
  have hE : ETHER_HDR_LEN = 14 := rfl
  have hI : IPV4_MIN_HEADER_LEN = 20 := rfl
  induction slots with
  | nil => exact iff_of_true ((Logged.all_bind _ _).mpr ⟨Logged.all_pure _, Logged.all_pure _⟩) rfl
  | cons old slots ih =>
    cases old with
    | none => exact ih
    | some old =>
      rw [Logged.all_bind] at ih ⊢
      unfold scanSlots slotsFit
      simp only [Logged.all_bind, Logged.all_ite, Logged.all_pure, all_byteAt, all_sameFlow h34 hports,
        Logged.val_bind, Logged.val_ite, Logged.val_pure, val_sameFlow]
      rw [Bool.and_eq_true, Bool.and_eq_true, Bool.or_eq_true, decide_eq_true_iff, decide_eq_true_iff,
        decide_eq_true_iff]
      by_cases hflow : old.flow = new.flow
      · have haddrs : old.flow.1 = new.flow.1 := congrArg Prod.fst hflow
        rw [if_pos hflow, if_pos hflow, decide_eq_true_iff]
        unfold heldAck
        rw [Logged.all_bind, all_ntoh32At]
        constructor
        · rintro ⟨⟨-, ⟨hlen, htcp⟩, -⟩, hack, -⟩
          exact ⟨⟨by omega, .inr (htcp haddrs)⟩, by omega⟩
        · rintro ⟨⟨hlen, -⟩, hack⟩
          exact ⟨⟨by omega, ⟨by omega, fun _ => by omega⟩, fun _ => trivial,
            fun hn => absurd hflow hn⟩, by omega, Logged.all_pure _⟩
      · rw [if_neg hflow, if_neg hflow]
        constructor
        · rintro ⟨⟨-, ⟨hlen, htcp⟩, -, hrest⟩, hheld⟩
          exact ⟨⟨by omega, (Decidable.em _).symm.imp_right htcp⟩, ih.mp ⟨hrest hflow, hheld⟩⟩
        · rintro ⟨⟨hlen, htcp⟩, hfit⟩
          obtain ⟨hrest, hheld⟩ := ih.mpr hfit
          exact ⟨⟨by omega, ⟨by omega, fun h => htcp.resolve_left fun hn => hn h⟩,
            fun h => absurd h hflow, fun _ => hrest⟩, hheld⟩

theorem all_tcpackHold (f : Frame) (cfg : Hold.Cfg) (slots : List (Option Frame)) :
    (tcpackHold cfg slots f).All Access.Inside ↔
      (cfg.mode = .hold → cfg.ratio ≠ 1 →
        ackFits f = true ∧ (f.isTcpack = true → slotsFit f slots = true)) := by
  unfold tcpackHold
  rw [Logged.all_ite, not_not]
  refine (and_iff_right fun _ => Logged.all_pure _).trans (imp_congr_right fun _ => ?_)
  rw [Logged.all_ite]
  refine (and_iff_right fun _ => Logged.all_pure _).trans (imp_congr_right fun _ => ?_)
  rw [Logged.all_bind, all_readTcpack, val_readTcpack, Logged.all_ite]
  refine and_congr_right fun hfit => (and_iff_right fun _ => Logged.all_pure _).trans ?_
  rw [Bool.not_eq_false]
  refine imp_congr_right fun hack => ?_
  obtain ⟨h34, hroom⟩ := ack_room hfit hack
  exact all_scanSlots h34 (by omega) slots

/-! ## Fragments -/

theorem intLen_le (f : Frame) : intLen f ≤ f.len := by
  unfold intLen
  split
  · omega
  · omega

theorem all_fragOfIp {length : Int} (hle : length ≤ f.len) (pt ethertype : Nat) :
    (fragOfIp f length pt ethertype).All Access.Inside := by
  have hT : ETHER_TYPE_LEN = 2 := rfl
  have hO : (IPV4_OPTIONS_OFFSET : Int) = 20 := rfl
  unfold fragOfIp
  simp only [Logged.all_bind, Logged.all_ite, Logged.all_pure, all_byteAt, all_ntoh16At]
  refine ⟨fun _ => trivial, fun _ => ⟨fun _ => trivial, fun hipl => ?_⟩⟩
  have hfit : pt + ETHER_TYPE_LEN + 20 ≤ f.len := by omega
  exact ⟨by omega, fun _ => trivial, fun _ => ⟨by omega, trivial⟩⟩

theorem all_fragOfType {length : Int} (hle : length ≤ f.len) {pt : Nat}
    (hpt : (pt + ETHER_TYPE_LEN : Nat) ≤ length) :
    (fragOfType f length pt).All Access.Inside := by
  have hT : ETHER_TYPE_LEN = 2 := rfl
  have hV : VLAN_TAG_LEN = 4 := rfl
  unfold fragOfType
  simp only [Logged.all_bind, Logged.all_ite, Logged.all_pure, all_ntoh16At]
  refine ⟨by omega, fun _ => ⟨fun _ => trivial, fun htag => ⟨by omega, ?_⟩⟩, fun _ => ?_⟩
  · exact all_fragOfIp hle _ _
  · exact all_fragOfIp hle _ _

theorem all_pktFragInfo (f : Frame) :
    (pktFragInfo f).All Access.Inside := by
  have hE : ETHER_HDR_LEN = 14 := rfl
  have hS : SNAP_HDR_LEN = 6 := rfl
  have hT : ETHER_TYPE_LEN = 2 := rfl
  have hle := intLen_le f
  unfold pktFragInfo
  simp only [Logged.all_bind, Logged.all_ite, Logged.all_pure, all_ntoh16At, all_bytesAt]
  refine ⟨fun _ => trivial, fun hshort => ⟨by omega, fun _ => ?_, fun _ => ⟨fun _ => trivial,
    fun hsnap => ⟨.inr (by omega), fun _ => ?_, fun _ => trivial⟩⟩⟩⟩
  · exact all_fragOfType hle (by omega)
  · exact all_fragOfType hle (by omega)

end

/-! ## The same results -/

/-- The frames of the entries of `tcpack_info_tbl`. -/
def framesOf (queue : Suppress.Queue) (tbl : List (Option Nat)) : List (Option Frame) :=
  tbl.map fun e => e.bind (Suppress.frameAt queue)

def scanned : Suppress.Scan → Option Frame
  | .same _ f => some f
  | _ => none

/-- The loop is that of `Suppress.tcpackSuppress`. -/
theorem val_scanOlds {queue : Suppress.Queue} {tbl : List (Option Nat)} {s : Suppress.Scan}
    (h : Suppress.scan queue new tbl = some s) :
    (scanOlds new (framesOf queue tbl)).val = scanned s := by
  induction tbl with
  | nil =>
    cases h
    rfl
  | cons e tbl ih =>
    cases e with
    | none =>
      cases h
      rfl
    | some old =>
      unfold Suppress.scan at h
      unfold framesOf
      rw [List.map_cons, Option.bind_some]
      cases hf : Suppress.frameAt queue old with
      | none =>
        rw [hf] at h
        cases h
      | some f =>
        rw [hf] at h
        dsimp only at h
        unfold scanOlds
        simp only [Logged.val_bind, Logged.val_ite, Logged.val_pure, val_sameFlow]
        split at h
        · next hflow =>
          cases h
          rw [if_pos hflow]
          rfl
        · next hflow =>
          rw [if_neg hflow]
          exact ih h

/-- The loop is that of `Hold.tcpackHold`. -/
theorem val_scanSlots (new : Frame) (tbl : List (Option Hold.Info)) (i : Nat)
    (freeSlot : Option Nat) :
    (scanSlots new (tbl.map (Option.map fun e => e.pkt.frame))).val =
      match Hold.scan new tbl i freeSlot with
      | .same _ old => some old.pkt.frame
      | .absent _ => none := by
  induction tbl generalizing i freeSlot with
  | nil => rfl
  | cons e tbl ih =>
    cases e with
    | none => exact ih (i + 1) _
    | some old =>
      rw [List.map_cons, Option.map_some]
      unfold scanSlots Hold.scan
      simp only [Logged.val_bind, Logged.val_ite, Logged.val_pure, val_sameFlow]
      by_cases hflow : old.pkt.frame.flow = new.flow
      · rw [if_pos hflow, if_pos hflow]
      · rw [if_neg hflow, if_neg hflow]
        exact ih (i + 1) freeSlot

/-- **Which calls stay inside their frames.** -/
theorem accesses_inside_iff (c : Call) :
    (∀ a ∈ accesses c, a.Inside) ↔ fits c = true := by
  cases c with
  | tcpdataInfoGet mode mod pkt clock =>
    refine (all_tcpdataInfoGet pkt.len_lt mode mod clock).trans ?_
    unfold fits
    rw [Bool.or_eq_true, decide_eq_true_iff, imp_iff_not_or]
  | tcpackSuppress mode infos olds pkt =>
    refine (all_tcpackSuppress pkt.frame mode infos olds).trans ?_
    unfold fits
    rw [Bool.or_eq_true, Bool.and_eq_true, Bool.or_eq_true, decide_eq_true_iff, Bool.not_eq_true',
      ← Bool.not_eq_true, ← imp_iff_not_or]
    exact or_iff_not_imp_left.symm
  | tcpackHold cfg slots pkt =>
    refine (all_tcpackHold pkt.frame cfg slots).trans ?_
    unfold fits
    rw [Bool.or_eq_true, Bool.or_eq_true, Bool.and_eq_true, Bool.or_eq_true, decide_eq_true_iff,
      decide_eq_true_iff, Bool.not_eq_true', ← Bool.not_eq_true, or_assoc, ← imp_iff_not_or,
      ← imp_iff_not_or]
    exact imp_congr_right fun _ => or_iff_not_imp_left.symm
  | tcpdataGetFlag pkt => exact all_tcpdataGetFlag pkt.len_lt
  | pktFragInfo pkt => exact iff_of_true (all_pktFragInfo pkt.frame) rfl

/-- 34 bytes of IPv4 and TCP, with an IP header length of 60. -/
def longHeader : Packet where
  frame :=
    { len := 34
      data := fun i => if i = 12 then 0x08 else if i = 14 then 0x4f else if i = 23 then 6 else 0 }
  len_lt := by decide

/-- The TCP header length is read at 86. -/
theorem accesses_not_inside : ¬ ∀ c, ∀ a ∈ accesses c, a.Inside := by
  intro h
  have hread : (⟨false, false, 34, 86⟩ : Access) ∈
      accesses (.tcpdataInfoGet .delaytx none longHeader fun _ => 0) := by decide
  have hin := (h _ _ hread).1
  exact absurd hin (by decide)

end Bcmdhd.Tcpack.FrameAccess
