import Bcmdhd.Lib.Records
import Mathlib.Data.Nat.Basic

/-!
# TCP ACK frames (`dhd_ip.c`)

What `dhd_tcpack_hold` and `dhd_tcpack_suppress` read of a frame: whether it is an ACK without
data, its flow (addresses and ports) and its ACK number.  ACK numbers are compared modulo 2^32;
less than half of them apart this is an order (`tcpseqGt_iff`).
-/

namespace Bcmdhd.Tcpack

open Records

def ETHER_HDR_LEN : Nat := 14
def ETHER_TYPE_IP : Nat := 0x0800
def IPV4_MIN_HEADER_LEN : Nat := 20
def TCP_MIN_HEADER_LEN : Nat := 20
def IP_VER_4 : Nat := 4
def IP_PROT_TCP : Nat := 6
def TCP_FLAG_ACK : Nat := 0x10
def TCPACKSZMIN : Nat := ETHER_HDR_LEN + IPV4_MIN_HEADER_LEN + TCP_MIN_HEADER_LEN
def TCPACKSZMAX : Nat := TCPACKSZMIN + 100
def TCPACK_INFO_MAXNUM : Nat := 40

/-- `tcpack_sup_mode` -/
inductive Mode
  | off
  | replace
  | delaytx
  | hold
deriving DecidableEq, Repr

/-- `PKTLEN` and the memory at `PKTDATA`. -/
structure Frame where
  len : Nat
  data : Nat → UInt8

namespace Frame

def byte (f : Frame) (i : Nat) : Nat := (f.data i).toNat

def ntoh16 (f : Frame) (i : Nat) : Nat := f.byte i * 0x100 + f.byte (i + 1)

def ntoh32 (f : Frame) (i : Nat) : Nat := f.ntoh16 i * 0x10000 + f.ntoh16 (i + 2)

def etherType (f : Frame) : Nat := f.ntoh16 12

def ipVer (f : Frame) : Nat := f.byte ETHER_HDR_LEN / 0x10

/-- `IPV4_HLEN` -/
def ipHdrLen (f : Frame) : Nat := 4 * (f.byte ETHER_HDR_LEN % 0x10)

def ipProt (f : Frame) : Nat := f.byte (ETHER_HDR_LEN + 9)

def ipTotalLen (f : Frame) : Nat := f.ntoh16 (ETHER_HDR_LEN + 2)

/-- Where the TCP header is. -/
def tcpHdr (f : Frame) : Nat := ETHER_HDR_LEN + f.ipHdrLen

def tcpHdrLen (f : Frame) : Nat := 4 * (f.byte (f.tcpHdr + 12) / 0x10)

def tcpFlags (f : Frame) : Nat := f.byte (f.tcpHdr + 13)

def tcpAckNum (f : Frame) : Nat := f.ntoh32 (f.tcpHdr + 8)

/-- The addresses and the ports, as `memcmp` compares them. -/
def flow (f : Frame) : List UInt8 × List UInt8 :=
  (readAt f.data (ETHER_HDR_LEN + 12) 8, readAt f.data f.tcpHdr 4)

/-- An IPv4 TCP frame with the ACK flag alone and no data. -/
def isTcpack (f : Frame) : Bool :=
  TCPACKSZMIN ≤ f.len ∧ f.len ≤ TCPACKSZMAX ∧ f.etherType = ETHER_TYPE_IP ∧
    f.ipVer = IP_VER_4 ∧ f.ipProt = IP_PROT_TCP ∧ f.tcpFlags = TCP_FLAG_ACK ∧
    f.ipTotalLen ≤ f.ipHdrLen + f.tcpHdrLen

theorem byte_lt (f : Frame) (i : Nat) : f.byte i < 0x100 := UInt8.toNat_lt _

theorem tcpAckNum_lt (f : Frame) : f.tcpAckNum < 0x100000000 := by
  unfold tcpAckNum ntoh32 ntoh16
  have h0 := f.byte_lt (f.tcpHdr + 8)
  have h1 := f.byte_lt (f.tcpHdr + 8 + 1)
  have h2 := f.byte_lt (f.tcpHdr + 8 + 2)
  have h3 := f.byte_lt (f.tcpHdr + 8 + 2 + 1)
  omega

end Frame

/-! ## ACK numbers -/

/-- `IS_TCPSEQ_GE` -/
def tcpseqGe (a b : Nat) : Bool := (a + 0x100000000 - b) % 0x100000000 < 0x80000000

/-- `IS_TCPSEQ_LE` -/
def tcpseqLe (a b : Nat) : Bool := (b + 0x100000000 - a) % 0x100000000 < 0x80000000

/-- `IS_TCPSEQ_GT` -/
def tcpseqGt (a b : Nat) : Bool := !tcpseqLe a b

/-- `IS_TCPSEQ_LT` -/
def tcpseqLt (a b : Nat) : Bool := !tcpseqGe a b

/-- How far `a` is behind `base`. -/
def seqOff (base a : Nat) : Nat := (a + 0x100000000 - base) % 0x100000000

/-- In half of the sequence space `IS_TCPSEQ_GT` is the order from its base. -/
theorem tcpseqGt_iff {base a b : Nat} (hbase : base < 0x100000000) (ha : a < 0x100000000)
    (hb : b < 0x100000000) (hao : seqOff base a < 0x80000000) (hbo : seqOff base b < 0x80000000) :
    tcpseqGt a b = true ↔ seqOff base b < seqOff base a := by
  unfold tcpseqGt tcpseqLe
  rw [Bool.not_eq_true', decide_eq_false_iff_not]
  unfold seqOff at *
  omega

end Bcmdhd.Tcpack
