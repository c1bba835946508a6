import Bcmdhd.Lib.OnesComplement
import Bcmdhd.NvramVars

/-!
# Internet checksums (`bcmutils.c`)

`ip_cksum` adds the 16-bit words of a packet as the host loads them, and stores the complement of
the sum as it is; `bcm_ip_cksum` adds them in network order.  A load is `0x100` or `0x01` times the
word, but a byte that is left over is added as it is:

    code o bs ≡ unit o * net bs ↔ Leftover o bs                                    (code_modEq_iff)
-/

namespace Bcmdhd.IpCksum

open NvramVars (uint32)
open OnesComplement

/-! ## Algorithm -/

inductive ByteOrder
  | little
  | big
deriving DecidableEq

def load16 : ByteOrder → UInt8 → UInt8 → Nat
  | .little, b0, b1 => b0.toNat + 0x100 * b1.toNat
  | .big, b0, b1 => 0x100 * b0.toNat + b1.toNat

def store16 : ByteOrder → Nat → List UInt8
  | .little, w => [UInt8.ofNat w, UInt8.ofNat (w / 0x100)]
  | .big, w => [UInt8.ofNat (w / 0x100), UInt8.ofNat w]

def hton16 : ByteOrder → Nat → Nat
  | .little, w => swap w
  | .big, w => w

/-- Adds the words and what is left over. -/
def sumWords (word : UInt8 → UInt8 → Nat) (left : UInt8 → Nat) : Nat → List UInt8 → Nat
  | sum, [] => sum
  | sum, [b] => uint32 (sum + left b)
  | sum, b0 :: b1 :: bs => sumWords word left (uint32 (sum + word b0 b1)) bs

/-- `count` is even. -/
def ipCksumPartial (o : ByteOrder) (sum : Nat) (val8 : List UInt8) : Nat :=
  sumWords (load16 o) (fun _ => 0) sum val8

def ipCksum (o : ByteOrder) (sum : Nat) (val8 : List UInt8) : Nat :=
  -- add left-over byte, if any
  let sum := sumWords (load16 o) UInt8.toNat sum val8
  -- fold 32-bit sum to 16 bits
  let sum := uint32 (sum / 0x10000 + sum % 0x10000)
  let sum := uint32 (sum + sum / 0x10000)
  0xFFFF - sum % 0x10000

/-- `while (sum >> 16)` -/
def fold (sum : Nat) : Nat :=
  if sum / 0x10000 = 0 then sum else fold (uint32 (sum % 0x10000 + sum / 0x10000))
termination_by sum
decreasing_by
  have hmod := Nat.mod_le (sum % 0x10000 + sum / 0x10000) 0x100000000
  unfold uint32
  omega

def bcmIpCksum (buf : List UInt8) (sum : Nat) : Nat :=
  0xFFFF - fold (sumWords (load16 .big) (fun b => 0x100 * b.toNat) sum buf) % 0x10000

def field (bs : List UInt8) (off n : Nat) : List UInt8 := (bs.drop off).take n

def ipv4HdrCksum (o : ByteOrder) (ip : List UInt8) : Nat :=
  if ip.length < 20 then 0
  else ipCksum o (ipCksumPartial o 0 (ip.take 10)) (ip.drop 12)

def tcpHdrChksum (o : ByteOrder) (sum : Nat) (tcp : List UInt8) : Nat :=
  ipCksum o (ipCksumPartial o sum (tcp.take 16)) (tcp.drop 18)

/-- `struct tcp_pseudo_hdr` -/
def tcpPs (o : ByteOrder) (ip : List UInt8) (tcpLen : Nat) : List UInt8 :=
  field ip 12 4 ++ (field ip 16 4 ++ (0 :: field ip 9 1 ++ store16 o (hton16 o tcpLen)))

def ipv4TcpHdrCksum (o : ByteOrder) (ip tcp : List UInt8) : Nat :=
  tcpHdrChksum o (ipCksumPartial o 0 (tcpPs o ip tcp.length)) tcp

/-- `struct ipv6_pseudo_hdr` -/
def ipv6Pseudo (ipv6 : List UInt8) : List UInt8 :=
  field ipv6 8 16 ++ (field ipv6 24 16 ++ (field ipv6 4 2 ++ 0 :: field ipv6 6 1))

def ipv6TcpHdrCksum (o : ByteOrder) (ipv6 tcp : List UInt8) : Nat :=
  tcpHdrChksum o (ipCksumPartial o 0 (ipv6Pseudo ipv6)) tcp

/-! ## Packets -/

/-- Network order. -/
def net16 (n : Nat) : List UInt8 := store16 .big n

structure Ipv4Hdr where
  bytes : List UInt8
  min : 20 ≤ bytes.length
  max : bytes.length ≤ 60
  words : bytes.length % 4 = 0

structure Tcp where
  bytes : List UInt8
  min : 20 ≤ bytes.length
  max : bytes.length ≤ 0xFFFF

structure Ipv4Tcp where
  ip : Ipv4Hdr
  tcp : Tcp
  prot : field ip.bytes 9 1 = [6]

def Ipv4Tcp.pseudo (p : Ipv4Tcp) : List UInt8 :=
  field p.ip.bytes 12 4 ++ (field p.ip.bytes 16 4 ++ ([0, 6] ++ net16 p.tcp.bytes.length))

/-- With extension headers between the two; a routing header has another destination. -/
structure Ipv6Tcp where
  ipv6 : List UInt8
  size : ipv6.length = 40
  ext : List UInt8
  daddr : List UInt8
  daddrSize : daddr.length = 16
  tcp : Tcp
  inside : ext.length + tcp.bytes.length ≤ 0xFFFF
  payload : field ipv6 4 2 = net16 (ext.length + tcp.bytes.length)
  direct : ext = [] → field ipv6 6 1 = [6] ∧ field ipv6 24 16 = daddr

def Ipv6Tcp.pseudo (p : Ipv6Tcp) : List UInt8 :=
  field p.ipv6 8 16 ++ (p.daddr ++ ([0, 0] ++ net16 p.tcp.bytes.length ++ [0, 0, 0, 6]))

/-- The words in network order, with a zero behind an odd byte. -/
def words : List UInt8 → List Nat
  | [] => []
  | [b] => [0x100 * b.toNat]
  | b0 :: b1 :: bs => (0x100 * b0.toNat + b1.toNat) :: words bs

def insert (bs : List UInt8) (off : Nat) (w : List UInt8) : List UInt8 :=
  bs.take off ++ (w ++ bs.drop (off + 2))

/-- The field at `off` verifies behind the pseudo header, does not depend on what it was before, and
is that of `bcm_ip_cksum` for the bytes that were summed. -/
structure Inserted (o : ByteOrder) (pseudo summed : List UInt8) (off : Nat)
    (cksum : List UInt8 → Nat) (bs : List UInt8) : Prop where
  verifies : total (words (pseudo ++ insert bs off (store16 o (cksum bs)))) = 0xFFFF
  independent : ∀ b0 b1, cksum (insert bs off [b0, b1]) = cksum bs
  agrees : cksum bs = hton16 o (bcmIpCksum (summed ++ insert bs off [0, 0]) 0)

/-! ## Sums -/

def weigh (word : UInt8 → UInt8 → Nat) (left : UInt8 → Nat) : List UInt8 → Nat
  | [] => 0
  | [b] => left b
  | b0 :: b1 :: bs => word b0 b1 + weigh word left bs

/-- What `ip_cksum` adds. -/
def code (o : ByteOrder) (bs : List UInt8) : Nat := weigh (load16 o) UInt8.toNat bs

def net (bs : List UInt8) : Nat := weigh (load16 .big) (fun b => 0x100 * b.toNat) bs

variable {bs : List UInt8} {off : Nat}

section

variable {word : UInt8 → UInt8 → Nat} {left : UInt8 → Nat}

theorem sumWords_eq (sum : Nat) (bs : List UInt8)
    (h : sum + weigh word left bs < 0x100000000) :
    sumWords word left sum bs = sum + weigh word left bs := by
  induction bs using words.induct generalizing sum with
  | case1 => rfl
  | case2 b => exact Nat.mod_eq_of_lt h
  | case3 b0 b1 bs ih =>
    rw [weigh, ← Nat.add_assoc] at h
    have hsum : uint32 (sum + word b0 b1) = sum + word b0 b1 :=
      Nat.mod_eq_of_lt (Nat.lt_of_le_of_lt (Nat.le_add_right ..) h)
    rw [sumWords, hsum, ih _ h, weigh, Nat.add_assoc]

theorem weigh_append {as : List UInt8} (h : as.length % 2 = 0) (bs : List UInt8) :
    weigh word left (as ++ bs) = weigh word left as + weigh word left bs := by
  induction as using words.induct with
  | case1 => exact (Nat.zero_add _).symm
  | case2 b => cases h
  | case3 b0 b1 as ih =>
    have heven : as.length % 2 = 0 := by
      rw [List.length_cons, List.length_cons] at h
      omega
    rw [List.cons_append, List.cons_append, weigh, ih heven, weigh, Nat.add_assoc]

theorem weigh_le (hword : ∀ b0 b1, word b0 b1 ≤ 0xFFFF) (hleft : ∀ b, left b ≤ 0xFFFF)
    (bs : List UInt8) : weigh word left bs ≤ 0xFFFF * ((bs.length + 1) / 2) := by
  induction bs using words.induct with
  | case1 => exact Nat.zero_le _
  | case2 b =>
    rw [weigh, List.length_singleton]
    exact hleft b
  | case3 b0 b1 bs ih =>
    have hw := hword b0 b1
    rw [weigh, List.length_cons, List.length_cons]
    omega

/-- Without a byte that is left over. -/
theorem weigh_even (h : bs.length % 2 = 0) (left' : UInt8 → Nat) :
    weigh word left bs = weigh word left' bs := by
  induction bs using words.induct with
  | case1 => rfl
  | case2 b => cases h
  | case3 b0 b1 bs ih =>
    have heven : bs.length % 2 = 0 := by
      rw [List.length_cons, List.length_cons] at h
      omega
    rw [weigh, weigh, ih heven]

end

theorem load16_le (o : ByteOrder) (b0 b1 : UInt8) : load16 o b0 b1 ≤ 0xFFFF := by
  have h0 := b0.toNat_lt
  have h1 := b1.toNat_lt
  cases o <;> simp only [load16] <;> omega

theorem code_le (o : ByteOrder) (bs : List UInt8) : code o bs ≤ 0xFFFF * ((bs.length + 1) / 2) :=
  weigh_le (load16_le o) (fun b => by have h := b.toNat_lt; omega) bs

theorem net_le (bs : List UInt8) : net bs ≤ 0xFFFF * ((bs.length + 1) / 2) :=
  weigh_le (load16_le .big) (fun b => by have h := b.toNat_lt; omega) bs

theorem words_sum (bs : List UInt8) : (words bs).sum = net bs := by
  induction bs using words.induct with
  | case1 => rfl
  | case2 b => rfl
  | case3 b0 b1 bs ih =>
    rw [words, List.sum_cons, ih]
    rfl

theorem words_le (bs : List UInt8) : ∀ w ∈ words bs, w ≤ 0xFFFF := by
  induction bs using words.induct with
  | case1 => exact nofun
  | case2 b =>
    have h := b.toNat_lt
    exact List.forall_mem_singleton.mpr (by omega)
  | case3 b0 b1 bs ih => exact List.forall_mem_cons.mpr ⟨load16_le .big b0 b1, ih⟩

theorem total_words (bs : List UInt8) : total (words bs) = canon (net bs) := by
  rw [total_eq (words_le bs), words_sum]

theorem code_eq_zero_iff (o : ByteOrder) (bs : List UInt8) : code o bs = 0 ↔ net bs = 0 := by
  unfold code net
  induction bs using words.induct with
  | case1 => rfl
  | case2 b =>
    unfold weigh
    omega
  | case3 b0 b1 bs ih =>
    have hword : load16 o b0 b1 = 0 ↔ load16 .big b0 b1 = 0 := by
      cases o with
      | little =>
        simp only [load16]
        omega
      | big => rfl
    rw [weigh, weigh, Nat.add_eq_zero_iff, Nat.add_eq_zero_iff, hword, ih]

/-! ## Byte order -/

/-- What a word is loaded as. -/
def unit : ByteOrder → Nat
  | .little => 0x100
  | .big => 1

/-- A byte that is left over is the first of a word on little-endian hosts only. -/
def Leftover (o : ByteOrder) (bs : List UInt8) : Prop :=
  o = .little ∨ bs.length % 2 = 0 ∨ bs.getLast? = some 0

theorem load16_modEq (o : ByteOrder) (b0 b1 : UInt8) :
    unit o * load16 .big b0 b1 ≡ load16 o b0 b1 [MOD 0xFFFF] := by
  unfold Nat.ModEq
  cases o <;> simp only [unit, load16] <;> omega

theorem code_modEq_iff (o : ByteOrder) (bs : List UInt8) :
    unit o * net bs ≡ code o bs [MOD 0xFFFF] ↔ Leftover o bs := by
  unfold net code
  induction bs using words.induct with
  | case1 => exact iff_of_true rfl (.inr (.inl rfl))
  | case2 b =>
    have hb := b.toNat_lt
    have hzero : b.toNat = 0 ↔ b = 0 := by
      rw [← UInt8.toNat_inj]
      rfl
    cases o with
    | little =>
      refine iff_of_true ?_ (.inl rfl)
      simp only [unit, weigh, Nat.ModEq]
      omega
    | big =>
      have hlast : Leftover .big [b] ↔ b.toNat = 0 := by
        simp [Leftover, hzero]
      rw [hlast]
      simp only [unit, weigh, Nat.ModEq]
      omega
  | case3 b0 b1 bs ih =>
    have hrest : Leftover o (b0 :: b1 :: bs) ↔ Leftover o bs := by
      cases bs with
      | nil => simp [Leftover]
      | cons b bs =>
        unfold Leftover
        rw [List.length_cons, List.length_cons, List.getLast?_cons_cons, List.getLast?_cons_cons,
          Nat.add_assoc, Nat.add_mod_right]
    rw [hrest, ← ih, weigh, weigh, Nat.mul_add]
    exact (load16_modEq o b0 b1).add_iff_left

theorem hton16_modEq (o : ByteOrder) (w : Nat) : hton16 o w ≡ unit o * w [MOD 0xFFFF] := by
  cases o with
  | little => exact swap_modEq w
  | big =>
    rw [unit, Nat.one_mul]
    rfl

theorem unit_cancel (o : ByteOrder) {m n : Nat} (h : unit o * m ≡ unit o * n [MOD 0xFFFF]) :
    m ≡ n [MOD 0xFFFF] := by
  cases o with
  | little => exact modEq_of_mul h
  | big => rwa [unit, Nat.one_mul, Nat.one_mul] at h

theorem unit_unit (o : ByteOrder) (n : Nat) : unit o * (unit o * n) ≡ n [MOD 0xFFFF] := by
  unfold Nat.ModEq
  cases o <;> simp only [unit] <;> omega

theorem net_store16 (o : ByteOrder) {w : Nat} (h : w ≤ 0xFFFF) :
    net (store16 o w) = hton16 o w := by
  cases o with
  | little =>
    simp only [net, weigh, store16, hton16, load16, swap, UInt8.toNat_ofNat']
    omega
  | big =>
    simp only [net, weigh, store16, hton16, load16, UInt8.toNat_ofNat']
    omega

theorem hton16_canon (o : ByteOrder) {m n : Nat} (hmod : unit o * m ≡ n [MOD 0xFFFF])
    (hzero : m = 0 ↔ n = 0) : hton16 o (canon m) = canon n := by
  cases o with
  | little => exact swap_canon hmod hzero
  | big =>
    rw [unit, Nat.one_mul] at hmod
    exact canon_congr hmod hzero

theorem hton16_complement (o : ByteOrder) {w : Nat} (h : w ≤ 0xFFFF) :
    hton16 o (0xFFFF - w) = 0xFFFF - hton16 o w := by
  cases o with
  | little => exact swap_complement h
  | big => rfl

theorem hton16_eq_zero_iff (o : ByteOrder) (w : Nat) : hton16 o w = 0 ↔ w = 0 := by
  cases o with
  | little => exact swap_eq_zero_iff w
  | big => rfl

/-- The complement of the loads verifies the words that they stand for. -/
theorem verifies_iff (o : ByteOrder) {w s : Nat} (hzero : w = 0 → s = 0) :
    canon (w + hton16 o (0xFFFF - canon s)) = 0xFFFF ↔ unit o * w ≡ s [MOD 0xFFFF] := by
  have hpos : 0 < w + hton16 o (0xFFFF - canon s) := by
    have hs := complement_pos s
    have hton := hton16_eq_zero_iff o (0xFFFF - canon s)
    omega
  have hcomplement := complement_modEq s
  have hback : unit o * hton16 o (0xFFFF - canon s) ≡ 0xFFFF - canon s [MOD 0xFFFF] :=
    ((hton16_modEq o _).mul_left (unit o)).trans (unit_unit o _)
  rw [canon_eq_max_iff, and_iff_right hpos]
  constructor
  · intro hsum
    have hunit := hsum.mul_left (unit o)
    rw [Nat.mul_add, Nat.mul_zero] at hunit
    exact hback.add_right_cancel (hunit.trans hcomplement.symm)
  · intro hmod
    apply unit_cancel o
    rw [Nat.mul_add, Nat.mul_zero]
    exact (hmod.add hback).trans hcomplement

/-- The complement of the loads is that of the words, moved to network order. -/
theorem agrees_iff (o : ByteOrder) {w s : Nat} (hzero : w = 0 ↔ s = 0) :
    0xFFFF - canon s = hton16 o (0xFFFF - canon w) ↔ unit o * w ≡ s [MOD 0xFFFF] := by
  constructor
  · intro heq
    have hw : unit o * w + unit o * (0xFFFF - canon w) ≡ 0 [MOD 0xFFFF] := by
      rw [← Nat.mul_add]
      exact (complement_modEq w).mul_left (unit o)
    have hs : s + unit o * (0xFFFF - canon w) ≡ 0 [MOD 0xFFFF] :=
      ((heq ▸ hton16_modEq o _ : 0xFFFF - canon s ≡ _ [MOD 0xFFFF]).symm.add_left s).trans
        (complement_modEq s)
    exact Nat.ModEq.rfl.add_right_cancel (hw.trans hs.symm)
  · intro hmod
    rw [hton16_complement o (canon_le w), hton16_canon o hmod hzero]

/-! ## Routines -/

theorem fold_eq {n : Nat} (h : n < 0x100000000) : fold n = canon n := by
  induction n using Nat.strongRecOn with
  | ind n ih =>
    unfold fold
    by_cases hhigh : n / 0x10000 = 0
    · rw [if_pos hhigh, canon_of_le (by omega)]
    · have hsum : uint32 (n % 0x10000 + n / 0x10000) = n % 0x10000 + n / 0x10000 :=
        Nat.mod_eq_of_lt (by omega)
      rw [if_neg hhigh, hsum, ih _ (by omega) (by omega), canon_fold]

theorem bcmIpCksum_eq {buf : List UInt8} (h : net buf < 0x100000000) :
    bcmIpCksum buf 0 = 0xFFFF - canon (net buf) := by
  have hsum := sumWords_eq 0 buf (show 0 + net buf < 0x100000000 by omega)
  have hcanon := canon_le (net buf)
  unfold bcmIpCksum
  rw [hsum, Nat.zero_add, show weigh _ _ buf = net buf from rfl, fold_eq h,
    Nat.mod_eq_of_lt (Nat.lt_succ_of_le hcanon)]

theorem ipCksumPartial_eq (o : ByteOrder) {sum : Nat} {val8 : List UInt8}
    (heven : val8.length % 2 = 0) (h : sum + code o val8 < 0x100000000) :
    ipCksumPartial o sum val8 = sum + code o val8 := by
  have hcode : weigh (load16 o) (fun _ => 0) val8 = code o val8 := weigh_even heven _
  unfold ipCksumPartial
  rw [sumWords_eq sum val8 (by rw [hcode]; exact h), hcode]

/-- Two additions are enough for 32 bits. -/
theorem ipCksum_eq (o : ByteOrder) {sum : Nat} {val8 : List UInt8}
    (h : sum + code o val8 < 0x100000000) :
    ipCksum o sum val8 = 0xFFFF - canon (sum + code o val8) := by
  unfold ipCksum
  rw [sumWords_eq sum val8 h]
  change 0xFFFF - uint32 (uint32 ((sum + code o val8) / 0x10000 + (sum + code o val8) % 0x10000) +
    uint32 ((sum + code o val8) / 0x10000 + (sum + code o val8) % 0x10000) / 0x10000) % 0x10000 = _
  generalize sum + code o val8 = n at h ⊢
  obtain ⟨m, hm⟩ : ∃ m, m = n / 0x10000 + n % 0x10000 := ⟨_, rfl⟩
  have hfirst : uint32 m = m := Nat.mod_eq_of_lt (by omega)
  have hsecond : uint32 (m + m / 0x10000) = m + m / 0x10000 := Nat.mod_eq_of_lt (by omega)
  have hcanon : canon n = canon m := by
    rw [← canon_fold n, hm, Nat.add_comm]
  have hfold : (m + m / 0x10000) % 0x10000 = canon m := by
    have hle : m ≤ 0x1FFFE := by omega
    obtain hcarry | hcarry : m / 0x10000 = 0 ∨ m / 0x10000 = 1 := by omega
    all_goals
      rw [hcarry]
      refine canon_unique (by omega) ?_ (by omega)
      unfold Nat.ModEq
      omega
  rw [← hm, hfirst, hsecond, hfold, hcanon]

/-! ## Insertion -/

theorem insert_length {f : List UInt8} (hin : off + 2 ≤ bs.length) (hf : f.length = 2) :
    (insert bs off f).length = bs.length := by
  unfold insert
  rw [List.length_append, List.length_append, List.length_take_of_le (by omega), hf,
    List.length_drop]
  omega

theorem insert_take (hin : off + 2 ≤ bs.length) (f : List UInt8) :
    (insert bs off f).take off = bs.take off := by
  have htake : (bs.take off).length = off := List.length_take_of_le (by omega)
  exact List.take_left' htake

theorem insert_drop {f : List UInt8} (hin : off + 2 ≤ bs.length) (hf : f.length = 2) :
    (insert bs off f).drop (off + 2) = bs.drop (off + 2) := by
  have htake : (bs.take off).length = off := List.length_take_of_le (by omega)
  have hhead : (bs.take off ++ f).length = off + 2 := by
    rw [List.length_append, htake, hf]
  unfold insert
  rw [← List.append_assoc]
  exact List.drop_left' hhead

theorem net_insert {pre f : List UInt8} (hpre : pre.length % 2 = 0) (ho : off % 2 = 0)
    (hin : off + 2 ≤ bs.length) (hf : f.length = 2) :
    net (pre ++ insert bs off f) =
      net pre + net (bs.take off) + net (bs.drop (off + 2)) + net f := by
  have htake : (bs.take off).length = off := List.length_take_of_le (by omega)
  unfold net insert
  rw [weigh_append hpre, weigh_append (htake.symm ▸ ho), weigh_append (by rw [hf])]
  omega

theorem store16_length (o : ByteOrder) (w : Nat) : (store16 o w).length = 2 := by
  cases o <;> rfl

/-- The routine must add the pseudo header, and not more than the words of the packet. -/
theorem inserted_iff {o : ByteOrder} {pseudo summed : List UInt8} {cksum : List UInt8 → Nat}
    (hp : pseudo.length % 2 = 0) (hs : summed.length % 2 = 0) (ho : off % 2 = 0)
    (hin : off + 2 ≤ bs.length) (hsmall : summed.length + bs.length ≤ 0x1FFF0)
    (hzero : net pseudo = 0 → net summed = 0)
    (hc : ∀ cs : List UInt8, cs.length = bs.length → cksum cs = 0xFFFF -
      canon (code o summed + code o (cs.take off) + code o (cs.drop (off + 2)))) :
    Inserted o pseudo summed off cksum bs ↔
      Leftover o (bs.drop (off + 2)) ∧ net pseudo ≡ net summed [MOD 0xFFFF] := by
  obtain ⟨s, hsum⟩ : ∃ s, s = code o summed + code o (bs.take off) + code o (bs.drop (off + 2)) :=
    ⟨_, rfl⟩
  have heven : ∀ as : List UInt8, as.length % 2 = 0 → unit o * net as ≡ code o as [MOD 0xFFFF] :=
    fun as h => (code_modEq_iff o as).mpr (.inr (.inl h))
  have htake : (bs.take off).length % 2 = 0 := by
    rw [List.length_take_of_le (by omega)]
    exact ho
  have hcksum : cksum bs = 0xFFFF - canon s := hsum ▸ hc bs rfl
  have hleft : unit o * (net summed + net (bs.take off) + net (bs.drop (off + 2))) ≡ s
      [MOD 0xFFFF] ↔ Leftover o (bs.drop (off + 2)) := by
    rw [hsum, Nat.mul_add, Nat.mul_add, ← code_modEq_iff]
    exact ((heven summed hs).add (heven _ htake)).add_iff_left
  have hcode : ∀ as, code o as = 0 ↔ net as = 0 := code_eq_zero_iff o
  have hagrees : cksum bs = hton16 o (bcmIpCksum (summed ++ insert bs off [0, 0]) 0) ↔
      Leftover o (bs.drop (off + 2)) := by
    have hlen : (summed ++ insert bs off [0, 0]).length ≤ 0x1FFF0 := by
      rw [List.length_append, insert_length hin rfl]
      exact hsmall
    have hle := net_le (summed ++ insert bs off [0, 0])
    have hnet := net_insert hs ho hin (rfl : ([0, 0] : List UInt8).length = 2)
    rw [hcksum, bcmIpCksum_eq (by omega), hnet, ← hleft, show net [0, 0] = 0 from rfl, Nat.add_zero]
    apply agrees_iff
    rw [hsum]
    simp only [Nat.add_eq_zero_iff, hcode]
  have hverifies : total (words (pseudo ++ insert bs off (store16 o (cksum bs)))) = 0xFFFF ↔
      unit o * (net pseudo + net (bs.take off) + net (bs.drop (off + 2))) ≡ s [MOD 0xFFFF] := by
    rw [total_words, net_insert hp ho hin (store16_length ..), hcksum, net_store16 o (by omega)]
    apply verifies_iff
    rw [hsum]
    simp only [Nat.add_eq_zero_iff, hcode]
    exact fun h => ⟨⟨hzero h.1.1, h.1.2⟩, h.2⟩
  constructor
  · intro h
    have hl := hagrees.mp h.agrees
    refine ⟨hl, ?_⟩
    have hmod := unit_cancel o ((hverifies.mp h.verifies).trans (hleft.mpr hl).symm)
    exact Nat.ModEq.rfl.add_right_cancel (Nat.ModEq.rfl.add_right_cancel hmod)
  · rintro ⟨hl, hmod⟩
    refine ⟨hverifies.mpr ?_, ?_, hagrees.mpr hl⟩
    · exact (((hmod.add_right _).add_right _).mul_left (unit o)).trans (hleft.mpr hl)
    · intro b0 b1
      rw [hc _ (insert_length hin rfl), hc bs rfl, insert_take hin, insert_drop hin rfl]

theorem leftover_drop (o : ByteOrder) {n : Nat} (hn : n % 2 = 0) (hlt : n < bs.length) :
    Leftover o (bs.drop n) ↔ Leftover o bs := by
  have hparity : (bs.length - n) % 2 = bs.length % 2 := by omega
  unfold Leftover
  rw [List.length_drop, List.getLast?_drop, if_neg (Nat.not_le.mpr hlt), hparity]

/-! ## Headers -/

theorem field_length {n : Nat} (h : off + n ≤ bs.length) :
    (field bs off n).length = n := by
  unfold field
  rw [List.length_take, List.length_drop]
  omega

theorem hton16_net (o : ByteOrder) {n : Nat} (h : n ≤ 0xFFFF) :
    store16 o (hton16 o n) = net16 n := by
  cases o with
  | little =>
    have hhigh : swap n / 0x100 % 0x100 = n % 0x100 := by
      have hdiv : swap n / 0x100 = n % 0x100 := by
        unfold swap
        omega
      rw [hdiv, Nat.mod_mod]
    have hlow : swap n % 0x100 = n / 0x100 % 0x100 := by
      unfold swap
      omega
    simp only [store16, hton16, net16, List.cons.injEq, and_true, ← UInt8.toNat_inj,
      UInt8.toNat_ofNat']
    exact ⟨hlow, hhigh⟩
  | big => rfl

theorem ipv4HdrCksum_eq (o : ByteOrder) {ip : List UInt8} (hmin : 20 ≤ ip.length)
    (hmax : ip.length ≤ 60) :
    ipv4HdrCksum o ip = 0xFFFF - canon (code o [] + code o (ip.take 10) + code o (ip.drop 12)) := by
  have hhead := code_le o (ip.take 10)
  have htail := code_le o (ip.drop 12)
  rw [List.length_take_of_le (by omega)] at hhead
  rw [List.length_drop] at htail
  have heven : (ip.take 10).length % 2 = 0 := by
    rw [List.length_take_of_le (by omega)]
  unfold ipv4HdrCksum
  rw [if_neg (by omega), ipCksumPartial_eq o heven (by omega), ipCksum_eq o (by omega)]
  rfl

theorem tcpHdrChksum_eq (o : ByteOrder) {summed tcp : List UInt8} (hs : summed.length ≤ 40)
    (heven : summed.length % 2 = 0) (hmin : 20 ≤ tcp.length) (hmax : tcp.length ≤ 0xFFFF) :
    tcpHdrChksum o (ipCksumPartial o 0 summed) tcp = 0xFFFF -
      canon (code o summed + code o (tcp.take 16) + code o (tcp.drop 18)) := by
  have hpseudo := code_le o summed
  have hhead := code_le o (tcp.take 16)
  have htail := code_le o (tcp.drop 18)
  rw [List.length_take_of_le (by omega)] at hhead
  rw [List.length_drop] at htail
  have htake : (tcp.take 16).length % 2 = 0 := by
    rw [List.length_take_of_le (by omega)]
  unfold tcpHdrChksum
  rw [ipCksumPartial_eq o heven (by omega), Nat.zero_add, ipCksumPartial_eq o htake (by omega),
    ipCksum_eq o (by omega)]

/-- The header adds as much as the pseudo header should. -/
def Ipv6Tcp.Matches (p : Ipv6Tcp) : Prop :=
  net (field p.ipv6 24 16) + p.ext.length + (p.ipv6.getD 6 0).toNat ≡ net p.daddr + 6 [MOD 0xFFFF]

theorem ipv4_hdr_inserted (o : ByteOrder) (h : Ipv4Hdr) :
    Inserted o [] [] 10 (ipv4HdrCksum o) h.bytes := by
  have hmin := h.min
  have hmax := h.max
  have hwords := h.words
  have hparity : (h.bytes.drop 12).length % 2 = 0 := by
    rw [List.length_drop]
    omega
  refine (inserted_iff rfl rfl rfl (by omega) ?_ id ?_).mpr ⟨.inr (.inl hparity), rfl⟩
  · rw [List.length_nil]
    omega
  · intro cs hcs
    exact ipv4HdrCksum_eq o (hcs ▸ hmin) (hcs ▸ hmax)

theorem tcp_inserted_iff (o : ByteOrder) {pseudo summed : List UInt8} (t : Tcp)
    (hp : pseudo.length % 2 = 0) (hs : summed.length % 2 = 0) (hsize : summed.length ≤ 40)
    (hzero : net pseudo ≠ 0) {cksum : List UInt8 → Nat}
    (hc : ∀ cs : List UInt8, cs.length = t.bytes.length →
      cksum cs = tcpHdrChksum o (ipCksumPartial o 0 summed) cs) :
    Inserted o pseudo summed 16 cksum t.bytes ↔
      Leftover o t.bytes ∧ net pseudo ≡ net summed [MOD 0xFFFF] := by
  have hmin := t.min
  have hmax := t.max
  rw [← leftover_drop o (rfl : 18 % 2 = 0) (show 18 < t.bytes.length by omega)]
  refine inserted_iff hp hs rfl (by omega) (by omega) (fun h => absurd h hzero) ?_
  intro cs hcs
  rw [hc cs hcs]
  exact tcpHdrChksum_eq o hsize hs (hcs ▸ hmin) (hcs ▸ hmax)

theorem net_even {as : List UInt8} (h : as.length % 2 = 0) (bs : List UInt8) :
    net (as ++ bs) = net as + net bs := weigh_append h bs

theorem net_net16 {n : Nat} (h : n ≤ 0xFFFF) : net (net16 n) = n := net_store16 .big h

theorem Ipv4Tcp.pseudo_eq (p : Ipv4Tcp) (o : ByteOrder) :
    tcpPs o p.ip.bytes p.tcp.bytes.length = p.pseudo := by
  unfold tcpPs Ipv4Tcp.pseudo
  rw [p.prot, hton16_net o p.tcp.max]

theorem Ipv4Tcp.net_pseudo (p : Ipv4Tcp) :
    p.pseudo.length = 12 ∧ 6 ≤ net p.pseudo := by
  have hmin := p.ip.min
  have hsrc := field_length (show 12 + 4 ≤ p.ip.bytes.length by omega)
  have hdst := field_length (show 16 + 4 ≤ p.ip.bytes.length by omega)
  have hlen := store16_length .big p.tcp.bytes.length
  unfold Ipv4Tcp.pseudo net16
  constructor
  · rw [List.length_append, List.length_append, List.length_append, hsrc, hdst, hlen]
    rfl
  · have hprot : net [0, 6] = 6 := rfl
    rw [net_even (by rw [hsrc]), net_even (by rw [hdst]), net_even rfl, hprot]
    omega

section

variable (p : Ipv6Tcp)

theorem Ipv6Tcp.net_pseudo : p.pseudo.length = 40 ∧
    net p.pseudo = net (field p.ipv6 8 16) + net p.daddr + p.tcp.bytes.length + 6 := by
  have hsize := p.size
  have hdst := p.daddrSize
  have hsrc := field_length (show 8 + 16 ≤ p.ipv6.length by omega)
  have hlen := store16_length .big p.tcp.bytes.length
  have hhead : ([0, 0] ++ net16 p.tcp.bytes.length).length = 4 := by
    rw [List.length_append]
    rfl
  unfold Ipv6Tcp.pseudo
  constructor
  · rw [List.length_append, List.length_append, List.length_append, hsrc, hdst, hhead]
    rfl
  · have hzeros : net [0, 0] = 0 := rfl
    have hnext : net [0, 0, 0, 6] = 6 := rfl
    rw [net_even (by rw [hsrc]), net_even (by rw [hdst]), net_even (by rw [hhead]), net_even rfl,
      net_net16 p.tcp.max, hzeros, hnext]
    omega

theorem Ipv6Tcp.nexthdr : field p.ipv6 6 1 = [p.ipv6.getD 6 0] := by
  have hsize := p.size
  have hlt : 6 < p.ipv6.length := by omega
  unfold field
  rw [List.drop_eq_getElem_cons hlt, List.take_succ_cons, List.take_zero,
    List.getD_eq_getElem?_getD, List.getElem?_eq_getElem hlt, Option.getD_some]

theorem Ipv6Tcp.net_summed : (ipv6Pseudo p.ipv6).length = 36 ∧
    net (ipv6Pseudo p.ipv6) = net (field p.ipv6 8 16) + net (field p.ipv6 24 16) +
      (p.ext.length + p.tcp.bytes.length) + (p.ipv6.getD 6 0).toNat := by
  have hsize := p.size
  have hsrc := field_length (show 8 + 16 ≤ p.ipv6.length by omega)
  have hdst := field_length (show 24 + 16 ≤ p.ipv6.length by omega)
  have hpayload := net_net16 p.inside
  have heven : (net16 (p.ext.length + p.tcp.bytes.length)).length % 2 = 0 := by
    rw [net16, store16_length]
  unfold ipv6Pseudo
  rw [p.payload, p.nexthdr]
  constructor
  · rw [List.length_append, List.length_append, List.length_append, hsrc, hdst]
    rfl
  · have hbyte : net [0, p.ipv6.getD 6 0] = (p.ipv6.getD 6 0).toNat := Nat.zero_add _
    rw [net_even (by rw [hsrc]), net_even (by rw [hdst]), net_even heven, hpayload, hbyte]
    omega

theorem Ipv6Tcp.matches_iff : net p.pseudo ≡ net (ipv6Pseudo p.ipv6) [MOD 0xFFFF] ↔ p.Matches := by
  unfold Ipv6Tcp.Matches
  rw [p.net_pseudo.2, p.net_summed.2]
  unfold Nat.ModEq
  omega

end

/-- The field of an IPv4 header always verifies, that of a TCP segment unless a byte is left over on
a big-endian host, and over IPv6 the header must also add up to what the pseudo header does. -/
theorem cksum_inserted_iff (o : ByteOrder) :
    (∀ h : Ipv4Hdr, Inserted o [] [] 10 (ipv4HdrCksum o) h.bytes) ∧
    (∀ p : Ipv4Tcp, Inserted o p.pseudo p.pseudo 16 (ipv4TcpHdrCksum o p.ip.bytes) p.tcp.bytes ↔
      Leftover o p.tcp.bytes) ∧
    (∀ p : Ipv6Tcp,
      Inserted o p.pseudo (ipv6Pseudo p.ipv6) 16 (ipv6TcpHdrCksum o p.ipv6) p.tcp.bytes ↔
        Leftover o p.tcp.bytes ∧ p.Matches) := by
  refine ⟨ipv4_hdr_inserted o, ?_, ?_⟩
  · intro p
    obtain ⟨hlen, hnet⟩ := p.net_pseudo
    have heven : p.pseudo.length % 2 = 0 := by rw [hlen]
    rw [tcp_inserted_iff o p.tcp heven heven (by omega) (by omega)]
    · exact and_iff_left Nat.ModEq.rfl
    · intro cs hcs
      rw [ipv4TcpHdrCksum, hcs, p.pseudo_eq o]
  · intro p
    obtain ⟨hlen, hnet⟩ := p.net_pseudo
    obtain ⟨hsummed, -⟩ := p.net_summed
    rw [← p.matches_iff]
    exact tcp_inserted_iff o p.tcp (by rw [hlen]) (by rw [hsummed]) (by omega) (by omega)
      fun cs _ => rfl

/-- A TCP header behind a hop-by-hop header. -/
def hopByHop : Ipv6Tcp where
  ipv6 := [0x60, 0, 0, 0, 0, 28, 0, 64] ++ List.replicate 32 0
  size := rfl
  ext := [6, 0, 1, 4, 0, 0, 0, 0]
  daddr := List.replicate 16 0
  daddrSize := rfl
  tcp := ⟨List.replicate 20 0, by decide, by decide⟩
  inside := by decide
  payload := rfl
  direct := nofun

/-- A TCP header and one byte. -/
def oneByte : Ipv4Tcp where
  ip := ⟨[0x45, 0, 0, 41, 0, 0, 0, 0, 64, 6] ++ List.replicate 10 0, by decide, by decide, rfl⟩
  tcp := ⟨List.replicate 20 0 ++ [1], by decide, by decide⟩
  prot := rfl

/-- The extension header is counted, and the byte is not the first of a word. -/
theorem cksum_inserted_fails :
    ¬ Inserted .little hopByHop.pseudo (ipv6Pseudo hopByHop.ipv6) 16
        (ipv6TcpHdrCksum .little hopByHop.ipv6) hopByHop.tcp.bytes ∧
      ¬ Inserted .big oneByte.pseudo oneByte.pseudo 16
        (ipv4TcpHdrCksum .big oneByte.ip.bytes) oneByte.tcp.bytes := by
  constructor
  · intro h
    exact absurd h.verifies (by decide)
  · intro h
    exact absurd h.verifies (by decide)

end Bcmdhd.IpCksum
