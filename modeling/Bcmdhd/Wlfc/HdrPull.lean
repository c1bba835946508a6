import Bcmdhd.Wlfc.Header

/-!
# The header of a received packet (`dhd_prot_hdrpull`)

Four bytes of BDC header, then `4 * dataOffset` bytes of signals, then the packet.  The offset is not
compared with the length, and `skb_pull` does nothing where it is too long.

    only a header that fits is pulled, nothing behind the packet is read, and the packet is as it was  ↔
      the header fits, every TLV is sound, and no credit is counted down behind the header
                                                                                      (hdrpull_iff)

The TLVs are those of `dhd_wlfc_parse_header_info`, which here reads all of the packet.
-/

namespace Bcmdhd.Wlfc.HdrPull

open Chain Loop Loans
open Credits (Fifo lenders fifos)
open Signals
open Header (BDC_HEADER_LEN BDC_PROTO_VER BDC_FLAG_VER_SHIFT BDC_PRIORITY_MASK BDC_FLAG2_IF_MASK)

def BCME_ERROR : Int := -1
def BDC_PROTO_VER_1 : UInt8 := 1
def BDC_FLAG_SUM_GOOD : UInt8 := 0x04

/-! ## Packets -/

/-- A `sk_buff`: all its bytes, and where its data begin. -/
structure RxPkt where
  buf : List UInt8
  /-- `PKTDATA` -/
  data : Nat
  /-- `DHD_PKTTAG_PKTDIR` -/
  fromHost : Bool
  sumGood : Bool
  prio : UInt8

def RxPkt.bytes (p : RxPkt) : List UInt8 := p.buf.drop p.data

/-- `PKTLEN` -/
def RxPkt.len (p : RxPkt) : Nat := p.bytes.length

/-- `PKTPULL`, which does nothing where `n` is too long. -/
def RxPkt.pull (p : RxPkt) (n : Nat) : RxPkt := if n ≤ p.len then { p with data := p.data + n } else p

/-- What has been written to the data. -/
def RxPkt.store (p : RxPkt) (bs : List UInt8) : RxPkt := { p with buf := p.buf.take p.data ++ bs }

/-! ## Algorithm -/

/-- `dhd_wlfc_parse_header_info` for the first `tlvHdrLen` bytes of the data `rest`. -/
def parseHdrArea (cfg : SigCfg) (wlfc : Option Host) (rest : List UInt8) (tlvHdrLen : Nat) :
    Except Fault (Option Parser) :=
  let remainder := tlvHdrLen % 0x10000
  if cfg.mode = .onlyAmpduHostreorder then do
    let t ← loop .fuel Parser.done (parseTlv cfg) 241 { Parser.start none rest with remainder }
    return some t
  else if wlfc.isNone ∨ cfg.mode = .none then .ok none
  else do
    let t ← loop .fuel Parser.done (parseTlv cfg) 241 { Parser.start wlfc rest with remainder }
    return some t

/-- The result, with the packet, the interface, and the reorder information that is handed out. -/
structure Pulled where
  ret : Int
  pkt : RxPkt
  ifidx : Option UInt8
  info : Option (List UInt8)

/-- `h->dataOffset << 2` -/
def dataOffset (bs : List UInt8) : Nat := 4 * byte bs 3

def version (bs : List UInt8) : UInt8 := UInt8.ofNat (byte bs 0) >>> BDC_FLAG_VER_SHIFT

/-- `ifidx` is false for a packet of the host whose header is taken off. -/
def hdrpull (cfg : SigCfg) (wlfc : Option Host) (ifidx : Bool) (p : RxPkt) : Except Fault Pulled :=
  if p.len < BDC_HEADER_LEN then .ok ⟨BCME_ERROR, p, none, none⟩
  else if ifidx = false then
    .ok ⟨0, (p.pull BDC_HEADER_LEN).pull (dataOffset p.bytes), none, none⟩
  else
    let flags := UInt8.ofNat (byte p.bytes 0)
    let idx := UInt8.ofNat (byte p.bytes 2) &&& BDC_FLAG2_IF_MASK
    let ver := version p.bytes
    if ver ≠ BDC_PROTO_VER ∧ ver ≠ BDC_PROTO_VER_1 then .ok ⟨BCME_ERROR, p, some idx, none⟩
    else
      let p := if ver = BDC_PROTO_VER then p else p.store (p.bytes.set 3 0)
      let p := { p with
        sumGood := p.sumGood || flags &&& BDC_FLAG_SUM_GOOD ≠ 0
        prio := UInt8.ofNat (byte p.bytes 1) &&& BDC_PRIORITY_MASK.toUInt8 }
      let off := dataOffset p.bytes
      let p := p.pull BDC_HEADER_LEN
      if p.fromHost then .ok ⟨0, p.pull off, some idx, none⟩
      else do
        match ← parseHdrArea cfg wlfc p.bytes off with
        | none => return ⟨0, p.pull off, some idx, none⟩
        | some t => return ⟨0, (p.store t.area).pull off, some idx, t.info⟩

/-! ## The condition -/

/-- What the header says to be in front of the packet; version 1 has no signals. -/
def hdrOffset (ifidx : Bool) (p : RxPkt) : Nat :=
  if ifidx = true ∧ version p.bytes = BDC_PROTO_VER_1 then 0 else dataOffset p.bytes

/-- **What is promised.** -/
def Pulls (cfg : SigCfg) (wlfc : Option Host) (ifidx : Bool) (p : RxPkt) : Prop :=
  ∃ r, hdrpull cfg wlfc ifidx p = .ok r ∧
    (r.ret = 0 → BDC_HEADER_LEN + hdrOffset ifidx p ≤ p.len ∧
      r.pkt.data = p.data + (BDC_HEADER_LEN + hdrOffset ifidx p) ∧
      r.pkt.bytes = p.bytes.drop (BDC_HEADER_LEN + hdrOffset ifidx p)) ∧
    (r.ret ≠ 0 → r.pkt.data = p.data ∧ r.pkt.len = p.len)

/-- No credit from behind the first `n` bytes goes to a lender. -/
def countsInside (cfg : SigCfg) (n : Nat) (t : Parser) : Prop :=
  Ctl.ofByte (UInt8.ofNat (byte t.area t.processed)) = .fifoCreditback →
  2 + byte t.area (t.processed + 1) ≤ t.remainder → cfg.mode = .explicitCredit →
  ∀ h, t.host = some h → ∀ i : Fifo, n ≤ t.processed + 2 + i.val →
    byte t.area (t.processed + 2 + i.val) = 0 ∨ ∀ l ∈ lenders, h.ledger.borrowed i l ≤ 0

/-- The state in which the parser begins, when it reads the packet at all. -/
def beginsArea (cfg : SigCfg) (wlfc : Option Host) (rest : List UInt8) (n : Nat) : Option Parser :=
  if cfg.mode = .onlyAmpduHostreorder then some { Parser.start none rest with remainder := n }
  else if wlfc.isNone ∨ cfg.mode = .none then none
  else some { Parser.start wlfc rest with remainder := n }

/-- The TLVs in the first `n` bytes of the data are sound, and change nothing behind these. -/
def TlvsInside (cfg : SigCfg) (wlfc : Option Host) (rest : List UInt8) (n : Nat) : Prop :=
  ∀ s ∈ beginsArea cfg wlfc rest n, ∀ t, Reaches Parser.done (parseTlv cfg) s t → t.done = false →
    sound cfg t = true ∧ countsInside cfg n t

/-- Where the header is pulled, it fits, with TLVs that stay inside. -/
def Fits (cfg : SigCfg) (wlfc : Option Host) (ifidx : Bool) (p : RxPkt) : Prop :=
  BDC_HEADER_LEN ≤ p.len →
  (ifidx = true → version p.bytes = BDC_PROTO_VER ∨ version p.bytes = BDC_PROTO_VER_1) →
  BDC_HEADER_LEN + hdrOffset ifidx p ≤ p.len ∧
    (ifidx = true → p.fromHost = false →
      TlvsInside cfg wlfc (p.bytes.drop BDC_HEADER_LEN) (hdrOffset ifidx p))

/-! ## Credits are only counted down -/

/-- The bytes after some have been counted down. -/
def Down (a b : List UInt8) : Prop := b.length = a.length ∧ ∀ p, byte b p ≤ byte a p

theorem Down.refl (a : List UInt8) : Down a a := ⟨rfl, fun _ => Nat.le_refl _⟩

theorem Down.trans {a b c : List UInt8} (h : Down a b) (h' : Down b c) : Down a c :=
  ⟨h'.1.trans h.1, fun p => Nat.le_trans (h'.2 p) (h.2 p)⟩

theorem drop_eq_iff {a b : List UInt8} (h : b.length = a.length) (n : Nat) :
    b.drop n = a.drop n ↔ ∀ p, n ≤ p → byte b p = byte a p := by
  constructor
  · intro heq p hp
    have hget : (b.drop n)[p - n]? = (a.drop n)[p - n]? := by rw [heq]
    rw [List.getElem?_drop, List.getElem?_drop, Nat.add_sub_cancel' hp] at hget
    unfold byte
    rw [hget]
  · intro hbytes
    apply List.ext_getElem
    · rw [List.length_drop, List.length_drop, h]
    · intro i hb ha
      rw [List.length_drop] at hb ha
      have hbyte := hbytes (n + i) (Nat.le_add_right n i)
      unfold byte at hbyte
      rw [List.getElem?_eq_getElem (by omega), List.getElem?_eq_getElem (by omega)] at hbyte
      rw [List.getElem_drop, List.getElem_drop]
      exact UInt8.toNat_inj.mp hbyte

/-- Nothing that has been counted down comes back. -/
theorem Down.drop_trans {a b c : List UInt8} (h : Down a b) (h' : Down b c) (n : Nat) :
    c.drop n = a.drop n ↔ b.drop n = a.drop n ∧ c.drop n = b.drop n := by
  refine ⟨fun heq => ?_, fun heq => heq.2.trans heq.1⟩
  rw [drop_eq_iff (h.trans h').1] at heq
  rw [drop_eq_iff h.1, drop_eq_iff h'.1]
  constructor
  · intro p hp
    have hca := heq p hp
    have hcb := h'.2 p
    have hba := h.2 p
    omega
  · intro p hp
    have hca := heq p hp
    have hcb := h'.2 p
    have hba := h.2 p
    omega

theorem byte_set_self {a : List UInt8} {i : Nat} (h : i < a.length) (b : UInt8) :
    byte (a.set i b) i = b.toNat := by
  unfold byte
  rw [List.getElem?_set_self h]
  rfl

theorem byte_set_ne (a : List UInt8) {i p : Nat} (h : i ≠ p) (b : UInt8) :
    byte (a.set i b) p = byte a p := by
  unfold byte
  rw [List.getElem?_set_ne h]

/-- What is left of `n` credits, and where none is given back. -/
theorem backToLenders_left (l : Ledger Fifo) (i : Fifo) (ls : List Fifo) (n : Nat) :
    (backToLenders l i ls n).2 ≤ n ∧
      ((backToLenders l i ls n).2 = n ↔ n = 0 ∨ ∀ b ∈ ls, l.borrowed i b ≤ 0) := by
  induction ls generalizing l n with
  | nil => exact ⟨Nat.le_refl _, iff_of_true rfl (Or.inr fun _ hb => absurd hb List.not_mem_nil)⟩
  | cons b ls ih =>
    unfold backToLenders
    by_cases hb : 0 < n ∧ 0 < l.borrowed i b
    · rw [if_pos hb]
      dsimp only
      have hk : 0 < (if l.borrowed i b ≤ n then (l.borrowed i b).toNat else n) := by
        split
        · omega
        · exact hb.1
      generalize (if l.borrowed i b ≤ n then (l.borrowed i b).toNat else n) = k at hk
      have hle := (ih (l.giveBack i b k) (n - k)).1
      refine ⟨by omega, iff_of_false (by omega) ?_⟩
      rintro (hn | hall)
      · omega
      · have hnone := hall b List.mem_cons_self
        omega
    · rw [if_neg hb, List.forall_mem_cons]
      refine ⟨(ih l n).1, (ih l n).2.trans ?_⟩
      constructor
      · rintro (hn | hall)
        · exact Or.inl hn
        · by_cases hn : n = 0
          · exact Or.inl hn
          · exact Or.inr ⟨by omega, hall⟩
      · rintro (hn | hall)
        · exact Or.inl hn
        · exact Or.inr hall.2

theorem backToLenders_borrowed (l : Ledger Fifo) {i j : Fifo} (h : j ≠ i) (ls : List Fifo)
    (n : Nat) : (backToLenders l i ls n).1.borrowed j = l.borrowed j := by
  induction ls generalizing l n with
  | nil => rfl
  | cons b ls ih =>
    unfold backToLenders
    split
    · rw [ih]
      exact Function.update_of_ne h _ _
    · exact ih l n

theorem creditback_left (cfg : SigCfg) (l : Ledger Fifo) (i : Fifo) (n : Nat) :
    (creditback cfg l i n).2 ≤ n ∧
      ((creditback cfg l i n).2 = n ↔ n = 0 ∨ ∀ b ∈ lenders, l.borrowed i b ≤ 0) := by
  have hleft := backToLenders_left l i lenders.reverse n
  refine ⟨hleft.1, hleft.2.trans (or_congr_right ?_)⟩
  exact forall_congr' fun b => imp_congr_left List.mem_reverse

/-- One turn of the credits of a signal, and the ones behind the first `n` bytes. -/
theorem fifocreditbackLoop_down (cfg : SigCfg) (n v : Nat) {is : List Fifo} (hnd : is.Nodup)
    {l : Ledger Fifo} {a : List UInt8} {r : Ledger Fifo × List UInt8}
    (h : fifocreditbackLoop cfg v is l a = .ok r) :
    Down a r.2 ∧ (r.2.drop n = a.drop n ↔ ∀ i ∈ is, n ≤ v + i.val →
      byte a (v + i.val) = 0 ∨ ∀ b ∈ lenders, l.borrowed i b ≤ 0) := by
  induction is generalizing l a with
  | nil =>
    cases h
    exact ⟨.refl a, iff_of_true rfl fun _ hi => absurd hi List.not_mem_nil⟩
  | cons i is ih =>
    obtain ⟨hi, hnd⟩ := List.nodup_cons.mp hnd
    unfold fifocreditbackLoop at h
    obtain ⟨c, hc, h⟩ := bind_eq_ok.mp h
    dsimp only at h
    have hlt := succeeds_rd.mp ⟨c, hc⟩
    have hbyte := rd_byte hc
    obtain ⟨hle, heq⟩ := creditback_left cfg l i c.toNat
    have hsmall := UInt8.toNat_lt c
    have hwritten : (UInt8.ofNat (creditback cfg l i c.toNat).2).toNat =
        (creditback cfg l i c.toNat).2 := UInt8.toNat_ofNat_of_lt' (Nat.lt_of_le_of_lt hle hsmall)
    have hdown : Down a (a.set (v + i.val) (UInt8.ofNat (creditback cfg l i c.toNat).2)) := by
      refine ⟨List.length_set, fun p => ?_⟩
      by_cases hp : v + i.val = p
      · rw [← hp, byte_set_self hlt, hwritten, hbyte]
        exact hle
      · rw [byte_set_ne a hp]
    obtain ⟨hdown', hrest⟩ := ih hnd h
    refine ⟨hdown.trans hdown', (hdown.drop_trans hdown' n).trans ?_⟩
    rw [hrest, List.forall_mem_cons]
    refine and_congr ?_ ?_
    · rw [drop_eq_iff hdown.1, hbyte, ← heq]
      constructor
      · intro hall hn
        rw [← hwritten, ← byte_set_self hlt, hall _ hn, hbyte]
      · intro hsame p hp
        by_cases hpi : v + i.val = p
        · rw [← hpi, byte_set_self hlt, hwritten, hbyte]
          exact hsame (by omega)
        · rw [byte_set_ne a hpi]
    · refine forall_congr' fun j => imp_congr_right fun hj => imp_congr_right fun _ => ?_
      have hne : j ≠ i := fun heq => hi (heq ▸ hj)
      have hpos : v + i.val ≠ v + j.val := fun heq => hne (Fin.ext (by omega))
      rw [byte_set_ne a hpos]
      have hborrowed : (creditback cfg l i c.toNat).1.borrowed j = l.borrowed j :=
        backToLenders_borrowed l hne _ _
      rw [hborrowed]

/-! ## The parser -/

section
variable {cfg : SigCfg} {wlfc : Option Host} {n : Nat}

/-- Only credits are written to the packet. -/
theorem indicate_down {h : Host} {a : List UInt8} {c : Ctl} {v : Nat} {r : Host × List UInt8}
    (hr : indicate cfg h a c v = .ok r) (n : Nat) :
    Down a r.2 ∧ (r.2.drop n = a.drop n ↔ c = .fifoCreditback → cfg.mode = .explicitCredit →
      ∀ i : Fifo, n ≤ v + i.val → byte a (v + i.val) = 0 ∨
        ∀ l ∈ lenders, h.ledger.borrowed i l ≤ 0) := by
  by_cases hc : c = .fifoCreditback
  · subst hc
    change fifocreditbackIndicate cfg h a v = .ok r at hr
    unfold fifocreditbackIndicate at hr
    by_cases hm : cfg.mode = .explicitCredit
    · rw [if_pos hm] at hr
      obtain ⟨x, hx, hr⟩ := bind_eq_ok.mp hr
      cases hr
      obtain ⟨hdown, hdrop⟩ := fifocreditbackLoop_down cfg n v (by decide) hx
      refine ⟨hdown, hdrop.trans ⟨fun hall _ _ i => hall i ?_, fun hall i _ => hall rfl hm i⟩⟩
      revert i
      decide
    · rw [if_neg hm] at hr
      cases hr
      exact ⟨.refl a, iff_of_true rfl fun _ hm' => absurd hm' hm⟩
  · have hsame : r.2 = a := by
      cases c with
      | fifoCreditback => exact absurd rfl hc
      | compTxstatus =>
        obtain ⟨_, _, hr⟩ := bind_eq_ok.mp hr
        obtain ⟨_, _, hr⟩ := bind_eq_ok.mp hr
        cases hr
        rfl
      | txstatus | macRequestCredit | macRequestPacket | macOpen | macClose | interfaceOpen
      | interfaceClose | macdescAdd | macdescDel | transId =>
        obtain ⟨_, _, hr⟩ := bind_eq_ok.mp hr
        cases hr
        rfl
      | rssi | hostReorderRxpkts | filler | other =>
        cases hr
        rfl
    rw [hsame]
    exact ⟨.refl a, iff_of_true rfl fun hc' => absurd hc' hc⟩

theorem parseTlv_down {t u : Parser} (h : parseTlv cfg t = .ok u) (n : Nat) :
    Down t.area u.area ∧ (u.area.drop n = t.area.drop n ↔ countsInside cfg n t) := by
  unfold countsInside
  unfold parseTlv at h
  obtain ⟨type, htype, h⟩ := bind_eq_ok.mp h
  rw [rd_byte htype, UInt8.ofNat_toNat]
  by_cases hf : Ctl.ofByte type = .filler
  · rw [if_pos hf] at h
    cases h
    refine ⟨.refl _, iff_of_true rfl fun hc => ?_⟩
    rw [hf] at hc
    cases hc
  · rw [if_neg hf] at h
    obtain ⟨len, hlen, h⟩ := bind_eq_ok.mp h
    rw [rd_byte hlen]
    by_cases hcut : t.remainder < 2 + len.toNat
    · rw [if_pos hcut] at h
      cases h
      exact ⟨.refl _, iff_of_true rfl fun _ hle => absurd hcut (by omega)⟩
    · rw [if_neg hcut] at h
      unfold parseValue at h
      obtain ⟨info, -, h⟩ := bind_eq_ok.mp h
      dsimp only at h
      cases hhost : t.host with
      | none =>
        rw [hhost] at h
        cases h
        exact ⟨.refl _, iff_of_true rfl fun _ _ _ x hx => by cases hx⟩
      | some x =>
        rw [hhost] at h
        obtain ⟨r, hr, h⟩ := bind_eq_ok.mp h
        cases h
        obtain ⟨hdown, hdrop⟩ := indicate_down hr n
        refine ⟨hdown, hdrop.trans ⟨fun hall hc _ hm y hy => ?_, fun hall hc hm => ?_⟩⟩
        · obtain rfl := Option.some_inj.mp hy
          exact hall hc hm
        · exact hall hc (by omega) hm x rfl

/-- What is behind the first `n` bytes is as it was just when no turn has counted there. -/
theorem loop_down {k : Nat} {s u : Parser} (h : loop .fuel Parser.done (parseTlv cfg) k s = .ok u)
    (n : Nat) :
    Down s.area u.area ∧ (u.area.drop n = s.area.drop n ↔
      ∀ t, Reaches Parser.done (parseTlv cfg) s t → t.done = false → countsInside cfg n t) := by
  induction k generalizing s with
  | zero =>
    unfold loop at h
    by_cases hd : s.done = true
    · rw [if_pos hd] at h
      cases h
      refine ⟨.refl _, iff_of_true rfl fun t ht hdt => ?_⟩
      rw [ht.eq_of_done hd, hd] at hdt
      cases hdt
    · rw [if_neg hd] at h
      cases h
  | succ k ih =>
    unfold loop at h
    by_cases hd : s.done = true
    · rw [if_pos hd] at h
      cases h
      refine ⟨.refl _, iff_of_true rfl fun t ht hdt => ?_⟩
      rw [ht.eq_of_done hd, hd] at hdt
      cases hdt
    · rw [if_neg hd] at h
      have hd' : s.done = false := Bool.eq_false_of_not_eq_true hd
      cases hs : parseTlv cfg s with
      | error e =>
        rw [hs] at h
        cases h
      | ok t =>
        rw [hs] at h
        obtain ⟨hdown, hdrop⟩ := parseTlv_down hs n
        obtain ⟨hdown', hdrop'⟩ := ih h
        refine ⟨hdown.trans hdown', (hdown.drop_trans hdown' n).trans ?_⟩
        rw [hdrop, hdrop']
        constructor
        · rintro ⟨hfirst, hrest⟩ v hv hdv
          cases hv with
          | refl => exact hfirst
          | next _ hst hv =>
            obtain rfl := Except.ok.inj (hs.symm.trans hst)
            exact hrest v hv hdv
        · exact fun hall => ⟨hall s (.refl s) hd', fun v hv => hall v (.next hd' hs hv)⟩

/-- The parser from a state whose signals lie in the packet. -/
theorem loop_sound {s : Parser} (hs : s.Inside) (hsteps : s.steps ≤ 241) (n : Nat) :
    (∃ u, loop .fuel Parser.done (parseTlv cfg) 241 s = .ok u ∧ u.area.drop n = s.area.drop n) ↔
      ∀ t, Reaches Parser.done (parseTlv cfg) s t → t.done = false →
        sound cfg t = true ∧ countsInside cfg n t := by
  have hok : Succeeds (loop .fuel Parser.done (parseTlv cfg) 241 s) ↔ ∀ t,
      Reaches Parser.done (parseTlv cfg) s t → t.done = false → sound cfg t = true := by
    refine loop_ok_iff Parser.steps _ (fun t u hd h => parseTlv_steps hd h) (fun t ht hd => ?_) hsteps
    exact succeeds_parseTlv cfg t (ht.inv (fun t u hi hd h => parseTlv_inside hi hd h) hs) hd
  constructor
  · rintro ⟨u, hu, hdrop⟩ t ht hd
    exact ⟨hok.mp ⟨u, hu⟩ t ht hd, (loop_down hu n).2.mp hdrop t ht hd⟩
  · intro hall
    obtain ⟨u, hu⟩ := hok.mpr fun t ht hd => (hall t ht hd).1
    exact ⟨u, hu, (loop_down hu n).2.mpr fun t ht hd => (hall t ht hd).2⟩

theorem parseHdrArea_iff {rest : List UInt8} (hn : n ≤ rest.length) (hlt : n < 0x10000) :
    (∃ r, parseHdrArea cfg wlfc rest n = .ok r ∧ ∀ t, r = some t → t.area.drop n = rest.drop n) ↔
      TlvsInside cfg wlfc rest n := by
  have hinside : ∀ host, ({ Parser.start host rest with remainder := n } : Parser).Inside := by
    intro host
    unfold Parser.Inside Parser.start
    dsimp only
    omega
  have hloop : ∀ host, (∃ r, (do
        let t ← loop .fuel Parser.done (parseTlv cfg) 241
          { Parser.start host rest with remainder := n }
        return some t) = (.ok r : Except Fault (Option Parser)) ∧
          ∀ t, r = some t → t.area.drop n = rest.drop n) ↔
      ∀ t, Reaches Parser.done (parseTlv cfg) { Parser.start host rest with remainder := n } t →
        t.done = false → sound cfg t = true ∧ countsInside cfg n t := by
    intro host
    rw [← loop_sound (hinside host) (Nat.le_refl _) n]
    constructor
    · rintro ⟨r, hr, harea⟩
      obtain ⟨u, hu, hr⟩ := bind_eq_ok.mp hr
      cases hr
      exact ⟨u, hu, harea u rfl⟩
    · rintro ⟨u, hu, harea⟩
      refine ⟨some u, bind_eq_ok.mpr ⟨u, hu, rfl⟩, fun t ht => ?_⟩
      obtain rfl := Option.some_inj.mp ht
      exact harea
  unfold parseHdrArea TlvsInside beginsArea
  dsimp only
  rw [Nat.mod_eq_of_lt hlt]
  by_cases hm : cfg.mode = .onlyAmpduHostreorder
  · rw [if_pos hm, if_pos hm, hloop none]
    exact ⟨fun h s hs => Option.some_inj.mp hs ▸ h, fun h => h _ rfl⟩
  · rw [if_neg hm, if_neg hm]
    by_cases hnone : wlfc.isNone ∨ cfg.mode = .none
    · rw [if_pos hnone, if_pos hnone]
      exact iff_of_true ⟨none, rfl, fun t ht => by cases ht⟩ fun s hs => by cases hs
    · rw [if_neg hnone, if_neg hnone, hloop wlfc]
      exact ⟨fun h s hs => Option.some_inj.mp hs ▸ h, fun h => h _ rfl⟩

theorem parseHdrArea_area {rest : List UInt8} {t : Parser}
    (h : parseHdrArea cfg wlfc rest n = .ok (some t)) : t.area.length = rest.length := by
  unfold parseHdrArea at h
  dsimp only at h
  split at h
  · obtain ⟨u, hu, h⟩ := bind_eq_ok.mp h
    cases h
    exact (loop_down hu 0).1.1
  · split at h
    · cases h
    · obtain ⟨u, hu, h⟩ := bind_eq_ok.mp h
      cases h
      exact (loop_down hu 0).1.1

end

/-! ## Pulls -/

section
variable {p : RxPkt}

theorem RxPkt.pull_of_le {n : Nat} (h : n ≤ p.len) : p.pull n = { p with data := p.data + n } :=
  if_pos h

theorem RxPkt.bytes_pull {n : Nat} (h : n ≤ p.len) : (p.pull n).bytes = p.bytes.drop n := by
  rw [RxPkt.pull_of_le h]
  exact (List.drop_drop).symm

theorem RxPkt.bytes_store (h : p.data ≤ p.buf.length) (bs : List UInt8) : (p.store bs).bytes = bs := by
  unfold RxPkt.store RxPkt.bytes
  dsimp only
  rw [List.drop_append, List.length_take, Nat.min_eq_left h, Nat.sub_self, List.drop_zero,
    List.drop_eq_nil_of_le (by rw [List.length_take]; omega)]
  rfl

theorem RxPkt.data_le {n : Nat} (hn : 0 < n) (h : n ≤ p.len) : p.data ≤ p.buf.length := by
  unfold RxPkt.len RxPkt.bytes at h
  rw [List.length_drop] at h
  omega

theorem RxPkt.pull_data_le {n : Nat} (hn : 0 < n) (h : n ≤ p.len) :
    (p.pull n).data ≤ (p.pull n).buf.length := by
  rw [RxPkt.pull_of_le h]
  unfold RxPkt.len RxPkt.bytes at h
  rw [List.length_drop] at h
  dsimp only
  omega

/-- What is pulled off in two steps. -/
theorem pull_pull {m n : Nat} (h : m + n ≤ p.len) :
    ((p.pull m).pull n).data = p.data + (m + n) ∧ ((p.pull m).pull n).bytes = p.bytes.drop (m + n) := by
  have hm : m ≤ p.len := by omega
  have hlen : (p.pull m).len = p.len - m := by
    unfold RxPkt.len
    rw [RxPkt.bytes_pull hm, List.length_drop]
  have hn : n ≤ (p.pull m).len := by omega
  refine ⟨?_, ?_⟩
  · rw [RxPkt.pull_of_le hn, RxPkt.pull_of_le hm]
    exact Nat.add_assoc _ _ _
  · rw [RxPkt.bytes_pull hn, RxPkt.bytes_pull hm, List.drop_drop]

/-- The packet with what is set from its header. -/
def headed (p : RxPkt) : RxPkt :=
  let q := if version p.bytes = BDC_PROTO_VER then p else p.store (p.bytes.set 3 0)
  { q with
    sumGood := q.sumGood || UInt8.ofNat (byte p.bytes 0) &&& BDC_FLAG_SUM_GOOD ≠ 0
    prio := UInt8.ofNat (byte q.bytes 1) &&& BDC_PRIORITY_MASK.toUInt8 }

theorem hdrpull_headed (cfg : SigCfg) (wlfc : Option Host) (h4 : BDC_HEADER_LEN ≤ p.len)
    (hver : version p.bytes = BDC_PROTO_VER ∨ version p.bytes = BDC_PROTO_VER_1) :
    ∃ idx, hdrpull cfg wlfc true p =
      let q := (headed p).pull BDC_HEADER_LEN
      let off := dataOffset (headed p).bytes
      if q.fromHost then .ok ⟨0, q.pull off, some idx, none⟩
      else do
        match ← parseHdrArea cfg wlfc q.bytes off with
        | none => return ⟨0, q.pull off, some idx, none⟩
        | some t => return ⟨0, (q.store t.area).pull off, some idx, t.info⟩ := by
  have hnot : ¬(version p.bytes ≠ BDC_PROTO_VER ∧ version p.bytes ≠ BDC_PROTO_VER_1) := by
    rintro ⟨h2, h1⟩
    exact hver.elim h2 h1
  refine ⟨UInt8.ofNat (byte p.bytes 2) &&& BDC_FLAG2_IF_MASK, ?_⟩
  unfold hdrpull
  rw [if_neg (by omega), if_neg (by decide)]
  dsimp only
  rw [if_neg hnot]
  rfl

/-- What stands behind the header is as it was, and the offset is the one of the header. -/
theorem headed_spec (h4 : BDC_HEADER_LEN ≤ p.len)
    (hver : version p.bytes = BDC_PROTO_VER ∨ version p.bytes = BDC_PROTO_VER_1) :
    (headed p).data = p.data ∧ (headed p).len = p.len ∧ (headed p).fromHost = p.fromHost ∧
      (headed p).bytes.drop BDC_HEADER_LEN = p.bytes.drop BDC_HEADER_LEN ∧
      dataOffset (headed p).bytes = hdrOffset true p := by
  obtain ⟨q, hq⟩ : ∃ q,
      q = if version p.bytes = BDC_PROTO_VER then p else p.store (p.bytes.set 3 0) := ⟨_, rfl⟩
  have hbytes : (headed p).bytes = q.bytes := by rw [hq]; rfl
  have hdata : (headed p).data = q.data := by rw [hq]; rfl
  have hhost : (headed p).fromHost = q.fromHost := by rw [hq]; rfl
  have hlen : (headed p).len = q.bytes.length := congrArg List.length hbytes
  rw [hbytes, hdata, hhost, hlen]
  unfold hdrOffset
  by_cases h2 : version p.bytes = BDC_PROTO_VER
  · rw [if_pos h2] at hq
    subst hq
    rw [if_neg (by rw [h2]; decide)]
    exact ⟨rfl, rfl, rfl, rfl, rfl⟩
  · rw [if_neg h2] at hq
    have hset : q.bytes = p.bytes.set 3 0 := by
      rw [hq]
      exact RxPkt.bytes_store (RxPkt.data_le (by decide) h4) _
    rw [if_pos ⟨rfl, hver.resolve_left h2⟩, hset, hq]
    refine ⟨rfl, List.length_set, rfl, List.drop_set_of_lt (by decide), ?_⟩
    unfold dataOffset
    rw [byte_set_self (by unfold RxPkt.len BDC_HEADER_LEN at h4; omega)]
    rfl

theorem hdrOffset_lt (ifidx : Bool) (p : RxPkt) : hdrOffset ifidx p < 0x10000 := by
  have hbyte := byte_lt p.bytes 3
  unfold hdrOffset dataOffset
  split
  · decide
  · omega

/-- What is pulled off behind what has been written. -/
theorem store_pull {q : RxPkt} (hq : q.data ≤ q.buf.length) {bs : List UInt8}
    (hbs : bs.length = q.len) {n : Nat} (hn : n ≤ q.len) :
    ((q.store bs).pull n).data = q.data + n ∧ ((q.store bs).pull n).bytes = bs.drop n := by
  have hlen : (q.store bs).len = q.len := (congrArg List.length (RxPkt.bytes_store hq bs)).trans hbs
  refine ⟨?_, ?_⟩
  · rw [RxPkt.pull_of_le (by omega)]
    rfl
  · rw [RxPkt.bytes_pull (by omega), RxPkt.bytes_store hq]

end

/-- The part of `hdrpull` behind a header that fits. -/
theorem taken_iff {cfg : SigCfg} {wlfc : Option Host} {p q : RxPkt} {idx : UInt8} {off : Nat}
    (hq : q.data ≤ q.buf.length) (hoff : off ≤ q.len) (hlt : off < 0x10000)
    (hdata : q.data + off = p.data + (BDC_HEADER_LEN + off))
    (hbytes : q.bytes.drop off = p.bytes.drop (BDC_HEADER_LEN + off)) :
    (∃ r, (do
        match ← parseHdrArea cfg wlfc q.bytes off with
        | none => return ⟨0, q.pull off, some idx, none⟩
        | some t => return ⟨0, (q.store t.area).pull off, some idx, t.info⟩) =
          (.ok r : Except Fault Pulled) ∧
      r.ret = 0 ∧ r.pkt.data = p.data + (BDC_HEADER_LEN + off) ∧
      r.pkt.bytes = p.bytes.drop (BDC_HEADER_LEN + off)) ↔ TlvsInside cfg wlfc q.bytes off := by
  rw [← parseHdrArea_iff hoff hlt, ← hbytes, ← hdata]
  constructor
  · rintro ⟨r, hr, -, -, harea⟩
    obtain ⟨x, hx, hr⟩ := bind_eq_ok.mp hr
    refine ⟨x, hx, fun t ht => ?_⟩
    subst ht
    cases hr
    rw [(store_pull hq (parseHdrArea_area hx) hoff).2] at harea
    exact harea
  · rintro ⟨x, hx, harea⟩
    cases x with
    | none =>
      refine ⟨_, bind_eq_ok.mpr ⟨_, hx, rfl⟩, rfl, ?_, RxPkt.bytes_pull hoff⟩
      rw [RxPkt.pull_of_le hoff]
    | some t =>
      obtain ⟨hd, hb⟩ := store_pull hq (parseHdrArea_area hx) hoff
      exact ⟨_, bind_eq_ok.mpr ⟨_, hx, rfl⟩, rfl, hd, hb.trans (harea t rfl)⟩

/-- Packets of a known version. -/
theorem pulls_headed_iff (cfg : SigCfg) (wlfc : Option Host) {p : RxPkt}
    (h4 : BDC_HEADER_LEN ≤ p.len)
    (hver : version p.bytes = BDC_PROTO_VER ∨ version p.bytes = BDC_PROTO_VER_1) :
    Pulls cfg wlfc true p ↔ BDC_HEADER_LEN + hdrOffset true p ≤ p.len ∧
      (p.fromHost = false →
        TlvsInside cfg wlfc (p.bytes.drop BDC_HEADER_LEN) (hdrOffset true p)) := by
  unfold Pulls
  obtain ⟨idx, hpull⟩ := hdrpull_headed cfg wlfc h4 hver
  obtain ⟨hdata, hlen, hhost, hdrop, hoff⟩ := headed_spec h4 hver
  have h4' : BDC_HEADER_LEN ≤ (headed p).len := by omega
  have hq : ((headed p).pull BDC_HEADER_LEN).bytes = p.bytes.drop BDC_HEADER_LEN := by
    rw [RxPkt.bytes_pull h4', hdrop]
  have hqhost : ((headed p).pull BDC_HEADER_LEN).fromHost = p.fromHost := by
    rw [RxPkt.pull_of_le h4', ← hhost]
  dsimp only at hpull
  rw [hqhost, hoff] at hpull
  -- the result is 0, whatever the parser hands out
  have hret : ∀ r, hdrpull cfg wlfc true p = .ok r → r.ret = 0 := by
    intro r hr
    rw [hpull] at hr
    split at hr
    · cases hr
      rfl
    · obtain ⟨x, -, hr⟩ := bind_eq_ok.mp hr
      cases x with
      | none => cases hr; rfl
      | some t => cases hr; rfl
  by_cases hle : BDC_HEADER_LEN + hdrOffset true p ≤ p.len
  · obtain ⟨hd, hb⟩ := pull_pull (p := headed p) (by rw [hlen]; exact hle)
    rw [hdata] at hd
    rw [← List.drop_drop, hdrop, List.drop_drop] at hb
    cases hfrom : p.fromHost with
    | true =>
      rw [hpull, hfrom, if_pos rfl]
      exact iff_of_true ⟨_, rfl, fun _ => ⟨hle, hd, hb⟩, fun hne => absurd rfl hne⟩
        ⟨hle, fun h => by cases h⟩
    | false =>
      have hlen' : ((headed p).pull BDC_HEADER_LEN).len = p.len - BDC_HEADER_LEN := by
        unfold RxPkt.len
        rw [hq, List.length_drop]
      have hin := RxPkt.pull_data_le (by decide) h4'
      have htaken := @taken_iff cfg wlfc p _ idx _ hin (by rw [hlen']; omega)
        (hdrOffset_lt true p) (by rw [RxPkt.pull_of_le h4', ← hdata, Nat.add_assoc])
        (by rw [hq, List.drop_drop])
      rw [hfrom, if_neg (by decide)] at hpull
      rw [← hpull, hq] at htaken
      constructor
      · rintro ⟨r, hr, hzero, -⟩
        exact ⟨hle, fun _ => htaken.mp ⟨r, hr, hret r hr, (hzero (hret r hr)).2⟩⟩
      · rintro ⟨-, htlvs⟩
        obtain ⟨r, hr, hzero, hd', hb'⟩ := htaken.mpr (htlvs rfl)
        exact ⟨r, hr, fun _ => ⟨hle, hd', hb'⟩, fun hne => absurd hzero hne⟩
  · refine iff_of_false ?_ fun hfits => hle hfits.1
    rintro ⟨r, hr, hzero, -⟩
    exact hle (hzero (hret r hr)).1

/-- **Headers.**  A header is taken off as promised just where it fits, and the TLVs in it stay
inside. -/
theorem hdrpull_iff (cfg : SigCfg) (wlfc : Option Host) (ifidx : Bool) (p : RxPkt) :
    Pulls cfg wlfc ifidx p ↔ Fits cfg wlfc ifidx p := by
  by_cases h4 : BDC_HEADER_LEN ≤ p.len
  · cases ifidx with
    | false =>
      have hpull : hdrpull cfg wlfc false p =
          .ok ⟨0, (p.pull BDC_HEADER_LEN).pull (dataOffset p.bytes), none, none⟩ := by
        unfold hdrpull
        rw [if_neg (by omega), if_pos rfl]
      constructor
      · rintro ⟨r, hr, hfit, -⟩ - -
        rw [hpull] at hr
        cases hr
        exact ⟨(hfit rfl).1, fun h => by cases h⟩
      · intro hfit
        have hle := (hfit h4 fun h => by cases h).1
        exact ⟨_, hpull, fun _ => ⟨hle, pull_pull hle⟩, fun hne => absurd rfl hne⟩
    | true =>
      by_cases hver : version p.bytes = BDC_PROTO_VER ∨ version p.bytes = BDC_PROTO_VER_1
      · rw [pulls_headed_iff cfg wlfc h4 hver]
        exact ⟨fun hfit _ _ => ⟨hfit.1, fun _ => hfit.2⟩,
          fun hfit => ⟨(hfit h4 fun _ => hver).1, (hfit h4 fun _ => hver).2 rfl⟩⟩
      · refine iff_of_true ?_ fun _ h => absurd (h rfl) hver
        refine ⟨⟨BCME_ERROR, p, some (UInt8.ofNat (byte p.bytes 2) &&& BDC_FLAG2_IF_MASK), none⟩, ?_,
          fun h : BCME_ERROR = 0 => absurd h (by decide), fun _ => ⟨rfl, rfl⟩⟩
        unfold hdrpull
        rw [if_neg (by omega), if_neg (by decide)]
        dsimp only
        rw [if_pos (not_or.mp hver)]
  · refine iff_of_true ?_ fun h => absurd h h4
    refine ⟨⟨BCME_ERROR, p, none, none⟩, ?_, fun h : BCME_ERROR = 0 => absurd h (by decide),
      fun _ => ⟨rfl, rfl⟩⟩
    unfold hdrpull
    rw [if_pos (by omega)]

/-- A packet of the firmware at the start of its buffer. -/
def received (bs : List UInt8) : RxPkt := ⟨bs, 0, false, false, 0⟩

/-- An offset of 8 bytes with one byte behind the header, and a type at the end of the packet. -/
theorem hdrpull_fails :
    ¬ Pulls exampleCfg none true (received [0x20, 0, 0, 2, 9]) ∧
      ¬ Pulls exampleCfg (some exampleHost) true (received [0x20, 0, 0, 1, 255, 255, 255, 1]) := by
  constructor
  · rintro ⟨r, hr, hfit, -⟩
    cases hr
    have hle : 4 + 8 ≤ 5 := (hfit rfl).1
    omega
  · rintro ⟨r, hr, -⟩
    cases hr

end Bcmdhd.Wlfc.HdrPull
