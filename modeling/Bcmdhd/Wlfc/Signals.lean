import Bcmdhd.Lib.Chain
import Bcmdhd.Lib.Loop
import Bcmdhd.Wlfc.Credits
import Bcmdhd.Wlfc.Model
import Mathlib.Data.Fintype.Card

/-!
# Flow control signals (`dhd_wlfc_parse_header_info`)

The firmware puts a list of TLVs in front of a packet.  Bytes are read with `rd` and tables are
indexed with `index`; both fault outside of their bounds, and a loop without fuel faults too.

    parseHeaderInfo cfg host area = .ok _  ↔
      every TLV the parser comes to is sound                        (wlfc_signals_safe)
-/

namespace Bcmdhd.Wlfc.Signals

open Chain Loop Loans
open Credits (Fifo MacState lenders fifos)

/-! ## Tables -/

def index (n i : Nat) : Except Fault (Fin n) :=
  if h : i < n then .ok ⟨i, h⟩ else .error .outside

abbrev Node := Fin 32

theorem nodes_le : 32 ≤ 49 := by decide

def nodeDest (i : Node) : Dest := i.castLE nodes_le

/-- `WLFC_MAC_DESC_GET_LOOKUP_INDEX` -/
def lookupIndex (mac : UInt8) : Nat := mac.toNat % 0x20

/-- The last one takes the free place. -/
def removeRequested (l : List Node) (i : Node) : List Node :=
  if i ∈ l then (l.set (l.idxOf i) (l.getLast?.getD i)).dropLast else l

theorem nodup_removeRequested {l : List Node} (h : l.Nodup) (i : Node) :
    (removeRequested l i).Nodup := by
  unfold removeRequested
  split
  · next hi =>
    rcases List.eq_nil_or_concat l with rfl | ⟨l, x, rfl⟩
    · cases hi
    · rw [List.concat_eq_append] at h hi ⊢
      have hl := List.nodup_append.mp h
      by_cases hil : i ∈ l
      · rw [List.idxOf_append_of_mem hil, List.set_append_left _ _ (List.idxOf_lt_length_of_mem hil),
          List.getLast?_concat, Option.getD_some, List.dropLast_concat]
        exact hl.1.set fun hx => hl.2.2 x hx x (List.mem_singleton.mpr rfl) rfl
      · have hix : i = x := by simpa [hil] using hi
        subst hix
        rw [List.idxOf_append_of_notMem hil, List.idxOf_cons_self, Nat.add_zero,
          List.set_append_right _ _ (Nat.le_refl _), Nat.sub_self]
        simpa using hl.1
  · exact h

/-- `requested_entry` -/
structure Requested where
  list : List Node
  nodup : list.Nodup

def Requested.remove (r : Requested) (i : Node) : Requested where
  list := removeRequested r.list i
  nodup := nodup_removeRequested r.nodup i

theorem nodup_concat {l : List Node} {i : Node} (h : l.Nodup) (hi : i ∉ l) : (l ++ [i]).Nodup :=
  List.nodup_append.mpr ⟨h, List.nodup_singleton i, fun a ha b hb => by
    rw [List.mem_singleton.mp hb]
    exact fun hab => hi (hab ▸ ha)⟩

/-- The new one is written behind the last one, in a table of 32. -/
def Requested.add (r : Requested) (i : Node) : Except Fault Requested :=
  if h : i ∈ r.list then .ok r
  else do
    let _ ← index 32 r.list.length
    return ⟨r.list ++ [i], nodup_concat r.nodup h⟩

/-! ## Data -/

/-- `proptxstatus_mode` -/
inductive Mode
  | none | impliedCredit | explicitCredit | onlyAmpduHostreorder
  deriving DecidableEq

structure SigCfg where
  wlfc : Cfg
  mode : Mode
  reuseSeq : Bool
  txstatusIgnore : Bool
  initFifoCredit : Fifo → Int

/-- What indications set in a `wlfc_mac_descriptor_t`, but for the requests, which are counted
with the packets that meet them. -/
structure Desc where
  interfaceId : UInt8
  iftype : UInt8
  state : MacState
  acBitmap : UInt8
  releaseCount : Ac → Nat
  macHandle : UInt8
  ea : List UInt8

structure Host where
  pkts : State
  node : Node → Desc
  interface : Ifid → Desc
  requested : Requested
  ledger : Ledger Fifo
  /-- packets that have taken a credit -/
  creditcheck : Id → Bool

def Host.occupied (h : Host) (i : Node) : Bool := (h.pkts.entry (nodeDest i)).occupied

def Host.setNode (h : Host) (i : Node) (e : Desc) : Host :=
  { h with node := Function.update h.node i e }

def Host.setInterface (h : Host) (i : Ifid) (e : Desc) : Host :=
  { h with interface := Function.update h.interface i e }

inductive Ctl
  | macOpen | macClose | macRequestCredit | txstatus | macdescAdd | macdescDel | rssi
  | interfaceOpen | interfaceClose | fifoCreditback | macRequestPacket | hostReorderRxpkts
  | transId | compTxstatus | filler | other
  deriving DecidableEq

def Ctl.ofByte (b : UInt8) : Ctl :=
  match b.toNat with
  | 1 => .macOpen
  | 2 => .macClose
  | 3 => .macRequestCredit
  | 4 => .txstatus
  | 6 => .macdescAdd
  | 7 => .macdescDel
  | 8 => .rssi
  | 9 => .interfaceOpen
  | 10 => .interfaceClose
  | 11 => .fifoCreditback
  | 13 => .macRequestPacket
  | 14 => .hostReorderRxpkts
  | 18 => .transId
  | 19 => .compTxstatus
  | 255 => .filler
  | _ => .other

def Flag.ofNat : Nat → Flag
  | 0 => .discard
  | 1 => .d11Suppress
  | 2 => .wlSuppress
  | 3 => .tossedByWlc
  | 4 => .discardNoack
  | 5 => .suppressAcked
  | 6 => .expired
  | 7 => .dropped
  | _ => .other

/-! ## Status and credits -/

/-- The fields of the 32-bit status, from its four bytes. -/
def txStatus (b0 b1 b2 b3 : UInt8) : TxStatus where
  flag := Flag.ofNat (b3.toNat / 8 % 0x10)
  hslot := b1.toNat + 0x100 * b2.toNat
  fifo := b3.toNat % 8
  ctr := b0.toBitVec
  gen := b3.toNat / 0x80 = 1

def readStatus (cfg : SigCfg) (a : List UInt8) (v : Nat) : Except Fault TxStatus := do
  let b0 ← rd a v
  let b1 ← rd a (v + 1)
  let b2 ← rd a (v + 2)
  let b3 ← rd a (v + 3)
  if cfg.reuseSeq then do
    let _ ← rdN a (v + 4) 2
    return txStatus b0 b1 b2 b3
  else return txStatus b0 b1 b2 b3

/-- The loop over the lenders, with `n` credits left. -/
def backToLenders (l : Ledger Fifo) (i : Fifo) : List Fifo → Nat → Ledger Fifo × Nat
  | [], n => (l, n)
  | b :: ls, n =>
    if 0 < n ∧ 0 < l.borrowed i b then
      let k : Nat := if l.borrowed i b ≤ n then (l.borrowed i b).toNat else n
      backToLenders (l.giveBack i b k) i ls (n - k)
    else backToLenders l i ls n

/-- `n` credits of FIFO `i` are back; the second component is what is then in `credits[i]`. -/
def creditback (cfg : SigCfg) (l : Ledger Fifo) (i : Fifo) (n : Nat) : Ledger Fifo × Nat :=
  let r := backToLenders l i lenders.reverse n
  ({ r.1 with free := Function.update r.1.free i (min (r.1.free i + r.2) (cfg.initFifoCredit i)) },
    r.2)

/-- The credits are counted down where they are, in the bytes of the packet. -/
def fifocreditbackLoop (cfg : SigCfg) (v : Nat) :
    List Fifo → Ledger Fifo → List UInt8 → Except Fault (Ledger Fifo × List UInt8)
  | [], l, a => .ok (l, a)
  | i :: is, l, a => do
    let c ← rd a (v + i.val)
    let r := creditback cfg l i c.toNat
    fifocreditbackLoop cfg v is r.1 (a.set (v + i.val) (UInt8.ofNat r.2))

def fifocreditbackIndicate (cfg : SigCfg) (h : Host) (a : List UInt8) (v : Nat) :
    Except Fault (Host × List UInt8) :=
  if cfg.mode = .explicitCredit then do
    let r ← fifocreditbackLoop cfg v fifos h.ledger a
    return ({ h with ledger := r.1 }, r.2)
  else return (h, a)

/-- The credits that the packets taken back from the bus had, by FIFO. -/
def fakedCredits (cfg : SigCfg) (h : Host) (l : List Id) (i : Fifo) : Nat :=
  (l.countP fun p => h.creditcheck p && (cfg.wlfc.pkt p).fifo.castSucc = i) % 0x100

/-- `_dhd_wlfc_suppress_txq` and the credits it gives back -/
def suppressEntry (cfg : SigCfg) (h : Host) (d : Dest) : Except Fault Host :=
  match suppressTxq cfg.wlfc h.pkts d with
  | none => .error .outside
  | some pkts =>
    let n := fakedCredits cfg h (txqTaken cfg.wlfc h.pkts (.entrypkt d))
    let ledger :=
      if cfg.mode = .explicitCredit then
        fifos.foldl (fun l i => (creditback cfg l i (n i)).1) h.ledger
      else h.ledger
    .ok { h with pkts := pkts, ledger := ledger }

/-- `_dhd_wlfc_compressed_txstatus_update` for the status at `v`, and what follows when an entry
has become suppressed. -/
def compressedTxstatus (cfg : SigCfg) (h : Host) (a : List UInt8) (v len : Nat) :
    Except Fault Host := do
  let st ← readStatus cfg a v
  if cfg.txstatusIgnore then return h
  else
    match compressedTxstatusUpdate cfg.wlfc len h.pkts st none with
    | none => .error .outside
    | some (pkts, mac) =>
      let h := { h with pkts := pkts }
      match mac with
      | some d => if cfg.wlfc.reorderSupp then suppressEntry cfg h d else .ok h
      | none => .ok h

/-! ## Entries -/

/-- `_dhd_wlfc_find_mac_desc_id_from_mac` -/
def findMacDesc (h : Host) (ea : List UInt8) : Option Node :=
  (List.finRange 32).find? fun i => (h.node i).ea = ea && h.occupied i

/-- `_dhd_wlfc_mac_entry_update` with `eWLFC_MAC_ENTRY_ACTION_ADD` -/
def macEntryAdd (cfg : SigCfg) (h : Host) (i : Node) (handle ifid iftype : UInt8)
    (ea : List UInt8) : Host :=
  let d := nodeDest i
  let s := h.pkts.setEntry d { h.pkts.entry d with
    occupied := true
    suppressed := false
    transitCount := 0
    supprTransitCount := 0
    onbusPktsCount := 0 }
  let s := { s with psq := Function.update s.psq d fun _ => [] }
  let s := if cfg.wlfc.afq then { s with afq := Function.update s.afq d fun _ => [] } else s
  { h with pkts := s }.setNode i {
    interfaceId := ifid
    iftype := iftype
    state := .opened
    acBitmap := 0xff
    releaseCount := fun _ => 0
    macHandle := handle
    ea := ea }

/-- `_dhd_wlfc_mac_entry_update` with `eWLFC_MAC_ENTRY_ACTION_DEL` -/
def macEntryDel (cfg : SigCfg) (h : Host) (i : Node) : Host :=
  let d := nodeDest i
  let s := cleanup cfg.wlfc h.pkts (.entrypkt d)
  { h with pkts := s.setEntry d { s.entry d with occupied := false } }.setNode i
    { h.node i with state := .closed, ea := List.replicate 6 0 }

/-- An entry elsewhere in the table with the same address is deleted. -/
def macTableAdd (cfg : SigCfg) (h : Host) (i : Node) (handle ifid : UInt8) (ea : List UInt8) :
    Except Fault Host :=
  let h := match findMacDesc h ea with
    | some j => if j ≠ i then macEntryDel cfg h j else h
    | none => h
  if h.occupied i then .ok h
  else do
    let f ← index 16 ifid.toNat
    return macEntryAdd cfg h i handle ifid (h.interface f).iftype ea

/-- `iftype` is looked up for an entry that is deleted too. -/
def macTableDel (cfg : SigCfg) (h : Host) (i : Node) (ifid : UInt8) : Except Fault Host :=
  if h.occupied i then do
    let _ ← index 16 ifid.toNat
    return macEntryDel cfg h i
  else .ok h

def macTableUpdate (cfg : SigCfg) (h : Host) (a : List UInt8) (v : Nat) (add : Bool) :
    Except Fault Host := do
  let handle ← rd a v
  let i ← index 32 (lookupIndex handle)
  let ifid ← rd a (v + 1)
  let h := { h with requested := h.requested.remove i }
  if add then do
    let ea ← rdN a (v + 2) 6
    macTableAdd cfg h i handle ifid ea
  else macTableDel cfg h i ifid

def psmodeUpdate (h : Host) (a : List UInt8) (v : Nat) (opened : Bool) : Except Fault Host := do
  let handle ← rd a v
  let i ← index 32 (lookupIndex handle)
  let e := { h.node i with releaseCount := fun _ => 0 }
  if h.occupied i then
    if opened then
      return { h.setNode i { e with state := .opened, acBitmap := 0xff } with
        requested := h.requested.remove i }
    else return h.setNode i { e with state := .closed }
  else return h

/-- The release counts set to zero are those of interface 0. -/
def interfaceUpdate (h : Host) (a : List UInt8) (v : Nat) (opened : Bool) : Except Fault Host := do
  let ifId ← rd a v
  if hi : ifId.toNat < 16 then
    let i : Ifid := ⟨ifId.toNat, hi⟩
    if (h.pkts.entry (entryOf (32 + i.val))).occupied then
      let h := h.setInterface firstIf { h.interface firstIf with releaseCount := fun _ => 0 }
      return h.setInterface i { h.interface i with state := if opened then .opened else .closed }
    else return h
  else return h

/-- `_dhd_wlfc_credit_request`, `_dhd_wlfc_packet_request` -/
def request (h : Host) (a : List UInt8) (v : Nat) : Except Fault Host := do
  let handle ← rd a (v + 1)
  let _ ← rd a v
  let i ← index 32 (lookupIndex handle)
  if h.occupied i then do
    let bmp ← rd a (v + 2)
    let r ← h.requested.add i
    return { h.setNode i { h.node i with acBitmap := bmp &&& ~~~ 0x10 } with requested := r }
  else return h

/-- Reads the transaction id and its time. -/
def dbgSenumCheck (a : List UInt8) (v : Nat) : Except Fault Unit := do
  let _ ← rdN a (v + 2) 4
  let _ ← rd a (v + 1)
  return ()

/-! ## Parser -/

/-- `WLFC_CTL_VALUE_LEN_TXSTATUS`, and `WLFC_CTL_VALUE_LEN_SEQ` -/
def SigCfg.statusLen (cfg : SigCfg) : Nat := if cfg.reuseSeq then 6 else 4

/-- The signal with its value at `v`; the bytes of the packet come back with the host. -/
def indicate (cfg : SigCfg) (h : Host) (a : List UInt8) (c : Ctl) (v : Nat) :
    Except Fault (Host × List UInt8) :=
  match c with
  | .txstatus => do
    let h ← compressedTxstatus cfg h a v 1
    return (h, a)
  | .compTxstatus => do
    let len ← rd a (v + cfg.statusLen)
    let h ← compressedTxstatus cfg h a v len.toNat
    return (h, a)
  | .fifoCreditback => fifocreditbackIndicate cfg h a v
  | .macRequestCredit | .macRequestPacket => do
    let h ← request h a v
    return (h, a)
  | .macOpen | .macClose => do
    let h ← psmodeUpdate h a v (c = .macOpen)
    return (h, a)
  | .macdescAdd | .macdescDel => do
    let h ← macTableUpdate cfg h a v (c = .macdescAdd)
    return (h, a)
  | .transId => do
    dbgSenumCheck a v
    return (h, a)
  | .interfaceOpen | .interfaceClose => do
    let h ← interfaceUpdate h a v (c = .interfaceOpen)
    return (h, a)
  | .rssi | .hostReorderRxpkts | .filler | .other => return (h, a)

/-- Local variables of the parser, with `wlfc_state`, and with the reorder information that it
hands out. -/
structure Parser where
  host : Option Host
  area : List UInt8
  processed : Nat
  remainder : Nat
  info : Option (List UInt8)
  stop : Bool

/-- `WLHOST_REORDERDATA_TOTLEN` -/
def reorderdataTotlen : Nat := 12

/-- Information that is too long is not handed out in part. -/
def reorderinfoIndicate (t : Parser) (c : Ctl) (v len : Nat) :
    Except Fault (Option (List UInt8)) :=
  if c = .hostReorderRxpkts then
    if len ≤ reorderdataTotlen then do
      let bs ← rdN t.area v len
      return some bs
    else .ok (some [])
  else .ok t.info

/-- The TLV with its value at `v`. -/
def parseValue (cfg : SigCfg) (t : Parser) (c : Ctl) (v len : Nat) : Except Fault Parser := do
  let info ← reorderinfoIndicate t c v len
  let t := { t with
    remainder := t.remainder - (2 + len), processed := t.processed + (2 + len), info := info }
  match t.host with
  | none => return t
  | some h => do
    let r ← indicate cfg h t.area c v
    return { t with host := some r.1, area := r.2 }

def parseTlv (cfg : SigCfg) (t : Parser) : Except Fault Parser := do
  let type ← rd t.area t.processed
  if Ctl.ofByte type = .filler then
    return { t with remainder := t.remainder - 1, processed := t.processed + 1 }
  else do
    let len ← rd t.area (t.processed + 1)
    if t.remainder < 2 + len.toNat then return { t with stop := true }
    else parseValue cfg t (Ctl.ofByte type) (t.processed + 2) len.toNat

/-- `WLFC_MAX_PENDING_DATALEN * 2` -/
def maxProcessed : Nat := 240

def Parser.done (t : Parser) : Bool := t.stop || maxProcessed ≤ t.processed || t.remainder = 0

def Parser.start (host : Option Host) (area : List UInt8) : Parser where
  host := host
  area := area
  processed := 0
  remainder := area.length % 0x10000
  info := none
  stop := false

/-- `area`: the first `tlv_hdr_len` bytes of the packet.  The result `none` is
`WLFC_UNSUPPORTED`. -/
def parseHeaderInfo (cfg : SigCfg) (wlfc : Option Host) (area : List UInt8) :
    Except Fault (Option Parser) :=
  if cfg.mode = .onlyAmpduHostreorder then do
    let t ← loop .fuel Parser.done (parseTlv cfg) 241 (.start none area)
    return some t
  else if wlfc.isNone ∨ cfg.mode = .none then .ok none
  else do
    let t ← loop .fuel Parser.done (parseTlv cfg) 241 (.start wlfc area)
    return some t

/-! ## Sound signals -/

theorem mod_lt_nodes (mac : Nat) : mac % 0x20 < 32 := Nat.mod_lt mac (by decide)

def nodeOf (mac : Nat) : Node := ⟨mac % 0x20, mod_lt_nodes mac⟩

/-- No slot of the status at `v` for `len` packets is beyond the hanger. -/
def slotsSound (cfg : SigCfg) (a : List UInt8) (v len : Nat) : Bool :=
  cfg.txstatusIgnore || cfg.wlfc.afq ||
    (List.range len).all fun i =>
      (byte a (v + 1) + 0x100 * byte a (v + 2) + i) % 0x10000 ≤ 3072

/-- The value that the handler reads lies in the area, and its numbers in the tables. -/
def valueSound (cfg : SigCfg) (h : Host) (a : List UInt8) (c : Ctl) (v : Nat) : Bool :=
  match c with
  | .txstatus => v + cfg.statusLen ≤ a.length && slotsSound cfg a v 1
  | .compTxstatus =>
    v + cfg.statusLen + 1 ≤ a.length && slotsSound cfg a v (byte a (v + cfg.statusLen))
  | .fifoCreditback => cfg.mode ≠ .explicitCredit || v + 6 ≤ a.length
  | .macRequestCredit | .macRequestPacket =>
    v + 2 ≤ a.length && (!h.occupied (nodeOf (byte a (v + 1))) || v + 3 ≤ a.length)
  | .macOpen | .macClose | .interfaceOpen | .interfaceClose => v + 1 ≤ a.length
  | .macdescAdd =>
    v + 8 ≤ a.length && (h.occupied (nodeOf (byte a v)) || byte a (v + 1) < 16)
  | .macdescDel =>
    v + 2 ≤ a.length && (!h.occupied (nodeOf (byte a v)) || byte a (v + 1) < 16)
  | .transId => v + 6 ≤ a.length
  | .rssi | .hostReorderRxpkts | .filler | .other => true

/-- The condition on the TLV that the parser has come to: a filler, or a length that lies in the
area, with a value that is cut off (where the parser ends) or sound. -/
def sound (cfg : SigCfg) (t : Parser) : Bool :=
  let c := Ctl.ofByte (UInt8.ofNat (byte t.area t.processed))
  let len := byte t.area (t.processed + 1)
  c = .filler ||
    (t.processed + 2 ≤ t.area.length &&
      (t.remainder < 2 + len ||
        match t.host with
        | none => true
        | some h => valueSound cfg h t.area c (t.processed + 2)))

/-! ## Reads -/

variable {a : List UInt8} {cfg : SigCfg} {t u : Parser}

theorem succeeds_rd {i : Nat} : Succeeds (rd a i) ↔ i < a.length := by
  constructor
  · rintro ⟨b, hb⟩
    by_contra h
    unfold rd at hb
    rw [List.getElem?_eq_none (Nat.le_of_not_lt h)] at hb
    cases hb
  · intro h
    rw [rd_of_lt h]
    exact succeeds_ok _

theorem rd_byte {i : Nat} {b : UInt8} (h : rd a i = .ok b) :
    byte a i = b.toNat := by
  obtain ⟨c, hc, hb⟩ := rd_eq (succeeds_rd.mp ⟨b, h⟩)
  rw [h] at hc
  cases hc
  exact hb.symm

theorem succeeds_rdN {p n : Nat} (hp : p ≤ a.length) :
    Succeeds (rdN a p n) ↔ p + n ≤ a.length := by
  induction n generalizing p with
  | zero =>
    unfold rdN
    exact iff_of_true (succeeds_ok []) hp
  | succ n ih =>
    unfold rdN
    by_cases hlt : p < a.length
    · rw [succeeds_bind_of fun b _ => succeeds_bind_pure.trans (ih hlt), succeeds_rd]
      omega
    · rw [succeeds_bind]
      constructor
      · rintro ⟨b, hb, _⟩
        exact absurd (succeeds_rd.mp ⟨b, hb⟩) hlt
      · omega

theorem succeeds_index {n i : Nat} : Succeeds (index n i) ↔ i < n := by
  unfold index
  split
  · next h => exact iff_of_true (succeeds_ok _) h
  · next h => exact iff_of_false (not_succeeds_error _) h

theorem index_lookup (b : UInt8) : index 32 (lookupIndex b) = .ok (nodeOf b.toNat) :=
  dif_pos (mod_lt_nodes b.toNat)

/-! ## Slots -/

theorem statusFinds_isSome (cfg : Cfg) (s : State) (st : TxStatus) :
    (statusFinds cfg s st).isSome = true ↔ cfg.afq = true ∨ st.hslot ≤ 3072 := by
  unfold statusFinds
  split
  · next ha =>
    refine iff_of_true ?_ (Or.inl ha)
    split <;> rfl
  · next ha =>
    split
    · next h => exact iff_of_true rfl (Or.inr (by omega))
    · split
      · next h =>
        refine iff_of_true ?_ (Or.inr (by omega))
        dsimp only
        split <;> rfl
      · next h1 h2 => exact iff_of_false nofun (by rintro (h | h) <;> [exact ha h; omega])

theorem txstatusOne_isSome (cfg : Cfg) (s : State) (st : TxStatus) :
    (txstatusOne cfg s st).isSome = true ↔ cfg.afq = true ∨ st.hslot ≤ 3072 := by
  unfold txstatusOne
  rw [← statusFinds_isSome cfg (ackedFirst cfg s st) st]
  split <;> next h => rw [h]; simp

/-- The slot after that of a packet. -/
theorem txstatusOne_hslot {cfg : Cfg} {s s' : State} {st st' : TxStatus} {m : Option Dest}
    (h : txstatusOne cfg s st = some (s', st', m)) :
    st'.hslot = if cfg.afq then st.hslot else (st.hslot + 1) % 0x10000 := by
  unfold txstatusOne at h
  split at h
  · cases h
  · cases h
    rfl
  · cases h
    rfl

/-- A compressed status stays inside the hanger just when its slots do. -/
theorem compressedTxstatusUpdate_isSome (cfg : Cfg) (len : Nat) (s : State) (st : TxStatus)
    (mac : Option Dest) (h : st.hslot < 0x10000) :
    (compressedTxstatusUpdate cfg len s st mac).isSome = true ↔
      cfg.afq = true ∨ ∀ i < len, (st.hslot + i) % 0x10000 ≤ 3072 := by
  induction len generalizing s st mac with
  | zero => exact iff_of_true rfl (Or.inr fun i hi => absurd hi (Nat.not_lt_zero i))
  | succ len ih =>
    unfold compressedTxstatusUpdate
    have hone := txstatusOne_isSome cfg s st
    cases hx : txstatusOne cfg s st with
    | none =>
      rw [hx] at hone
      refine iff_of_false nofun ?_
      rintro (ha | hall)
      · exact absurd (hone.mpr (Or.inl ha)) nofun
      · have := hall 0 (Nat.succ_pos len)
        exact absurd (hone.mpr (Or.inr (by omega))) nofun
    | some x =>
      rw [hx] at hone
      obtain ⟨s', st', m⟩ := x
      have hslot := txstatusOne_hslot hx
      dsimp only
      rw [ih s' st' _ (by rw [hslot]; split <;> omega), hslot]
      by_cases ha : cfg.afq = true
      · exact iff_of_true (Or.inl ha) (Or.inl ha)
      · have h0 := (hone.mp rfl).resolve_left ha
        simp only [ha, false_or, if_false, Bool.false_eq_true]
        constructor
        · rintro hall (_ | i) hi
          · omega
          · have := hall i (by omega)
            omega
        · intro hall i hi
          have := hall (i + 1) (by omega)
          omega

theorem suppressPkt_isSome (cfg : Cfg) (s : State) (p : Id) : (suppressPkt cfg s p).isSome = true := by
  unfold suppressPkt
  rw [Option.isSome_map, compressedTxstatusUpdate_isSome]
  · refine Or.inr fun i hi => ?_
    dsimp only
    omega
  · dsimp only
    omega

theorem foldlM_isSome {σ α : Type*} {f : σ → α → Option σ} (hf : ∀ s a, (f s a).isSome = true)
    (l : List α) (s : σ) : (l.foldlM f s).isSome = true := by
  induction l generalizing s with
  | nil => rfl
  | cons a l ih =>
    rw [List.foldlM_cons]
    obtain ⟨t, ht⟩ := Option.isSome_iff_exists.mp (hf s a)
    rw [ht]
    exact ih t

theorem suppressEntry_succeeds (cfg : SigCfg) (h : Host) (d : Dest) :
    Succeeds (suppressEntry cfg h d) := by
  unfold suppressEntry
  have := foldlM_isSome (suppressPkt_isSome cfg.wlfc) (txqTaken cfg.wlfc h.pkts (.entrypkt d))
    (h.pkts.leaveTxq (txqTaken cfg.wlfc h.pkts (.entrypkt d)))
  split
  · next hn =>
    unfold suppressTxq at hn
    rw [hn] at this
    cases this
  · exact succeeds_ok _

theorem succeeds_readStatus (cfg : SigCfg) (a : List UInt8) (v : Nat) :
    Succeeds (readStatus cfg a v) ↔ v + cfg.statusLen ≤ a.length := by
  have hseq : ∀ st : TxStatus, v + 3 < a.length →
      (Succeeds (if cfg.reuseSeq = true then do let _ ← rdN a (v + 4) 2; return st else return st) ↔
        v + cfg.statusLen ≤ a.length) := by
    intro st h3
    unfold SigCfg.statusLen
    split
    · exact succeeds_bind_pure.trans (succeeds_rdN h3)
    · exact iff_of_true (succeeds_ok st) h3
  unfold readStatus
  refine (succeeds_bind_of fun b0 _ => succeeds_bind_of fun b1 _ => succeeds_bind_of fun b2 _ =>
    succeeds_bind_of fun b3 h3 => hseq (txStatus b0 b1 b2 b3) (succeeds_rd.mp ⟨b3, h3⟩)).trans ?_
  have hlen : 4 ≤ cfg.statusLen := by
    unfold SigCfg.statusLen
    split <;> omega
  simp only [succeeds_rd]
  omega

theorem readStatus_hslot {v : Nat} {st : TxStatus} (h : readStatus cfg a v = .ok st) :
    st.hslot = byte a (v + 1) + 0x100 * byte a (v + 2) := by
  unfold readStatus at h
  obtain ⟨b0, h0, h⟩ := bind_eq_ok.mp h
  obtain ⟨b1, h1, h⟩ := bind_eq_ok.mp h
  obtain ⟨b2, h2, h⟩ := bind_eq_ok.mp h
  obtain ⟨b3, h3, h⟩ := bind_eq_ok.mp h
  rw [rd_byte h1, rd_byte h2]
  split at h
  · obtain ⟨_, _, h⟩ := bind_eq_ok.mp h
    cases h
    rfl
  · cases h
    rfl

theorem succeeds_compressedTxstatus (cfg : SigCfg) (h : Host) (a : List UInt8) (v len : Nat) :
    Succeeds (compressedTxstatus cfg h a v len) ↔
      v + cfg.statusLen ≤ a.length ∧ slotsSound cfg a v len = true := by
  unfold compressedTxstatus
  rw [← succeeds_readStatus cfg a v]
  refine succeeds_bind_of fun st hst => ?_
  have hslot := readStatus_hslot hst
  have hlt : st.hslot < 0x10000 := by
    have := byte_lt a (v + 1)
    have := byte_lt a (v + 2)
    omega
  unfold slotsSound
  by_cases hi : cfg.txstatusIgnore = true
  · rw [if_pos hi, hi]
    exact iff_of_true (succeeds_ok h) rfl
  · rw [if_neg hi]
    have hsome := compressedTxstatusUpdate_isSome cfg.wlfc len h.pkts st none hlt
    rw [hslot] at hsome
    simp only [hi, Bool.false_or, Bool.or_eq_true, List.all_eq_true, List.mem_range,
      decide_eq_true_eq]
    rw [← hsome]
    split
    · next hn =>
      rw [hn]
      exact iff_of_false (not_succeeds_error _) nofun
    · next pkts mac hn =>
      rw [hn]
      refine iff_of_true ?_ rfl
      split
      · split
        · exact suppressEntry_succeeds _ _ _
        · exact succeeds_ok _
      · exact succeeds_ok _

/-! ## Entries and requests -/

theorem foldl_occupied {α : Type*} {f : State → α → State} {d : Dest}
    (hf : ∀ s a, ((f s a).entry d).occupied = (s.entry d).occupied) (l : List α) (s : State) :
    ((l.foldl f s).entry d).occupied = (s.entry d).occupied :=
  List.foldlRecOn (motive := fun t : State => (t.entry d).occupied = _) l f rfl fun t ht a _ =>
    (hf t a).trans ht

theorem flushPsq_occupied (cfg : Cfg) (fn : PktFn) (d d' : Dest) (s : State) (k : Prec) :
    ((flushPsq cfg fn d s k).entry d').occupied = (s.entry d').occupied := by
  unfold flushPsq
  refine foldl_occupied (fun s p => ?_) _ _
  unfold flushPsqPkt
  dsimp only
  split <;> rfl

theorem flushAfq_occupied (cfg : Cfg) (fn : PktFn) (d d' : Dest) (s : State) (ac : Ac) :
    ((flushAfq cfg fn d s ac).entry d').occupied = (s.entry d').occupied := by
  unfold flushAfq
  refine foldl_occupied (fun s p => ?_) _ _
  exact setEntry_occupied s _ d' _ (Entry.back_occupied _)

theorem cleanupTxq_occupied (cfg : Cfg) (fn : PktFn) (d' : Dest) (s : State) :
    ((cleanupTxq cfg s fn).entry d').occupied = (s.entry d').occupied := by
  unfold cleanupTxq
  refine foldl_occupied (fun s p => ?_) _ _
  unfold cleanupTxqPkt
  dsimp only
  split
  · exact setEntry_occupied s _ d' _ (Entry.back_occupied _)
  · exact setEntry_occupied { s with hanger := _ } _ d' _ (Entry.back_occupied _)

theorem cleanupEntry_occupied (cfg : Cfg) (d d' : Dest) (s : State) (e : Dest) :
    ((cleanupEntry cfg (.entrypkt d) s e).entry d').occupied = (s.entry d').occupied := by
  have hpsq := foldl_occupied (flushPsq_occupied cfg (.entrypkt d) e d') Prec.all s
  have hafq := foldl_occupied (flushAfq_occupied cfg (.entrypkt d) e d') (List.finRange 5)
    (Prec.all.foldl (flushPsq cfg (.entrypkt d) e) s)
  unfold cleanupEntry
  split
  · dsimp only
    generalize Prec.all.foldl (flushPsq cfg (.entrypkt d) e) s = t at hpsq hafq ⊢
    generalize (List.finRange 5).foldl (flushAfq cfg (.entrypkt d) e) t = u at hafq ⊢
    have hall : ¬ (PktFn.entrypkt d = .all ∧ e ≠ 48) := fun h => nomatch h.1
    rw [if_neg hall]
    split
    · exact hafq.trans hpsq
    · exact hpsq
  · rfl

/-- Only `_dhd_wlfc_cleanup` of everything gives up entries. -/
theorem cleanup_occupied (cfg : Cfg) (s : State) (d d' : Dest) :
    ((cleanup cfg s (.entrypkt d)).entry d').occupied = (s.entry d').occupied := by
  have hentries := foldl_occupied (cleanupEntry_occupied cfg d d') (List.finRange 49)
    (cleanupTxq cfg s (.entrypkt d))
  have h := hentries.trans (cleanupTxq_occupied cfg (.entrypkt d) d' s)
  unfold cleanup
  dsimp only
  generalize (List.finRange 49).foldl (cleanupEntry cfg (.entrypkt d))
    (cleanupTxq cfg s (.entrypkt d)) = t at h ⊢
  split <;> exact h

theorem nodeDest_ne {i j : Node} (h : j ≠ i) : nodeDest j ≠ nodeDest i :=
  fun he => h (Fin.castLE_injective nodes_le he)

theorem macEntryDel_occupied (cfg : SigCfg) (h : Host) {i j : Node} (hji : j ≠ i) :
    (macEntryDel cfg h j).occupied i = h.occupied i := by
  unfold macEntryDel Host.occupied Host.setNode State.setEntry
  dsimp only
  rw [Function.update_of_ne (nodeDest_ne hji).symm, cleanup_occupied]

theorem succeeds_macTableAdd (cfg : SigCfg) (h : Host) (i : Node) (handle ifid : UInt8)
    (ea : List UInt8) :
    Succeeds (macTableAdd cfg h i handle ifid ea) ↔
      (h.occupied i || decide (ifid.toNat < 16)) = true := by
  unfold macTableAdd
  dsimp only
  generalize hg : (match findMacDesc h ea with
    | some j => if j ≠ i then macEntryDel cfg h j else h
    | none => h) = g
  have hocc : g.occupied i = h.occupied i := by
    rw [← hg]
    split
    · split
      · next hji => exact macEntryDel_occupied cfg h hji
      · rfl
    · rfl
  rw [hocc, Bool.or_eq_true, decide_eq_true_eq]
  by_cases ho : h.occupied i = true
  · rw [if_pos ho]
    exact iff_of_true (succeeds_ok g) (Or.inl ho)
  · rw [if_neg ho, or_iff_right ho]
    exact succeeds_bind_pure.trans succeeds_index

theorem succeeds_macTableDel (cfg : SigCfg) (h : Host) (i : Node) (ifid : UInt8) :
    Succeeds (macTableDel cfg h i ifid) ↔
      (!h.occupied i || decide (ifid.toNat < 16)) = true := by
  unfold macTableDel
  cases ho : h.occupied i with
  | true =>
    rw [if_pos rfl]
    refine (succeeds_bind_pure.trans succeeds_index).trans ?_
    simp
  | false =>
    rw [if_neg nofun]
    exact iff_of_true (succeeds_ok h) rfl

theorem succeeds_macTableUpdate_add (cfg : SigCfg) (h : Host) (a : List UInt8) (v : Nat) :
    Succeeds (macTableUpdate cfg h a v true) ↔
      v + 8 ≤ a.length ∧
        (h.occupied (nodeOf (byte a v)) || decide (byte a (v + 1) < 16)) = true := by
  unfold macTableUpdate
  have hrest : ∀ handle, rd a v = .ok handle → ∀ ifid, rd a (v + 1) = .ok ifid →
      (Succeeds (do
        let ea ← rdN a (v + 2) 6
        macTableAdd cfg { h with requested := h.requested.remove (nodeOf handle.toNat) }
          (nodeOf handle.toNat) handle ifid ea) ↔
        v + 8 ≤ a.length ∧
          (h.occupied (nodeOf (byte a v)) || decide (byte a (v + 1) < 16)) = true) := by
    intro handle hh ifid hi
    rw [rd_byte hh, rd_byte hi]
    refine (succeeds_bind_of fun ea _ => succeeds_macTableAdd cfg _ _ handle ifid ea).trans ?_
    rw [succeeds_rdN (succeeds_rd.mp ⟨ifid, hi⟩)]
    rfl
  refine (succeeds_bind_of fun handle hh => ?_).trans
    (and_iff_right_of_imp (a := Succeeds (rd a v)) fun h => succeeds_rd.mpr (by omega))
  rw [index_lookup, ok_bind]
  exact (succeeds_bind_of fun ifid hi => hrest handle hh ifid hi).trans
    (and_iff_right_of_imp (a := Succeeds (rd a (v + 1))) fun h => succeeds_rd.mpr (by omega))

theorem succeeds_macTableUpdate_del (cfg : SigCfg) (h : Host) (a : List UInt8) (v : Nat) :
    Succeeds (macTableUpdate cfg h a v false) ↔
      v + 2 ≤ a.length ∧
        (!h.occupied (nodeOf (byte a v)) || decide (byte a (v + 1) < 16)) = true := by
  unfold macTableUpdate
  have hlen : v + 2 ≤ a.length ↔ Succeeds (rd a v) ∧ Succeeds (rd a (v + 1)) := by
    rw [succeeds_rd, succeeds_rd]
    omega
  rw [hlen, and_assoc]
  refine succeeds_bind_of fun handle hh => ?_
  rw [index_lookup, ok_bind]
  refine succeeds_bind_of fun ifid hi => ?_
  rw [rd_byte hh, rd_byte hi]
  exact succeeds_macTableDel cfg _ _ ifid

/-- There is a place for each of the nodes. -/
theorem Requested.add_succeeds (r : Requested) (i : Node) : Succeeds (r.add i) := by
  unfold Requested.add
  split
  · exact succeeds_ok r
  · next hi =>
    refine succeeds_bind_pure.mpr (succeeds_index.mpr ?_)
    have := (nodup_concat r.nodup hi).length_le_card
    rw [List.length_append, List.length_singleton, Fintype.card_fin] at this
    omega

theorem succeeds_request (h : Host) (a : List UInt8) (v : Nat) :
    Succeeds (request h a v) ↔
      v + 2 ≤ a.length ∧
        (!h.occupied (nodeOf (byte a (v + 1))) || decide (v + 3 ≤ a.length)) = true := by
  unfold request
  have hlen : v + 2 ≤ a.length ↔ Succeeds (rd a (v + 1)) ∧ Succeeds (rd a v) := by
    rw [succeeds_rd, succeeds_rd]
    omega
  rw [hlen, and_assoc]
  refine succeeds_bind_of fun handle hh => succeeds_bind_of fun credit _ => ?_
  rw [index_lookup, ok_bind, rd_byte hh]
  cases ho : h.occupied (nodeOf handle.toNat) with
  | true =>
    rw [if_pos rfl]
    refine (succeeds_bind_of fun bmp _ =>
      iff_of_true (succeeds_bind_pure.mpr (h.requested.add_succeeds _)) trivial).trans ?_
    rw [succeeds_rd, and_true, Bool.not_true, Bool.false_or, decide_eq_true_eq]
    exact Iff.rfl
  | false =>
    rw [if_neg nofun]
    exact iff_of_true (succeeds_ok h) rfl

theorem succeeds_psmodeUpdate (h : Host) (a : List UInt8) (v : Nat) (opened : Bool) :
    Succeeds (psmodeUpdate h a v opened) ↔ v + 1 ≤ a.length := by
  unfold psmodeUpdate
  refine (succeeds_bind_of fun handle _ => ?_).trans ((iff_of_eq (and_true _)).trans succeeds_rd)
  rw [index_lookup, ok_bind]
  dsimp only
  split
  · split <;> exact iff_of_true (succeeds_ok _) trivial
  · exact iff_of_true (succeeds_ok _) trivial

theorem succeeds_interfaceUpdate (h : Host) (a : List UInt8) (v : Nat) (opened : Bool) :
    Succeeds (interfaceUpdate h a v opened) ↔ v + 1 ≤ a.length := by
  unfold interfaceUpdate
  refine (succeeds_bind_of fun ifId _ => ?_).trans ((iff_of_eq (and_true _)).trans succeeds_rd)
  split
  · dsimp only
    split <;> exact iff_of_true (succeeds_ok _) trivial
  · exact iff_of_true (succeeds_ok _) trivial

theorem succeeds_dbgSenumCheck (a : List UInt8) (v : Nat) :
    Succeeds (dbgSenumCheck a v) ↔ v + 6 ≤ a.length := by
  unfold dbgSenumCheck
  by_cases hv : v + 2 ≤ a.length
  · refine (succeeds_bind_of fun bs _ => succeeds_bind_pure.trans succeeds_rd).trans ?_
    rw [succeeds_rdN hv]
    omega
  · refine iff_of_false (fun h => ?_) (by omega)
    obtain ⟨bs, _, h⟩ := succeeds_bind.mp h
    obtain ⟨b, hb, _⟩ := succeeds_bind.mp h
    have := succeeds_rd.mp ⟨b, hb⟩
    unfold rdN at *
    omega

/-- Each credit is put back where it was read. -/
theorem fifocreditbackLoop_spec (cfg : SigCfg) (v : Nat) (is : List Fifo) (l : Ledger Fifo)
    (a : List UInt8) :
    (Succeeds (fifocreditbackLoop cfg v is l a) ↔ ∀ i ∈ is, v + i.val < a.length) ∧
      ∀ r, fifocreditbackLoop cfg v is l a = .ok r → r.2.length = a.length := by
  induction is generalizing l a with
  | nil =>
    refine ⟨iff_of_true (succeeds_ok _) nofun, fun r h => ?_⟩
    cases h
    rfl
  | cons i is ih =>
    unfold fifocreditbackLoop
    constructor
    · refine (succeeds_bind_of (P := ∀ j ∈ is, v + j.val < a.length) fun c _ => ?_).trans ?_
      · exact (ih _ _).1.trans (by rw [List.length_set])
      · rw [succeeds_rd, List.forall_mem_cons]
    · intro r h
      obtain ⟨c, _, h⟩ := bind_eq_ok.mp h
      rw [(ih _ _).2 r h, List.length_set]

theorem succeeds_fifocreditbackIndicate (cfg : SigCfg) (h : Host) (a : List UInt8) (v : Nat) :
    Succeeds (fifocreditbackIndicate cfg h a v) ↔
      cfg.mode ≠ .explicitCredit ∨ v + 6 ≤ a.length := by
  unfold fifocreditbackIndicate
  split
  · next hm =>
    rw [succeeds_bind_pure, (fifocreditbackLoop_spec cfg v fifos h.ledger a).1]
    refine Iff.trans ⟨fun hall => ?_, fun hle i _ => ?_⟩ (or_iff_right fun hn => hn hm).symm
    · have := hall 5 (by decide)
      simp at this
      omega
    · omega
  · next hm => exact iff_of_true (succeeds_ok _) (Or.inl hm)

/-- A signal is handled without a fault just when its value is sound. -/
theorem succeeds_indicate (cfg : SigCfg) (h : Host) (a : List UInt8) (c : Ctl) (v : Nat) :
    Succeeds (indicate cfg h a c v) ↔ valueSound cfg h a c v = true := by
  cases c with
  | txstatus =>
    refine (succeeds_bind_pure.trans (succeeds_compressedTxstatus cfg h a v 1)).trans ?_
    simp [valueSound]
  | compTxstatus =>
    refine (succeeds_bind_of fun len hlen => ?_).trans
      (and_iff_right_of_imp (a := Succeeds (rd a (v + cfg.statusLen)))
        fun hs => succeeds_rd.mpr ?_)
    · have hlt := succeeds_rd.mp ⟨len, hlen⟩
      refine (succeeds_bind_pure.trans (succeeds_compressedTxstatus cfg h a v len.toNat)).trans ?_
      simp only [valueSound, rd_byte hlen, Bool.and_eq_true, decide_eq_true_eq]
      exact and_congr_left fun _ => by omega
    · simp only [valueSound, Bool.and_eq_true, decide_eq_true_eq] at hs
      omega
  | fifoCreditback =>
    refine (succeeds_fifocreditbackIndicate cfg h a v).trans ?_
    simp [valueSound]
  | macRequestCredit | macRequestPacket =>
    refine (succeeds_bind_pure.trans (succeeds_request h a v)).trans ?_
    simp [valueSound]
  | macOpen | macClose =>
    refine (succeeds_bind_pure.trans (succeeds_psmodeUpdate h a v _)).trans ?_
    simp [valueSound]
  | interfaceOpen | interfaceClose =>
    refine (succeeds_bind_pure.trans (succeeds_interfaceUpdate h a v _)).trans ?_
    simp [valueSound]
  | macdescAdd =>
    refine (succeeds_bind_pure.trans (succeeds_macTableUpdate_add cfg h a v)).trans ?_
    simp [valueSound]
  | macdescDel =>
    refine (succeeds_bind_pure.trans (succeeds_macTableUpdate_del cfg h a v)).trans ?_
    simp [valueSound]
  | transId =>
    refine (succeeds_bind_pure.trans (succeeds_dbgSenumCheck a v)).trans ?_
    simp [valueSound]
  | rssi | hostReorderRxpkts | filler | other => exact iff_of_true (succeeds_ok _) rfl

/-- Only the credits are written to the packet, in place. -/
theorem indicate_length {h : Host} {c : Ctl} {v : Nat} {r : Host × List UInt8}
    (hr : indicate cfg h a c v = .ok r) : r.2.length = a.length := by
  cases c with
  | fifoCreditback =>
    change fifocreditbackIndicate cfg h a v = .ok r at hr
    unfold fifocreditbackIndicate at hr
    split at hr
    · obtain ⟨x, hx, hr⟩ := bind_eq_ok.mp hr
      cases hr
      exact (fifocreditbackLoop_spec cfg v fifos h.ledger a).2 x hx
    · cases hr
      rfl
  | compTxstatus =>
    obtain ⟨_, _, hr⟩ := bind_eq_ok.mp hr
    obtain ⟨_, _, hr⟩ := bind_eq_ok.mp hr
    cases hr
    rfl
  | txstatus | macRequestCredit | macRequestPacket | macOpen | macClose | interfaceOpen
  | interfaceClose | macdescAdd | macdescDel | transId =>
    obtain ⟨_, _, hr⟩ := bind_eq_ok.mp hr
    cases hr
    rfl
  | rssi | hostReorderRxpkts | filler | other =>
    cases hr
    rfl

/-! ## Parser -/

/-- What is left of the area lies in it. -/
def Parser.Inside (t : Parser) : Prop := t.processed + t.remainder ≤ t.area.length

theorem parseValue_ok {c : Ctl} {v len : Nat} (h : parseValue cfg t c v len = .ok u) :
    u.processed = t.processed + (2 + len) ∧ u.remainder = t.remainder - (2 + len) ∧
      u.area.length = t.area.length ∧ u.stop = t.stop := by
  unfold parseValue at h
  obtain ⟨info, _, h⟩ := bind_eq_ok.mp h
  dsimp only at h
  split at h
  · cases h
    exact ⟨rfl, rfl, rfl, rfl⟩
  · obtain ⟨r, hr, h⟩ := bind_eq_ok.mp h
    cases h
    exact ⟨rfl, rfl, indicate_length hr, rfl⟩

theorem succeeds_parseValue (cfg : SigCfg) (t : Parser) (c : Ctl) (len : Nat) (hi : t.Inside)
    (hle : 2 + len ≤ t.remainder) :
    Succeeds (parseValue cfg t c (t.processed + 2) len) ↔
      (match t.host with
        | none => true
        | some h => valueSound cfg h t.area c (t.processed + 2)) = true := by
  unfold Parser.Inside at hi
  have hinfo : Succeeds (reorderinfoIndicate t c (t.processed + 2) len) := by
    unfold reorderinfoIndicate
    split
    · split
      · exact succeeds_bind_pure.mpr ((succeeds_rdN (by omega)).mpr (by omega))
      · exact succeeds_ok _
    · exact succeeds_ok _
  unfold parseValue
  refine (succeeds_bind_of fun info _ => ?_).trans (and_iff_right hinfo)
  dsimp only
  split
  · exact iff_of_true (succeeds_ok _) rfl
  · next h _ => exact succeeds_bind_pure.trans (succeeds_indicate cfg h t.area c _)

theorem parseTlv_cases (h : parseTlv cfg t = .ok u) :
    (u = { t with remainder := t.remainder - 1, processed := t.processed + 1 }) ∨
      u = { t with stop := true } ∨
      ∃ len, 2 + len ≤ t.remainder ∧ u.processed = t.processed + (2 + len) ∧
        u.remainder = t.remainder - (2 + len) ∧ u.area.length = t.area.length ∧
        u.stop = t.stop := by
  unfold parseTlv at h
  obtain ⟨type, _, h⟩ := bind_eq_ok.mp h
  split at h
  · cases h
    exact Or.inl rfl
  · obtain ⟨len, _, h⟩ := bind_eq_ok.mp h
    split at h
    · cases h
      exact Or.inr (Or.inl rfl)
    · next hle => exact Or.inr (Or.inr ⟨len.toNat, by omega, parseValue_ok h⟩)

theorem not_done_iff :
    t.done = false ↔ t.stop = false ∧ t.processed < maxProcessed ∧ t.remainder ≠ 0 := by
  unfold Parser.done
  simp [and_assoc]

theorem parseTlv_inside (hi : t.Inside) (hd : t.done = false) (h : parseTlv cfg t = .ok u) :
    u.Inside := by
  unfold Parser.Inside at *
  obtain ⟨_, _, hr⟩ := not_done_iff.mp hd
  rcases parseTlv_cases h with rfl | rfl | ⟨len, hle, hp, hq, ha, _⟩
  · dsimp only
    omega
  · exact hi
  · rw [hp, hq, ha]
    omega

/-- Steps that are still to come. -/
def Parser.steps (t : Parser) : Nat := if t.stop then 0 else maxProcessed + 1 - t.processed

theorem parseTlv_steps (hd : t.done = false) (h : parseTlv cfg t = .ok u) : u.steps < t.steps := by
  obtain ⟨hs, hp, _⟩ := not_done_iff.mp hd
  unfold Parser.steps
  rw [hs]
  rcases parseTlv_cases h with rfl | rfl | ⟨len, _, hpu, _, _, hsu⟩
  · rw [hs]
    simp only [Bool.false_eq_true, if_false]
    omega
  · simp only [Bool.false_eq_true, if_false, if_true]
    omega
  · rw [hsu, hs, hpu]
    simp only [Bool.false_eq_true, if_false]
    omega

theorem succeeds_parseTlv (cfg : SigCfg) (t : Parser) (hi : t.Inside) (hd : t.done = false) :
    Succeeds (parseTlv cfg t) ↔ sound cfg t = true := by
  obtain ⟨_, _, hr⟩ := not_done_iff.mp hd
  have hlt : t.processed < t.area.length := by
    unfold Parser.Inside at hi
    omega
  obtain ⟨type, ht⟩ := succeeds_rd.mpr hlt
  have htype : UInt8.ofNat (byte t.area t.processed) = type := by
    rw [rd_byte ht]
    exact UInt8.ofNat_toNat
  unfold parseTlv sound
  rw [ht, ok_bind, htype, Bool.or_eq_true, decide_eq_true_eq]
  by_cases hf : Ctl.ofByte type = .filler
  · rw [if_pos hf]
    exact iff_of_true (succeeds_ok _) (Or.inl hf)
  · rw [if_neg hf, or_iff_right hf, Bool.and_eq_true, decide_eq_true_eq]
    have hlen : t.processed + 2 ≤ t.area.length ↔ Succeeds (rd t.area (t.processed + 1)) :=
      succeeds_rd.symm
    rw [hlen]
    refine succeeds_bind_of fun len hl => ?_
    rw [rd_byte hl, Bool.or_eq_true, decide_eq_true_eq]
    by_cases hcut : t.remainder < 2 + len.toNat
    · rw [if_pos hcut]
      exact iff_of_true (succeeds_ok _) (Or.inl hcut)
    · rw [if_neg hcut, or_iff_right hcut]
      exact succeeds_parseValue cfg t _ len.toNat hi (by omega)

theorem succeeds_parseLoop (cfg : SigCfg) (wlfc : Option Host) (area : List UInt8) :
    Succeeds (loop .fuel Parser.done (parseTlv cfg) 241 (.start wlfc area)) ↔
      ∀ t, Reaches Parser.done (parseTlv cfg) (.start wlfc area) t → t.done = false →
        sound cfg t = true := by
  have hstart : (Parser.start wlfc area).Inside := by
    unfold Parser.Inside Parser.start
    dsimp only
    omega
  refine loop_ok_iff Parser.steps _ (fun s t hd h => parseTlv_steps hd h) (fun t ht hd => ?_)
    (Nat.le_refl 241)
  exact succeeds_parseTlv cfg t (ht.inv (fun s u hi hd h => parseTlv_inside hi hd h) hstart) hd

/-! ## Top theorem -/

/-- The state in which the parser begins, when it reads the packet at all. -/
def begins (cfg : SigCfg) (wlfc : Option Host) (area : List UInt8) : Option Parser :=
  if cfg.mode = .onlyAmpduHostreorder then some (.start none area)
  else if wlfc.isNone ∨ cfg.mode = .none then none
  else some (.start wlfc area)

/-- **Signals.**  For all bytes, the parser ends, with every byte read inside of the area and
every number inside of its table, if and only if every TLV that it comes to is sound. -/
theorem wlfc_signals_safe (cfg : SigCfg) (wlfc : Option Host) (area : List UInt8) :
    Succeeds (parseHeaderInfo cfg wlfc area) ↔
      ∀ s ∈ begins cfg wlfc area, ∀ t, Reaches Parser.done (parseTlv cfg) s t → t.done = false →
        sound cfg t = true := by
  unfold parseHeaderInfo begins
  split
  · rw [succeeds_bind_pure, succeeds_parseLoop]
    simp
  · split
    · exact iff_of_true (succeeds_ok none) nofun
    · rw [succeeds_bind_pure, succeeds_parseLoop]
      simp

/-- Explicit credits, a hanger, and nothing in it. -/
def exampleCfg : SigCfg where
  wlfc := {
    afq := false, reorderSupp := false, psqLen := 0x8000
    pkt := fun _ => ⟨firstIf, firstAc, entryOf 48, firstTxprec, .none⟩ }
  mode := .explicitCredit
  reuseSeq := false
  txstatusIgnore := false
  initFifoCredit := fun _ => 0

def exampleDesc : Desc where
  interfaceId := 0
  iftype := 0
  state := .opened
  acBitmap := 0xff
  releaseCount := fun _ => 0
  macHandle := 0
  ea := List.replicate 6 0

/-- Nodes are free. -/
def exampleHost : Host where
  pkts := .init fun d => 32 ≤ d.val
  node := fun _ => exampleDesc
  interface := fun _ => exampleDesc
  requested := ⟨[], List.nodup_nil⟩
  ledger := ⟨fun _ => 0, fun _ _ => 0⟩
  creditcheck := fun _ => false

/-- The status of slot 4000, an entry for interface 200, a value that is not there, and a type
without a length. -/
theorem wlfc_signals_fails :
    parseHeaderInfo exampleCfg (some exampleHost) [4, 4, 0, 0xa0, 0x0f, 0] = .error .outside ∧
      parseHeaderInfo exampleCfg (some exampleHost) [6, 8, 1, 200, 2, 0, 0, 0, 0, 1] =
        .error .outside ∧
      parseHeaderInfo exampleCfg (some exampleHost) [1, 0] = .error .outside ∧
      parseHeaderInfo exampleCfg (some exampleHost) [4] = .error .outside :=
  ⟨rfl, rfl, rfl, rfl⟩

end Bcmdhd.Wlfc.Signals
