import Bcmdhd.Lib.Records
import Bcmdhd.Tlv.Tlv

/-!
# Writing TLVs

`bcm_write_tlv_safe` and `bcm_copy_tlv_safe` write an element where it fits in `dst_maxlen`;
`bcm_write_tlv_ext` writes one with an extension id, and takes no `dst_maxlen`.

    a call writes the bytes of its element at dst, or nothing               (call_eq)
    calls one behind the other write a chain of just these elements         (tlv_write_round_trip)
-/

namespace Bcmdhd.Tlv

open Chain Records

def BCM_TLV_MAX_DATA_SIZE : Nat := 255
def BCM_TLV_EXT_MAX_DATA_SIZE : Nat := 254
def BCM_TLV_EXT_HDR_SIZE : Nat := 3

/-! ## Algorithm -/

abbrev Mem := Nat → UInt8

/-- `data`, `none` for NULL, with the `datalen` bytes it points to. -/
structure Source where
  data : Option (List UInt8)
  datalen : Nat
  holds : ∀ d, data = some d → d.length = datalen

/-- `(data != NULL) || (datalen == 0)` -/
def Source.valid (src : Source) : Bool := src.data.isSome || decide (src.datalen = 0)

def Source.bytes (src : Source) : List UInt8 := src.data.getD []

/-- An element in memory; its length byte is the number of data bytes. -/
structure Ie where
  id : UInt8
  data : List UInt8
  length_le : data.length ≤ BCM_TLV_MAX_DATA_SIZE

def Ie.bytes (e : Ie) : List UInt8 := e.id :: UInt8.ofNat e.data.length :: e.data

/-- The memory after the call, and the pointer returned; `dst` is `none` for NULL. -/
def writeTlv (mem : Mem) (type : Int) (src : Source) (dst : Option Nat) : Mem × Option Nat :=
  match dst with
  | none => (mem, none)
  | some p =>
    if src.datalen ≤ BCM_TLV_MAX_DATA_SIZE ∧ src.valid then
      let mem := writeAt mem p [UInt8.ofInt type, UInt8.ofNat src.datalen]
      let mem := if 0 < src.datalen then writeAt mem (p + TLV_HDR_LEN) src.bytes else mem
      (mem, some (p + TLV_HDR_LEN + src.datalen))
    else (mem, some p)

def writeTlvExt (mem : Mem) (type ext : UInt8) (src : Source) (dst : Option Nat) :
    Mem × Option Nat :=
  match dst with
  | none => (mem, none)
  | some p =>
    if src.datalen ≤ BCM_TLV_EXT_MAX_DATA_SIZE ∧ src.valid then
      let mem := writeAt mem p [type, 1 + UInt8.ofNat src.datalen, ext]
      let mem :=
        if 0 < src.datalen then writeAt mem (p + BCM_TLV_EXT_HDR_SIZE) src.bytes else mem
      (mem, some (p + BCM_TLV_EXT_HDR_SIZE + src.datalen))
    else (mem, some p)

def writeTlvSafe (mem : Mem) (type : Int) (src : Source) (dst : Option Nat) (dstMaxlen : Nat) :
    Mem × Option Nat :=
  if src.datalen ≤ BCM_TLV_MAX_DATA_SIZE then
    if src.datalen + TLV_HDR_LEN ≤ dstMaxlen then writeTlv mem type src dst
    else (mem, dst)
  else (mem, dst)

def copyTlv (mem : Mem) (src : Option Ie) (dst : Option Nat) : Mem × Option Nat :=
  match dst, src with
  | some p, some e => (writeAt mem p e.bytes, some (p + (TLV_HDR_LEN + e.data.length)))
  | dst, _ => (mem, dst)

def copyTlvSafe (mem : Mem) (src : Option Ie) (dst : Option Nat) (dstMaxlen : Nat) :
    Mem × Option Nat :=
  match src with
  | none => (mem, dst)
  | some e =>
    if TLV_HDR_LEN ≤ dstMaxlen ∧ TLV_HDR_LEN + e.data.length ≤ dstMaxlen then
      copyTlv mem (some e) dst
    else (mem, dst)

/-- The `datalen` of `bcm_write_tlv_ext` is a `uint8`. -/
inductive Writer
  | writeTlvSafe (type : Int) (src : Source)
  | writeTlvExt (type ext : UInt8) (src : Source) (datalen_lt : src.datalen < 0x100)
  | copyTlvSafe (src : Option Ie)

/-- A writer and the room left at `dst`, which `bcm_write_tlv_ext` does not get. -/
structure Call where
  writer : Writer
  dstMaxlen : Nat

def call (mem : Mem) (dst : Option Nat) (c : Call) : Mem × Option Nat :=
  match c.writer with
  | .writeTlvSafe type src => writeTlvSafe mem type src dst c.dstMaxlen
  | .writeTlvExt type ext src _ => writeTlvExt mem type ext src dst
  | .copyTlvSafe src => copyTlvSafe mem src dst c.dstMaxlen

/-- Every call writes at the pointer the one before it returned. -/
def callAll (mem : Mem) (dst : Option Nat) : List Call → Mem × Option Nat
  | [] => (mem, dst)
  | c :: cs => callAll (call mem dst c).1 (call mem dst c).2 cs

/-- From one element to the next by `bcm_next_tlv`. -/
def nextTlvs (mem : List UInt8) : Nat → Option Nat → Nat → Except Fault (List Nat)
  | 0, _, _ => .error .fuel
  | _ + 1, none, _ => return []
  | k + 1, some elt, buflen => do
    let (next, buflen) ← nextTlv mem (some elt) buflen
    let elts ← nextTlvs mem k next buflen
    return elt :: elts

/-- The walk of a whole buffer. -/
def walkTlvs (mem : List UInt8) : Except Fault (List Nat) := do
  if ← validTlv mem (some 0) mem.length then nextTlvs mem (mem.length + 1) (some 0) mem.length
  else return []

/-! ## The element of a call -/

variable {src : Source} {mem : List UInt8}

theorem Source.bytes_length (h : src.valid) : src.bytes.length = src.datalen := by
  unfold Source.valid at h
  unfold Source.bytes
  cases hd : src.data with
  | none =>
    rw [hd] at h
    exact (of_decide_eq_true h).symm
  | some d => exact src.holds d hd

theorem tlvData_le (h : src.datalen ≤ BCM_TLV_MAX_DATA_SIZE ∧ src.valid) :
    src.bytes.length ≤ BCM_TLV_MAX_DATA_SIZE := by
  rw [Source.bytes_length h.2]
  exact h.1

theorem tlvExtData_le {ext : UInt8} (h : src.datalen ≤ BCM_TLV_EXT_MAX_DATA_SIZE ∧ src.valid) :
    (ext :: src.bytes).length ≤ BCM_TLV_MAX_DATA_SIZE := by
  rw [List.length_cons, Source.bytes_length h.2]
  exact Nat.succ_le_succ h.1

/-- What the call writes, if it writes. -/
def Call.ie (c : Call) : Option Ie :=
  match c.writer with
  | .writeTlvSafe type src =>
    if h : src.datalen ≤ BCM_TLV_MAX_DATA_SIZE ∧ src.valid then
      if src.datalen + TLV_HDR_LEN ≤ c.dstMaxlen then
        some { id := UInt8.ofInt type, data := src.bytes, length_le := tlvData_le h }
      else none
    else none
  | .writeTlvExt type ext src _ =>
    if h : src.datalen ≤ BCM_TLV_EXT_MAX_DATA_SIZE ∧ src.valid then
      some { id := type, data := ext :: src.bytes, length_le := tlvExtData_le h }
    else none
  | .copyTlvSafe src => src.filter fun e => TLV_HDR_LEN + e.data.length ≤ c.dstMaxlen

/-- The length byte counts the extension id. -/
def Ie.hasKey (key : Nat) (e : Ie) : Bool :=
  e.id.toNat = key ∨ e.id.toNat = DOT11_MNG_ID_EXT_ID ∧
    (e.data.head?.map fun ext => ext.toNat + DOT11_MNG_ID_EXT_ID) = some key

def Ie.content (e : Ie) : Nat × List UInt8 := (e.id.toNat, e.data)

def Elt.content (mem : List UInt8) (e : Elt) : Nat × List UInt8 := (e.id, e.data mem)

/-- The elements of the calls that fitted. -/
def written (cs : List Call) : List Ie := cs.filterMap Call.ie

def bytesOf (es : List Ie) : List UInt8 := es.flatMap Ie.bytes

theorem Ie.bytes_length (e : Ie) : e.bytes.length = TLV_HDR_LEN + e.data.length := by
  unfold Ie.bytes
  rw [List.length_cons, List.length_cons, tlv_hdr_len]
  omega

theorem writeAt_nil (mem : Mem) (p : Nat) : writeAt mem p [] = mem := by
  funext i
  exact writeAt_of_off (by rw [List.length_nil]; omega)

/-- The copy that is left out when there are no data would write nothing. -/
theorem writeData (mem : Mem) (p : Nat) (h : src.valid) :
    (if 0 < src.datalen then writeAt mem p src.bytes else mem) = writeAt mem p src.bytes := by
  have hlen := Source.bytes_length h
  split
  · rfl
  · rw [List.eq_nil_of_length_eq_zero (by omega : src.bytes.length = 0), writeAt_nil]

section Calls

variable (mem : Mem) (p : Nat)

theorem writeTlv_eq (type : Int) (h : src.datalen ≤ BCM_TLV_MAX_DATA_SIZE ∧ src.valid) :
    writeTlv mem type src (some p) =
      (writeAt mem p (UInt8.ofInt type :: UInt8.ofNat src.bytes.length :: src.bytes),
        some (p + (TLV_HDR_LEN + src.bytes.length))) := by
  have hlen := Source.bytes_length h.2
  unfold writeTlv
  dsimp only
  rw [if_pos h, writeData _ _ h.2, hlen, Nat.add_assoc]
  exact congrArg (·, _) (writeAt_append mem p [UInt8.ofInt type, UInt8.ofNat src.datalen] src.bytes)

theorem writeTlvExt_eq (type ext : UInt8)
    (h : src.datalen ≤ BCM_TLV_EXT_MAX_DATA_SIZE ∧ src.valid) :
    writeTlvExt mem type ext src (some p) =
      (writeAt mem p (type :: UInt8.ofNat (ext :: src.bytes).length :: ext :: src.bytes),
        some (p + (TLV_HDR_LEN + (ext :: src.bytes).length))) := by
  have hlen := Source.bytes_length h.2
  have hone : 1 + UInt8.ofNat src.datalen = UInt8.ofNat (src.datalen + 1) := by
    rw [UInt8.ofNat_add, UInt8.add_comm]
    rfl
  have hend : p + (TLV_HDR_LEN + (src.datalen + 1)) = p + BCM_TLV_EXT_HDR_SIZE + src.datalen := by
    have h2 := tlv_hdr_len
    have h3 : BCM_TLV_EXT_HDR_SIZE = 3 := rfl
    omega
  unfold writeTlvExt
  dsimp only
  rw [if_pos h, writeData _ _ h.2, List.length_cons, hlen, hone, hend]
  exact congrArg (·, _)
    (writeAt_append mem p [type, UInt8.ofNat (src.datalen + 1), ext] src.bytes)

theorem call_eq (c : Call) :
    call mem (some p) c =
      match c.ie with
      | none => (mem, some p)
      | some e => (writeAt mem p e.bytes, some (p + e.bytes.length)) := by
  unfold call Call.ie
  cases c.writer with
  | writeTlvSafe type src =>
    dsimp only
    unfold writeTlvSafe
    by_cases hv : src.datalen ≤ BCM_TLV_MAX_DATA_SIZE ∧ src.valid
    · rw [if_pos hv.1, dif_pos hv]
      by_cases hr : src.datalen + TLV_HDR_LEN ≤ c.dstMaxlen
      · rw [if_pos hr, if_pos hr, writeTlv_eq mem p type hv]
        dsimp only
        rw [Ie.bytes_length]
        rfl
      · rw [if_neg hr, if_neg hr]
    · rw [dif_neg hv]
      unfold writeTlv
      dsimp only
      rw [if_neg hv, ite_self, ite_self]
  | writeTlvExt type ext src hlt =>
    dsimp only
    by_cases hv : src.datalen ≤ BCM_TLV_EXT_MAX_DATA_SIZE ∧ src.valid
    · rw [dif_pos hv, writeTlvExt_eq mem p type ext hv]
      dsimp only
      rw [Ie.bytes_length]
      rfl
    · rw [dif_neg hv]
      unfold writeTlvExt
      exact if_neg hv
  | copyTlvSafe src =>
    cases src with
    | none => rfl
    | some e =>
      dsimp only
      unfold copyTlvSafe copyTlv
      dsimp only
      rw [Option.filter_some]
      by_cases hr : TLV_HDR_LEN + e.data.length ≤ c.dstMaxlen
      · rw [if_pos ⟨by omega, hr⟩, if_pos (decide_eq_true hr), ← Ie.bytes_length]
      · rw [if_neg fun h => hr h.2, if_neg (by simpa using hr)]

/-- A safe writer's element fits in what is left. -/
theorem Call.ie_fits {c : Call} {e : Ie} (h : c.ie = some e)
    (hsafe : ∀ type ext src hlt, c.writer ≠ .writeTlvExt type ext src hlt) :
    e.bytes.length ≤ c.dstMaxlen := by
  unfold Call.ie at h
  cases hw : c.writer with
  | writeTlvSafe type src =>
    rw [hw] at h
    dsimp only at h
    split at h
    · rename_i hv
      split at h
      · rename_i hr
        cases h
        rw [Ie.bytes_length, Source.bytes_length hv.2]
        omega
      · cases h
    · cases h
  | writeTlvExt type ext src hlt => exact absurd hw (hsafe type ext src hlt)
  | copyTlvSafe src =>
    rw [hw] at h
    dsimp only at h
    rw [Option.filter_eq_some_iff] at h
    rw [Ie.bytes_length]
    exact of_decide_eq_true h.2

theorem callAll_eq (cs : List Call) :
    callAll mem (some p) cs =
      (writeAt mem p (bytesOf (written cs)), some (p + (bytesOf (written cs)).length)) := by
  induction cs generalizing mem p with
  | nil =>
    show (mem, some p) = (writeAt mem p [], some (p + 0))
    rw [writeAt_nil, Nat.add_zero]
  | cons c cs ih =>
    unfold callAll
    rw [call_eq]
    cases hc : c.ie with
    | none =>
      have hw : written (c :: cs) = written cs := List.filterMap_cons_none hc
      rw [hw]
      exact ih mem p
    | some e =>
      have hw : bytesOf (written (c :: cs)) = e.bytes ++ bytesOf (written cs) := by
        unfold written bytesOf
        rw [List.filterMap_cons_some hc, List.flatMap_cons]
      dsimp only
      rw [hw, ih, writeAt_append, List.length_append, Nat.add_assoc]

end Calls

/-! ## The elements read back -/

section ReadBack

variable (pre post : List UInt8) (e : Ie)

theorem byte_id : byte (pre ++ (e.bytes ++ post)) pre.length = e.id.toNat := by
  unfold byte Ie.bytes
  rw [List.getElem?_append_right (Nat.le_refl _), Nat.sub_self]
  rfl

theorem byte_len : byte (pre ++ (e.bytes ++ post)) (pre.length + 1) = e.data.length := by
  have hle : e.data.length ≤ 255 := e.length_le
  unfold byte Ie.bytes
  rw [List.getElem?_append_right (by omega), show pre.length + 1 - pre.length = 1 by omega]
  show (UInt8.ofNat e.data.length).toNat = _
  rw [UInt8.toNat_ofNat']
  omega

theorem front_written {r : Nat} (hr : e.bytes.length ≤ r) :
    (tlvs (pre ++ (e.bytes ++ post))).front pre.length r =
      some (eltAt (pre ++ (e.bytes ++ post)) pre.length, e.bytes.length) := by
  have hlen := e.bytes_length
  unfold tlvs
  dsimp only
  rw [byte_len, ← hlen, if_pos ⟨by omega, hr⟩]

theorem content_written :
    (eltAt (pre ++ (e.bytes ++ post)) pre.length).content (pre ++ (e.bytes ++ post)) =
      e.content := by
  unfold Elt.content Ie.content Elt.data eltAt
  dsimp only
  rw [byte_id, byte_len]
  congr 1
  rw [List.drop_append]
  simp only [Nat.add_sub_cancel_left, List.drop_eq_nil_of_le (Nat.le_add_right _ TLV_HDR_LEN),
    List.nil_append]
  show (e.data ++ post).take e.data.length = e.data
  exact List.take_left' rfl

/-- The key of an element is one of its id and data. -/
theorem Elt.hasKey_eq {x : Elt} {e : Ie} (hlen : x.len = e.data.length)
    (hc : x.content mem = e.content) (key : Nat) : x.hasKey mem key = e.hasKey key := by
  unfold Elt.content Ie.content at hc
  rw [Prod.mk.injEq] at hc
  obtain ⟨hid, hdata⟩ := hc
  unfold Elt.hasKey Ie.hasKey
  rw [hid, hlen, ← hdata, decide_eq_decide]
  cases hd : e.data with
  | nil =>
    rw [hd] at hdata
    simp [hdata]
  | cons ext rest =>
    rw [hd] at hdata
    have hbyte : byte mem (x.pos + TLV_HDR_LEN) = ext.toNat := by
      have h0 : (x.data mem)[0]? = some ext := by rw [hdata]; rfl
      unfold Elt.data at h0
      rw [List.getElem?_take, List.getElem?_drop] at h0
      unfold byte
      split at h0
      · rw [Nat.add_zero] at h0
        rw [h0]
        rfl
      · cases h0
    simp [hdata, hbyte]

theorem elements_written (es : List Ie) :
    ((tlvs (pre ++ bytesOf es)).elements pre.length (bytesOf es).length).map
      (fun x => (x.len, x.content (pre ++ bytesOf es))) =
      es.map fun e => (e.data.length, e.content) := by
  induction es generalizing pre with
  | nil =>
    rw [Format.elements_of_none]
    · rfl
    · rfl
  | cons e es ih =>
    have hb : bytesOf (e :: es) = e.bytes ++ bytesOf es := List.flatMap_cons
    have hlen : (bytesOf (e :: es)).length = e.bytes.length + (bytesOf es).length := by
      rw [hb, List.length_append]
    rw [hlen, hb, Format.elements_of_some (front_written pre (bytesOf es) e (Nat.le_add_right _ _)),
      List.map_cons, List.map_cons, content_written, Nat.add_sub_cancel_left,
      ← List.append_assoc, ← List.length_append, ih (pre ++ e.bytes)]
    congr 2
    rw [List.append_assoc]
    exact byte_len pre (bytesOf es) e

end ReadBack

/-- A key finds the same element in the chain and among those written. -/
theorem find_written {xs : List Elt} {es : List Ie}
    (h : xs.map (fun x => (x.len, x.content mem)) = es.map fun e => (e.data.length, e.content))
    (key : Nat) :
    (xs.find? (Elt.hasKey mem key)).map (Elt.content mem) =
      (es.find? (Ie.hasKey key)).map Ie.content := by
  induction xs generalizing es with
  | nil =>
    cases es with
    | nil => rfl
    | cons e es => cases h
  | cons x xs ih =>
    cases es with
    | nil => cases h
    | cons e es =>
      rw [List.map_cons, List.map_cons, List.cons.injEq, Prod.mk.injEq] at h
      obtain ⟨⟨hlen, hc⟩, hrest⟩ := h
      rw [List.find?_cons, List.find?_cons, Elt.hasKey_eq hlen hc]
      cases e.hasKey key with
      | true => exact congrArg some hc
      | false => exact ih hrest

theorem nextTlvs_eq {k p r : Nat} (hlen : p + r ≤ mem.length) (hk : r < k)
    (hf : ((tlvs mem).front p r).isSome) :
    nextTlvs mem k (some p) r = .ok (((tlvs mem).elements p r).map Elt.pos) := by
  induction k generalizing p r with
  | zero => omega
  | succ k ih =>
    obtain ⟨⟨a, n⟩, hf⟩ := Option.isSome_iff_exists.mp hf
    have hn := (tlvs mem).pos hf
    obtain ⟨hle, ha, -⟩ := front_eq_some hf
    have hpos : a.pos = p := by rw [ha]; rfl
    unfold nextTlvs
    rw [nextTlv_eq hlen hf, Format.elements_of_some hf, List.map_cons, hpos]
    show (nextTlvs mem k _ (r - n) >>= fun elts => pure (p :: elts)) = _
    by_cases hs : ((tlvs mem).front (p + n) (r - n)).isSome
    · rw [if_pos hs, ih (by omega) (by omega) hs]
      rfl
    · rw [if_neg hs, Format.elements_of_none (by simpa using hs)]
      obtain ⟨k, rfl⟩ : ∃ l, k = l + 1 := ⟨k - 1, by omega⟩
      rfl

/-- **The walk by `bcm_next_tlv` is the chain.** -/
theorem walkTlvs_eq (mem : List UInt8) :
    walkTlvs mem = .ok (((tlvs mem).elements 0 mem.length).map Elt.pos) := by
  unfold walkTlvs
  rw [validTlv_eq (by omega)]
  cases hf : (tlvs mem).front 0 mem.length with
  | none =>
    rw [Format.elements_of_none hf]
    rfl
  | some x => exact nextTlvs_eq (by omega) (Nat.lt_succ_self _) (by rw [hf]; rfl)

/-! ## Main results -/

/-- **Write and read back.**  A call that does not fit changes nothing.  A call that fits
writes its element at `dst`, the safe ones inside `dst_maxlen`, and `bcm_write_tlv_ext` as many
bytes as its element has.  From the first `dst` to the last pointer the memory is the chain of
the elements that fitted. -/
theorem tlv_write_round_trip (mem : Mem) (p : Nat) :
    (∀ c : Call, c.ie = none → call mem (some p) c = (mem, some p)) ∧
    (∀ (c : Call) e, c.ie = some e →
      (∀ i, i < p ∨ p + e.bytes.length ≤ i → (call mem (some p) c).1 i = mem i) ∧
      (call mem (some p) c).2 = some (p + e.bytes.length)) ∧
    (∀ type src dstMaxlen e, Call.ie ⟨.writeTlvSafe type src, dstMaxlen⟩ = some e →
      e.content = ((UInt8.ofInt type).toNat, src.bytes) ∧ e.bytes.length ≤ dstMaxlen) ∧
    (∀ src dstMaxlen e, Call.ie ⟨.copyTlvSafe (some src), dstMaxlen⟩ = some e →
      e.content = src.content ∧ e.bytes.length ≤ dstMaxlen) ∧
    (∀ type ext src hlt dstMaxlen e, Call.ie ⟨.writeTlvExt type ext src hlt, dstMaxlen⟩ = some e →
      e.content = (type.toNat, ext :: src.bytes) ∧
      e.bytes.length = BCM_TLV_EXT_HDR_SIZE + src.datalen) ∧
    ∀ cs : List Call, ∃ n, (callAll mem (some p) cs).2 = some (p + n) ∧
      (∀ i, i < p ∨ p + n ≤ i → (callAll mem (some p) cs).1 i = mem i) ∧
      let buf := readAt (callAll mem (some p) cs).1 p n
      let all : Cursor := { buf := some 0, buflen := n }
      walkTlvs buf = .ok ((elements buf all).map Elt.pos) ∧
      (elements buf all).map (Elt.content buf) = (written cs).map Ie.content ∧
      ∀ key, (parseTlvs buf all key).map (Option.map fun q => (eltAt buf q).content buf) =
        .ok (((written cs).find? (Ie.hasKey key)).map Ie.content) := by
  refine ⟨?_, ?_, ?_, ?_, ?_, ?_⟩
  · intro c hc
    rw [call_eq, hc]
  · intro c e hc
    rw [call_eq, hc]
    exact ⟨fun i hi => writeAt_of_off hi, rfl⟩
  · intro type src dstMaxlen e hc
    refine ⟨?_, Call.ie_fits hc nofun⟩
    obtain ⟨_, hc⟩ := Option.dite_none_right_eq_some.mp hc
    obtain ⟨_, hc⟩ := Option.ite_none_right_eq_some.mp hc
    cases hc
    rfl
  · intro src dstMaxlen e hc
    refine ⟨?_, Call.ie_fits hc nofun⟩
    have hs : (some src).filter (fun e => TLV_HDR_LEN + e.data.length ≤ dstMaxlen) = some e := hc
    rw [Option.filter_eq_some_iff] at hs
    cases hs.1
    rfl
  · intro type ext src hlt dstMaxlen e hc
    obtain ⟨hv, hc⟩ := Option.dite_none_right_eq_some.mp hc
    cases hc
    refine ⟨rfl, ?_⟩
    rw [Ie.bytes_length, List.length_cons, Source.bytes_length hv.2]
    have h2 := tlv_hdr_len
    have h3 : BCM_TLV_EXT_HDR_SIZE = 3 := rfl
    omega
  · intro cs
    refine ⟨(bytesOf (written cs)).length, ?_⟩
    rw [callAll_eq]
    refine ⟨rfl, fun i hi => writeAt_of_off hi, ?_⟩
    dsimp only
    rw [readAt_writeAt]
    have hread := elements_written [] (written cs)
    rw [List.nil_append] at hread
    have hcontent := congrArg (List.map Prod.snd) hread
    rw [List.map_map, List.map_map] at hcontent
    refine ⟨walkTlvs_eq _, hcontent, ?_⟩
    intro key
    rw [parseTlvs_eq (by omega), ← find_written hread]
    show Except.ok _ = _
    rw [Option.map_map]
    congr 1
    -- an element of the chain is what stands at its position
    apply Option.map_congr
    intro x hx
    obtain ⟨q, s, n, pre, -, hf, -⟩ := Format.find_elements hx
    obtain ⟨-, rfl, -⟩ := front_eq_some hf
    rfl

def noData : Source := { data := none, datalen := 0, holds := nofun }

/-- `bcm_write_tlv_ext` writes a third byte where there is room for two, and of an `int` type
only the low byte is kept. -/
theorem tlv_write_round_trip_fails :
    (call (fun _ => 0) (some 0) ⟨.writeTlvExt 255 35 noData (by decide), 2⟩).1 2 = 35 ∧
    (call (fun _ => 0) (some 0) ⟨.writeTlvExt 255 35 noData (by decide), 2⟩).2 = some 3 ∧
    (call (fun _ => 0) (some 0) ⟨.writeTlvSafe 257 noData, 2⟩).1 0 = 1 := by
  refine ⟨?_, ?_, ?_⟩ <;> rfl

end Bcmdhd.Tlv
