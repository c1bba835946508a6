import Bcmdhd.Lib.Chain
import Mathlib.Data.List.Infix

/-!
# TLV lookup

The chain of a buffer is the successive elements (id, length, data) that fit in what is left.
`bcm_parse_tlvs`, `bcm_find_ie` and `bcm_find_vendor_ie` are first matches along the chain;
`bcm_parse_tlvs_advance` moves a cursor along it.

    the buffer can be read →
      parseTlvs = first with the key ∧ findIe, findVendorIe = first with the prefix ∧
      PAST, or TO and then past, enumerates those with the key     (tlv_lookup_first_match)

TO alone stays on the element it has found, and a failed search leaves the cursor.
-/

namespace Bcmdhd.Tlv

open Chain

def TLV_HDR_LEN : Nat := 2
def DOT11_OUI_LEN : Nat := 3
def DOT11_MNG_VS_ID : Nat := 221
def DOT11_MNG_ID_EXT_ID : Nat := 255

/-! ## Algorithm -/

/-- `bcm_valid_tlv`; `elt` is `none` for NULL. -/
def validTlv (mem : List UInt8) (elt : Option Nat) (buflen : Nat) : Except Fault Bool :=
  match elt with
  | none => return false
  | some p =>
    if TLV_HDR_LEN ≤ buflen then do
      let len ← rd mem (p + 1)
      return decide (TLV_HDR_LEN + len.toNat ≤ buflen)
    else return false

/-- The next element and the length left. -/
def nextTlv (mem : List UInt8) (elt : Option Nat) (buflen : Nat) :
    Except Fault (Option Nat × Nat) := do
  if ← validTlv mem elt buflen then
    match elt with
    | none => return (none, buflen)
    | some p =>
      let l ← rd mem (p + 1)
      let len := TLV_HDR_LEN + l.toNat
      let elt := p + len
      let buflen := buflen - len
      if ← validTlv mem (some elt) buflen then return (some elt, buflen)
      else return (none, buflen)
  else return (none, buflen)

/-- A key above 255 is that of an extension id. -/
def isKey (mem : List UInt8) (elt len key : Nat) : Except Fault Bool := do
  let id ← rd mem elt
  if id.toNat = key then return true
  else if id.toNat = DOT11_MNG_ID_EXT_ID ∧ 0 < len then
    let d ← rd mem (elt + TLV_HDR_LEN)
    return decide (d.toNat + DOT11_MNG_ID_EXT_ID = key)
  else return false

def parseTlvsLoop (mem : List UInt8) (key : Nat) : Nat → Nat → Nat → Except Fault (Option Nat)
  | 0, _, _ => .error .fuel
  | k + 1, elt, totlen =>
    if TLV_HDR_LEN ≤ totlen then do
      let l ← rd mem (elt + 1)
      let len := l.toNat
      if totlen < len + TLV_HDR_LEN then return none
      else if ← isKey mem elt len key then return some elt
      else parseTlvsLoop mem key k (elt + (len + TLV_HDR_LEN)) (totlen - (len + TLV_HDR_LEN))
    else return none

/-- `*buf` and `*buflen` -/
structure Cursor where
  buf : Option Nat
  buflen : Nat
deriving DecidableEq, Repr

def Cursor.null : Cursor := { buf := none, buflen := 0 }

def parseTlvs (mem : List UInt8) (c : Cursor) (key : Nat) : Except Fault (Option Nat) :=
  match c.buf with
  | none => return none
  | some p => parseTlvsLoop mem key (c.buflen + 1) p c.buflen

def advanceTo (mem : List UInt8) (elt : Nat) (c : Cursor) : Except Fault Cursor :=
  match c.buf with
  | none => return Cursor.null
  | some b =>
    if b < b + c.buflen ∧ b ≤ elt ∧ elt < b + c.buflen then do
      let buflen := c.buflen - (elt - b)
      if ← validTlv mem (some elt) buflen then return { buf := some elt, buflen := buflen }
      else return Cursor.null
    else return Cursor.null

def advancePast (mem : List UInt8) (elt : Nat) (c : Cursor) : Except Fault Cursor := do
  let c ← advanceTo mem elt c
  if c.buflen = 0 then return c
  else
    let len ← rd mem (elt + 1)
    advanceTo mem (elt + TLV_HDR_LEN + len.toNat) c

/-- `bcm_tlv_advance_mode_t` -/
inductive Advance
  | advanceNone
  | advanceTo
  | advancePast
deriving DecidableEq, Repr

def parseTlvsAdvance (mem : List UInt8) (c : Cursor) (key : Nat) (advance : Advance) :
    Except Fault (Option Nat × Cursor) := do
  match ← parseTlvs mem c key with
  | none => return (none, c)
  | some elt =>
    match advance with
    | .advanceTo =>
      let c ← advanceTo mem elt c
      return (some elt, c)
    | .advancePast =>
      let c ← advancePast mem elt c
      return (some elt, c)
    | .advanceNone => return (some elt, c)

/-- The test of `bcm_find_ie` on an element found. -/
def hasOui (mem : List UInt8) (ie : Nat) (oui : List UInt8) (type : UInt8) :
    Except Fault Bool := do
  let len ← rd mem (ie + 1)
  if oui.length < len.toNat then
    let d ← rdN mem (ie + TLV_HDR_LEN) oui.length
    if d = oui then
      let t ← rd mem (ie + TLV_HDR_LEN + oui.length)
      return decide (t = type)
    else return false
  else return false

def findIeLoop (mem : List UInt8) (tag : UInt8) (oui : List UInt8) (type : UInt8) :
    Nat → Cursor → Except Fault (Option Nat)
  | 0, _ => .error .fuel
  | k + 1, c => do
    let (ie, c) ← parseTlvsAdvance mem c tag.toNat .advanceTo
    match ie with
    | none => return none
    | some ie =>
      if ← hasOui mem ie oui type then return some ie
      else
        let c ← advancePast mem ie c
        findIeLoop mem tag oui type k c

def findIe (mem : List UInt8) (c : Cursor) (tag : UInt8) (oui : List UInt8) (type : UInt8) :
    Except Fault (Option Nat) :=
  findIeLoop mem tag oui type (c.buflen + 1) c

/-- The test of `bcm_find_vendor_ie`; `DOT11_OUI_LEN + type_len` is a `uint`. -/
def hasVendorOui (mem : List UInt8) (ie : Nat) (voui : Vector UInt8 3) (type : List UInt8) :
    Except Fault Bool := do
  let len ← rd mem (ie + 1)
  let id ← rd mem ie
  if id.toNat = DOT11_MNG_VS_ID ∧ (DOT11_OUI_LEN + type.length) % 0x100000000 ≤ len.toNat then
    let d ← rdN mem (ie + TLV_HDR_LEN) DOT11_OUI_LEN
    if d = voui.toList then
      if type.length = 0 then return true
      else
        let t ← rdN mem (ie + TLV_HDR_LEN + DOT11_OUI_LEN) type.length
        return decide (t = type)
    else return false
  else return false

def findVendorIeLoop (mem : List UInt8) (voui : Vector UInt8 3) (type : List UInt8) :
    Nat → Nat → Nat → Except Fault (Option Nat)
  | 0, _, _ => .error .fuel
  | k + 1, ie, tlvsLen => do
    if ← hasVendorOui mem ie voui type then return some ie
    else
      let (next, tlvsLen) ← nextTlv mem (some ie) tlvsLen
      match next with
      | none => return none
      | some ie => findVendorIeLoop mem voui type k ie tlvsLen

def findVendorIe (mem : List UInt8) (c : Cursor) (voui : Vector UInt8 3) (type : List UInt8) :
    Except Fault (Option Nat) := do
  if ← validTlv mem c.buf c.buflen then
    match c.buf with
    | none => return none
    | some ie => findVendorIeLoop mem voui type (c.buflen + 1) ie c.buflen
  else return none

/-- A search applied again and again to the cursor, up to the first time it fails. -/
def repeated (search : Cursor → Except Fault (Option Nat × Cursor)) :
    Nat → Cursor → Except Fault (List Nat)
  | 0, _ => .error .fuel
  | k + 1, c => do
    let (elt, c) ← search c
    match elt with
    | none => return []
    | some elt =>
      let elts ← repeated search k c
      return elt :: elts

def searchPast (mem : List UInt8) (key : Nat) (c : Cursor) : Except Fault (Option Nat × Cursor) :=
  parseTlvsAdvance mem c key .advancePast

/-- `BCM_TLV_ADVANCE_TO`, and then past the element, as `bcm_find_ie` goes on. -/
def searchTo (mem : List UInt8) (key : Nat) (c : Cursor) :
    Except Fault (Option Nat × Cursor) := do
  let (elt, c) ← parseTlvsAdvance mem c key .advanceTo
  match elt with
  | none => return (none, c)
  | some elt =>
    let c ← advancePast mem elt c
    return (some elt, c)

/-! ## The chain of elements -/

structure Elt where
  pos : Nat
  id : Nat
  len : Nat
deriving DecidableEq, Repr

def eltAt (mem : List UInt8) (p : Nat) : Elt where
  pos := p
  id := byte mem p
  len := byte mem (p + 1)

def Elt.data (mem : List UInt8) (e : Elt) : List UInt8 := (mem.drop (e.pos + TLV_HDR_LEN)).take e.len

def tlvs (mem : List UInt8) : Format Elt where
  front p r :=
    let size := TLV_HDR_LEN + byte mem (p + 1)
    if TLV_HDR_LEN ≤ r ∧ size ≤ r then some (eltAt mem p, size) else none
  pos := by
    intro p r a n h
    simp only [Option.ite_none_right_eq_some, Option.some.injEq, Prod.mk.injEq] at h
    unfold TLV_HDR_LEN at h
    omega
  le := by
    intro p r a n h
    simp only [Option.ite_none_right_eq_some, Option.some.injEq, Prod.mk.injEq] at h
    omega

/-- The chain under a cursor. -/
def elements (mem : List UInt8) (c : Cursor) : List Elt :=
  match c.buf with
  | none => []
  | some p => (tlvs mem).elements p c.buflen

def Elt.hasKey (mem : List UInt8) (key : Nat) (e : Elt) : Bool :=
  e.id = key ∨ e.id = DOT11_MNG_ID_EXT_ID ∧ 0 < e.len ∧
    byte mem (e.pos + TLV_HDR_LEN) + DOT11_MNG_ID_EXT_ID = key

def Elt.startsWith (mem : List UInt8) (id : Nat) (bs : List UInt8) (e : Elt) : Bool :=
  e.id = id ∧ bs <+: e.data mem

theorem tlv_hdr_len : TLV_HDR_LEN = 2 := rfl

section Reads

variable {mem : List UInt8} {p r n : Nat} {a : Elt}

theorem front_eq_some (h : (tlvs mem).front p r = some (a, n)) :
    n ≤ r ∧ a = eltAt mem p ∧ n = TLV_HDR_LEN + byte mem (p + 1) := by
  unfold tlvs at h
  simp only [Option.ite_none_right_eq_some, Option.some.injEq, Prod.mk.injEq] at h
  obtain ⟨⟨-, h2⟩, rfl, rfl⟩ := h
  exact ⟨h2, rfl, rfl⟩

theorem front_eq_none (h : (tlvs mem).front p r = none) :
    r < TLV_HDR_LEN ∨ r < TLV_HDR_LEN + byte mem (p + 1) := by
  unfold tlvs at h
  simp only [ite_eq_right_iff, reduceCtorEq, imp_false] at h
  omega

theorem validTlv_eq (h : p + r ≤ mem.length) :
    validTlv mem (some p) r = .ok ((tlvs mem).front p r).isSome := by
  unfold validTlv tlvs
  dsimp only
  have h2 := tlv_hdr_len
  by_cases hh : TLV_HDR_LEN ≤ r
  · obtain ⟨b, hb, eb⟩ := rd_eq (show p + 1 < mem.length by omega)
    rw [if_pos hh, hb, ← eb]
    show Except.ok (decide _) = _
    by_cases hs : TLV_HDR_LEN + b.toNat ≤ r
    · rw [if_pos ⟨hh, hs⟩, decide_eq_true hs]
      rfl
    · rw [if_neg fun h => hs h.2, decide_eq_false hs]
      rfl
  · rw [if_neg hh, if_neg fun h => hh h.1]
    rfl

theorem nextTlv_eq (h : p + r ≤ mem.length) (hf : (tlvs mem).front p r = some (a, n)) :
    nextTlv mem (some p) r =
      .ok (if ((tlvs mem).front (p + n) (r - n)).isSome then some (p + n) else none, r - n) := by
  obtain ⟨h1, -, h3⟩ := front_eq_some hf
  have hv := validTlv_eq h
  have hv' := @validTlv_eq mem (p + n) (r - n) (by omega)
  have h2 := tlv_hdr_len
  rw [hf] at hv
  obtain ⟨b, hb, eb⟩ := rd_eq (show p + 1 < mem.length by omega)
  unfold nextTlv
  rw [hv]
  show (rd mem (p + 1) >>= fun l => _) = _
  rw [hb]
  show (do
    if ← validTlv mem (some (p + (TLV_HDR_LEN + b.toNat))) (r - (TLV_HDR_LEN + b.toNat)) then
      pure (some (p + (TLV_HDR_LEN + b.toNat)), r - (TLV_HDR_LEN + b.toNat))
    else pure (none, r - (TLV_HDR_LEN + b.toNat))) = _
  rw [show TLV_HDR_LEN + b.toNat = n by omega, hv']
  cases ((tlvs mem).front (p + n) (r - n)).isSome <;> rfl

theorem isKey_eq (h : p + r ≤ mem.length) (hf : (tlvs mem).front p r = some (a, n)) (key : Nat) :
    isKey mem p (byte mem (p + 1)) key = .ok (a.hasKey mem key) := by
  obtain ⟨h1, rfl, h3⟩ := front_eq_some hf
  have h2 := tlv_hdr_len
  obtain ⟨id, hid, eid⟩ := rd_eq (show p < mem.length by omega)
  unfold isKey Elt.hasKey eltAt
  rw [hid, ← eid]
  show (if id.toNat = key then Except.ok true else _) = _
  by_cases hk : id.toNat = key
  · simp [hk]
  · rw [if_neg hk]
    by_cases hx : id.toNat = DOT11_MNG_ID_EXT_ID ∧ 0 < byte mem (p + 1)
    · obtain ⟨d, hd, ed⟩ := rd_eq (show p + TLV_HDR_LEN < mem.length by omega)
      rw [if_pos hx, hd, ← ed]
      show Except.ok (decide _) = _
      congr 1
      rw [decide_eq_decide]
      constructor
      · intro h'
        exact Or.inr ⟨hx.1, hx.2, h'⟩
      · rintro (h' | h')
        · exact absurd h' hk
        · exact h'.2.2
    · rw [if_neg hx]
      show Except.ok false = _
      congr 1
      rw [eq_comm, decide_eq_false_iff_not]
      rintro (h' | h')
      · exact hk h'
      · exact hx ⟨h'.1, h'.2.1⟩

def parseStep (mem : List UInt8) (key : Nat) (_ : Unit) (e : Elt) : Except (Option Nat) Unit :=
  if e.hasKey mem key then .error (some e.pos) else .ok ()

theorem foldlM_parseStep (mem : List UInt8) (key : Nat) (es : List Elt) :
    Format.outcome (fun _ => none) (es.foldlM (parseStep mem key) ()) =
      (es.find? (Elt.hasKey mem key)).map Elt.pos := by
  induction es with
  | nil => rfl
  | cons e es ih =>
    rw [List.foldlM_cons]
    unfold parseStep
    by_cases hk : e.hasKey mem key
    · rw [List.find?_cons_of_pos hk, if_pos hk]
      rfl
    · rw [List.find?_cons_of_neg hk, if_neg hk]
      exact ih

/-- **First match of `bcm_parse_tlvs`.** -/
theorem parseTlvs_eq {p r : Nat} (h : p + r ≤ mem.length) (key : Nat) :
    parseTlvs mem { buf := some p, buflen := r } key =
      .ok ((((tlvs mem).elements p r).find? (Elt.hasKey mem key)).map Elt.pos) := by
  have h2 := tlv_hdr_len
  rw [← foldlM_parseStep]
  refine (tlvs mem).walk (fun k p r _ => parseTlvsLoop mem key k p r) (parseStep mem key)
    (fun _ => none) (p + r) ?_ ?_ () (Nat.lt_succ_self r) rfl
  · intro k p' r' _ he hf
    unfold parseTlvsLoop
    by_cases hh : TLV_HDR_LEN ≤ r'
    · have hs := front_eq_none hf
      obtain ⟨b, hb, eb⟩ := rd_eq (show p' + 1 < mem.length by omega)
      rw [if_pos hh, hb]
      show (if r' < b.toNat + TLV_HDR_LEN then _ else _) = _
      rw [if_pos (by omega)]
      rfl
    · rw [if_neg hh]
      rfl
  · intro k p' r' _ e n he hf
    obtain ⟨h1, -, h3⟩ := front_eq_some hf
    have hkey := isKey_eq (by omega) hf key
    have hpos : e.pos = p' := by rw [(front_eq_some hf).2.1]; rfl
    obtain ⟨b, hb, eb⟩ := rd_eq (show p' + 1 < mem.length by omega)
    rw [parseTlvsLoop, if_pos (by omega), hb]
    show (if r' < b.toNat + TLV_HDR_LEN then _ else _) = _
    rw [if_neg (by omega)]
    rw [← eb] at hkey
    rw [hkey]
    unfold parseStep
    cases e.hasKey mem key with
    | true =>
      rw [← hpos]
      rfl
    | false =>
      show parseTlvsLoop mem key k (p' + (b.toNat + TLV_HDR_LEN)) (r' - (b.toNat + TLV_HDR_LEN)) = _
      rw [show b.toNat + TLV_HDR_LEN = n by omega]
      rfl

/-! ## The cursor -/

/-- The cursor on an element that starts at `q`. -/
theorem advanceTo_eq {p r q s : Nat} (h : p + r ≤ mem.length) (hq : q + s = p + r) (hle : p ≤ q) :
    advanceTo mem q { buf := some p, buflen := r } =
      .ok (if ((tlvs mem).front q s).isSome then { buf := some q, buflen := s } else Cursor.null) := by
  unfold advanceTo
  dsimp only
  by_cases hs : 0 < s
  · rw [if_pos (by omega), show r - (q - p) = s by omega, validTlv_eq (by omega)]
    cases ((tlvs mem).front q s).isSome <;> rfl
  · have hf : (tlvs mem).front q s = none := by
      have h2 := tlv_hdr_len
      exact if_neg (by omega)
    rw [if_neg (by omega), hf]
    rfl

theorem advancePast_eq {p r q s n : Nat} {e : Elt} (h : p + r ≤ mem.length) (hq : q + s = p + r)
    (hle : p ≤ q) (hf : (tlvs mem).front q s = some (e, n)) :
    advancePast mem q { buf := some p, buflen := r } =
      .ok (if ((tlvs mem).front (q + n) (s - n)).isSome then
        { buf := some (q + n), buflen := s - n } else Cursor.null) := by
  obtain ⟨h1, -, h3⟩ := front_eq_some hf
  have h2 := tlv_hdr_len
  obtain ⟨b, hb, eb⟩ := rd_eq (show q + 1 < mem.length by omega)
  unfold advancePast
  rw [advanceTo_eq h hq hle, hf]
  show (if s = 0 then _ else rd mem (q + 1) >>= fun len =>
    advanceTo mem (q + TLV_HDR_LEN + len.toNat) { buf := some q, buflen := s }) = _
  rw [if_neg (by omega), hb]
  show advanceTo mem (q + TLV_HDR_LEN + b.toNat) { buf := some q, buflen := s } = _
  rw [show q + TLV_HDR_LEN + b.toNat = q + n by omega, advanceTo_eq (s := s - n) (by omega)
    (by omega) (by omega)]

/-- The chain under the cursor behind an element. -/
theorem elements_past (mem : List UInt8) (q s : Nat) :
    elements mem (if ((tlvs mem).front q s).isSome then { buf := some q, buflen := s }
      else Cursor.null) = (tlvs mem).elements q s := by
  cases hf : (tlvs mem).front q s with
  | none =>
    rw [Format.elements_of_none hf]
    rfl
  | some x => rfl

/-- What a call finds, and where it leaves the cursor. -/
theorem parseTlvsAdvance_none {p r key : Nat} (h : p + r ≤ mem.length) (advance : Advance)
    (hn : ((tlvs mem).elements p r).find? (Elt.hasKey mem key) = none) :
    parseTlvsAdvance mem { buf := some p, buflen := r } key advance =
      .ok (none, { buf := some p, buflen := r }) := by
  unfold parseTlvsAdvance
  rw [parseTlvs_eq h, hn]
  rfl

/-- An element found, split off the chain: `q` is where it stands. -/
structure Found (mem : List UInt8) (key p r : Nat) (e : Elt) (n s : Nat) : Prop where
  front : (tlvs mem).front e.pos s = some (e, n)
  end_eq : e.pos + s = p + r
  le : p ≤ e.pos
  parse : ∀ advance, parseTlvsAdvance mem { buf := some p, buflen := r } key advance =
    .ok (some e.pos, match advance with
      | .advanceNone => { buf := some p, buflen := r }
      | .advanceTo => { buf := some e.pos, buflen := s }
      | .advancePast =>
        if ((tlvs mem).front (e.pos + n) (s - n)).isSome then
          { buf := some (e.pos + n), buflen := s - n } else Cursor.null)
  split : ∃ pre, (tlvs mem).elements p r = pre ++ e :: (tlvs mem).elements (e.pos + n) (s - n) ∧
    ∀ b ∈ pre, b.hasKey mem key = false
  hasKey : e.hasKey mem key = true

theorem found {p r key : Nat} {e : Elt} (h : p + r ≤ mem.length)
    (hs : ((tlvs mem).elements p r).find? (Elt.hasKey mem key) = some e) :
    ∃ n s, Found mem key p r e n s := by
  obtain ⟨q, s, n, pre, hend, hf, hsplit, hpre, hk, hle⟩ := Format.find_elements hs
  obtain ⟨-, rfl, -⟩ := front_eq_some hf
  refine ⟨n, s, hf, hend, hle, ?_, ⟨pre, hsplit, hpre⟩, hk⟩
  intro advance
  unfold parseTlvsAdvance
  rw [parseTlvs_eq h, hs]
  cases advance with
  | advanceNone => rfl
  | advanceTo =>
    show (advanceTo mem q { buf := some p, buflen := r } >>= fun c => pure (some q, c)) = _
    rw [advanceTo_eq h hend hle, hf]
    rfl
  | advancePast =>
    show (advancePast mem q { buf := some p, buflen := r } >>= fun c => pure (some q, c)) = _
    rw [advancePast_eq h hend hle hf]
    rfl

/-- Behind the element found. -/
def behind (mem : List UInt8) (q s : Nat) : Cursor :=
  if ((tlvs mem).front q s).isSome then { buf := some q, buflen := s } else Cursor.null

theorem behind_buflen (mem : List UInt8) (q s : Nat) : (behind mem q s).buflen ≤ s := by
  unfold behind
  split
  · exact Nat.le_refl s
  · exact Nat.zero_le s

/-- The bytes under the cursor can be read. -/
def Inside (mem : List UInt8) (c : Cursor) : Prop := ∀ p, c.buf = some p → p + c.buflen ≤ mem.length

theorem behind_inside {q s : Nat} (h : q + s ≤ mem.length) : Inside mem (behind mem q s) := by
  intro p' hp
  unfold behind at hp ⊢
  split at hp
  · rename_i hs
    rw [if_pos hs]
    cases hp
    exact h
  · cases hp

/-- A search that finds the next element with the key and goes behind it. -/
structure Searches (mem : List UInt8) (key : Nat)
    (search : Cursor → Except Fault (Option Nat × Cursor)) : Prop where
  none : ∀ c, Inside mem c → (elements mem c).find? (Elt.hasKey mem key) = none →
    search c = .ok (none, c)
  some : ∀ p r e n s, p + r ≤ mem.length → Found mem key p r e n s →
    search { buf := some p, buflen := r } = .ok (some e.pos, behind mem (e.pos + n) (s - n))

theorem parseTlvsAdvance_of_none {key : Nat} {c : Cursor} (hc : Inside mem c) (advance : Advance)
    (hn : (elements mem c).find? (Elt.hasKey mem key) = none) :
    parseTlvsAdvance mem c key advance = .ok (none, c) := by
  obtain ⟨buf, r⟩ := c
  cases buf with
  | none => rfl
  | some p => exact parseTlvsAdvance_none (hc p rfl) advance hn

theorem searchPast_searches (mem : List UInt8) (key : Nat) :
    Searches mem key (searchPast mem key) where
  none _ hc hn := parseTlvsAdvance_of_none hc .advancePast hn
  some _ _ _ _ _ _ hf := hf.parse .advancePast

theorem searchTo_searches (mem : List UInt8) (key : Nat) :
    Searches mem key (searchTo mem key) where
  none c hc hn := by
    unfold searchTo
    rw [parseTlvsAdvance_of_none hc .advanceTo hn]
    rfl
  some p r e n s h hf := by
    unfold searchTo
    rw [hf.parse .advanceTo]
    show (advancePast mem e.pos { buf := some e.pos, buflen := s } >>=
      fun c => pure (some e.pos, c)) = _
    rw [advancePast_eq (by rw [hf.end_eq]; exact h) rfl (Nat.le_refl _) hf.front]
    rfl

theorem Found.size_pos {key p r n s : Nat} {e : Elt} (h : Found mem key p r e n s) :
    2 ≤ n ∧ n ≤ s := by
  obtain ⟨h1, -, h3⟩ := front_eq_some h.front
  have h2 := tlv_hdr_len
  omega

/-- A search enumerates the elements with the key, in the order of the chain. -/
theorem repeated_eq {key : Nat} {search : Cursor → Except Fault (Option Nat × Cursor)}
    (hs : Searches mem key search) {k : Nat} {c : Cursor} (hc : Inside mem c) (hk : c.buflen < k) :
    repeated search k c = .ok (((elements mem c).filter (Elt.hasKey mem key)).map Elt.pos) := by
  induction k generalizing c with
  | zero => omega
  | succ k ih =>
    unfold repeated
    cases hfind : (elements mem c).find? (Elt.hasKey mem key) with
    | none =>
      rw [hs.none c hc hfind, List.filter_eq_nil_iff.mpr (List.find?_eq_none.mp hfind)]
      rfl
    | some e =>
      obtain ⟨buf, r⟩ := c
      cases buf with
      | none => cases hfind
      | some p =>
        obtain ⟨n, s, hf⟩ := found (p := p) (r := r) (hc p rfl) hfind
        obtain ⟨pre, hsplit, hpre⟩ := hf.split
        have hn := hf.size_pos
        have hend := hf.end_eq
        have hle := hf.le
        have hlen : p + r ≤ mem.length := hc p rfl
        have hk : r < k + 1 := hk
        have hb := behind_buflen mem (e.pos + n) (s - n)
        rw [hs.some p r e n s hlen hf]
        show (repeated search k (behind mem (e.pos + n) (s - n)) >>= fun es => pure (e.pos :: es)) = _
        rw [ih (behind_inside (by omega)) (by omega)]
        unfold behind
        rw [elements_past]
        show Except.ok _ = _
        unfold elements
        dsimp only
        have hnil : pre.filter (Elt.hasKey mem key) = [] := by
          rw [List.filter_eq_nil_iff]
          intro b hb
          rw [hpre b hb]
          exact Bool.false_ne_true
        rw [hsplit, List.filter_append, hnil, List.filter_cons_of_pos hf.hasKey]
        rfl

/-! ## Elements by their first bytes -/

theorem prefix_iff {q len : Nat} {bs : List UInt8} :
    bs <+: (mem.drop q).take len ↔ bs.length ≤ len ∧ (mem.drop q).take bs.length = bs := by
  constructor
  · intro hp
    have hle := hp.length_le
    rw [List.length_take] at hle
    have heq := List.prefix_iff_eq_take.mp hp
    rw [List.take_take, Nat.min_eq_left (by omega)] at heq
    exact ⟨by omega, heq.symm⟩
  · rintro ⟨hle, heq⟩
    rw [List.prefix_iff_eq_take, List.take_take, Nat.min_eq_left hle, heq]

theorem hasOui_eq (h : p + r ≤ mem.length) (hf : (tlvs mem).front p r = some (a, n))
    (oui : List UInt8) (type : UInt8) :
    hasOui mem p oui type = .ok (decide (oui ++ [type] <+: a.data mem)) := by
  obtain ⟨h1, rfl, h3⟩ := front_eq_some hf
  have h2 := tlv_hdr_len
  obtain ⟨len, hlen, elen⟩ := rd_eq (show p + 1 < mem.length by omega)
  have hiff := @prefix_iff mem (p + TLV_HDR_LEN) (byte mem (p + 1)) (oui ++ [type])
  rw [List.length_append, List.length_singleton] at hiff
  unfold hasOui Elt.data eltAt
  rw [hlen]
  show (if oui.length < len.toNat then _ else _) = Except.ok (decide (_ <+: _))
  by_cases hl : oui.length < len.toNat
  · rw [if_pos hl, rdN_of_le (by omega)]
    have hlt : p + TLV_HDR_LEN + oui.length < mem.length := by omega
    have htake : (mem.drop (p + TLV_HDR_LEN)).take (oui.length + 1) =
        (mem.drop (p + TLV_HDR_LEN)).take oui.length ++ [mem[p + TLV_HDR_LEN + oui.length]] := by
      rw [List.take_succ_eq_append_getElem (by rw [List.length_drop]; omega), List.getElem_drop]
    rw [htake] at hiff
    show (if (mem.drop (p + TLV_HDR_LEN)).take oui.length = oui then
      rd mem (p + TLV_HDR_LEN + oui.length) >>= fun t => pure (decide (t = type))
      else pure false) = _
    by_cases hd : (mem.drop (p + TLV_HDR_LEN)).take oui.length = oui
    · rw [if_pos hd, rd_of_lt hlt]
      show Except.ok (decide _) = _
      congr 1
      rw [decide_eq_decide, hiff, hd]
      constructor
      · intro ht
        exact ⟨by omega, by rw [ht]⟩
      · rintro ⟨-, ht⟩
        exact List.singleton_inj.mp (List.append_cancel_left ht)
    · rw [if_neg hd]
      show Except.ok false = _
      congr 1
      rw [eq_comm, decide_eq_false_iff_not, hiff]
      rintro ⟨-, ht⟩
      exact hd (List.append_inj_left' ht rfl)
  · rw [if_neg hl]
    show Except.ok false = _
    congr 1
    rw [eq_comm, decide_eq_false_iff_not, hiff]
    rintro ⟨hle, -⟩
    omega

theorem hasVendorOui_eq (h : p + r ≤ mem.length) (hf : (tlvs mem).front p r = some (a, n))
    (voui : Vector UInt8 3) (type : List UInt8) (ht : type.length + 3 < 0x100000000) :
    hasVendorOui mem p voui type =
      .ok (a.startsWith mem DOT11_MNG_VS_ID (voui.toList ++ type)) := by
  obtain ⟨h1, rfl, h3⟩ := front_eq_some hf
  have h2 := tlv_hdr_len
  have h4 : DOT11_OUI_LEN = 3 := rfl
  obtain ⟨len, hlen, elen⟩ := rd_eq (show p + 1 < mem.length by omega)
  obtain ⟨id, hid, eid⟩ := rd_eq (show p < mem.length by omega)
  have hiff := @prefix_iff mem (p + TLV_HDR_LEN) (byte mem (p + 1)) (voui.toList ++ type)
  have hv : voui.toList.length = DOT11_OUI_LEN := Vector.length_toList
  rw [List.length_append, hv, List.take_add, List.drop_drop] at hiff
  unfold hasVendorOui Elt.startsWith Elt.data eltAt
  rw [hlen, hid, Nat.mod_eq_of_lt (by omega)]
  show (if id.toNat = DOT11_MNG_VS_ID ∧ DOT11_OUI_LEN + type.length ≤ len.toNat then
    rdN mem (p + TLV_HDR_LEN) DOT11_OUI_LEN >>= fun d =>
      if d = voui.toList then
        if type.length = 0 then pure true
        else rdN mem (p + TLV_HDR_LEN + DOT11_OUI_LEN) type.length >>= fun t =>
          pure (decide (t = type))
      else pure false
    else pure false) = Except.ok (decide (byte mem p = DOT11_MNG_VS_ID ∧ _ <+: _))
  rw [← eid]
  by_cases hl : id.toNat = DOT11_MNG_VS_ID ∧ DOT11_OUI_LEN + type.length ≤ len.toNat
  · rw [if_pos hl, rdN_of_le (by omega)]
    show (if (mem.drop (p + TLV_HDR_LEN)).take DOT11_OUI_LEN = voui.toList then _ else _) = _
    by_cases hd : (mem.drop (p + TLV_HDR_LEN)).take DOT11_OUI_LEN = voui.toList
    · rw [hd] at hiff
      rw [if_pos hd]
      by_cases h0 : type.length = 0
      · rw [if_pos h0]
        rw [List.eq_nil_of_length_eq_zero h0] at hiff ⊢
        show Except.ok true = _
        congr 1
        rw [eq_comm, decide_eq_true_iff]
        exact ⟨hl.1, hiff.mpr ⟨by rw [List.length_nil]; omega, by simp⟩⟩
      · rw [if_neg h0, rdN_of_le (by omega)]
        show Except.ok (decide _) = _
        congr 1
        rw [decide_eq_decide, hiff, List.append_cancel_left_eq]
        constructor
        · intro h'
          exact ⟨hl.1, by omega, h'⟩
        · intro h'
          exact h'.2.2
    · rw [if_neg hd]
      show Except.ok false = _
      congr 1
      rw [eq_comm, decide_eq_false_iff_not, hiff]
      rintro ⟨-, -, h'⟩
      refine hd (List.append_inj_left h' ?_)
      rw [List.length_take, List.length_drop, hv]
      omega
  · rw [if_neg hl]
    show Except.ok false = _
    congr 1
    rw [eq_comm, decide_eq_false_iff_not, hiff]
    rintro ⟨h', h'', -⟩
    exact hl ⟨h', by omega⟩

/-- **First match of `bcm_find_vendor_ie`**, on the chain from a valid element. -/
theorem findVendorIeLoop_eq {k : Nat} (h : p + r ≤ mem.length)
    (hf : (tlvs mem).front p r = some (a, n)) (voui : Vector UInt8 3) (type : List UInt8)
    (ht : type.length + 3 < 0x100000000) (hk : r < k) :
    findVendorIeLoop mem voui type k p r =
      .ok ((((tlvs mem).elements p r).find?
        (Elt.startsWith mem DOT11_MNG_VS_ID (voui.toList ++ type))).map Elt.pos) := by
  induction k generalizing p r a n with
  | zero => omega
  | succ k ih =>
    obtain ⟨h1, ha, h3⟩ := front_eq_some hf
    have h2 := tlv_hdr_len
    unfold findVendorIeLoop
    rw [hasVendorOui_eq h hf voui type ht, Format.elements_of_some hf]
    cases hm : a.startsWith mem DOT11_MNG_VS_ID (voui.toList ++ type) with
    | true =>
      rw [List.find?_cons_of_pos hm, ha]
      rfl
    | false =>
      rw [List.find?_cons_of_neg (by rw [hm]; exact Bool.false_ne_true)]
      show (nextTlv mem (some p) r >>= fun x => _) = _
      rw [nextTlv_eq h hf]
      cases hn : (tlvs mem).front (p + n) (r - n) with
      | none =>
        rw [Format.elements_of_none hn]
        rfl
      | some x => exact ih (by omega) hn (by omega)

theorem findVendorIe_eq {c : Cursor} (hc : Inside mem c) (voui : Vector UInt8 3)
    (type : List UInt8) (ht : type.length + 3 < 0x100000000) :
    findVendorIe mem c voui type =
      .ok (((elements mem c).find?
        (Elt.startsWith mem DOT11_MNG_VS_ID (voui.toList ++ type))).map Elt.pos) := by
  obtain ⟨buf, r⟩ := c
  cases buf with
  | none => rfl
  | some p =>
    unfold findVendorIe elements
    dsimp only
    rw [validTlv_eq (hc p rfl)]
    cases hf : (tlvs mem).front p r with
    | none =>
      rw [Format.elements_of_none hf]
      rfl
    | some x => exact findVendorIeLoop_eq (hc p rfl) hf voui type ht (Nat.lt_succ_self r)

/-- A tag of one byte is an id. -/
theorem startsWith_eq (tag : UInt8) (bs : List UInt8) (e : Elt) :
    e.startsWith mem tag.toNat bs = (e.hasKey mem tag.toNat && decide (bs <+: e.data mem)) := by
  have htag := UInt8.toNat_lt tag
  have h255 : DOT11_MNG_ID_EXT_ID = 255 := rfl
  unfold Elt.startsWith Elt.hasKey
  rw [← Bool.decide_and, decide_eq_decide]
  constructor
  · rintro ⟨h1, h2⟩
    exact ⟨Or.inl h1, h2⟩
  · rintro ⟨h1 | h1, h2⟩
    · exact ⟨h1, h2⟩
    · exact ⟨by omega, h2⟩

/-- **First match of `bcm_find_ie`.** -/
theorem findIeLoop_eq {k : Nat} {c : Cursor} (hc : Inside mem c) (tag : UInt8) (oui : List UInt8)
    (type : UInt8) (hk : c.buflen < k) :
    findIeLoop mem tag oui type k c =
      .ok (((elements mem c).find? (Elt.startsWith mem tag.toNat (oui ++ [type]))).map
        Elt.pos) := by
  induction k generalizing c with
  | zero => omega
  | succ k ih =>
    unfold findIeLoop
    cases hfind : (elements mem c).find? (Elt.hasKey mem tag.toNat) with
    | none =>
      have hnone : (elements mem c).find? (Elt.startsWith mem tag.toNat (oui ++ [type])) = none := by
        rw [List.find?_eq_none] at hfind ⊢
        intro e he
        rw [startsWith_eq, Bool.and_eq_true]
        exact fun h => hfind e he h.1
      rw [parseTlvsAdvance_of_none hc .advanceTo hfind, hnone]
      rfl
    | some e =>
      obtain ⟨buf, r⟩ := c
      cases buf with
      | none => cases hfind
      | some p =>
        have hlen : p + r ≤ mem.length := hc p rfl
        have hk : r < k + 1 := hk
        obtain ⟨n, s, hf⟩ := found (p := p) (r := r) hlen hfind
        obtain ⟨pre, hsplit, hpre⟩ := hf.split
        have hn := hf.size_pos
        have hend := hf.end_eq
        have hle := hf.le
        have hb := behind_buflen mem (e.pos + n) (s - n)
        have hnil : pre.find? (Elt.startsWith mem tag.toNat (oui ++ [type])) = none := by
          rw [List.find?_eq_none]
          intro b hb
          rw [startsWith_eq, hpre b hb]
          exact Bool.false_ne_true
        unfold elements
        dsimp only
        rw [hf.parse .advanceTo, hsplit, List.find?_append, hnil, Option.none_or]
        show (hasOui mem e.pos oui type >>= fun b => if b = true then pure (some e.pos) else
          advancePast mem e.pos { buf := some e.pos, buflen := s } >>= fun c =>
            findIeLoop mem tag oui type k c) = _
        rw [hasOui_eq (by omega) hf.front]
        have hm := @startsWith_eq mem tag (oui ++ [type]) e
        rw [hf.hasKey, Bool.true_and] at hm
        rw [← hm]
        cases hs : e.startsWith mem tag.toNat (oui ++ [type]) with
        | true =>
          rw [List.find?_cons_of_pos hs]
          rfl
        | false =>
          rw [List.find?_cons_of_neg (by rw [hs]; exact Bool.false_ne_true)]
          show (advancePast mem e.pos { buf := some e.pos, buflen := s } >>= fun c =>
            findIeLoop mem tag oui type k c) = _
          rw [advancePast_eq (by omega) rfl (Nat.le_refl _) hf.front]
          show findIeLoop mem tag oui type k (behind mem (e.pos + n) (s - n)) = _
          rw [ih (behind_inside (by omega)) (by omega)]
          unfold behind
          rw [elements_past]

theorem Found.size_eq {key p r n s : Nat} {e : Elt} (h : Found mem key p r e n s) :
    n = TLV_HDR_LEN + e.len := by
  obtain ⟨-, he, hn⟩ := front_eq_some h.front
  have hlen : e.len = byte mem (e.pos + 1) := congrArg Elt.len he
  rw [hn, hlen]

/-- `BCM_TLV_ADVANCE_TO` again finds the element it is on. -/
theorem Found.again {key p r n s : Nat} {e : Elt} (h : Found mem key p r e n s)
    (hlen : p + r ≤ mem.length) :
    parseTlvsAdvance mem { buf := some e.pos, buflen := s } key .advanceTo =
      .ok (some e.pos, { buf := some e.pos, buflen := s }) := by
  have hend := h.end_eq
  have hfind : ((tlvs mem).elements e.pos s).find? (Elt.hasKey mem key) = some e := by
    rw [Format.elements_of_some h.front, List.find?_cons_of_pos h.hasKey]
  obtain ⟨n', s', hf⟩ := found (p := e.pos) (r := s) (by omega) hfind
  have hend' := hf.end_eq
  rw [hf.parse .advanceTo]
  dsimp only
  rw [show s' = s by omega]

end Reads

/-- **First match over the well-formed prefix.**  Under a cursor whose bytes can be read, no
search reads anything else, and every search ends: `bcm_parse_tlvs` with the first element of the
chain that has the key, `bcm_find_ie` and `bcm_find_vendor_ie` with the first that has the id and
starts with the bytes.  `bcm_parse_tlvs_advance` leaves the cursor where it is if it finds nothing;
else TO moves it onto the element, where TO stays, and PAST behind it, or to NULL where no element
follows.  PAST again and again, or TO and each time past the element, enumerates the elements with
the key in the order of the chain. -/
theorem tlv_lookup_first_match (mem : List UInt8) (c : Cursor) (hc : Inside mem c) :
    (∀ key, parseTlvs mem c key =
      .ok (((elements mem c).find? (Elt.hasKey mem key)).map Elt.pos)) ∧
    (∀ tag oui type, findIe mem c tag oui type =
      .ok (((elements mem c).find? (Elt.startsWith mem tag.toNat (oui ++ [type]))).map Elt.pos)) ∧
    (∀ voui type, type.length + 3 < 0x100000000 → findVendorIe mem c voui type =
      .ok (((elements mem c).find?
        (Elt.startsWith mem DOT11_MNG_VS_ID (voui.toList ++ type))).map Elt.pos)) ∧
    (∀ key advance, (elements mem c).find? (Elt.hasKey mem key) = none →
      parseTlvsAdvance mem c key advance = .ok (none, c)) ∧
    (∀ key e, (elements mem c).find? (Elt.hasKey mem key) = some e →
      let stop := c.buf.getD 0 + c.buflen
      let next := e.pos + TLV_HDR_LEN + e.len
      let on : Cursor := { buf := some e.pos, buflen := stop - e.pos }
      parseTlvsAdvance mem c key .advanceNone = .ok (some e.pos, c) ∧
      parseTlvsAdvance mem c key .advanceTo = .ok (some e.pos, on) ∧
      parseTlvsAdvance mem on key .advanceTo = .ok (some e.pos, on) ∧
      parseTlvsAdvance mem c key .advancePast =
        .ok (some e.pos, behind mem next (stop - next))) ∧
    (∀ key, repeated (searchPast mem key) (c.buflen + 1) c =
      .ok (((elements mem c).filter (Elt.hasKey mem key)).map Elt.pos)) ∧
    ∀ key, repeated (searchTo mem key) (c.buflen + 1) c =
      .ok (((elements mem c).filter (Elt.hasKey mem key)).map Elt.pos) := by
  refine ⟨?_, ?_, ?_, ?_, ?_, ?_, ?_⟩
  · intro key
    obtain ⟨buf, r⟩ := c
    cases buf with
    | none => rfl
    | some p => exact parseTlvs_eq (hc p rfl) key
  · intro tag oui type
    exact findIeLoop_eq hc tag oui type (Nat.lt_succ_self _)
  · intro voui type ht
    exact findVendorIe_eq hc voui type ht
  · intro key advance hn
    exact parseTlvsAdvance_of_none hc advance hn
  · intro key e hfind
    obtain ⟨buf, r⟩ := c
    cases buf with
    | none => cases hfind
    | some p =>
      have hlen : p + r ≤ mem.length := hc p rfl
      obtain ⟨n, s, hf⟩ := found (p := p) (r := r) hlen hfind
      have hend := hf.end_eq
      have hsize := hf.size_eq
      have hs : p + r - e.pos = s := by omega
      have hnext : e.pos + TLV_HDR_LEN + e.len = e.pos + n := by omega
      have hrest : p + r - (e.pos + n) = s - n := by omega
      dsimp only [Option.getD_some]
      rw [hs, hnext, hrest]
      exact ⟨hf.parse .advanceNone, hf.parse .advanceTo, hf.again hlen, hf.parse .advancePast⟩
  · intro key
    exact repeated_eq (searchPast_searches mem key) hc (Nat.lt_succ_self _)
  · intro key
    exact repeated_eq (searchTo_searches mem key) hc (Nat.lt_succ_self _)

/-- An extension element, with a vendor type behind an OUI, and a truncated element. -/
theorem tlv_lookup_first_match_two :
    parseTlvs [1, 0, 255, 1, 4, 221, 4, 0, 80, 242, 1, 7, 9] { buf := some 0, buflen := 13 } 259 =
      .ok (some 2) ∧
    findVendorIe [1, 0, 255, 1, 4, 221, 4, 0, 80, 242, 1, 7, 9] { buf := some 0, buflen := 13 }
      #v[0, 80, 242] [1] = .ok (some 5) := by
  have h := tlv_lookup_first_match [1, 0, 255, 1, 4, 221, 4, 0, 80, 242, 1, 7, 9]
    { buf := some 0, buflen := 13 } (by intro p hp; cases hp; decide)
  exact ⟨(h.1 259).trans rfl, (h.2.2.1 #v[0, 80, 242] [1] (by decide)).trans rfl⟩

/-- TO again and again stays on the first of two elements, and a search that finds nothing does
not move the cursor to the end. -/
theorem tlv_lookup_first_match_fails :
    ((elements [1, 0, 1, 0] { buf := some 0, buflen := 4 }).filter
      (Elt.hasKey [1, 0, 1, 0] 1)).map Elt.pos = [0, 2] ∧
    parseTlvsAdvance [1, 0, 1, 0] { buf := some 0, buflen := 4 } 1 .advanceTo =
      .ok (some 0, { buf := some 0, buflen := 4 }) ∧
    parseTlvsAdvance [1, 0, 1, 0] { buf := some 0, buflen := 4 } 2 .advancePast =
      .ok (none, { buf := some 0, buflen := 4 }) := by
  refine ⟨?_, ?_, ?_⟩
  · decide
  · rfl
  · rfl

end Bcmdhd.Tlv
