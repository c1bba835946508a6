import Bcmdhd.Lib.Records
import Bcmdhd.Tlv.Xtlv

/-!
# XTLV packing

`bcm_xtlv_put_data` and `bcm_pack_xtlv_entry` write one record behind another.  What they
wrote is a chain of records again, with the same types, lengths and data.

    the types and lengths fit, the buffer is large enough →
      every call returns BCME_OK, and bcm_unpack_xtlv_buf calls back on the records
                                                                (xtlv_round_trip)
-/

namespace Bcmdhd.Xtlv

open Chain Records

def BCME_BADLEN : Int := -24
def BCME_NOMEM : Int := -27

/-! ## Algorithm -/

abbrev Mem := Nat → UInt8

/-- `htol16_ua_store` -/
def htol16 (v : Nat) : List UInt8 := [UInt8.ofNat (v % 0x100), UInt8.ofNat (v / 0x100)]

/-- `data` is `none` for NULL: the data's place is kept. -/
def packXtlv (mem : Mem) (xtlv : Nat) (type len : Nat) (data : Option (List UInt8))
    (opts : Opts) : Mem :=
  let mask := OPTION_IDU8 ||| OPTION_LENU8
  let hdr :=
    if opts &&& mask = 0 then htol16 type ++ htol16 len
    else if opts &&& mask = mask then [UInt8.ofNat (type % 0x100), UInt8.ofNat (len % 0x100)]
    else if hasOpt opts OPTION_IDU8 then UInt8.ofNat (type % 0x100) :: htol16 len
    else htol16 type ++ [UInt8.ofNat (len % 0x100)]
  let len := if hasOpt opts OPTION_LENU8 then len % 0x100 else len
  let mem := writeAt mem xtlv hdr
  match data with
  | none => mem
  | some d => writeAt mem (xtlv + hdr.length) (d.take len)

/-- `bcm_xtlvbuf_t`; the cursor stays inside the buffer. -/
structure XtlvBuf where
  opts : Opts
  size : Nat
  head : Nat
  buf : Nat
  head_le : head ≤ buf
  buf_le : buf ≤ head + size
  size_lt : size < 0x10000

def xtlvBufLen (t : XtlvBuf) : Nat := (t.buf - t.head) % 0x10000

def xtlvBufRlen (t : XtlvBuf) : Nat := (t.size + 0x10000 - xtlvBufLen t) % 0x10000

theorem xtlvBufRlen_eq (t : XtlvBuf) : xtlvBufRlen t = t.head + t.size - t.buf := by
  have h1 := t.head_le
  have h2 := t.buf_le
  have h3 := t.size_lt
  unfold xtlvBufRlen xtlvBufLen
  omega

theorem advance_le {t : XtlvBuf} {n : Nat} (h : ¬ xtlvBufRlen t < n) :
    t.buf + n ≤ t.head + t.size := by
  have h2 := t.buf_le
  rw [xtlvBufRlen_eq] at h
  omega

/-- The memory and the buffer after the call, and the result. -/
def putData (mem : Mem) (t : XtlvBuf) (type : Nat) (data : Option (List UInt8)) (n : Nat) :
    Mem × XtlvBuf × Int :=
  if h : xtlvBufRlen t < xtlvSizeForData n t.opts then (mem, t, BCME_NOMEM)
  else
    (packXtlv mem t.buf type (n % 0x10000) data t.opts,
      { t with buf := t.buf + xtlvSizeForData n t.opts,
               head_le := Nat.le_trans t.head_le (Nat.le_add_right _ _),
               buf_le := advance_le h },
      BCME_OK)

/-- `*tlv_buf` and `*buflen` -/
structure Cursor where
  tlvBuf : Nat
  buflen : Nat
  buflen_lt : buflen < 0x10000

def packXtlvEntry (mem : Mem) (c : Cursor) (type len : Nat) (data : Option (List UInt8))
    (opts : Opts) : Mem × Cursor × Int :=
  let size := xtlvSizeForData len opts
  if size > c.buflen then (mem, c, BCME_BADLEN)
  else
    (packXtlv mem c.tlvBuf type len data opts,
      { tlvBuf := c.tlvBuf + size, buflen := c.buflen - size % 0x10000,
        buflen_lt := Nat.lt_of_le_of_lt (Nat.sub_le _ _) c.buflen_lt },
      BCME_OK)

/-- A type and its data. -/
abbrev Item := Nat × List UInt8

/-- `bcm_xtlv_put_data` for each item in turn, with the results. -/
def putAll (mem : Mem) (t : XtlvBuf) : List Item → Mem × XtlvBuf × List Int
  | [] => (mem, t, [])
  | x :: xs =>
    let (mem, t, e) := putData mem t x.1 (some x.2) x.2.length
    let (mem, t, es) := putAll mem t xs
    (mem, t, e :: es)

/-- `bcm_pack_xtlv_entry` for each item in turn, with the results. -/
def packAll (mem : Mem) (c : Cursor) (opts : Opts) : List Item → Mem × Cursor × List Int
  | [] => (mem, c, [])
  | x :: xs =>
    let (mem, c, e) := packXtlvEntry mem c x.1 x.2.length (some x.2) opts
    let (mem, c, es) := packAll mem c opts xs
    (mem, c, e :: es)

/-! ## What a record's bytes are -/

def totalSize (opts : Opts) : List Item → Nat
  | [] => 0
  | x :: xs => xtlvSizeForData x.2.length opts + totalSize opts xs

def hdrBytes (opts : Opts) (type len : Nat) : List UInt8 :=
  (if hasOpt opts OPTION_IDU8 then [UInt8.ofNat (type % 0x100)] else htol16 type) ++
    (if hasOpt opts OPTION_LENU8 then [UInt8.ofNat (len % 0x100)] else htol16 len)

theorem hdrBytes_length (opts : Opts) (type len : Nat) :
    (hdrBytes opts type len).length = xtlvHdrSize opts := by
  rw [xtlvHdrSize_eq]
  unfold hdrBytes htol16
  split <;> split <;> rfl

theorem and_idu8 (opts : Opts) :
    opts &&& OPTION_IDU8 = if hasOpt opts OPTION_IDU8 then OPTION_IDU8 else 0 := by
  unfold hasOpt
  rw [show OPTION_IDU8 = BitVec.twoPow 16 1 by decide, BitVec.and_twoPow]
  cases opts.getLsbD 1 <;> decide

theorem and_lenu8 (opts : Opts) :
    opts &&& OPTION_LENU8 = if hasOpt opts OPTION_LENU8 then OPTION_LENU8 else 0 := by
  unfold hasOpt
  rw [show OPTION_LENU8 = BitVec.twoPow 16 2 by decide, BitVec.and_twoPow]
  cases opts.getLsbD 2 <;> decide

/-- The four branches write one header. -/
theorem packHdr_eq (type len : Nat) (opts : Opts) :
    (if opts &&& (OPTION_IDU8 ||| OPTION_LENU8) = 0 then htol16 type ++ htol16 len
      else if opts &&& (OPTION_IDU8 ||| OPTION_LENU8) = OPTION_IDU8 ||| OPTION_LENU8 then
        [UInt8.ofNat (type % 0x100), UInt8.ofNat (len % 0x100)]
      else if hasOpt opts OPTION_IDU8 then UInt8.ofNat (type % 0x100) :: htol16 len
      else htol16 type ++ [UInt8.ofNat (len % 0x100)]) = hdrBytes opts type len := by
  unfold hdrBytes
  rw [BitVec.and_or_distrib_left, and_idu8, and_lenu8]
  cases hasOpt opts OPTION_IDU8 <;> cases hasOpt opts OPTION_LENU8 <;> rfl

theorem packXtlv_none (mem : Mem) (p type len : Nat) (opts : Opts) :
    packXtlv mem p type len none opts = writeAt mem p (hdrBytes opts type len) := by
  rw [← packHdr_eq]
  rfl

theorem packXtlv_eq (mem : Mem) (p type len : Nat) (d : List UInt8) (opts : Opts)
    (hlen : hasOpt opts OPTION_LENU8 → len < 0x100) :
    packXtlv mem p type len (some d) opts =
      writeAt (writeAt mem p (hdrBytes opts type len)) (p + xtlvHdrSize opts) (d.take len) := by
  have hmod : (if hasOpt opts OPTION_LENU8 then len % 0x100 else len) = len := by
    split
    · next hl => exact Nat.mod_eq_of_lt (hlen hl)
    · rfl
  rw [← hdrBytes_length opts type len, ← packHdr_eq]
  unfold packXtlv
  dsimp only
  rw [hmod]

/-- The type and the length fit the field widths. -/
def Fits (opts : Opts) (x : Item) : Prop :=
  x.1 < (if hasOpt opts OPTION_IDU8 then 0x100 else 0x10000) ∧
    x.2.length < (if hasOpt opts OPTION_LENU8 then 0x100 else 0x10000)

instance (opts : Opts) (x : Item) : Decidable (Fits opts x) := inferInstanceAs (Decidable (_ ∧ _))

variable {opts : Opts} {x : Item} {xs : List Item}

theorem Fits.type_lt (h : Fits opts x) : x.1 < 0x10000 := by
  have h1 := h.1
  split at h1 <;> omega

theorem Fits.length_lt (h : Fits opts x) : x.2.length < 0x10000 := by
  have h2 := h.2
  split at h2 <;> omega

theorem Fits.length_lt_of_lenu8 (h : Fits opts x) (hl : hasOpt opts OPTION_LENU8) :
    x.2.length < 0x100 := by
  have h2 := h.2
  rwa [if_pos hl] at h2

/-- The records of the items stand one behind another from `p`, pad bytes between them. -/
def Holds (opts : Opts) (mem : Mem) : Nat → List Item → Prop
  | _, [] => True
  | p, x :: xs =>
    readAt mem p (xtlvHdrSize opts + x.2.length) = hdrBytes opts x.1 x.2.length ++ x.2 ∧
      Holds opts mem (p + xtlvSizeForData x.2.length opts) xs

/-- Packing the items from `p`. -/
def writeAll (opts : Opts) (mem : Mem) (p : Nat) : List Item → Mem
  | [] => mem
  | x :: xs =>
    writeAll opts (packXtlv mem p x.1 x.2.length (some x.2) opts)
      (p + xtlvSizeForData x.2.length opts) xs

theorem packXtlv_off (hx : Fits opts x) (mem : Mem) (p : Nat) {i : Nat}
    (h : i < p ∨ p + xtlvSizeForData x.2.length opts ≤ i) :
    packXtlv mem p x.1 x.2.length (some x.2) opts i = mem i := by
  have hle := le_xtlvSizeForData x.2.length opts
  rw [packXtlv_eq mem p x.1 x.2.length x.2 opts hx.length_lt_of_lenu8,
    writeAt_of_off (by rw [List.length_take]; omega),
    writeAt_of_off (by rw [hdrBytes_length]; omega)]

theorem packXtlv_read (hx : Fits opts x) (mem : Mem) (p : Nat) :
    readAt (packXtlv mem p x.1 x.2.length (some x.2) opts) p (xtlvHdrSize opts + x.2.length) =
      hdrBytes opts x.1 x.2.length ++ x.2 := by
  have hh := hdrBytes_length opts x.1 x.2.length
  rw [packXtlv_eq mem p x.1 x.2.length x.2 opts hx.length_lt_of_lenu8, List.take_length, readAt_add,
    readAt_writeAt, readAt_writeAt_of_off (Or.inl (Nat.le_refl _)), ← hh, readAt_writeAt]

theorem writeAll_off (hx : ∀ x ∈ xs, Fits opts x) (mem : Mem) (p : Nat) {i : Nat}
    (h : i < p ∨ p + totalSize opts xs ≤ i) :
    writeAll opts mem p xs i = mem i := by
  induction xs generalizing mem p with
  | nil => rfl
  | cons x xs ih =>
    rw [totalSize] at h
    rw [writeAll, ih (fun y hy => hx y (List.mem_cons_of_mem x hy)) _ _ (by omega),
      packXtlv_off (hx x List.mem_cons_self) mem p (by omega)]

theorem writeAll_holds (hx : ∀ x ∈ xs, Fits opts x) (mem : Mem) (p : Nat) :
    Holds opts (writeAll opts mem p xs) p xs := by
  induction xs generalizing mem p with
  | nil => trivial
  | cons x xs ih =>
    have hxs : ∀ y ∈ xs, Fits opts y := fun y hy => hx y (List.mem_cons_of_mem x hy)
    have hle := le_xtlvSizeForData x.2.length opts
    refine ⟨?_, ih hxs _ _⟩
    rw [← packXtlv_read (hx x List.mem_cons_self) mem p]
    exact readAt_congr fun i _ _ => writeAll_off hxs _ _ (by omega)

theorem putData_of_room (mem : Mem) (t : XtlvBuf) (hx : Fits t.opts x)
    (hroom : t.buf + xtlvSizeForData x.2.length t.opts ≤ t.head + t.size) :
    putData mem t x.1 (some x.2) x.2.length =
      (packXtlv mem t.buf x.1 x.2.length (some x.2) t.opts,
        { t with buf := t.buf + xtlvSizeForData x.2.length t.opts,
                 head_le := Nat.le_trans t.head_le (Nat.le_add_right _ _),
                 buf_le := hroom }, BCME_OK) := by
  unfold putData
  rw [dif_neg (by rw [xtlvBufRlen_eq]; omega), Nat.mod_eq_of_lt hx.length_lt]

theorem putAll_eq (mem : Mem) (t : XtlvBuf) (hx : ∀ x ∈ xs, Fits t.opts x)
    (hroom : t.buf + totalSize t.opts xs ≤ t.head + t.size) :
    (putAll mem t xs).1 = writeAll t.opts mem t.buf xs ∧
      (putAll mem t xs).2.1.buf = t.buf + totalSize t.opts xs ∧
      (putAll mem t xs).2.2 = xs.map fun _ => BCME_OK := by
  induction xs generalizing mem t with
  | nil => exact ⟨rfl, rfl, rfl⟩
  | cons x xs ih =>
    rw [totalSize] at hroom
    have hfirst : t.buf + xtlvSizeForData x.2.length t.opts ≤ t.head + t.size := by omega
    rw [putAll, putData_of_room mem t (hx x List.mem_cons_self) hfirst]
    obtain ⟨h1, h2, h3⟩ := ih (packXtlv mem t.buf x.1 x.2.length (some x.2) t.opts)
      { t with buf := t.buf + xtlvSizeForData x.2.length t.opts,
               head_le := Nat.le_trans t.head_le (Nat.le_add_right _ _),
               buf_le := hfirst }
      (fun y hy => hx y (List.mem_cons_of_mem x hy)) (by dsimp only; omega)
    refine ⟨h1, ?_, congrArg (BCME_OK :: ·) h3⟩
    rw [totalSize]
    exact h2.trans (Nat.add_assoc _ _ _)

theorem packAll_eq (mem : Mem) (c : Cursor) (hx : ∀ x ∈ xs, Fits opts x)
    (hroom : totalSize opts xs ≤ c.buflen) :
    (packAll mem c opts xs).1 = writeAll opts mem c.tlvBuf xs ∧
      (packAll mem c opts xs).2.1.tlvBuf = c.tlvBuf + totalSize opts xs ∧
      (packAll mem c opts xs).2.2 = xs.map fun _ => BCME_OK := by
  induction xs generalizing mem c with
  | nil => exact ⟨rfl, rfl, rfl⟩
  | cons x xs ih =>
    rw [totalSize] at hroom
    have hlt := c.buflen_lt
    have hmod : xtlvSizeForData x.2.length opts % 0x10000 = xtlvSizeForData x.2.length opts :=
      Nat.mod_eq_of_lt (by omega)
    unfold packAll packXtlvEntry
    dsimp only
    rw [if_neg (by omega)]
    obtain ⟨h1, h2, h3⟩ := ih (packXtlv mem c.tlvBuf x.1 x.2.length (some x.2) opts)
      { tlvBuf := c.tlvBuf + xtlvSizeForData x.2.length opts,
        buflen := c.buflen - xtlvSizeForData x.2.length opts % 0x10000,
        buflen_lt := Nat.lt_of_le_of_lt (Nat.sub_le _ _) c.buflen_lt }
      (fun y hy => hx y (List.mem_cons_of_mem x hy)) (by dsimp only; omega)
    refine ⟨h1, ?_, congrArg (BCME_OK :: ·) h3⟩
    rw [totalSize]
    exact h2.trans (Nat.add_assoc _ _ _)

/-! ## Reading them back -/

/-- The number with the two bytes of `v` in the other order. -/
def swap16 (v : Nat) : Nat := v / 0x100 + 0x100 * (v % 0x100)

/-- What is read for a type that was packed. -/
def idRead (opts : Opts) (type : Nat) : Nat :=
  if hasOpt opts OPTION_IDU8 then type
  else if hasOpt opts OPTION_IDBE then swap16 type
  else type

/-- What is read for a length that was packed, if its field ends in the header. -/
def lenRead (opts : Opts) (len : Nat) : Nat :=
  if hasOpt opts OPTION_LENU8 then len
  else if hasOpt opts OPTION_LENBE then swap16 len
  else len

theorem idRead_eq (hbe : hasOpt opts OPTION_IDBE = false) (type : Nat) :
    idRead opts type = type := by
  unfold idRead
  rw [hbe]
  split <;> rfl

theorem lenRead_eq (hbe : hasOpt opts OPTION_LENBE = false) (len : Nat) :
    lenRead opts len = len := by
  unfold lenRead
  rw [hbe]
  split <;> rfl

theorem lenBehindHdr_eq_false (hbe : hasOpt opts OPTION_LENBE = false) :
    lenBehindHdr opts = false := by
  unfold lenBehindHdr
  rw [hbe, Bool.and_false, Bool.false_and]

/-- The records of the items laid from `p`. -/
def recsFrom (opts : Opts) (p : Nat) : List Item → List Rec
  | [] => []
  | x :: xs =>
    { data := p + xtlvHdrSize opts, type := x.1, len := x.2.length } ::
      recsFrom opts (p + xtlvSizeForData x.2.length opts) xs

section Decode

variable {opts : Opts} {mem : Mem} {head n : Nat} {x : Item} {p : Nat}

theorem byte_readAt {i : Nat} (h : i < n) : byte (readAt mem head n) i = (mem (head + i)).toNat := by
  unfold byte readAt
  rw [List.getElem?_map, List.getElem?_range h]
  rfl

/-- The bytes of a header, read back. -/
theorem hdr_byte (hr : readAt mem (head + p) (xtlvHdrSize opts + x.2.length) =
      hdrBytes opts x.1 x.2.length ++ x.2)
    (hn : p + xtlvHdrSize opts ≤ n) {i : Nat} (hi : i < xtlvHdrSize opts) :
    byte (readAt mem head n) (p + i) = ((hdrBytes opts x.1 x.2.length)[i]?.getD 0).toNat := by
  have hg : (readAt mem (head + p) (xtlvHdrSize opts + x.2.length))[i]? =
      (hdrBytes opts x.1 x.2.length ++ x.2)[i]? := by rw [hr]
  unfold readAt at hg
  rw [List.getElem?_map, List.getElem?_range (by omega),
    List.getElem?_append_left (by rw [hdrBytes_length]; exact hi)] at hg
  rw [byte_readAt (by omega), ← hg, ← Nat.add_assoc]
  rfl

theorem ofNat_toNat {v : Nat} (h : v < 0x100) : (UInt8.ofNat v).toNat = v :=
  UInt8.toNat_ofNat_of_lt' h

theorem idAt_eq (hx : Fits opts x)
    (hr : readAt mem (head + p) (xtlvHdrSize opts + x.2.length) =
      hdrBytes opts x.1 x.2.length ++ x.2)
    (hn : p + xtlvHdrSize opts ≤ n) : idAt (readAt mem head n) opts p = idRead opts x.1 := by
  have hb := @hdr_byte opts mem head n x p hr hn
  have hpos := xtlvHdrSize_pos opts
  have h0 := hb (show 0 < _ by omega)
  have h1 := hb (show 1 < _ by omega)
  have hty := hx.type_lt
  unfold idAt idRead
  unfold hdrBytes htol16 at h0 h1
  rw [show p + 0 = p from rfl] at h0
  cases hi : hasOpt opts OPTION_IDU8
  · simp only [hi, Bool.false_eq_true, if_false] at h0 h1 ⊢
    rw [h0, h1]
    simp only [List.cons_append, List.getElem?_cons_zero, List.getElem?_cons_succ,
      Option.getD_some]
    rw [ofNat_toNat (by omega), ofNat_toNat (by omega)]
    unfold swap16
    split <;> omega
  · have hlt := hx.1
    rw [if_pos hi] at hlt
    simp only [hi, if_true] at h0 ⊢
    rw [h0]
    simp only [List.cons_append, List.getElem?_cons_zero, Option.getD_some]
    rw [ofNat_toNat (by omega), Nat.mod_eq_of_lt hlt]

theorem lenAt_eq (hodd : lenBehindHdr opts = false) (hx : Fits opts x)
    (hr : readAt mem (head + p) (xtlvHdrSize opts + x.2.length) =
      hdrBytes opts x.1 x.2.length ++ x.2)
    (hn : p + xtlvHdrSize opts ≤ n) :
    lenAt (readAt mem head n) opts p = lenRead opts x.2.length := by
  have hb := @hdr_byte opts mem head n x p hr hn
  have hlt := hx.length_lt
  have hsz := xtlvHdrSize_eq opts
  unfold lenBehindHdr at hodd
  unfold lenAt lenRead
  unfold hdrBytes htol16 at hb
  cases hi : hasOpt opts OPTION_IDU8 <;> cases hl : hasOpt opts OPTION_LENU8
  all_goals simp only [hi, hl, Bool.false_eq_true, if_false, if_true] at hb hsz ⊢
  · have h2 := hb (show 2 < _ by omega)
    have h3 := hb (show 3 < _ by omega)
    rw [h2, show p + 2 + 1 = p + 3 from rfl, h3]
    simp only [List.cons_append, List.nil_append, List.getElem?_cons_zero,
      List.getElem?_cons_succ, Option.getD_some]
    rw [ofNat_toNat (by omega), ofNat_toNat (by omega)]
    unfold swap16
    split <;> omega
  · have h2 := hb (show 2 < _ by omega)
    have hlen := hx.length_lt_of_lenu8 hl
    rw [h2]
    simp only [List.cons_append, List.nil_append, List.getElem?_cons_zero,
      List.getElem?_cons_succ, Option.getD_some]
    rw [ofNat_toNat (by omega), Nat.mod_eq_of_lt hlen]
  · have h1 := hb (show 1 < _ by omega)
    have h2 := hb (show 2 < _ by omega)
    -- the length would end behind the header
    have hbe : hasOpt opts OPTION_LENBE = false := by
      rw [hi, hl] at hodd
      cases hbe : hasOpt opts OPTION_LENBE
      · rfl
      · rw [hbe] at hodd
        cases hodd
    rw [hbe, h1, show p + 1 + 1 = p + 2 from rfl, h2]
    simp only [List.cons_append, List.nil_append, List.getElem?_cons_zero,
      List.getElem?_cons_succ, Option.getD_some, Bool.false_eq_true, if_false]
    rw [ofNat_toNat (by omega), ofNat_toNat (by omega)]
    omega
  · have h1 := hb (show 1 < _ by omega)
    have hlen := hx.length_lt_of_lenu8 hl
    rw [h1]
    simp only [List.cons_append, List.nil_append, List.getElem?_cons_zero,
      List.getElem?_cons_succ, Option.getD_some]
    rw [ofNat_toNat (by omega), Nat.mod_eq_of_lt hlen]

/-- What was packed is the chain that the walkers see. -/
theorem elements_eq (hid : hasOpt opts OPTION_IDBE = false)
    (hlen : hasOpt opts OPTION_LENBE = false) (hx : ∀ x ∈ xs, Fits opts x)
    (hh : Holds opts mem (head + p) xs) (hn : p + totalSize opts xs = n) :
    (records (readAt mem head n) opts).elements p (totalSize opts xs) = recsFrom opts p xs := by
  induction xs generalizing p with
  | nil =>
    apply Format.elements_of_none
    have hpos := xtlvHdrSize_pos opts
    unfold records totalSize
    exact if_neg (by omega)
  | cons x xs ih =>
    rw [totalSize] at hn ⊢
    have hle := le_xtlvSizeForData x.2.length opts
    have hxx := hx x List.mem_cons_self
    have hty := idAt_eq hxx hh.1 (n := n) (by omega)
    have hln := lenAt_eq (lenBehindHdr_eq_false hlen) hxx hh.1 (n := n) (by omega)
    rw [idRead_eq hid] at hty
    rw [lenRead_eq hlen] at hln
    have hf : (records (readAt mem head n) opts).front p
        (xtlvSizeForData x.2.length opts + totalSize opts xs) =
        some ({ data := p + xtlvHdrSize opts, type := x.1, len := x.2.length },
          xtlvSizeForData x.2.length opts) := by
      unfold records
      dsimp only
      rw [hln, if_pos (by omega)]
      unfold recAt
      rw [hty, hln]
    rw [Format.elements_of_some hf, Nat.add_sub_cancel_left, ih
      (fun y hy => hx y (List.mem_cons_of_mem x hy)) (by rw [← Nat.add_assoc]; exact hh.2) (by omega)]
    rfl

end Decode

/-- `bcm_unpack_xtlv_buf` over the bytes calls back once for each item, in order. -/
def Delivers (opts : Opts) (bytes : List UInt8) (xs : List Item) : Prop :=
  ∃ rs : List Rec,
    rs.map (fun r => (r.type, r.len, (bytes.drop r.data).take r.len)) =
        xs.map (fun x => (x.1, x.2.length, x.2)) ∧
      ∀ (σ : Type) (cbfn : σ → Nat → Nat → Nat → σ × Int) (ctx : σ),
        (∀ c data type len, (cbfn c data type len).2 = BCME_OK) →
        unpackXtlvBuf bytes bytes.length opts cbfn ctx =
          .ok (rs.foldl (fun c r => (cbfn c r.data r.type r.len).1) ctx, BCME_OK)

theorem callbacks_ok {σ : Type} {cbfn : σ → Nat → Nat → Nat → σ × Int}
    (hok : ∀ c data type len, (cbfn c data type len).2 = BCME_OK) (ctx : σ) (rs : List Rec) :
    callbacks cbfn ctx rs = (rs.foldl (fun c r => (cbfn c r.data r.type r.len).1) ctx, BCME_OK) := by
  induction rs generalizing ctx with
  | nil => rfl
  | cons r rs ih =>
    unfold callbacks
    dsimp only
    rw [if_neg (by rw [hok]; exact fun h => h rfl), ih]
    rfl

theorem recsFrom_data {mem : Mem} {head n p : Nat} (hh : Holds opts mem (head + p) xs)
    (hn : p + totalSize opts xs = n) :
    (recsFrom opts p xs).map (fun r => (r.type, r.len, ((readAt mem head n).drop r.data).take r.len)) =
      xs.map fun x => (x.1, x.2.length, x.2) := by
  induction xs generalizing p with
  | nil => rfl
  | cons x xs ih =>
    rw [totalSize] at hn
    have hle := le_xtlvSizeForData x.2.length opts
    have hd := hh.1
    rw [readAt_add] at hd
    have hdata := (List.append_inj hd (by rw [readAt_length, hdrBytes_length])).2
    rw [recsFrom, List.map_cons, List.map_cons, ih (by rw [← Nat.add_assoc]; exact hh.2) (by omega)]
    dsimp only
    rw [drop_take_readAt (by omega), ← Nat.add_assoc, hdata]

theorem delivers_of_holds (hid : hasOpt opts OPTION_IDBE = false)
    (hlen : hasOpt opts OPTION_LENBE = false) {mem : Mem} {head : Nat} (hx : ∀ x ∈ xs, Fits opts x)
    (hh : Holds opts mem head xs) :
    Delivers opts (readAt mem head (totalSize opts xs)) xs := by
  refine ⟨recsFrom opts 0 xs, recsFrom_data hh (Nat.zero_add _), ?_⟩
  intro σ cbfn ctx hok
  have hm : Readable (readAt mem head (totalSize opts xs)) opts
      (readAt mem head (totalSize opts xs)).length := by
    refine ⟨Nat.le_refl _, fun hb => ?_⟩
    rw [lenBehindHdr_eq_false hlen] at hb
    cases hb
  rw [unpackXtlvBuf_eq hm, readAt_length, elements_eq hid hlen hx hh (Nat.zero_add _),
    callbacks_ok hok]

/-- **Round trip.**  With the options for alignment and field widths, items that fit the widths are
all packed, by `bcm_xtlv_put_data` or by `bcm_pack_xtlv_entry`, when there is room for them;
nothing else is written, and `bcm_unpack_xtlv_buf` over the bytes gives them back.  Where the room
is too short for the next item the call says so and changes nothing. -/
theorem xtlv_round_trip (opts : Opts) (hid : hasOpt opts OPTION_IDBE = false)
    (hlen : hasOpt opts OPTION_LENBE = false) (xs : List Item) (hx : ∀ x ∈ xs, Fits opts x)
    (mem : Mem) :
    (∀ t : XtlvBuf, t.opts = opts → t.buf + totalSize opts xs ≤ t.head + t.size →
      ∃ mem' t', putAll mem t xs = (mem', t', xs.map fun _ => BCME_OK) ∧
        t'.buf = t.buf + totalSize opts xs ∧
        (∀ i, i < t.buf ∨ t'.buf ≤ i → mem' i = mem i) ∧
        Delivers opts (readAt mem' t.buf (t'.buf - t.buf)) xs) ∧
    (∀ c : Cursor, totalSize opts xs ≤ c.buflen →
      ∃ mem' c', packAll mem c opts xs = (mem', c', xs.map fun _ => BCME_OK) ∧
        c'.tlvBuf = c.tlvBuf + totalSize opts xs ∧
        (∀ i, i < c.tlvBuf ∨ c'.tlvBuf ≤ i → mem' i = mem i) ∧
        Delivers opts (readAt mem' c.tlvBuf (c'.tlvBuf - c.tlvBuf)) xs) ∧
    (∀ (t : XtlvBuf) (x : Item),
      t.head + t.size < t.buf + xtlvSizeForData x.2.length t.opts →
      putData mem t x.1 (some x.2) x.2.length = (mem, t, BCME_NOMEM)) ∧
    ∀ (c : Cursor) (x : Item), c.buflen < xtlvSizeForData x.2.length opts →
      packXtlvEntry mem c x.1 x.2.length (some x.2) opts = (mem, c, BCME_BADLEN) := by
  refine ⟨?_, ?_, ?_, ?_⟩
  · rintro t rfl hroom
    obtain ⟨h1, h2, h3⟩ := putAll_eq mem t hx hroom
    refine ⟨writeAll t.opts mem t.buf xs, (putAll mem t xs).2.1, ?_, h2, ?_, ?_⟩
    · rw [← h1, ← h3]
    · intro i hi
      exact writeAll_off hx mem t.buf (by omega)
    · rw [h2, Nat.add_sub_cancel_left]
      exact delivers_of_holds hid hlen hx (writeAll_holds hx mem t.buf)
  · intro c hroom
    obtain ⟨h1, h2, h3⟩ := packAll_eq mem c hx hroom
    refine ⟨writeAll opts mem c.tlvBuf xs, (packAll mem c opts xs).2.1, ?_, h2, ?_, ?_⟩
    · rw [← h1, ← h3]
    · intro i hi
      exact writeAll_off hx mem c.tlvBuf (by omega)
    · rw [h2, Nat.add_sub_cancel_left]
      exact delivers_of_holds hid hlen hx (writeAll_holds hx mem c.tlvBuf)
  · intro t x hroom
    have hb := t.buf_le
    unfold putData
    rw [dif_pos (by rw [xtlvBufRlen_eq]; omega)]
  · intro c x hroom
    exact if_pos hroom

/-- Three bytes of header, two items, padded to eight bytes. -/
theorem xtlv_round_trip_two : ∃ mem' c',
    packAll (fun _ => 0) { tlvBuf := 100, buflen := 9, buflen_lt := by decide }
        (OPTION_ALIGN32 ||| OPTION_IDU8) [(1, [7]), (0xdd, [])] =
      (mem', c', [BCME_OK, BCME_OK]) ∧
    c'.tlvBuf = 108 ∧
    (∀ i, i < 100 ∨ c'.tlvBuf ≤ i → mem' i = 0) ∧
    Delivers (OPTION_ALIGN32 ||| OPTION_IDU8) (readAt mem' 100 (c'.tlvBuf - 100))
      [(1, [7]), (0xdd, [])] :=
  (xtlv_round_trip _ (by decide) (by decide) _ (by decide) _).2.1 _ (by decide)

end Bcmdhd.Xtlv
