import Bcmdhd.Tlv.XtlvPack

/-!
# The XTLV accessors and the packer

`bcm_xtlv_pack_xtlv` packs every header with its low bytes first, whatever the options.  The
accessors follow the options: a 16-bit type or length that is to be big-endian is read with its
bytes in the other order.

    the type and the length fit →
      xtlvId = idRead type ∧ xtlvLen = lenRead len ∧ the data is where bcm_xtlv_unpack_xtlv says
                                                                (xtlv_accessors)

Where the length of an 8-bit type is to be big-endian, it is read one byte behind its place.
-/

namespace Bcmdhd.Xtlv

open Chain Records

/-- The accessors give back what was packed at `p`. -/
structure Restores (bytes : List UInt8) (p : Nat) (opts : Opts) (type len : Nat) : Prop where
  idOk : xtlvId bytes p opts = .ok type
  lenOk : xtlvLen bytes p opts = .ok len
  unpackOk : unpackXtlv bytes p opts =
    .ok { data := p + xtlvHdrSize opts, type := type, len := len }

/-- A field of 16 bits that is to be big-endian has two equal bytes. -/
def Symmetric (opts : Opts) (type len : Nat) : Prop :=
  (hasOpt opts OPTION_IDU8 = false → hasOpt opts OPTION_IDBE = true →
    type / 0x100 = type % 0x100) ∧
  (hasOpt opts OPTION_LENU8 = false → hasOpt opts OPTION_LENBE = true → len / 0x100 = len % 0x100)

theorem swap16_eq_iff (v : Nat) : swap16 v = v ↔ v / 0x100 = v % 0x100 := by
  unfold swap16
  omega

section
variable {opts : Opts} {type len : Nat} {data : Option (List UInt8)} {mem : Mem} {p : Nat}

theorem idRead_eq_iff : idRead opts type = type ↔
    (hasOpt opts OPTION_IDU8 = false → hasOpt opts OPTION_IDBE = true →
      type / 0x100 = type % 0x100) := by
  unfold idRead
  cases hasOpt opts OPTION_IDU8
  · cases hasOpt opts OPTION_IDBE
    · simp
    · simpa using swap16_eq_iff _
  · simp

theorem lenRead_eq_iff : lenRead opts len = len ↔
    (hasOpt opts OPTION_LENU8 = false → hasOpt opts OPTION_LENBE = true →
      len / 0x100 = len % 0x100) := by
  unfold lenRead
  cases hasOpt opts OPTION_LENU8
  · cases hasOpt opts OPTION_LENBE
    · simp
    · simpa using swap16_eq_iff _
  · simp

theorem packXtlv_hdr (hlen : hasOpt opts OPTION_LENU8 → len < 0x100) :
    readAt (packXtlv mem p type len data opts) p (xtlvHdrSize opts) = hdrBytes opts type len := by
  have hh := hdrBytes_length opts type len
  cases data with
  | none => rw [packXtlv_none, ← hh, readAt_writeAt]
  | some d =>
    rw [packXtlv_eq mem p type len d opts hlen, readAt_writeAt_of_off (.inl (Nat.le_refl _)), ← hh,
      readAt_writeAt]

theorem packXtlv_data {d : List UInt8} (hlen : hasOpt opts OPTION_LENU8 → len < 0x100)
    (hd : d.length = len) :
    readAt (packXtlv mem p type len (some d) opts) (p + xtlvHdrSize opts) len = d := by
  rw [packXtlv_eq mem p type len d opts hlen, ← hd, List.take_length, readAt_writeAt]

end

/-- **The accessors.**  Packed with any options and data, also without, a type and a length that fit
are read back, as bytes in the other order where the options say so; with the pointer to the data.
The accessors agree with the packer exactly when such bytes are equal. -/
theorem xtlv_accessors (opts : Opts) (type len : Nat) (data : Option (List UInt8)) (mem : Mem)
    (head p n : Nat) (htype : type < if hasOpt opts OPTION_IDU8 then 0x100 else 0x10000)
    (hlen : len < if hasOpt opts OPTION_LENU8 then 0x100 else 0x10000)
    (hdata : ∀ d ∈ data, d.length = len) (hn : p + xtlvHdrSize opts + len ≤ n)
    (hodd : lenBehindHdr opts = false) :
    let bytes := readAt (packXtlv mem (head + p) type len data opts) head n
    xtlvId bytes p opts = .ok (idRead opts type) ∧ xtlvLen bytes p opts = .ok (lenRead opts len) ∧
      unpackXtlv bytes p opts =
        .ok { data := p + xtlvHdrSize opts, type := idRead opts type, len := lenRead opts len } ∧
      (∀ d ∈ data, (bytes.drop (p + xtlvHdrSize opts)).take len = d) ∧
      (Restores bytes p opts type len ↔ Symmetric opts type len) := by
  intro bytes
  have hlen8 : hasOpt opts OPTION_LENU8 → len < 0x100 := by
    intro hl
    rwa [if_pos hl] at hlen
  -- the record's data is whatever follows the header
  let x : Item := (type, readAt (packXtlv mem (head + p) type len data opts)
    (head + p + xtlvHdrSize opts) len)
  have hx2 : x.2.length = len := readAt_length _ _ _
  have hx : Fits opts x := ⟨htype, by rwa [hx2]⟩
  have hr : readAt (packXtlv mem (head + p) type len data opts) (head + p)
      (xtlvHdrSize opts + x.2.length) = hdrBytes opts x.1 x.2.length ++ x.2 := by
    rw [hx2, readAt_add, packXtlv_hdr hlen8]
  have hhdr : p + xtlvHdrSize opts ≤ n := by omega
  have hm : Readable bytes opts n := by
    refine ⟨Nat.le_of_eq (readAt_length _ _ _).symm, fun hb => ?_⟩
    rw [hodd] at hb
    cases hb
  have hid := idAt_eq hx hr hhdr
  have hln := lenAt_eq hodd hx hr hhdr
  rw [hx2] at hln
  have h1 : xtlvId bytes p opts = .ok (idRead opts type) :=
    (xtlvId_eq hm hhdr).trans (congrArg _ hid)
  have h2 : xtlvLen bytes p opts = .ok (lenRead opts len) :=
    (xtlvLen_eq hm hhdr).trans (congrArg _ hln)
  have h3 : unpackXtlv bytes p opts =
      .ok { data := p + xtlvHdrSize opts, type := idRead opts type, len := lenRead opts len } := by
    rw [unpackXtlv_eq hm hhdr]
    unfold recAt
    rw [hid, hln]
  refine ⟨h1, h2, h3, ?_, ?_⟩
  · intro d hd
    obtain rfl := Option.mem_def.mp hd
    rw [drop_take_readAt hn, ← Nat.add_assoc, packXtlv_data hlen8 (hdata d hd)]
  · unfold Symmetric
    rw [← idRead_eq_iff, ← lenRead_eq_iff]
    constructor
    · intro h
      exact ⟨Except.ok.inj (h1.symm.trans h.idOk), Except.ok.inj (h2.symm.trans h.lenOk)⟩
    · rintro ⟨hi, hl⟩
      rw [hi] at h1 h3
      rw [hl] at h2 h3
      exact ⟨h1, h2, h3⟩

/-- An 8-bit type and a length of 16 bits. -/
theorem xtlv_accessors_one :
    let bytes := readAt (packXtlv (fun _ => 0) 100 7 1 (some [9]) OPTION_IDU8) 100 4
    xtlvId bytes 0 OPTION_IDU8 = .ok (idRead OPTION_IDU8 7) ∧
      xtlvLen bytes 0 OPTION_IDU8 = .ok (lenRead OPTION_IDU8 1) ∧
      unpackXtlv bytes 0 OPTION_IDU8 = .ok
        { data := 0 + xtlvHdrSize OPTION_IDU8,
          type := idRead OPTION_IDU8 7,
          len := lenRead OPTION_IDU8 1 } ∧
      (∀ d ∈ some [9], (bytes.drop (0 + xtlvHdrSize OPTION_IDU8)).take 1 = d) ∧
      (Restores bytes 0 OPTION_IDU8 7 1 ↔ Symmetric OPTION_IDU8 7 1) :=
  xtlv_accessors OPTION_IDU8 7 1 (some [9]) (fun _ => 0) 100 0 4 (by decide) (by decide) (by decide)
    (by decide) (by decide)

/-- Type 1 is read as 256. -/
theorem xtlv_accessors_fails :
    ¬ ∀ (opts : Opts) type len data (mem : Mem) head p n,
      (type < if hasOpt opts OPTION_IDU8 then 0x100 else 0x10000) →
      (len < if hasOpt opts OPTION_LENU8 then 0x100 else 0x10000) → (∀ d ∈ data, d.length = len) →
      p + xtlvHdrSize opts + len ≤ n →
      Restores (readAt (packXtlv mem (head + p) type len data opts) head n) p opts type len := by
  intro h
  have hr :=
    (h OPTION_IDBE 1 0 none (fun _ => 0) 0 0 4 (by decide) (by decide) nofun (by decide)).idOk
  have heq : xtlvId (readAt (packXtlv (fun _ => 0) (0 + 0) 1 0 none OPTION_IDBE) 0 4) 0
      OPTION_IDBE = .ok 256 := by rfl
  rw [heq] at hr
  cases hr

end Bcmdhd.Xtlv
