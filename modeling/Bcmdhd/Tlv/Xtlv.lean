import Bcmdhd.Lib.Chain
import Mathlib.Data.BitVec

/-!
# XTLV walkers

Three ways through a buffer of XTLV records: `bcmNextXtlv` under `bcmValidXtlv`,
`bcmUnpackXtlvBuf` with a callback, `bcmGetDataFromXtlvBuf`.  All three are walks along
one chain, `records`.

    the buffer can be read → iterate = .ok rs ∧ unpack = callbacks on rs ∧
      getData id = first of rs with that id                    (xtlv_walkers_agree)

A remainder that is no record ends each walk without an error.
-/

namespace Bcmdhd.Xtlv

open Chain

/-! ## Options -/

/-- `bcm_xtlv_opts_t` -/
abbrev Opts := BitVec 16

def OPTION_ALIGN32 : Opts := 0x0001
def OPTION_IDU8 : Opts := 0x0002
def OPTION_LENU8 : Opts := 0x0004
def OPTION_IDBE : Opts := 0x0008
def OPTION_LENBE : Opts := 0x0010

def hasOpt (opts o : Opts) : Bool := opts &&& o != 0

def BCME_OK : Int := 0

/-! ## Algorithm -/

def xtlvHdrSize (opts : Opts) : Nat :=
  let len := 4
  let len := if hasOpt opts OPTION_LENU8 then len - 1 else len
  if hasOpt opts OPTION_IDU8 then len - 1 else len

/-- `ALIGN_SIZE(size, 4)` -/
def alignSize (size : Nat) : Nat := (size + 3) / 4 * 4

def xtlvSizeForData (dlen : Nat) (opts : Opts) : Nat :=
  let hsz := xtlvHdrSize opts
  if hasOpt opts OPTION_ALIGN32 then alignSize (dlen + hsz) else dlen + hsz

def ltoh16Ua (mem : List UInt8) (p : Nat) : Except Fault Nat := do
  let lo ← rd mem p
  let hi ← rd mem (p + 1)
  return lo.toNat + 0x100 * hi.toNat

/-- `hton16` of the two bytes at `p` -/
def hton16At (mem : List UInt8) (p : Nat) : Except Fault Nat := do
  let hi ← rd mem p
  let lo ← rd mem (p + 1)
  return lo.toNat + 0x100 * hi.toNat

def xtlvLen (mem : List UInt8) (elt : Nat) (opts : Opts) : Except Fault Nat :=
  let lenp := elt + 2
  let lenp := if hasOpt opts OPTION_IDU8 then lenp - 1 else lenp
  if hasOpt opts OPTION_LENU8 then do
    let b ← rd mem lenp
    return b.toNat
  -- `elt->len`, at its nominal place, not at `lenp`
  else if hasOpt opts OPTION_LENBE then hton16At mem (elt + 2)
  else ltoh16Ua mem lenp

def xtlvId (mem : List UInt8) (elt : Nat) (opts : Opts) : Except Fault Nat :=
  if hasOpt opts OPTION_IDU8 then do
    let b ← rd mem elt
    return b.toNat
  else if hasOpt opts OPTION_IDBE then hton16At mem elt
  else ltoh16Ua mem elt

def xtlvSize (mem : List UInt8) (elt : Nat) (opts : Opts) : Except Fault Nat := do
  let len ← xtlvLen mem elt opts
  return xtlvSizeForData len opts

/-- `elt` is `none` for NULL. -/
def validXtlv (mem : List UInt8) (elt : Option Nat) (bufLen : Int) (opts : Opts) :
    Except Fault Bool :=
  match elt with
  | none => return false
  | some p =>
    if (xtlvHdrSize opts : Int) ≤ bufLen then do
      let size ← xtlvSize mem p opts
      return decide ((size : Int) ≤ bufLen)
    else return false

/-- The next element and the length left. -/
def nextXtlv (mem : List UInt8) (elt : Option Nat) (buflen : Int) (opts : Opts) :
    Except Fault (Option Nat × Int) := do
  if ← validXtlv mem elt buflen opts then
    match elt with
    | none => return (none, buflen)
    | some p =>
      let sz ← xtlvSize mem p opts
      let elt := p + sz
      let buflen := buflen - sz
      if ← validXtlv mem (some elt) buflen opts then return (some elt, buflen)
      else return (none, buflen)
  else return (none, buflen)

/-- What `bcm_xtlv_unpack_xtlv` stores. -/
structure Rec where
  data : Nat
  type : Nat
  len : Nat
deriving DecidableEq, Repr

def unpackXtlv (mem : List UInt8) (xtlv : Nat) (opts : Opts) : Except Fault Rec := do
  let type ← xtlvId mem xtlv opts
  let len ← xtlvLen mem xtlv opts
  return { data := xtlv + xtlvHdrSize opts, type := type % 0x10000, len := len % 0x10000 }

/-- The records that repeated `bcm_next_xtlv` under `bcm_valid_xtlv` comes to. -/
def iterateLoop (mem : List UInt8) (opts : Opts) :
    Nat → Option Nat → Int → Except Fault (List Rec)
  | 0, _, _ => .error .fuel
  | k + 1, elt, buflen => do
    if ← validXtlv mem elt buflen opts then
      match elt with
      | none => return []
      | some p =>
        let r ← unpackXtlv mem p opts
        let (elt', buflen') ← nextXtlv mem elt buflen opts
        let rs ← iterateLoop mem opts k elt' buflen'
        return r :: rs
    else return []

def iterate (mem : List UInt8) (buflen : Nat) (opts : Opts) : Except Fault (List Rec) :=
  iterateLoop mem opts (buflen + 2) (some 0) buflen

section Unpack

variable {σ : Type}

/-- `cbfn ctx data type len`: the context after the call, and the result. -/
def unpackXtlvBufLoop (mem : List UInt8) (opts : Opts) (cbfn : σ → Nat → Nat → Nat → σ × Int) :
    Nat → Nat → Nat → σ × Int → Except Fault (σ × Int)
  | 0, _, _, _ => .error .fuel
  | k + 1, tlvBuf, sbuflen, (ctx, res) =>
    if xtlvHdrSize opts ≤ sbuflen then do
      let r ← unpackXtlv mem tlvBuf opts
      let size := xtlvSizeForData r.len opts
      -- buffer overrun
      if sbuflen < size then return (ctx, res)
      else
        let sbuflen := sbuflen - size
        let (ctx, res) := cbfn ctx r.data r.type r.len
        if res ≠ BCME_OK then return (ctx, res)
        else unpackXtlvBufLoop mem opts cbfn k (tlvBuf + size) sbuflen (ctx, res)
    else return (ctx, res)

def unpackXtlvBuf (mem : List UInt8) (buflen : Nat) (opts : Opts)
    (cbfn : σ → Nat → Nat → Nat → σ × Int) (ctx : σ) : Except Fault (σ × Int) :=
  unpackXtlvBufLoop mem opts cbfn (buflen + 1) 0 buflen (ctx, BCME_OK)

end Unpack

/-- The pointer returned and `*datalen`. -/
def getDataLoop (mem : List UInt8) (opts : Opts) (id : Nat) :
    Nat → Nat → Int → Except Fault (Option Nat × Nat)
  | 0, _, _ => .error .fuel
  | k + 1, tlvBuf, sbuflen =>
    if (xtlvHdrSize opts : Int) ≤ sbuflen then do
      let r ← unpackXtlv mem tlvBuf opts
      let size := xtlvSizeForData r.len opts
      let sbuflen := sbuflen - size
      if sbuflen < 0 then return (none, 0)
      else if id = r.type then return (some r.data, r.len)
      else getDataLoop mem opts id k (tlvBuf + size) sbuflen
    else return (none, 0)

def getDataFromXtlvBuf (mem : List UInt8) (buflen : Nat) (id : Nat) (opts : Opts) :
    Except Fault (Option Nat × Nat) :=
  getDataLoop mem opts id (buflen + 1) 0 buflen

/-! ## The chain of records -/

def lenAt (mem : List UInt8) (opts : Opts) (p : Nat) : Nat :=
  let lenp := if hasOpt opts OPTION_IDU8 then p + 1 else p + 2
  if hasOpt opts OPTION_LENU8 then byte mem lenp
  else if hasOpt opts OPTION_LENBE then byte mem (p + 3) + 0x100 * byte mem (p + 2)
  else byte mem lenp + 0x100 * byte mem (lenp + 1)

def idAt (mem : List UInt8) (opts : Opts) (p : Nat) : Nat :=
  if hasOpt opts OPTION_IDU8 then byte mem p
  else if hasOpt opts OPTION_IDBE then byte mem (p + 1) + 0x100 * byte mem p
  else byte mem p + 0x100 * byte mem (p + 1)

def recAt (mem : List UInt8) (opts : Opts) (p : Nat) : Rec where
  data := p + xtlvHdrSize opts
  type := idAt mem opts p
  len := lenAt mem opts p

/-- The one combination whose length field ends a byte behind its header. -/
def lenBehindHdr (opts : Opts) : Bool :=
  hasOpt opts OPTION_IDU8 && hasOpt opts OPTION_LENBE && !hasOpt opts OPTION_LENU8

theorem xtlvHdrSize_eq (opts : Opts) : xtlvHdrSize opts =
    (if hasOpt opts OPTION_IDU8 then 1 else 2) + (if hasOpt opts OPTION_LENU8 then 1 else 2) := by
  unfold xtlvHdrSize
  cases hasOpt opts OPTION_IDU8 <;> cases hasOpt opts OPTION_LENU8 <;> rfl

theorem le_alignSize (n : Nat) : n ≤ alignSize n := by
  unfold alignSize
  omega

theorem le_xtlvSizeForData (dlen : Nat) (opts : Opts) :
    xtlvHdrSize opts + dlen ≤ xtlvSizeForData dlen opts := by
  have hle := le_alignSize (dlen + xtlvHdrSize opts)
  unfold xtlvSizeForData
  dsimp only
  split <;> omega

theorem xtlvHdrSize_pos (opts : Opts) : 2 ≤ xtlvHdrSize opts := by
  rw [xtlvHdrSize_eq]
  split <;> split <;> omega

/-- The records: each fits in the bytes left. -/
def records (mem : List UInt8) (opts : Opts) : Format Rec where
  front p r :=
    let size := xtlvSizeForData (lenAt mem opts p) opts
    if xtlvHdrSize opts ≤ r ∧ size ≤ r then some (recAt mem opts p, size) else none
  pos := by
    intro p r a n h
    have hle := le_xtlvSizeForData (lenAt mem opts p) opts
    have hpos := xtlvHdrSize_pos opts
    dsimp only at h
    split at h
    · cases h
      omega
    · cases h
  le := by
    intro p r a n h
    dsimp only at h
    split at h
    · next hfits =>
      cases h
      exact hfits.2
    · cases h

section Reads

variable {mem : List UInt8} {opts : Opts} {p : Nat}

theorem ltoh16Ua_eq (h : p + 1 < mem.length) :
    ltoh16Ua mem p = .ok (byte mem p + 0x100 * byte mem (p + 1)) := by
  obtain ⟨lo, hlo, elo⟩ := rd_eq (show p < mem.length by omega)
  obtain ⟨hi, hhi, ehi⟩ := rd_eq h
  unfold ltoh16Ua
  rw [hlo, hhi, ← elo, ← ehi]
  rfl

theorem hton16At_eq (h : p + 1 < mem.length) :
    hton16At mem p = .ok (byte mem (p + 1) + 0x100 * byte mem p) := by
  obtain ⟨hi, hhi, ehi⟩ := rd_eq (show p < mem.length by omega)
  obtain ⟨lo, hlo, elo⟩ := rd_eq h
  unfold hton16At
  rw [hlo, hhi, ← elo, ← ehi]
  rfl

theorem lenAt_lt (mem : List UInt8) (opts : Opts) (p : Nat) : lenAt mem opts p < 0x10000 := by
  have hb := byte_lt mem
  unfold lenAt
  dsimp only
  split
  · have h1 := hb (if hasOpt opts OPTION_IDU8 then p + 1 else p + 2)
    omega
  · split
    · have h1 := hb (p + 3)
      have h2 := hb (p + 2)
      omega
    · have h1 := hb (if hasOpt opts OPTION_IDU8 then p + 1 else p + 2)
      have h2 := hb ((if hasOpt opts OPTION_IDU8 then p + 1 else p + 2) + 1)
      omega

theorem idAt_lt (mem : List UInt8) (opts : Opts) (p : Nat) : idAt mem opts p < 0x10000 := by
  have h0 := byte_lt mem p
  have h1 := byte_lt mem (p + 1)
  unfold idAt
  split
  · omega
  · split <;> omega

/-- The header is there to be read, and the byte behind it where the length needs it. -/
def Readable (mem : List UInt8) (opts : Opts) (e : Nat) : Prop :=
  e ≤ mem.length ∧ (lenBehindHdr opts → e < mem.length)

variable {e : Nat}

theorem xtlvLen_eq (hm : Readable mem opts e) (h : p + xtlvHdrSize opts ≤ e) :
    xtlvLen mem p opts = .ok (lenAt mem opts p) := by
  obtain ⟨hlen, hodd⟩ := hm
  rw [xtlvHdrSize_eq] at h
  unfold lenBehindHdr at hodd
  unfold xtlvLen lenAt
  by_cases hu : hasOpt opts OPTION_LENU8
  · by_cases hi : hasOpt opts OPTION_IDU8
    · simp only [hu, hi, if_true] at h ⊢
      obtain ⟨b, hb, eb⟩ := rd_eq (show p + 1 < mem.length by omega)
      show (rd mem (p + 1) >>= fun b => pure b.toNat) = _
      rw [hb, ← eb]
      rfl
    · simp only [hu, hi, if_true, Bool.false_eq_true, if_false] at h ⊢
      obtain ⟨b, hb, eb⟩ := rd_eq (show p + 2 < mem.length by omega)
      rw [hb, ← eb]
      rfl
  · by_cases hbe : hasOpt opts OPTION_LENBE
    · by_cases hi : hasOpt opts OPTION_IDU8
      · simp only [hu, hbe, hi, if_true, Bool.false_eq_true, if_false] at h hodd ⊢
        exact hton16At_eq (by simp at hodd; omega)
      · simp only [hu, hbe, hi, if_true, Bool.false_eq_true, if_false] at h ⊢
        exact hton16At_eq (by omega)
    · by_cases hi : hasOpt opts OPTION_IDU8
      · simp only [hu, hbe, hi, if_true, Bool.false_eq_true, if_false] at h ⊢
        exact ltoh16Ua_eq (by omega)
      · simp only [hu, hbe, hi, Bool.false_eq_true, if_false] at h ⊢
        exact ltoh16Ua_eq (by omega)

theorem xtlvId_eq (hm : Readable mem opts e) (h : p + xtlvHdrSize opts ≤ e) :
    xtlvId mem p opts = .ok (idAt mem opts p) := by
  have hlen := hm.1
  have hpos := xtlvHdrSize_pos opts
  unfold xtlvId idAt
  split
  · obtain ⟨b, hb, eb⟩ := rd_eq (show p < mem.length by omega)
    rw [hb, ← eb]
    rfl
  · split
    · exact hton16At_eq (by omega)
    · exact ltoh16Ua_eq (by omega)

theorem unpackXtlv_eq (hm : Readable mem opts e) (h : p + xtlvHdrSize opts ≤ e) :
    unpackXtlv mem p opts = .ok (recAt mem opts p) := by
  unfold unpackXtlv recAt
  rw [xtlvId_eq hm h, xtlvLen_eq hm h]
  show Except.ok _ = _
  rw [Nat.mod_eq_of_lt (idAt_lt mem opts p), Nat.mod_eq_of_lt (lenAt_lt mem opts p)]

theorem xtlvSize_eq (hm : Readable mem opts e) (h : p + xtlvHdrSize opts ≤ e) :
    xtlvSize mem p opts = .ok (xtlvSizeForData (lenAt mem opts p) opts) := by
  unfold xtlvSize
  rw [xtlvLen_eq hm h]
  rfl

theorem validXtlv_eq (hm : Readable mem opts e) {r : Nat} (he : p + r = e) :
    validXtlv mem (some p) r opts = .ok ((records mem opts).front p r).isSome := by
  unfold validXtlv
  simp only [Int.ofNat_le]
  by_cases hh : xtlvHdrSize opts ≤ r
  · rw [if_pos hh, xtlvSize_eq hm (by omega)]
    show Except.ok (decide _) = _
    unfold records
    by_cases hs : xtlvSizeForData (lenAt mem opts p) opts ≤ r
    · simp [hh, hs]
    · simp [hs]
  · rw [if_neg hh]
    unfold records
    simp [hh]
    rfl

/-! ## The walkers -/

theorem front_eq_some {r n : Nat} {a : Rec} (h : (records mem opts).front p r = some (a, n)) :
    xtlvHdrSize opts ≤ r ∧ n ≤ r ∧ a = recAt mem opts p ∧
      n = xtlvSizeForData (lenAt mem opts p) opts := by
  unfold records at h
  simp only [Option.ite_none_right_eq_some, Option.some.injEq, Prod.mk.injEq] at h
  obtain ⟨⟨h1, h2⟩, rfl, rfl⟩ := h
  exact ⟨h1, h2, rfl, rfl⟩

theorem front_eq_none {r : Nat} (h : (records mem opts).front p r = none) :
    r < xtlvHdrSize opts ∨ r < xtlvSizeForData (lenAt mem opts p) opts := by
  unfold records at h
  simp only [ite_eq_right_iff, reduceCtorEq, imp_false] at h
  omega

theorem nextXtlv_eq (hm : Readable mem opts e) {r n : Nat} {a : Rec} (he : p + r = e)
    (hf : (records mem opts).front p r = some (a, n)) :
    nextXtlv mem (some p) r opts =
      .ok (if ((records mem opts).front (p + n) (r - n)).isSome then some (p + n) else none,
        ((r - n : Nat) : Int)) := by
  obtain ⟨h1, h2, -, h4⟩ := front_eq_some hf
  have hv := validXtlv_eq hm he
  have hv' := validXtlv_eq (p := p + n) hm (r := r - n) (by omega)
  rw [hf] at hv
  unfold nextXtlv
  rw [hv]
  show (do
    let sz ← xtlvSize mem p opts
    if ← validXtlv mem (some (p + sz)) (r - sz) opts then pure (some (p + sz), (r - sz : Int))
      else pure (none, (r - sz : Int))) = _
  rw [xtlvSize_eq hm (by omega), ← h4]
  show (do
    if ← validXtlv mem (some (p + n)) ((r : Int) - n) opts then
      pure (some (p + n), ((r : Int) - n))
      else pure (none, ((r : Int) - n))) = _
  rw [show (r : Int) - n = ((r - n : Nat) : Int) by omega, hv']
  cases ((records mem opts).front (p + n) (r - n)).isSome <;> rfl

theorem iterateLoop_eq (hm : Readable mem opts e) {k r : Nat} (hk : r + 1 < k)
    (he : p + r = e) :
    iterateLoop mem opts k (some p) r = .ok ((records mem opts).elements p r) := by
  induction k generalizing p r with
  | zero => omega
  | succ k ih =>
    unfold iterateLoop
    rw [validXtlv_eq hm he]
    cases hf : (records mem opts).front p r with
    | none =>
      rw [Format.elements_of_none hf]
      rfl
    | some x =>
      obtain ⟨a, n⟩ := x
      obtain ⟨h1, h2, h3, -⟩ := front_eq_some hf
      have hn := (records mem opts).pos hf
      rw [Format.elements_of_some hf]
      show (do
        let r' ← unpackXtlv mem p opts
        let (elt', buflen') ← nextXtlv mem (some p) r opts
        let rs ← iterateLoop mem opts k elt' buflen'
        pure (r' :: rs)) = _
      rw [unpackXtlv_eq hm (by omega), nextXtlv_eq hm he hf, ← h3]
      show (do
        let rs ← iterateLoop mem opts k _ _
        pure (a :: rs)) = _
      -- a next element that is not valid is NULL, where the walk ends too
      cases hs : ((records mem opts).front (p + n) (r - n)).isSome with
      | true =>
        rw [if_pos rfl, ih (by omega) (by omega)]
        rfl
      | false =>
        rw [Option.isSome_eq_false_iff, Option.isNone_iff_eq_none] at hs
        rw [Format.elements_of_none hs, if_neg Bool.false_ne_true]
        cases k with
        | zero => omega
        | succ k => rfl

end Reads

/-- What calling `cbfn` on the records comes to: it ends at the first result not `BCME_OK`. -/
def callbacks {σ : Type} (cbfn : σ → Nat → Nat → Nat → σ × Int) : σ → List Rec → σ × Int
  | ctx, [] => (ctx, BCME_OK)
  | ctx, r :: rs =>
    let (ctx, res) := cbfn ctx r.data r.type r.len
    if res ≠ BCME_OK then (ctx, res) else callbacks cbfn ctx rs

/-- Data and length of the first record of type `id`; NULL and 0 if there is none. -/
def firstOf (id : Nat) (rs : List Rec) : Option Nat × Nat :=
  match rs.find? fun r => r.type = id with
  | some r => (some r.data, r.len)
  | none => (none, 0)

section Walkers

variable {mem : List UInt8} {opts : Opts} {buflen : Nat}

/-- One round of `bcm_unpack_xtlv_buf`. -/
def unpackStep {σ : Type} (cbfn : σ → Nat → Nat → Nat → σ × Int) (s : σ × Int) (a : Rec) :
    Except (σ × Int) (σ × Int) :=
  let s' := cbfn s.1 a.data a.type a.len
  if s'.2 ≠ BCME_OK then .error s' else .ok s'

theorem foldlM_unpackStep {σ : Type} (cbfn : σ → Nat → Nat → Nat → σ × Int) (ctx : σ)
    (rs : List Rec) :
    Format.outcome id (rs.foldlM (unpackStep cbfn) (ctx, BCME_OK)) = callbacks cbfn ctx rs := by
  induction rs generalizing ctx with
  | nil => rfl
  | cons r rs ih =>
    rw [List.foldlM_cons]
    unfold callbacks unpackStep
    generalize cbfn ctx r.data r.type r.len = s'
    obtain ⟨ctx', res⟩ := s'
    by_cases hres : res = BCME_OK
    · simp only [hres, ne_eq, not_true_eq_false, if_false]
      exact ih ctx'
    · simp only [hres, ne_eq, not_false_eq_true, if_true]
      rfl

theorem unpackXtlvBuf_eq (hm : Readable mem opts buflen) {σ : Type}
    (cbfn : σ → Nat → Nat → Nat → σ × Int) (ctx : σ) :
    unpackXtlvBuf mem buflen opts cbfn ctx =
      .ok (callbacks cbfn ctx ((records mem opts).elements 0 buflen)) := by
  rw [← foldlM_unpackStep]
  refine (records mem opts).walk (unpackXtlvBufLoop mem opts cbfn) (unpackStep cbfn) id buflen
    ?_ ?_ (ctx, BCME_OK) (Nat.lt_succ_self buflen) (Nat.zero_add buflen)
  · intro k p r s he hf
    unfold unpackXtlvBufLoop
    by_cases hh : xtlvHdrSize opts ≤ r
    · have hs := front_eq_none hf
      rw [if_pos hh, unpackXtlv_eq hm (by omega)]
      show (if r < xtlvSizeForData (lenAt mem opts p) opts then Except.ok s else _) = _
      rw [if_pos (by omega)]
      rfl
    · rw [if_neg hh]
      rfl
  · intro k p r s a n he hf
    obtain ⟨h1, h2, rfl, rfl⟩ := front_eq_some hf
    unfold unpackStep
    rw [unpackXtlvBufLoop, if_pos h1, unpackXtlv_eq hm (by omega)]
    show (if r < xtlvSizeForData (lenAt mem opts p) opts then _ else _) = _
    rw [if_neg (by omega)]
    generalize cbfn s.1 (recAt mem opts p).data (recAt mem opts p).type
      (recAt mem opts p).len = s'
    obtain ⟨ctx', res⟩ := s'
    by_cases hres : res = BCME_OK
    · simp only [hres, ne_eq, not_true_eq_false, if_false]
      rfl
    · simp only [hres, ne_eq, not_false_eq_true, if_true]
      rfl

/-- One round of `bcm_get_data_from_xtlv_buf`. -/
def getDataStep (id : Nat) (_ : Unit) (a : Rec) : Except (Option Nat × Nat) Unit :=
  if id = a.type then .error (some a.data, a.len) else .ok ()

theorem foldlM_getDataStep (id : Nat) (rs : List Rec) :
    Format.outcome (fun _ => (none, 0)) (rs.foldlM (getDataStep id) ()) = firstOf id rs := by
  induction rs with
  | nil => rfl
  | cons r rs ih =>
    rw [List.foldlM_cons]
    unfold firstOf getDataStep
    by_cases hid : id = r.type
    · rw [List.find?_cons_of_pos (by simp [hid]), if_pos hid]
      rfl
    · rw [List.find?_cons_of_neg (by simpa using fun h => hid h.symm), if_neg hid]
      exact ih

theorem getDataFromXtlvBuf_eq (hm : Readable mem opts buflen) (id : Nat) :
    getDataFromXtlvBuf mem buflen id opts =
      .ok (firstOf id ((records mem opts).elements 0 buflen)) := by
  rw [← foldlM_getDataStep]
  refine (records mem opts).walk (fun k p r _ => getDataLoop mem opts id k p r) (getDataStep id)
    (fun _ => (none, 0)) buflen ?_ ?_ () (Nat.lt_succ_self buflen) (Nat.zero_add buflen)
  · intro k p r _ he hf
    unfold getDataLoop
    by_cases hh : xtlvHdrSize opts ≤ r
    · have hs := front_eq_none hf
      rw [if_pos (by omega), unpackXtlv_eq hm (by omega)]
      show (if (r : Int) - xtlvSizeForData (lenAt mem opts p) opts < 0 then _ else _) = _
      rw [if_pos (by omega)]
      rfl
    · rw [if_neg (by omega)]
      rfl
  · intro k p r _ a n he hf
    obtain ⟨h1, h2, rfl, rfl⟩ := front_eq_some hf
    unfold getDataStep
    rw [getDataLoop, if_pos (by omega), unpackXtlv_eq hm (by omega)]
    show (if (r : Int) - xtlvSizeForData (lenAt mem opts p) opts < 0 then _ else
      if id = (recAt mem opts p).type then _ else _) = _
    rw [if_neg (by omega)]
    split
    · rfl
    · show getDataLoop mem opts id k _ ((r : Int) - xtlvSizeForData (lenAt mem opts p) opts) = _
      rw [Int.ofNat_sub h2]
      rfl

/-- **One record sequence.**  Where the buffer's bytes can be read (and one byte behind it, for
the options whose length field ends behind the header), every walk ends, reads nothing else, and
follows the records that the iterator gives: `bcm_unpack_xtlv_buf` calls back on them in order, up
to a result that is not `BCME_OK`, and returns `BCME_OK` otherwise, whatever is left behind them;
`bcm_get_data_from_xtlv_buf` returns the first of them with that id. -/
theorem xtlv_walkers_agree (mem : List UInt8) (buflen : Nat) (opts : Opts)
    (hm : buflen ≤ mem.length) (hodd : lenBehindHdr opts → buflen < mem.length) :
    ∃ rs, iterate mem buflen opts = .ok rs ∧
      (∀ (σ : Type) (cbfn : σ → Nat → Nat → Nat → σ × Int) (ctx : σ),
        unpackXtlvBuf mem buflen opts cbfn ctx = .ok (callbacks cbfn ctx rs)) ∧
      ∀ id, getDataFromXtlvBuf mem buflen id opts = .ok (firstOf id rs) :=
  ⟨(records mem opts).elements 0 buflen,
    iterateLoop_eq ⟨hm, hodd⟩ (Nat.lt_succ_self _) (Nat.zero_add buflen),
    fun _ cbfn ctx => unpackXtlvBuf_eq ⟨hm, hodd⟩ cbfn ctx,
    fun id => getDataFromXtlvBuf_eq ⟨hm, hodd⟩ id⟩

/-- Two records and a remainder that is none, with the length big-endian. -/
theorem xtlv_walkers_agree_two : ∃ rs,
    iterate [1, 0, 0, 1, 9, 2, 0, 0, 0, 7] 10 OPTION_LENBE = .ok rs ∧
      (∀ (σ : Type) (cbfn : σ → Nat → Nat → Nat → σ × Int) (ctx : σ),
        unpackXtlvBuf [1, 0, 0, 1, 9, 2, 0, 0, 0, 7] 10 OPTION_LENBE cbfn ctx =
          .ok (callbacks cbfn ctx rs)) ∧
      ∀ id, getDataFromXtlvBuf [1, 0, 0, 1, 9, 2, 0, 0, 0, 7] 10 id OPTION_LENBE =
        .ok (firstOf id rs) :=
  xtlv_walkers_agree _ _ _ (by decide) (by decide)

/-- A remainder of four bytes whose record does not fit: no walk reports it. -/
theorem xtlv_walkers_agree_fails :
    iterate [1, 0, 9, 0] 4 0 = .ok [] ∧
      unpackXtlvBuf [1, 0, 9, 0] 4 0 (fun _ _ _ _ => ((), BCME_OK)) () = .ok ((), BCME_OK) := by
  constructor
  · rfl
  · rfl

end Walkers

end Bcmdhd.Xtlv
