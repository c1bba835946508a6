import Bcmdhd.Tlv.XtlvPack

/-!
# XTLV records from and to memory

An array of descriptors says where the field of each type lies.  `bcm_pack_xtlv_buf_from_mem` packs
the fields; `bcm_unpack_xtlv_buf_to_mem` copies every record to the field of its type, and ignores a
record of another type.

    packed = BCME_OK, some field was packed → unpacked = BCME_OK ∧ the fields are as they were
    unpacked = BCME_OK ↔ the records fill the buffer, each as long as its field
                                                                (xtlv_mem_round_trip)

The fields and the buffer are separate memories.
-/

namespace Bcmdhd.Xtlv

open Chain Records

def BCME_BADARG : Int := -2
def BCME_BUFTOOSHORT : Int := -14

/-! ## Algorithm -/

/-- `xtlv_desc_t`, with NULL as 0; an array ends where the type is 0. -/
structure Desc where
  type : Nat
  len : Nat
  ptr : Nat
  type_pos : 0 < type

def packXtlvBufFromMem (fields mem : Mem) (c : Cursor) (opts : Opts) :
    List Desc → Mem × Cursor × Int
  | [] => (mem, c, BCME_OK)
  | d :: items =>
    if d.len ≠ 0 ∧ d.ptr ≠ 0 then
      let (mem, c, res) :=
        packXtlvEntry mem c d.type d.len (some (readAt fields d.ptr d.len)) opts
      if res ≠ BCME_OK then (mem, c, res) else packXtlvBufFromMem fields mem c opts items
    else packXtlvBufFromMem fields mem c opts items

/-- A record is copied to the field of the first descriptor with its type. -/
def unpackToDesc (bytes : List UInt8) (fields : Mem) (r : Rec) :
    List Desc → Except Fault (Mem × Int)
  | [] => return (fields, BCME_OK)
  | d :: items =>
    if r.type = d.type then
      if r.len ≠ d.len then return (fields, BCME_BADLEN)
      else do
        let data ← rdN bytes r.data r.len
        return (writeAt fields d.ptr data, BCME_OK)
    else unpackToDesc bytes fields r items

/-- `elt` is `none` for NULL.  The fields, `*buflen` and the result. -/
def unpackToMemLoop (bytes : List UInt8) (opts : Opts) (items : List Desc) :
    Nat → Option Nat → Int → Mem → Int → Except Fault (Mem × Int × Int)
  | 0, _, _, _, _ => .error .fuel
  | k + 1, elt, buflen, fields, res =>
    match elt with
    | none => return (fields, buflen, res)
    | some p =>
      if res = BCME_OK then do
        let r ← unpackXtlv bytes p opts
        let (fields, res) ← unpackToDesc bytes fields r items
        let (elt, buflen) ← nextXtlv bytes (some p) buflen opts
        unpackToMemLoop bytes opts items k elt buflen fields res
      else return (fields, buflen, res)

def unpackXtlvBufToMem (bytes : List UInt8) (buflen : Nat) (items : List Desc) (opts : Opts)
    (fields : Mem) : Except Fault (Mem × Int × Int) := do
  if ← validXtlv bytes (some 0) buflen opts then
    let (fields, left, res) ←
      unpackToMemLoop bytes opts items (buflen + 2) (some 0) buflen fields BCME_OK
    if res = BCME_OK ∧ left ≠ 0 then return (fields, left, BCME_BUFTOOSHORT)
    else return (fields, left, res)
  else return (fields, buflen, BCME_BADARG)

/-! ## What is packed, and what is unpacked -/

/-- A field that there is. -/
def packed (d : Desc) : Bool := decide (d.len ≠ 0 ∧ d.ptr ≠ 0)

def itemOf (fields : Mem) (d : Desc) : Item := (d.type, readAt fields d.ptr d.len)

/-- The descriptor whose field lies where `dst` says. -/
def Desc.retarget (dst : Nat → Nat) (d : Desc) : Desc := { d with ptr := dst d.type }

def descOf (items : List Desc) (type : Nat) : Option Desc :=
  items.find? fun d => decide (type = d.type)

def recsSize (opts : Opts) : List Rec → Nat
  | [] => 0
  | r :: rs => xtlvSizeForData r.len opts + recsSize opts rs

/-- Each record whose type a descriptor has is as long as that field. -/
def Lengths (items : List Desc) (rs : List Rec) : Prop :=
  ∀ r ∈ rs, ∀ d, descOf items r.type = some d → r.len = d.len

/-- Whole records fill the buffer, at least one, and their lengths are right. -/
structure Whole (bytes : List UInt8) (buflen : Nat) (items : List Desc) (opts : Opts) : Prop where
  nonempty : (records bytes opts).elements 0 buflen ≠ []
  fill : recsSize opts ((records bytes opts).elements 0 buflen) = buflen
  lengths : Lengths items ((records bytes opts).elements 0 buflen)

/-- No byte outside of the descriptors' fields is written. -/
def Framed (items : List Desc) (fields out : Mem) : Prop :=
  ∀ i, (∀ d ∈ items, i < d.ptr ∨ d.ptr + d.len ≤ i) → out i = fields i

/-- What is copied for these records. -/
def copiesFor (bytes : List UInt8) (items : List Desc) (rs : List Rec) : List (Nat × List UInt8) :=
  rs.filterMap fun r =>
    (descOf items r.type).map fun d => (d.ptr, (bytes.drop r.data).take r.len)

/-- What the loop does with the records `rs` in the `r` bytes that are left. -/
structure Unpacked (bytes : List UInt8) (opts : Opts) (items : List Desc) (fields : Mem)
    (rs : List Rec) (r : Nat) (out : Mem) (left res : Int) : Prop where
  framed : Framed items fields out
  result : (Lengths items rs ∧ res = BCME_OK ∧ left = r - recsSize opts rs ∧
      out = writeEach fields (copiesFor bytes items rs)) ∨
    (¬ Lengths items rs ∧ res = BCME_BADLEN)

variable {a : Rec} {rs : List Rec}

section
variable {bytes : List UInt8} {opts : Opts} {items : List Desc} {fields : Mem} {e p r : Nat}

theorem descOf_mem {type : Nat} {d : Desc} (h : descOf items type = some d) : d ∈ items :=
  List.mem_of_find?_eq_some h

theorem Lengths.cons :
    Lengths items (a :: rs) ↔
      (∀ d, descOf items a.type = some d → a.len = d.len) ∧ Lengths items rs :=
  List.forall_mem_cons

/-- One record: its type is unknown, or its length is wrong, or it is copied. -/
theorem unpackToDesc_cases (a : Rec) (h : a.data + a.len ≤ bytes.length) :
    (descOf items a.type = none ∧ unpackToDesc bytes fields a items = .ok (fields, BCME_OK)) ∨
    ∃ d, descOf items a.type = some d ∧
      ((a.len ≠ d.len ∧ unpackToDesc bytes fields a items = .ok (fields, BCME_BADLEN)) ∨
        (a.len = d.len ∧ unpackToDesc bytes fields a items =
          .ok (writeAt fields d.ptr ((bytes.drop a.data).take a.len), BCME_OK))) := by
  induction items with
  | nil => exact .inl ⟨rfl, rfl⟩
  | cons d items ih =>
    unfold descOf at ih ⊢
    unfold unpackToDesc
    by_cases htype : a.type = d.type
    · right
      refine ⟨d, List.find?_cons_of_pos (decide_eq_true htype), ?_⟩
      rw [if_pos htype]
      by_cases hlen : a.len = d.len
      · right
        rw [if_neg (not_not_intro hlen), rdN_of_le h]
        exact ⟨hlen, rfl⟩
      · left
        rw [if_pos hlen]
        exact ⟨hlen, rfl⟩
    · rw [if_neg htype, List.find?_cons_of_neg (by simpa using htype)]
      exact ih

/-- After a record of the wrong length the loop ends. -/
theorem unpackToMemLoop_bad {k : Nat} (elt : Option Nat) (buflen : Int) :
    unpackToMemLoop bytes opts items (k + 1) elt buflen fields BCME_BADLEN =
      .ok (fields, buflen, BCME_BADLEN) := by
  unfold unpackToMemLoop
  cases elt with
  | none => rfl
  | some p => rfl

theorem Framed.write {out : Mem} {d : Desc} {bs : List UInt8} (hd : d ∈ items)
    (hlen : bs.length ≤ d.len) (h : Framed items (writeAt fields d.ptr bs) out) :
    Framed items fields out := by
  intro i hi
  rw [h i hi, writeAt_of_off]
  have hoff := hi d hd
  omega

theorem Unpacked.skip {out : Mem} {left res : Int} (hnone : descOf items a.type = none)
    (hn : xtlvSizeForData a.len opts ≤ r)
    (h : Unpacked bytes opts items fields rs (r - xtlvSizeForData a.len opts) out left res) :
    Unpacked bytes opts items fields (a :: rs) r out left res := by
  refine ⟨h.framed, ?_⟩
  have hiff : Lengths items (a :: rs) ↔ Lengths items rs := by
    rw [Lengths.cons, hnone]
    exact and_iff_right nofun
  rcases h.result with ⟨hl, hres, hleft, hout⟩ | ⟨hl, hres⟩
  · refine .inl ⟨hiff.mpr hl, hres, ?_, ?_⟩
    · rw [hleft, recsSize]
      omega
    · rw [hout]
      unfold copiesFor
      rw [List.filterMap_cons, hnone]
      rfl
  · exact .inr ⟨fun hl' => hl (hiff.mp hl'), hres⟩

theorem Unpacked.copy {d : Desc} {out : Mem} {left res : Int} (hd : descOf items a.type = some d)
    (hlen : a.len = d.len) (hn : xtlvSizeForData a.len opts ≤ r)
    (h : Unpacked bytes opts items (writeAt fields d.ptr ((bytes.drop a.data).take a.len)) rs
      (r - xtlvSizeForData a.len opts) out left res) :
    Unpacked bytes opts items fields (a :: rs) r out left res := by
  have hle : ((bytes.drop a.data).take a.len).length ≤ d.len := by
    rw [List.length_take, hlen]
    exact Nat.min_le_left _ _
  refine ⟨h.framed.write (descOf_mem hd) hle, ?_⟩
  have hiff : Lengths items (a :: rs) ↔ Lengths items rs := by
    rw [Lengths.cons, hd]
    refine and_iff_right ?_
    rintro d' hd'
    rw [hlen, Option.some.inj hd']
  rcases h.result with ⟨hl, hres, hleft, hout⟩ | ⟨hl, hres⟩
  · refine .inl ⟨hiff.mpr hl, hres, ?_, ?_⟩
    · rw [hleft, recsSize]
      omega
    · rw [hout]
      unfold copiesFor
      rw [List.filterMap_cons, hd]
      rfl
  · exact .inr ⟨fun hl' => hl (hiff.mp hl'), hres⟩

theorem unpackToMemLoop_some {k : Nat} (buflen : Int) :
    unpackToMemLoop bytes opts items (k + 1) (some p) buflen fields BCME_OK =
      unpackXtlv bytes p opts >>= fun r => unpackToDesc bytes fields r items >>= fun t =>
        nextXtlv bytes (some p) buflen opts >>= fun u =>
          unpackToMemLoop bytes opts items k u.1 u.2 t.1 t.2 := rfl

/-- One round, where the record can be read. -/
theorem unpackToMemLoop_round {k : Nat} {buflen buflen' : Int} {elt : Option Nat} {fields' : Mem}
    {res : Int} (ha : unpackXtlv bytes p opts = .ok a)
    (hu : unpackToDesc bytes fields a items = .ok (fields', res))
    (hnext : nextXtlv bytes (some p) buflen opts = .ok (elt, buflen')) :
    unpackToMemLoop bytes opts items (k + 1) (some p) buflen fields BCME_OK =
      unpackToMemLoop bytes opts items k elt buflen' fields' res := by
  rw [unpackToMemLoop_some, ha]
  show (unpackToDesc bytes fields a items >>= _) = _
  rw [hu]
  show (nextXtlv bytes (some p) buflen opts >>= _) = _
  rw [hnext]
  rfl

theorem unpackToMemLoop_spec (hm : Readable bytes opts e) {k : Nat} (hk : r + 1 < k)
    (he : p + r = e) :
    ∃ out left res, unpackToMemLoop bytes opts items k
        (if ((records bytes opts).front p r).isSome then some p else none) r fields BCME_OK =
          .ok (out, left, res) ∧
      Unpacked bytes opts items fields ((records bytes opts).elements p r) r out left res := by
  induction k generalizing p r fields with
  | zero => omega
  | succ k ih =>
    cases hf : (records bytes opts).front p r with
    | none =>
      rw [Format.elements_of_none hf]
      exact ⟨fields, r, BCME_OK, rfl, fun i _ => rfl, .inl ⟨nofun, rfl, (Int.sub_zero _).symm, rfl⟩⟩
    | some x =>
      obtain ⟨a, n⟩ := x
      obtain ⟨h1, h2, h3, h4⟩ := front_eq_some hf
      have hn := (records bytes opts).pos hf
      have hsize := le_xtlvSizeForData (lenAt bytes opts p) opts
      have hdata : a.data + a.len ≤ bytes.length := by
        have hle := hm.1
        rw [h3]
        show p + xtlvHdrSize opts + lenAt bytes opts p ≤ bytes.length
        omega
      have hrec : n = xtlvSizeForData a.len opts := by
        rw [h3, h4]
        rfl
      have ha : unpackXtlv bytes p opts = .ok a := by
        rw [h3]
        exact unpackXtlv_eq hm (by omega)
      have hnext := nextXtlv_eq hm he hf
      rw [Format.elements_of_some hf]
      rcases @unpackToDesc_cases bytes items fields a hdata with
        ⟨hnone, hu⟩ | ⟨d, hd, ⟨hne, hu⟩ | ⟨hlen, hu⟩⟩
      · obtain ⟨out, left, res, hloop, hun⟩ := @ih fields (p + n) (r - n) (by omega) (by omega)
        exact ⟨out, left, res, (unpackToMemLoop_round ha hu hnext).trans hloop,
          .skip hnone (by omega) (hrec ▸ hun)⟩
      · cases k with
        | zero => omega
        | succ k =>
          refine ⟨fields, ((r - n : Nat) : Int), BCME_BADLEN, ?_, fun i _ => rfl, .inr ⟨?_, rfl⟩⟩
          · exact (unpackToMemLoop_round ha hu hnext).trans (unpackToMemLoop_bad _ _)
          · intro hl
            exact hne ((Lengths.cons.mp hl).1 d hd)
      · obtain ⟨out, left, res, hloop, hun⟩ :=
          @ih (writeAt fields d.ptr ((bytes.drop a.data).take a.len)) (p + n) (r - n) (by omega)
            (by omega)
        exact ⟨out, left, res, (unpackToMemLoop_round ha hu hnext).trans hloop,
          .copy hd hlen (by omega) (hrec ▸ hun)⟩

/-- The records that fill the buffer are copied, and nothing else is written. -/
theorem unpackXtlvBufToMem_spec {buflen : Nat} (hm : Readable bytes opts buflen) :
    ∃ out left res, unpackXtlvBufToMem bytes buflen items opts fields = .ok (out, left, res) ∧
      Framed items fields out ∧ (res = BCME_OK ↔ Whole bytes buflen items opts) ∧
      (res = BCME_OK → left = 0 ∧
        out =
          writeEach fields (copiesFor bytes items ((records bytes opts).elements 0 buflen))) := by
  have hvalid := validXtlv_eq hm (Nat.zero_add buflen)
  unfold unpackXtlvBufToMem
  rw [hvalid]
  cases hf : (records bytes opts).front 0 buflen with
  | none =>
    refine ⟨fields, buflen, BCME_BADARG, rfl, fun i _ => rfl, ⟨nofun, fun h => ?_⟩, nofun⟩
    exact absurd (Format.elements_of_none hf) h.nonempty
  | some x =>
    obtain ⟨out, left, res, hloop, hframed, hres⟩ :=
      @unpackToMemLoop_spec bytes opts items fields buflen 0 buflen hm (buflen + 2)
        (Nat.lt_succ_self _) (Nat.zero_add buflen)
    rw [hf] at hloop
    have hbind : (do
        let t ← unpackToMemLoop bytes opts items (buflen + 2) (some 0) buflen fields BCME_OK
        if t.2.2 = BCME_OK ∧ t.2.1 ≠ 0 then
          return (t.1, t.2.1, BCME_BUFTOOSHORT)
        else return t) = (if res = BCME_OK ∧ left ≠ 0 then
          .ok (out, left, BCME_BUFTOOSHORT) else .ok (out, left, res) : Except Fault _) := by
      rw [show unpackToMemLoop bytes opts items (buflen + 2) (some 0) buflen fields BCME_OK =
        .ok (out, left, res) from hloop]
      rfl
    have hne : (records bytes opts).elements 0 buflen ≠ [] := by
      obtain ⟨a, n⟩ := x
      rw [Format.elements_of_some hf]
      exact List.cons_ne_nil _ _
    rcases hres with ⟨hlengths, hres, hleft, hout⟩ | ⟨hlengths, hres⟩
    · by_cases hfill : recsSize opts ((records bytes opts).elements 0 buflen) = buflen
      · refine ⟨out, left, res, hbind.trans (if_neg ?_), hframed,
          ⟨fun _ => ⟨hne, hfill, hlengths⟩, fun _ => hres⟩, fun _ => ⟨by omega, hout⟩⟩
        rintro ⟨-, hleft'⟩
        omega
      · refine ⟨out, left, BCME_BUFTOOSHORT, hbind.trans (if_pos ⟨hres, by omega⟩), hframed,
          ⟨nofun, fun h => absurd h.fill hfill⟩, nofun⟩
    · rw [hres] at hbind
      refine ⟨out, left, BCME_BADLEN, hbind.trans (if_neg ?_), hframed,
        ⟨nofun, fun h => absurd h.lengths hlengths⟩, nofun⟩
      rintro ⟨hbad, -⟩
      cases hbad

end

/-! ## What was packed -/

/-- The fields that there are, as items. -/
def itemsOf (fields : Mem) (items : List Desc) : List Item :=
  (items.filter packed).map (itemOf fields)

section
variable {opts : Opts} {items : List Desc} {fields : Mem}

theorem packed_iff (d : Desc) : packed d = true ↔ d.len ≠ 0 ∧ d.ptr ≠ 0 := decide_eq_true_iff

/-- A pack that returns `BCME_OK` has packed every field that there is. -/
theorem packXtlvBufFromMem_ok {mem mem' : Mem} {c c' : Cursor}
    (h : packXtlvBufFromMem fields mem c opts items = (mem', c', BCME_OK)) :
    mem' = writeAll opts mem c.tlvBuf (itemsOf fields items) ∧
      c'.tlvBuf = c.tlvBuf + totalSize opts (itemsOf fields items) := by
  induction items generalizing mem c with
  | nil =>
    obtain ⟨rfl, hrest⟩ := Prod.ext_iff.mp h
    obtain ⟨rfl, -⟩ := Prod.ext_iff.mp hrest
    exact ⟨rfl, rfl⟩
  | cons d items ih =>
    unfold packXtlvBufFromMem at h
    unfold itemsOf at ih ⊢
    by_cases hd : d.len ≠ 0 ∧ d.ptr ≠ 0
    · rw [if_pos hd] at h
      unfold packXtlvEntry at h
      dsimp only at h
      have hlen : (itemOf fields d).2.length = d.len := readAt_length _ _ _
      rw [List.filter_cons_of_pos ((packed_iff d).mpr hd), List.map_cons, writeAll, totalSize, hlen]
      by_cases hroom : xtlvSizeForData d.len opts > c.buflen
      · rw [if_pos hroom, if_pos (show BCME_BADLEN ≠ BCME_OK by decide)] at h
        cases (Prod.ext_iff.mp (Prod.ext_iff.mp h).2).2
      · rw [if_neg hroom, if_neg (not_not_intro rfl)] at h
        obtain ⟨hmem, hbuf⟩ := ih h
        exact ⟨hmem, hbuf.trans (Nat.add_assoc _ _ _)⟩
    · rw [if_neg hd] at h
      rw [List.filter_cons_of_neg fun hp => hd ((packed_iff d).mp hp)]
      exact ih h

/-- The types are distinct, so every descriptor is found. -/
theorem descOf_retarget (hnd : (items.map Desc.type).Nodup) (dst : Nat → Nat) {d : Desc}
    (hd : d ∈ items) :
    descOf (items.map (Desc.retarget dst)) d.type = some (d.retarget dst) := by
  unfold descOf
  induction items with
  | nil => cases hd
  | cons d' items ih =>
    rw [List.map_cons, List.nodup_cons] at hnd
    rw [List.map_cons]
    rcases List.mem_cons.mp hd with rfl | hd
    · exact List.find?_cons_of_pos (decide_eq_true rfl)
    · have hne : d.type ≠ d'.type := by
        intro heq
        exact hnd.1 (heq ▸ List.mem_map_of_mem hd)
      have hneg : ¬ decide (d.type = (d'.retarget dst).type) = true :=
        fun h => hne (of_decide_eq_true h)
      rw [List.find?_cons_of_neg (p := fun e : Desc => decide (d.type = e.type)) hneg]
      exact ih hnd.2 hd

theorem recsSize_recsFrom (p : Nat) (xs : List Item) :
    recsSize opts (recsFrom opts p xs) = totalSize opts xs := by
  induction xs generalizing p with
  | nil => rfl
  | cons x xs ih =>
    rw [recsFrom, recsSize, totalSize, ih]

/-- What is copied depends on the types, the lengths and the data of the records only. -/
theorem copiesFor_eq {bytes : List UInt8} {items' : List Desc} {xs : List Item}
    (h : rs.map (fun r => (r.type, r.len, (bytes.drop r.data).take r.len)) =
      xs.map fun x => (x.1, x.2.length, x.2)) :
    copiesFor bytes items' rs =
      xs.filterMap fun x => (descOf items' x.1).map fun d => (d.ptr, x.2) := by
  have hl : copiesFor bytes items' rs =
      (rs.map fun r => (r.type, r.len, (bytes.drop r.data).take r.len)).filterMap
        fun t => (descOf items' t.1).map fun d => (d.ptr, t.2.2) := by
    rw [List.filterMap_map]
    rfl
  rw [hl, h, List.filterMap_map]
  rfl

theorem mem_recsFrom {p : Nat} {xs : List Item} {r : Rec} (h : r ∈ recsFrom opts p xs) :
    ∃ x ∈ xs, r.type = x.1 ∧ r.len = x.2.length := by
  induction xs generalizing p with
  | nil => cases h
  | cons x xs ih =>
    rw [recsFrom] at h
    rcases List.mem_cons.mp h with rfl | h
    · exact ⟨x, List.mem_cons_self, rfl, rfl⟩
    · obtain ⟨y, hy, heq⟩ := ih h
      exact ⟨y, List.mem_cons_of_mem x hy, heq⟩

theorem lengths_recsFrom (hnd : (items.map Desc.type).Nodup) (dst : Nat → Nat) (p : Nat) :
    Lengths (items.map (Desc.retarget dst)) (recsFrom opts p (itemsOf fields items)) := by
  intro r hr d' hd'
  obtain ⟨x, hx, htype, hlen⟩ := mem_recsFrom hr
  obtain ⟨d, hd, rfl⟩ := List.mem_map.mp hx
  have hfound := descOf_retarget hnd dst (List.mem_of_mem_filter hd)
  rw [htype] at hd'
  obtain rfl := Option.some.inj (hfound.symm.trans hd')
  exact hlen.trans (readAt_length _ _ _)

/-- Where the packed fields go. -/
def writesTo (fields : Mem) (dst : Nat → Nat) (items : List Desc) : List (Nat × List UInt8) :=
  (items.filter packed).map fun d => (dst d.type, readAt fields d.ptr d.len)

theorem copiesFor_packed (hnd : (items.map Desc.type).Nodup) (dst : Nat → Nat) :
    (itemsOf fields items).filterMap (fun x =>
      (descOf (items.map (Desc.retarget dst)) x.1).map fun d => (d.ptr, x.2)) =
    writesTo fields dst items := by
  unfold itemsOf writesTo
  rw [List.filterMap_map, ← congrFun List.filterMap_eq_map (items.filter packed)]
  refine List.filterMap_congr fun d hd => ?_
  show (descOf (items.map (Desc.retarget dst)) d.type).map _ = _
  rw [descOf_retarget hnd dst (List.mem_of_mem_filter hd)]
  rfl

/-- The bytes that were packed, unpacked with descriptors of the same types and lengths. -/
theorem unpack_packed (hid : hasOpt opts OPTION_IDBE = false)
    (hlen : hasOpt opts OPTION_LENBE = false) (hnd : (items.map Desc.type).Nodup)
    (hfit : ∀ d ∈ items, packed d = true → Fits opts (itemOf fields d))
    (hsome : ∃ d ∈ items, packed d = true) {mem mem' : Mem} {c c' : Cursor}
    (h : packXtlvBufFromMem fields mem c opts items = (mem', c', BCME_OK)) (dst : Nat → Nat)
    (old : Mem) :
    unpackXtlvBufToMem (readAt mem' c.tlvBuf (c'.tlvBuf - c.tlvBuf)) (c'.tlvBuf - c.tlvBuf)
      (items.map (Desc.retarget dst)) opts old =
        .ok (writeEach old (writesTo fields dst items), 0, BCME_OK) := by
  obtain ⟨rfl, hbuf⟩ := packXtlvBufFromMem_ok h
  have hx : ∀ x ∈ itemsOf fields items, Fits opts x := by
    intro x hx
    obtain ⟨d, hd, rfl⟩ := List.mem_map.mp hx
    obtain ⟨hmem, hpacked⟩ := List.mem_filter.mp hd
    exact hfit d hmem hpacked
  have hholds := writeAll_holds hx mem c.tlvBuf
  have hn : c'.tlvBuf - c.tlvBuf = totalSize opts (itemsOf fields items) := by omega
  rw [hn]
  have hm : Readable (readAt (writeAll opts mem c.tlvBuf (itemsOf fields items)) c.tlvBuf
      (totalSize opts (itemsOf fields items))) opts (totalSize opts (itemsOf fields items)) := by
    refine ⟨Nat.le_of_eq (readAt_length _ _ _).symm, fun hb => ?_⟩
    rw [lenBehindHdr_eq_false hlen] at hb
    cases hb
  have helts := elements_eq (p := 0) hid hlen hx hholds (Nat.zero_add _)
  have hwhole : Whole (readAt (writeAll opts mem c.tlvBuf (itemsOf fields items)) c.tlvBuf
      (totalSize opts (itemsOf fields items))) (totalSize opts (itemsOf fields items))
      (items.map (Desc.retarget dst)) opts := by
    refine ⟨?_, ?_, ?_⟩
    · rw [helts]
      obtain ⟨d, hd, hpacked⟩ := hsome
      obtain ⟨d', ds, hds⟩ := List.exists_cons_of_ne_nil
        (List.ne_nil_of_mem (List.mem_filter.mpr ⟨hd, hpacked⟩))
      unfold itemsOf
      rw [hds]
      exact List.cons_ne_nil _ _
    · rw [helts, recsSize_recsFrom]
    · rw [helts]
      exact lengths_recsFrom hnd dst 0
  obtain ⟨out, left, res, hu, -, hiff, hok⟩ :=
    @unpackXtlvBufToMem_spec _ opts (items.map (Desc.retarget dst)) old _ hm
  have hres := hiff.mpr hwhole
  obtain ⟨hleft, hout⟩ := hok hres
  rw [hu, hres, hleft, hout, helts, copiesFor_eq (recsFrom_data hholds (Nat.zero_add _)),
    copiesFor_packed hnd dst]

/-- Nothing was packed: an empty buffer is refused. -/
theorem unpack_empty (bytes : List UInt8) (old : Mem) :
    unpackXtlvBufToMem bytes 0 items opts old = .ok (old, 0, BCME_BADARG) := by
  have hpos := xtlvHdrSize_pos opts
  have hvalid : validXtlv bytes (some 0) (0 : Nat) opts = .ok false := if_neg (by omega)
  unfold unpackXtlvBufToMem
  rw [hvalid]
  rfl

theorem itemsOf_nil (h : ∀ d ∈ items, packed d = false) : itemsOf fields items = [] := by
  unfold itemsOf
  rw [List.filter_eq_nil_iff.mpr fun d hd => by rw [h d hd]; exact Bool.false_ne_true]
  rfl

end

/-! ## Top theorem -/

/-- The fields come back: from where `items` say, packed between `c` and `c'`, to where `dst`
says. -/
def RoundTrips (opts : Opts) (items : List Desc) (fields mem' : Mem) (c c' : Cursor)
    (dst : Nat → Nat) (old : Mem) : Prop :=
  ∃ out, unpackXtlvBufToMem (readAt mem' c.tlvBuf (c'.tlvBuf - c.tlvBuf)) (c'.tlvBuf - c.tlvBuf)
      (items.map (Desc.retarget dst)) opts old = .ok (out, 0, BCME_OK) ∧
    ∀ d ∈ items, packed d = true → readAt out (dst d.type) d.len = readAt fields d.ptr d.len

/-- **Round trip through descriptors.**  With the options for alignment and field widths, when the
types are distinct and fit, with the lengths, and the fields to be written are apart: a pack that
returns `BCME_OK` and has packed some field is undone; where it had nothing to pack, the empty
buffer is refused.  For any buffer and options, an unpack writes inside the fields only, and returns
`BCME_OK` exactly when whole records fill the buffer, each as long as the field of its type, if
there is one. -/
theorem xtlv_mem_round_trip :
    (∀ (opts : Opts) (items : List Desc) (fields mem mem' : Mem) (c c' : Cursor) (dst : Nat → Nat)
      (old : Mem), hasOpt opts OPTION_IDBE = false → hasOpt opts OPTION_LENBE = false →
      (items.map Desc.type).Nodup →
      (∀ d ∈ items, packed d = true → Fits opts (itemOf fields d)) →
      (writesTo fields dst items).Pairwise Apart →
      packXtlvBufFromMem fields mem c opts items = (mem', c', BCME_OK) →
      ((∃ d ∈ items, packed d = true) → RoundTrips opts items fields mem' c c' dst old) ∧
      ((∀ d ∈ items, packed d = false) →
        unpackXtlvBufToMem (readAt mem' c.tlvBuf (c'.tlvBuf - c.tlvBuf)) (c'.tlvBuf - c.tlvBuf)
          (items.map (Desc.retarget dst)) opts old = .ok (old, 0, BCME_BADARG))) ∧
    ∀ (bytes : List UInt8) (buflen : Nat) (items : List Desc) (opts : Opts) (fields : Mem),
      buflen ≤ bytes.length → (lenBehindHdr opts → buflen < bytes.length) →
      ∃ out left res, unpackXtlvBufToMem bytes buflen items opts fields = .ok (out, left, res) ∧
        Framed items fields out ∧ (res = BCME_OK ↔ Whole bytes buflen items opts) := by
  constructor
  · intro opts items fields mem mem' c c' dst old hid hlen hnd hfit hapart h
    constructor
    · intro hsome
      refine ⟨_, unpack_packed hid hlen hnd hfit hsome h dst old, ?_⟩
      intro d hd hpacked
      have hmem : (dst d.type, readAt fields d.ptr d.len) ∈ writesTo fields dst items :=
        List.mem_map.mpr ⟨d, List.mem_filter.mpr ⟨hd, hpacked⟩, rfl⟩
      have hread := readAt_writeEach hapart old hmem
      rwa [readAt_length] at hread
    · intro hnone
      obtain ⟨-, hbuf⟩ := packXtlvBufFromMem_ok h
      rw [itemsOf_nil hnone] at hbuf
      rw [hbuf, totalSize, Nat.add_zero, Nat.sub_self]
      exact unpack_empty _ old
  · intro bytes buflen items opts fields hle hodd
    obtain ⟨out, left, res, hu, hframed, hiff, -⟩ :=
      @unpackXtlvBufToMem_spec bytes opts items fields buflen ⟨hle, hodd⟩
    exact ⟨out, left, res, hu, hframed, hiff⟩

def twoDescs : List Desc := [⟨1, 1, 10, by decide⟩, ⟨0x1dd, 2, 20, by decide⟩]

/-- Two fields, packed and unpacked, and a buffer with a record of an unknown type. -/
theorem xtlv_mem_round_trip_two :
    RoundTrips OPTION_LENU8 twoDescs (fun i => UInt8.ofNat i)
      (packXtlvBufFromMem (fun i => UInt8.ofNat i) (fun _ => 0) ⟨100, 12, by decide⟩ OPTION_LENU8
        twoDescs).1 ⟨100, 12, by decide⟩
      (packXtlvBufFromMem (fun i => UInt8.ofNat i) (fun _ => 0) ⟨100, 12, by decide⟩ OPTION_LENU8
        twoDescs).2.1 (fun type => type) (fun _ => 0) ∧
    ∃ out left res, unpackXtlvBufToMem [1, 0, 0, 0, 9, 0, 0, 0] 8 twoDescs 0 (fun _ => 0) =
        .ok (out, left, res) ∧ Framed twoDescs (fun _ => 0) out ∧
      (res = BCME_OK ↔ Whole [1, 0, 0, 0, 9, 0, 0, 0] 8 twoDescs 0) :=
  ⟨(xtlv_mem_round_trip.1 OPTION_LENU8 twoDescs _ (fun _ => 0) _ ⟨100, 12, by decide⟩ _ _ _
      (by decide) (by decide) (by decide) (by decide) (by decide) rfl).1
      ⟨_, List.mem_cons_self, by decide⟩,
    xtlv_mem_round_trip.2 _ 8 twoDescs 0 _ (by decide) (by decide)⟩

/-- Nothing packed is refused; a type too large for its field is not found; a record of a type that
no descriptor has is ignored. -/
theorem xtlv_mem_round_trip_fails :
    (¬ ∀ (opts : Opts) items fields mem mem' c c' dst old, hasOpt opts OPTION_IDBE = false →
      hasOpt opts OPTION_LENBE = false → (items.map Desc.type).Nodup →
      (writesTo fields dst items).Pairwise Apart →
      packXtlvBufFromMem fields mem c opts items = (mem', c', BCME_OK) →
      RoundTrips opts items fields mem' c c' dst old) ∧
    (¬ ∀ (opts : Opts) items fields mem mem' c c' dst old, hasOpt opts OPTION_IDBE = false →
      hasOpt opts OPTION_LENBE = false → (items.map Desc.type).Nodup →
      (writesTo fields dst items).Pairwise Apart → (∃ d ∈ items, packed d = true) →
      packXtlvBufFromMem fields mem c opts items = (mem', c', BCME_OK) →
      RoundTrips opts items fields mem' c c' dst old) ∧
    ¬ ∀ (bytes : List UInt8) buflen items (opts : Opts) fields out left,
      buflen ≤ bytes.length → lenBehindHdr opts = false →
      unpackXtlvBufToMem bytes buflen items opts fields = .ok (out, left, BCME_OK) →
      ∀ r ∈ (records bytes opts).elements 0 buflen,
        ∃ d ∈ items, r.type = d.type ∧ r.len ≤ d.len := by
  refine ⟨?_, ?_, ?_⟩
  · intro h
    obtain ⟨out, hu, -⟩ := h 0 [] (fun _ => 0) (fun _ => 0) _ ⟨0, 8, by decide⟩ _ (fun _ => 0)
      (fun _ => 0) (by decide) (by decide) (by decide) (by decide) rfl
    cases hu.symm.trans (unpack_empty _ _)
  · intro h
    obtain ⟨out, hu, hback⟩ := h OPTION_IDU8 [⟨0x101, 1, 1, by decide⟩] (fun _ => 7) (fun _ => 0) _
      ⟨0, 8, by decide⟩ _ (fun _ => 0) (fun _ => 0) (by decide) (by decide) (by decide) (by decide)
      ⟨_, List.mem_singleton.mpr rfl, by decide⟩ rfl
    obtain rfl := (Prod.ext_iff.mp (Except.ok.inj hu)).1
    exact absurd (hback _ List.mem_cons_self (by decide)) (by decide)
  · intro h
    obtain ⟨d, hd, -⟩ := h [1, 0, 0, 0] 4 [] 0 (fun _ => 0) (fun _ => 0) 0 (by decide) (by decide)
      rfl { data := 4, type := 1, len := 0 } (by decide)
    cases hd

end Bcmdhd.Xtlv
