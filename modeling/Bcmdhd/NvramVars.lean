import Mathlib.Data.List.Induction
import Mathlib.Data.List.TakeWhile

/-!
# Replacing an NVRAM variable (`bcmutils.c`)

The buffer has `name=value` records, each with a terminating zero, and one more zero behind the
last one.  `replace_nvram_variable` takes the records of a name out and puts a new one at the end.
A removal brings the next record to the scan pointer, and the scan then steps over it.

    Replaces rs free var ↔ var has no `=`, or
      every record of its name is directly followed by one of another name, or
      the new records do not fit and the scan comes to an empty string
                                                                (replace_nvram_variable_iff)
-/

namespace Bcmdhd.NvramVars

/-! ## Strings -/

/-- A C string; its size fits `uint`. -/
structure CString where
  bytes : List UInt8
  nonzero : 0 ∉ bytes
  size : bytes.length < 0xFFFFFFFF

def EQ : UInt8 := 61

def CString.name (s : CString) : List UInt8 := s.bytes.takeWhile (· != EQ)

/-- The name and the `=`. -/
def CString.heading (s : CString) : List UInt8 := s.name ++ [EQ]

/-- `name=value` -/
structure Record extends CString where
  named : EQ ∈ bytes

/-! ## Algorithm -/

def uint32 (n : Nat) : Nat := n % 0x100000000

def RSIZE_MAX : Nat := 0x7FFFFFFFFFFFFFFF

/-- `none` when the zero is not inside. -/
def strlen (p : List UInt8) : Option Nat := p.findIdx? (· == 0)

/-- `!strncmp(p, s, n)` for the first `n` bytes of `s`, or `none` when it reads past the end. -/
def strncmpEq : List UInt8 → List UInt8 → Option Bool
  | _, [] => some true
  | [], _ :: _ => none
  | c :: p, d :: s => if c ≠ d then some false else if c = 0 then some true else strncmpEq p s

/-- Bytes written at `off`, or `none` when they do not all lie inside. -/
def store (buf : List UInt8) (off : Nat) (bs : List UInt8) : Option (List UInt8) :=
  if off + bs.length ≤ buf.length then
    some (buf.take off ++ bs ++ buf.drop (off + bs.length))
  else none

def memmoveS (buf : List UInt8) (dest destsz : Nat) (src : List UInt8) : Option (List UInt8) :=
  if destsz > RSIZE_MAX then some buf
  else if destsz < src.length then store buf dest (List.replicate destsz 0)
  else store buf dest src

/-- `for (p = varbuf; *p; p += strlen(p) + 1)`, or `none` when a byte outside is read. -/
def scan (heading : List UInt8) : Nat → List UInt8 → Nat → Option (List UInt8 × Nat)
  | 0, _, _ => none
  | k + 1, buf, p => do
    let c ← buf[p]?
    if c = 0 then return (buf, p)
    else
      let found ← strncmpEq (buf.drop p) heading
      let buf ←
        -- if given variable found - remove it
        if found then do
          let recordLen := uint32 ((← strlen (buf.drop p)) + 1)
          memmoveS buf p (buf.length - p) (buf.drop (p + recordLen))
        else some buf
      let len ← strlen (buf.drop p)
      scan heading k buf (p + len + 1)

structure Result where
  ret : Bool
  varbuf : List UInt8
  datalen : Option Nat

def replaceNvramVariable (varbuf : List UInt8) (var : CString) : Option Result :=
  let src := var.bytes ++ [0]
  let variableRecordLen := uint32 (var.bytes.length + 1)
  match var.bytes.findIdx? (· == EQ) with
  | none => some ⟨false, varbuf, none⟩
  | some i => do
    -- length of given variable name, followed by '='
    let variableHeadingLen := uint32 (i + 1)
    let (buf, p) ← scan (src.take variableHeadingLen) (varbuf.length + 1) varbuf 0
    if p + variableRecordLen + 1 > varbuf.length then return ⟨false, buf, none⟩
    else
      let buf ← memmoveS buf p (varbuf.length - p) (src.take variableRecordLen)
      let buf ← store buf (p + variableRecordLen) [0]
      return ⟨true, buf, some (uint32 (p + variableRecordLen + 1))⟩

/-! ## What it is for -/

def encode (ss : List (List UInt8)) : List UInt8 := ss.flatMap (· ++ [0])

/-- The buffer, with `free` behind the trailing zero. -/
def varbufOf (rs : List Record) (free : List UInt8) : List UInt8 :=
  encode (rs.map fun r => r.bytes) ++ 0 :: free

/-- The records of other names. -/
def kept (name : List UInt8) (rs : List Record) : List Record := rs.filter fun r => r.name ≠ name

/-- The other records, the new one and the trailing zero. -/
def newData (rs : List Record) (var : CString) : List UInt8 :=
  encode ((kept var.name rs).map (fun r => r.bytes) ++ [var.bytes]) ++ [0]

/-- It reads and writes inside the buffer only, and gives the new records, or `FALSE` when they do
not fit or there is no `=`. -/
def Replaces (rs : List Record) (free : List UInt8) (var : CString) : Prop :=
  ∃ res, replaceNvramVariable (varbufOf rs free) var = some res ∧
    (res.ret = true → newData rs var <+: res.varbuf ∧
      res.datalen = some (newData rs var).length) ∧
    (res.ret = false ↔
      EQ ∉ var.bytes ∨ (varbufOf rs free).length < (newData rs var).length)

/-- Every record of the name is directly followed by a record of another name. -/
def Isolated (name : List UInt8) (rs : List Record) : Prop :=
  ∀ l₁ r l₂, rs = l₁ ++ r :: l₂ → r.name = name → ∃ r' ∈ l₂.head?, r'.name ≠ name

/-- Strings are read from the start of the bytes until an empty one comes up.  One that starts
with the heading is taken out, by moving what is behind it, and the next one is not looked at. -/
inductive Stops (heading : List UInt8) : List UInt8 → Prop
  | empty (r : List UInt8) : Stops heading (0 :: r)
  | pass (s r : List UInt8) : s ≠ [] → 0 ∉ s → ¬ heading <+: s → Stops heading r →
      Stops heading (s ++ 0 :: r)
  | remove (s r s' r' : List UInt8) : s ≠ [] → 0 ∉ s → heading <+: s →
      r ++ (s ++ 0 :: r).drop r.length = s' ++ 0 :: r' → 0 ∉ s' → Stops heading r' →
      Stops heading (s ++ 0 :: r)

/-! ## Names -/

theorem CString.bytes_eq (s : CString) (h : EQ ∈ s.bytes) : ∃ t, s.bytes = s.name ++ EQ :: t := by
  obtain ⟨l, t, heq, hl⟩ := List.eq_append_cons_of_mem h
  refine ⟨t, ?_⟩
  have hname : s.name = l := by
    unfold CString.name
    rw [heq, List.takeWhile_append_of_pos, List.takeWhile_cons_of_neg, List.append_nil]
    · simp
    · intro x hx
      rw [bne_iff_ne]
      rintro rfl
      exact hl hx
  rw [hname]
  exact heq

theorem CString.eq_notMem_name (s : CString) : EQ ∉ s.name := by
  intro hm
  have hne := List.mem_takeWhile_imp hm
  simp at hne

theorem CString.zero_notMem_heading (s : CString) : 0 ∉ s.heading := by
  unfold CString.heading
  rw [List.mem_append, not_or]
  refine ⟨fun hm => s.nonzero ((List.takeWhile_sublist _).mem hm), ?_⟩
  rw [List.mem_singleton]
  decide

/-- The heading is in front of the records of the name. -/
theorem heading_prefix_iff (r : Record) (var : CString) :
    var.heading <+: r.bytes ↔ r.name = var.name := by
  obtain ⟨t, ht⟩ := r.bytes_eq r.named
  unfold CString.heading
  constructor
  · rintro ⟨u, hu⟩
    unfold CString.name
    rw [← hu, List.append_assoc, List.takeWhile_append_of_pos, List.singleton_append,
      List.takeWhile_cons_of_neg, List.append_nil]
    · rfl
    · simp
    · intro x hx
      rw [bne_iff_ne]
      rintro rfl
      exact var.eq_notMem_name hx
  · intro heq
    rw [heq] at ht
    exact ⟨t, by rw [ht, List.append_assoc, List.singleton_append]⟩

/-! ## The scan -/

section
variable {heading pre s b r : List UInt8} {k : Nat}

theorem strlen_eq (hs : 0 ∉ s) (r : List UInt8) : strlen (s ++ 0 :: r) = some s.length := by
  unfold strlen
  rw [List.findIdx?_append, List.findIdx?_eq_none_iff.mpr, List.findIdx?_cons]
  · simp
  · intro x hx
    rw [beq_eq_false_iff_ne]
    rintro rfl
    exact hs hx

theorem strlen_none (hb : 0 ∉ b) : strlen b = none := by
  unfold strlen
  rw [List.findIdx?_eq_none_iff]
  intro x hx
  rw [beq_eq_false_iff_ne]
  rintro rfl
  exact hb hx

theorem strncmpEq_eq (hh : 0 ∉ heading) (s r : List UInt8) :
    strncmpEq (s ++ 0 :: r) heading = some (decide (heading <+: s)) := by
  induction heading generalizing s with
  | nil =>
    unfold strncmpEq
    simp
  | cons d heading ih =>
    have hd : d ≠ 0 := by
      rintro rfl
      exact hh List.mem_cons_self
    have hh' : 0 ∉ heading := fun hm => hh (List.mem_cons_of_mem d hm)
    cases s with
    | nil =>
      unfold strncmpEq
      simp [Ne.symm hd]
    | cons c s =>
      rw [List.cons_append]
      unfold strncmpEq
      by_cases hc : c = d
      · subst hc
        rw [if_neg (not_not_intro rfl), if_neg hd, ih hh']
        simp
      · rw [if_pos hc]
        simp [Ne.symm hc]

theorem store_eq (pre b bs : List UInt8) (h : bs.length ≤ b.length) :
    store (pre ++ b) pre.length bs = some (pre ++ bs ++ b.drop bs.length) := by
  unfold store
  rw [if_pos (by rw [List.length_append]; omega), List.take_left, ← List.drop_drop, List.drop_left]

theorem memmoveS_eq (pre b bs : List UInt8) (h : bs.length ≤ b.length)
    (hsmall : b.length ≤ 0xFFFFFFFF) :
    memmoveS (pre ++ b) pre.length b.length bs = some (pre ++ bs ++ b.drop bs.length) := by
  unfold memmoveS RSIZE_MAX
  rw [if_neg (by omega), if_neg (by omega), store_eq pre b bs h]

theorem scan_empty (heading pre r : List UInt8) (k : Nat) :
    scan heading (k + 1) (pre ++ 0 :: r) pre.length = some (pre ++ 0 :: r, pre.length) := by
  unfold scan
  simp

/-- A string without an end. -/
theorem scan_open (hb : 0 ∉ b) : scan heading (k + 1) (pre ++ b) pre.length = none := by
  unfold scan
  rw [List.drop_left]
  cases b with
  | nil => simp
  | cons c b =>
    have hc : c ≠ 0 := by
      rintro rfl
      exact hb List.mem_cons_self
    rw [strlen_none hb]
    simp only [List.getElem?_append_right (Nat.le_refl _), Nat.sub_self, List.getElem?_cons_zero,
      Option.bind_eq_bind, Option.bind_some, if_neg hc]
    cases hf : strncmpEq (c :: b) heading with
    | none => rfl
    | some found =>
      cases found with
      | true => rfl
      | false =>
        show (strlen ((pre ++ c :: b).drop pre.length)).bind _ = none
        rw [List.drop_left, strlen_none hb]
        rfl

/-- What is done with the string at the pointer. -/
theorem scan_string (hh : 0 ∉ heading) (hs : 0 ∉ s) (hne : s ≠ [])
    (hlen : (s ++ 0 :: r).length ≤ 0xFFFFFFFF) :
    scan heading (k + 1) (pre ++ (s ++ 0 :: r)) pre.length =
      let b := if heading <+: s then r ++ (s ++ 0 :: r).drop r.length else s ++ 0 :: r
      (strlen b).bind fun len => scan heading k (pre ++ b) (pre.length + len + 1) := by
  obtain ⟨c, t, rfl⟩ := List.exists_cons_of_ne_nil hne
  have hc : c ≠ 0 := by
    rintro rfl
    exact hs List.mem_cons_self
  have hget : (pre ++ (c :: t ++ 0 :: r))[pre.length]? = some c := by
    rw [List.getElem?_append_right (Nat.le_refl _), Nat.sub_self]
    rfl
  have hsub : (pre ++ (c :: t ++ 0 :: r)).length - pre.length = (c :: t ++ 0 :: r).length := by
    rw [List.length_append]
    omega
  rw [scan, hget, List.drop_left, strncmpEq_eq hh, strlen_eq hs, hsub]
  simp only [Option.bind_eq_bind, Option.bind_some, if_neg hc]
  by_cases hp : heading <+: c :: t
  · have hrec : uint32 ((c :: t).length + 1) = (c :: t).length + 1 := by
      apply Nat.mod_eq_of_lt
      simp only [List.length_append, List.length_cons] at hlen ⊢
      omega
    have hdrop : (pre ++ (c :: t ++ 0 :: r)).drop (pre.length + ((c :: t).length + 1)) = r := by
      rw [← List.drop_drop, List.drop_left, ← List.drop_drop, List.drop_left]
      rfl
    have hr : r.length ≤ (c :: t ++ 0 :: r).length := by
      simp only [List.length_append, List.length_cons]
      omega
    rw [decide_eq_true hp, if_pos hp, if_pos rfl, hrec, hdrop, memmoveS_eq pre _ r hr hlen,
      Option.bind_some, List.append_assoc, List.drop_left]
  · rw [decide_eq_false hp, if_neg hp, if_neg (by decide), List.drop_left, strlen_eq hs]

/-- The string at the pointer and the pointer behind it. -/
theorem append_next (pre s r : List UInt8) (heading : List UInt8) (k : Nat) :
    scan heading k (pre ++ (s ++ 0 :: r)) (pre.length + s.length + 1) =
      scan heading k (pre ++ s ++ [0] ++ r) (pre ++ s ++ [0]).length := by
  simp only [List.append_assoc, List.singleton_append, List.length_append, List.length_singleton,
    Nat.add_assoc]

theorem scan_pass (hh : 0 ∉ heading) (hs : 0 ∉ s) (hne : s ≠ []) (hp : ¬ heading <+: s)
    (hlen : (s ++ 0 :: r).length ≤ 0xFFFFFFFF) :
    scan heading (k + 1) (pre ++ (s ++ 0 :: r)) pre.length =
      scan heading k (pre ++ s ++ [0] ++ r) (pre ++ s ++ [0]).length := by
  rw [scan_string hh hs hne hlen, if_neg hp]
  dsimp only
  rw [strlen_eq hs, Option.bind_some, append_next]

theorem scan_remove {s' r' : List UInt8} (hh : 0 ∉ heading) (hs : 0 ∉ s) (hne : s ≠ [])
    (hp : heading <+: s) (hlen : (s ++ 0 :: r).length ≤ 0xFFFFFFFF)
    (hb : r ++ (s ++ 0 :: r).drop r.length = s' ++ 0 :: r') (hs' : 0 ∉ s') :
    scan heading (k + 1) (pre ++ (s ++ 0 :: r)) pre.length =
      scan heading k (pre ++ s' ++ [0] ++ r') (pre ++ s' ++ [0]).length := by
  rw [scan_string hh hs hne hlen, if_pos hp, hb]
  dsimp only
  rw [strlen_eq hs', Option.bind_some, append_next]

/-- A removal keeps the length. -/
theorem length_remove {s' r' : List UInt8}
    (hb : r ++ (s ++ 0 :: r).drop r.length = s' ++ 0 :: r') :
    (s ++ 0 :: r).length = (s' ++ 0 :: r').length := by
  rw [← hb]
  simp only [List.length_append, List.length_drop, List.length_cons]
  omega

/-- What a scan that ends did with the string at the pointer. -/
theorem scan_cases (hh : 0 ∉ heading) (hlen : b.length ≤ 0xFFFFFFFF) {res : List UInt8 × Nat}
    (h : scan heading (k + 1) (pre ++ b) pre.length = some res) :
    (∃ r, b = 0 :: r ∧ res = (pre ++ b, pre.length)) ∨
    (∃ s r, b = s ++ 0 :: r ∧ s ≠ [] ∧ 0 ∉ s ∧ ¬ heading <+: s ∧
      scan heading k (pre ++ s ++ [0] ++ r) (pre ++ s ++ [0]).length = some res) ∨
    ∃ s r s' r', b = s ++ 0 :: r ∧ s ≠ [] ∧ 0 ∉ s ∧ heading <+: s ∧
      r ++ (s ++ 0 :: r).drop r.length = s' ++ 0 :: r' ∧ 0 ∉ s' ∧
      scan heading k (pre ++ s' ++ [0] ++ r') (pre ++ s' ++ [0]).length = some res := by
  by_cases hb : 0 ∈ b
  · obtain ⟨s, r, rfl, hs⟩ := List.eq_append_cons_of_mem hb
    by_cases hne : s = []
    · subst hne
      rw [List.nil_append, scan_empty] at h
      exact .inl ⟨r, rfl, (Option.some.inj h).symm⟩
    · by_cases hp : heading <+: s
      · by_cases hmem : 0 ∈ r ++ (s ++ 0 :: r).drop r.length
        · obtain ⟨s', r', hb', hs'⟩ := List.eq_append_cons_of_mem hmem
          rw [scan_remove hh hs hne hp hlen hb' hs'] at h
          exact .inr (.inr ⟨s, r, s', r', rfl, hne, hs, hp, hb', hs', h⟩)
        · rw [scan_string hh hs hne hlen, if_pos hp] at h
          dsimp only at h
          rw [strlen_none hmem] at h
          cases h
      · rw [scan_pass hh hs hne hp hlen] at h
        exact .inr (.inl ⟨s, r, rfl, hne, hs, hp, h⟩)
  · rw [scan_open hb] at h
    cases h

/-- The scan goes forward, and keeps the length of the buffer. -/
theorem scan_length (hh : 0 ∉ heading) (hlen : b.length ≤ 0xFFFFFFFF) {buf : List UInt8} {p : Nat}
    (h : scan heading k (pre ++ b) pre.length = some (buf, p)) :
    buf.length = (pre ++ b).length ∧ pre.length ≤ p := by
  induction k generalizing pre b with
  | zero => cases h
  | succ k ih =>
    rcases scan_cases hh hlen h with ⟨r, rfl, heq⟩ | ⟨s, r, rfl, -, -, -, h⟩ |
      ⟨s, r, s', r', rfl, -, -, -, hb, -, h⟩
    · cases heq
      exact ⟨rfl, Nat.le_refl _⟩
    · simp only [List.length_append, List.length_cons] at hlen
      obtain ⟨hbuf, hp⟩ := ih (by omega) h
      simp only [List.length_append, List.length_cons, List.length_nil] at hbuf hp ⊢
      exact ⟨by omega, by omega⟩
    · have hlen' := length_remove hb
      simp only [List.length_append, List.length_cons] at hlen hlen'
      obtain ⟨hbuf, hp⟩ := ih (by omega) h
      simp only [List.length_append, List.length_cons, List.length_nil] at hbuf hp ⊢
      exact ⟨by omega, by omega⟩

theorem scan_stops (hh : 0 ∉ heading) (hlen : b.length ≤ 0xFFFFFFFF) {res : List UInt8 × Nat}
    (h : scan heading k (pre ++ b) pre.length = some res) : Stops heading b := by
  induction k generalizing pre b with
  | zero => cases h
  | succ k ih =>
    rcases scan_cases hh hlen h with ⟨r, rfl, -⟩ | ⟨s, r, rfl, hne, hs, hp, h⟩ |
      ⟨s, r, s', r', rfl, hne, hs, hp, hb, hs', h⟩
    · exact .empty r
    · simp only [List.length_append, List.length_cons] at hlen
      exact .pass s r hne hs hp (ih (by omega) h)
    · have hlen' := length_remove hb
      simp only [List.length_append, List.length_cons] at hlen hlen'
      exact .remove s r s' r' hne hs hp hb hs' (ih (by omega) h)

theorem Stops.scan (hstop : Stops heading b) (hh : 0 ∉ heading) (hlen : b.length ≤ 0xFFFFFFFF)
    (hk : b.length < k) : ∃ res, scan heading k (pre ++ b) pre.length = some res := by
  induction hstop generalizing pre k with
  | empty r =>
    cases k with
    | zero => cases hk
    | succ k => exact ⟨_, scan_empty heading pre r k⟩
  | pass s r hne hs hp hstop ih =>
    cases k with
    | zero => cases hk
    | succ k =>
      rw [scan_pass hh hs hne hp hlen]
      simp only [List.length_append, List.length_cons] at hlen hk
      exact ih (by omega) (by omega)
  | remove s r s' r' hne hs hp hb hs' hstop ih =>
    cases k with
    | zero => cases hk
    | succ k =>
      rw [scan_remove hh hs hne hp hlen hb hs']
      have hlen' := length_remove hb
      simp only [List.length_append, List.length_cons] at hlen hk hlen'
      exact ih (by omega) (by omega)

end

/-! ## The records -/

section
variable {name : List UInt8} {rs : List Record} {r r' : Record}

theorem isolated_cons : Isolated name (r :: rs) ↔
    (r.name = name → ∃ r' ∈ rs.head?, r'.name ≠ name) ∧ Isolated name rs := by
  constructor
  · intro h
    refine ⟨h [] r rs rfl, ?_⟩
    intro l₁ x l₂ heq
    exact h (r :: l₁) x l₂ (by rw [heq]; rfl)
  · rintro ⟨hr, h⟩ l₁ x l₂ heq
    cases l₁ with
    | nil =>
      cases heq
      exact hr
    | cons y l₁ =>
      cases heq
      exact h l₁ x l₂ rfl

theorem isolated_nil : Isolated name [] := by
  intro l₁ x l₂ heq
  cases l₁ with
  | nil => cases heq
  | cons y l₁ => cases heq

theorem kept_hit (h : r.name = name) : kept name (r :: rs) = kept name rs :=
  List.filter_cons_of_neg (by simpa using h)

theorem kept_miss (h : r.name ≠ name) : kept name (r :: rs) = r :: kept name rs :=
  List.filter_cons_of_pos (by simpa using h)

theorem encode_cons (s : List UInt8) (ss : List (List UInt8)) :
    encode (s :: ss) = s ++ [0] ++ encode ss := rfl

theorem encode_append (ss ts : List (List UInt8)) : encode (ss ++ ts) = encode ss ++ encode ts :=
  List.flatMap_append

theorem varbufOf_cons (r : Record) (rs : List Record) (free : List UInt8) :
    varbufOf (r :: rs) free = r.bytes ++ 0 :: varbufOf rs free := by
  unfold varbufOf
  rw [List.map_cons, encode_cons, List.append_assoc, List.append_assoc]
  rfl

theorem varbufOf_append (rs : List Record) (free l : List UInt8) :
    varbufOf rs free ++ l = varbufOf rs (free ++ l) := by
  unfold varbufOf
  rw [List.append_assoc]
  rfl

theorem varbufOf_length_cons (r : Record) (rs : List Record) (free : List UInt8) :
    (varbufOf (r :: rs) free).length = r.bytes.length + 1 + (varbufOf rs free).length := by
  rw [varbufOf_cons, List.length_append, List.length_cons]
  omega

/-- The free space is counted behind the records. -/
theorem varbufOf_length (rs : List Record) (free free' : List UInt8) :
    (varbufOf rs free').length + free.length = (varbufOf rs free).length + free'.length := by
  unfold varbufOf
  simp only [List.length_append, List.length_cons]
  omega

theorem Record.bytes_ne_nil (r : Record) : r.bytes ≠ [] := List.ne_nil_of_mem r.named

variable {var : CString} {pre free : List UInt8} {k : Nat}

theorem scan_miss (h : r.name ≠ var.name) (hlen : (varbufOf (r :: rs) free).length ≤ 0xFFFFFFFF) :
    scan var.heading (k + 1) (pre ++ varbufOf (r :: rs) free) pre.length =
      scan var.heading k (pre ++ r.bytes ++ [0] ++ varbufOf rs free)
        (pre ++ r.bytes ++ [0]).length := by
  rw [varbufOf_cons] at hlen ⊢
  exact scan_pass var.zero_notMem_heading r.nonzero r.bytes_ne_nil
    (fun hp => h ((heading_prefix_iff r var).mp hp)) hlen

/-- The record behind one that is taken out is not looked at. -/
theorem scan_hit (h : r.name = var.name)
    (hlen : (varbufOf (r :: r' :: rs) free).length ≤ 0xFFFFFFFF) :
    ∃ free', free'.length = free.length + r.bytes.length + 1 ∧
      scan var.heading (k + 1) (pre ++ varbufOf (r :: r' :: rs) free) pre.length =
        scan var.heading k (pre ++ r'.bytes ++ [0] ++ varbufOf rs free')
          (pre ++ r'.bytes ++ [0]).length := by
  rw [varbufOf_cons] at hlen ⊢
  refine ⟨free ++ (r.bytes ++ 0 :: varbufOf (r' :: rs) free).drop (varbufOf (r' :: rs) free).length,
    ?_, ?_⟩
  · simp only [List.length_append, List.length_drop, List.length_cons]
    omega
  · refine scan_remove var.zero_notMem_heading r.nonzero r.bytes_ne_nil
      ((heading_prefix_iff r var).mpr h) hlen ?_ r'.nonzero
    rw [varbufOf_append, varbufOf_cons]

/-- Behind the last record the scan goes past the trailing zero. -/
theorem scan_hit_last (h : r.name = var.name)
    (hlen : (varbufOf [r] free).length ≤ 0xFFFFFFFF) :
    ∃ free', free'.length = free.length + r.bytes.length + 1 ∧
      scan var.heading (k + 1) (pre ++ varbufOf [r] free) pre.length =
        scan var.heading k (pre ++ [] ++ [0] ++ free') (pre ++ [] ++ [0]).length := by
  rw [varbufOf_cons] at hlen ⊢
  refine ⟨free ++ (r.bytes ++ 0 :: varbufOf [] free).drop (varbufOf [] free).length, ?_, ?_⟩
  · simp only [List.length_append, List.length_drop, List.length_cons]
    omega
  · exact scan_remove var.zero_notMem_heading r.nonzero r.bytes_ne_nil
      ((heading_prefix_iff r var).mpr h) hlen rfl List.not_mem_nil

def keptBytes (rs : List Record) (var : CString) : List UInt8 :=
  encode ((kept var.name rs).map fun r => r.bytes)

theorem keptBytes_hit (h : r.name = var.name) : keptBytes (r :: rs) var = keptBytes rs var := by
  unfold keptBytes
  rw [kept_hit h]

theorem keptBytes_miss (h : r.name ≠ var.name) :
    keptBytes (r :: rs) var = r.bytes ++ [0] ++ keptBytes rs var := by
  unfold keptBytes
  rw [kept_miss h]
  rfl

/-- The scan of isolated records takes them out. -/
theorem scan_isolated (h : Isolated var.name rs) (hlen : (varbufOf rs free).length ≤ 0xFFFFFFFF)
    (hk : (varbufOf rs free).length < k) :
    ∃ free', scan var.heading k (pre ++ varbufOf rs free) pre.length =
      some (pre ++ keptBytes rs var ++ 0 :: free', (pre ++ keptBytes rs var).length) := by
  induction rs using List.twoStepInduction generalizing pre free k with
  | nil =>
    cases k with
    | zero => cases hk
    | succ k =>
      refine ⟨free, ?_⟩
      show scan var.heading (k + 1) (pre ++ 0 :: free) pre.length =
        some (pre ++ [] ++ 0 :: free, (pre ++ []).length)
      rw [List.append_nil, scan_empty]
  | singleton r =>
    have hmiss : r.name ≠ var.name := by
      intro heq
      obtain ⟨r', hr', -⟩ := (isolated_cons.mp h).1 heq
      cases hr'
    cases k with
    | zero => cases hk
    | succ k =>
      cases k with
      | zero =>
        rw [varbufOf_length_cons] at hk
        omega
      | succ k =>
        refine ⟨free, ?_⟩
        rw [scan_miss hmiss hlen, keptBytes_miss hmiss]
        show scan _ (k + 1) (_ ++ 0 :: free) _ = _
        rw [scan_empty, show keptBytes [] var = [] from rfl, List.append_nil,
          List.append_assoc pre r.bytes [0]]
  | cons_cons r r' rs ih₁ ih₂ =>
    have hrest := (isolated_cons.mp h).2
    cases k with
    | zero => cases hk
    | succ k =>
      by_cases hr : r.name = var.name
      · obtain ⟨x, hx, hmiss⟩ := (isolated_cons.mp h).1 hr
        obtain rfl : r' = x := Option.some.inj hx
        obtain ⟨free', hfree', hscan⟩ := scan_hit hr hlen
        simp only [varbufOf_length_cons] at hlen hk
        have hlen' := varbufOf_length rs free free'
        obtain ⟨free'', hih⟩ := @ih₁ (pre ++ r'.bytes ++ [0]) free' k
          (isolated_cons.mp hrest).2 (by omega) (by omega)
        refine ⟨free'', ?_⟩
        rw [hscan, hih, keptBytes_hit hr, keptBytes_miss hmiss]
        simp only [← List.append_assoc]
      · rw [scan_miss hr hlen]
        rw [varbufOf_length_cons] at hlen hk
        obtain ⟨free', hih⟩ := @ih₂ r' (pre ++ r.bytes ++ [0]) free k hrest (by omega) (by omega)
        refine ⟨free', ?_⟩
        rw [hih, keptBytes_miss hr]
        simp only [← List.append_assoc]

/-- The scan never ends in front of the records it is to leave, and behind them it ends only when
all that it took out were isolated. -/
theorem scan_records (hlen : (varbufOf rs free).length ≤ 0xFFFFFFFF) {buf : List UInt8} {p : Nat}
    (h : scan var.heading k (pre ++ varbufOf rs free) pre.length = some (buf, p)) :
    pre.length + (keptBytes rs var).length ≤ p ∧
      (p = pre.length + (keptBytes rs var).length → Isolated var.name rs) := by
  have hh := var.zero_notMem_heading
  induction rs using List.twoStepInduction generalizing pre free k with
  | nil => exact ⟨(scan_length hh hlen h).2, fun _ => isolated_nil⟩
  | singleton r =>
    cases k with
    | zero => cases h
    | succ k =>
      by_cases hr : r.name = var.name
      · obtain ⟨free', hfree', hscan⟩ := scan_hit_last hr hlen
        rw [hscan] at h
        rw [varbufOf_length_cons, varbufOf, List.map_nil] at hlen
        simp only [List.length_append, List.length_cons] at hlen
        have hp := (scan_length hh (by omega) h).2
        simp only [List.length_append, List.length_cons, List.length_nil] at hp
        rw [keptBytes_hit hr]
        show pre.length + 0 ≤ p ∧ (p = pre.length + 0 → _)
        exact ⟨by omega, fun heq => by omega⟩
      · rw [scan_miss hr hlen] at h
        rw [varbufOf_length_cons] at hlen
        have hp := (scan_length hh (by omega) h).2
        rw [keptBytes_miss hr]
        refine ⟨?_, fun _ => isolated_cons.mpr ⟨fun heq => absurd heq hr, isolated_nil⟩⟩
        simp only [List.length_append] at hp ⊢
        show pre.length + (r.bytes.length + _ + 0) ≤ p
        omega
  | cons_cons r r' rs ih₁ ih₂ =>
    cases k with
    | zero => cases h
    | succ k =>
      by_cases hr : r.name = var.name
      · obtain ⟨free', hfree', hscan⟩ := scan_hit hr hlen
        rw [hscan] at h
        simp only [varbufOf_length_cons] at hlen
        have hlen' := varbufOf_length rs free free'
        obtain ⟨hp, hiso⟩ := ih₁ (by omega) h
        simp only [List.length_append, List.length_singleton] at hp hiso
        rw [keptBytes_hit hr]
        by_cases hr' : r'.name = var.name
        · rw [keptBytes_hit hr']
          exact ⟨by omega, fun heq => by omega⟩
        · rw [keptBytes_miss hr']
          simp only [List.length_append, List.length_singleton]
          refine ⟨by omega, fun heq => ?_⟩
          rw [isolated_cons, isolated_cons]
          exact ⟨fun _ => ⟨r', rfl, hr'⟩, fun heq => absurd heq hr', hiso (by omega)⟩
      · rw [scan_miss hr hlen] at h
        rw [varbufOf_length_cons] at hlen
        obtain ⟨hp, hiso⟩ := ih₂ r' (by omega) h
        rw [keptBytes_miss hr]
        simp only [List.length_append, List.length_singleton] at hp hiso ⊢
        exact ⟨by omega, fun heq => isolated_cons.mpr ⟨fun heq => absurd heq hr, hiso (by omega)⟩⟩

/-! ## The new record -/

theorem newData_eq (rs : List Record) (var : CString) :
    newData rs var = keptBytes rs var ++ (var.bytes ++ [0]) ++ [0] := by
  unfold newData keptBytes
  rw [encode_append, encode_cons, show encode [] = [] from rfl, List.append_nil]

theorem newData_length (rs : List Record) (var : CString) :
    (newData rs var).length = (keptBytes rs var).length + var.bytes.length + 2 := by
  rw [newData_eq]
  simp only [List.length_append, List.length_singleton]
  omega

theorem replace_unnamed (varbuf : List UInt8) (h : EQ ∉ var.bytes) :
    replaceNvramVariable varbuf var = some ⟨false, varbuf, none⟩ := by
  have hnone : var.bytes.findIdx? (· == EQ) = none := by
    rw [List.findIdx?_eq_none_iff]
    intro x hx
    rw [beq_eq_false_iff_ne]
    rintro rfl
    exact h hx
  unfold replaceNvramVariable
  simp only [hnone]

theorem replace_named (varbuf : List UInt8) (h : EQ ∈ var.bytes) :
    replaceNvramVariable varbuf var =
      (scan var.heading (varbuf.length + 1) varbuf 0).bind fun t =>
        if t.2 + (var.bytes.length + 1) + 1 > varbuf.length then some ⟨false, t.1, none⟩
        else
          (memmoveS t.1 t.2 (varbuf.length - t.2) (var.bytes ++ [0])).bind fun buf =>
            (store buf (t.2 + (var.bytes.length + 1)) [0]).map fun buf =>
              ⟨true, buf, some (uint32 (t.2 + (var.bytes.length + 1) + 1))⟩ := by
  obtain ⟨t, ht⟩ := var.bytes_eq h
  have hsize := var.size
  have hlen := congrArg List.length ht
  rw [List.length_append, List.length_cons] at hlen
  have hidx : var.bytes.findIdx? (· == EQ) = some var.name.length := by
    rw [ht, List.findIdx?_append, List.findIdx?_eq_none_iff.mpr, List.findIdx?_cons]
    · simp
    · intro x hx
      rw [beq_eq_false_iff_ne]
      rintro rfl
      exact var.eq_notMem_name hx
  have hhead : (var.bytes ++ [0]).take (uint32 (var.name.length + 1)) = var.heading := by
    rw [show uint32 (var.name.length + 1) = (var.name ++ [EQ]).length by
      rw [List.length_append]
      exact Nat.mod_eq_of_lt (by omega)]
    rw [show var.bytes ++ [0] = var.name ++ [EQ] ++ (t ++ [0]) by
      conv_lhs => rw [ht]
      simp, List.take_left]
    rfl
  have hrec : uint32 (var.bytes.length + 1) = var.bytes.length + 1 := Nat.mod_eq_of_lt (by omega)
  have hsrc : (var.bytes ++ [0]).take (var.bytes.length + 1) = var.bytes ++ [0] :=
    List.take_of_length_le (by simp)
  unfold replaceNvramVariable
  simp only [hidx, hrec, hhead, hsrc]
  cases scan var.heading (varbuf.length + 1) varbuf 0 with
  | none => rfl
  | some res =>
    obtain ⟨buf, p⟩ := res
    show (if _ then _ else _) = if _ then _ else _
    split
    · rfl
    · cases memmoveS buf p (varbuf.length - p) (var.bytes ++ [0]) with
      | none => rfl
      | some buf => cases hs : store buf (p + (var.bytes.length + 1)) [0] <;> simp [hs]

theorem replace_full {varbuf buf : List UInt8} {p : Nat} (h : EQ ∈ var.bytes)
    (hscan : scan var.heading (varbuf.length + 1) varbuf 0 = some (buf, p))
    (hfull : varbuf.length < p + var.bytes.length + 2) :
    replaceNvramVariable varbuf var = some ⟨false, buf, none⟩ := by
  rw [replace_named varbuf h, hscan]
  exact if_pos (by omega)

theorem replace_fits {varbuf b : List UInt8} (h : EQ ∈ var.bytes)
    (hscan : scan var.heading (varbuf.length + 1) varbuf 0 = some (pre ++ b, pre.length))
    (hsmall : varbuf.length ≤ 0xFFFFFFFF) (hlen : (pre ++ b).length = varbuf.length)
    (hfits : pre.length + var.bytes.length + 2 ≤ varbuf.length) :
    ∃ rest, replaceNvramVariable varbuf var =
      some ⟨true, pre ++ (var.bytes ++ [0]) ++ [0] ++ rest,
        some (pre.length + var.bytes.length + 2)⟩ := by
  rw [List.length_append] at hlen
  have hsub : varbuf.length - pre.length = b.length := by omega
  have hsrc : (var.bytes ++ [0]).length = var.bytes.length + 1 := by
    rw [List.length_append, List.length_singleton]
  refine ⟨(b.drop (var.bytes ++ [0]).length).drop 1, ?_⟩
  rw [replace_named varbuf h, hscan, Option.bind_some, if_neg (by omega), hsub,
    memmoveS_eq pre b _ (by omega) (by omega), Option.bind_some,
    show pre.length + (var.bytes.length + 1) = (pre ++ (var.bytes ++ [0])).length by
      rw [List.length_append, hsrc],
    store_eq _ _ [0] (by rw [List.length_drop, List.length_singleton]; omega), Option.map_some]
  have hlast : uint32 ((pre ++ (var.bytes ++ [0])).length + 1) =
      pre.length + var.bytes.length + 2 := by
    rw [List.length_append, hsrc]
    exact Nat.mod_eq_of_lt (by omega)
  rw [hlast]
  rfl

end

/-- **Replacing a variable.**  The records of the name must not follow one another, and the last
record must be of another name. -/
theorem replace_nvram_variable_iff (rs : List Record) (free : List UInt8) (var : CString)
    (hsize : (varbufOf rs free).length ≤ 0xFFFFFFFF) :
    Replaces rs free var ↔ EQ ∉ var.bytes ∨ Isolated var.name rs ∨
      ((varbufOf rs free).length < (newData rs var).length ∧
        Stops var.heading (varbufOf rs free)) := by
  have hh := var.zero_notMem_heading
  by_cases hn : EQ ∈ var.bytes
  · rw [newData_length]
    constructor
    · rintro ⟨res, hres, htrue, hfalse⟩
      rw [newData_length] at htrue hfalse
      cases hscan : scan var.heading ((varbufOf rs free).length + 1) (varbufOf rs free) 0 with
      | none =>
        rw [replace_named _ hn, hscan] at hres
        cases hres
      | some t =>
        obtain ⟨buf, p⟩ := t
        obtain ⟨hp, hiso⟩ := @scan_records rs var [] free _ hsize buf p hscan
        obtain ⟨hlen, -⟩ := @scan_length var.heading [] _ _ hh hsize buf p hscan
        rw [List.length_nil, Nat.zero_add] at hp hiso
        rw [List.nil_append] at hlen
        by_cases hfull : (varbufOf rs free).length < p + var.bytes.length + 2
        · rw [replace_full hn hscan hfull] at hres
          cases hres
          rcases hfalse.mp rfl with hno | hlt
          · exact absurd hn hno
          · exact .inr (.inr ⟨hlt, @scan_stops var.heading [] _ _ hh hsize _ hscan⟩)
        · have hsplit : buf = buf.take p ++ buf.drop p := (List.take_append_drop p buf).symm
          have hpre : (buf.take p).length = p := List.length_take_of_le (by omega)
          obtain ⟨rest, hrep⟩ := @replace_fits var (buf.take p) (varbufOf rs free) (buf.drop p) hn
            (by rw [← hsplit, hpre]; exact hscan) hsize (by rw [← hsplit]; exact hlen) (by omega)
          rw [hrep, hpre] at hres
          cases hres
          obtain ⟨-, hdata⟩ := htrue rfl
          have heq := Option.some.inj hdata
          exact .inr (.inl (hiso (by omega)))
    · rintro (hno | hiso | ⟨hlt, hstop⟩)
      · exact absurd hn hno
      · obtain ⟨free', hscan⟩ := @scan_isolated rs var [] free _ hiso hsize (Nat.lt_succ_self _)
        obtain ⟨hlen, -⟩ := @scan_length var.heading [] _ _ hh hsize _ _ hscan
        simp only [List.nil_append] at hscan hlen
        by_cases hfull :
            (varbufOf rs free).length < (keptBytes rs var).length + var.bytes.length + 2
        · refine ⟨_, replace_full hn hscan hfull, nofun, ?_⟩
          rw [newData_length]
          exact iff_of_true rfl (.inr hfull)
        · obtain ⟨rest, hrep⟩ := replace_fits hn hscan hsize hlen (by omega)
          refine ⟨_, hrep, fun _ => ⟨⟨rest, ?_⟩, ?_⟩, ?_⟩
          · rw [newData_eq]
          · rw [newData_length]
          · rw [newData_length]
            refine iff_of_false nofun ?_
            rintro (hno | hlt)
            · exact hno hn
            · exact hfull hlt
      · obtain ⟨⟨buf, p⟩, hscan⟩ := @Stops.scan var.heading [] _ _ hstop hh hsize
          (Nat.lt_succ_self _)
        obtain ⟨hp, -⟩ := @scan_records rs var [] free _ hsize buf p hscan
        rw [List.length_nil, Nat.zero_add] at hp
        refine ⟨_, replace_full hn hscan (by omega), nofun, ?_⟩
        rw [newData_length]
        exact iff_of_true rfl (.inr hlt)
  · refine iff_of_true ?_ (.inl hn)
    refine ⟨_, replace_unnamed _ hn, nofun, ?_⟩
    exact iff_of_true rfl (.inl hn)

/-- A record `a=v` with a name and a value of one letter. -/
def short (a v : UInt8) (h : 0 ∉ [a, EQ, v]) : Record :=
  ⟨⟨[a, EQ, v], h, by simp⟩, by simp⟩

/-- Variables `a=1` and `b=1`, and `a=2` for the first. -/
theorem replace_nvram_variable_iff_first :
    Replaces [short 97 49 (by decide), short 98 49 (by decide)] [0, 0, 0]
        (short 97 50 (by decide)).toCString ↔
      EQ ∉ (short 97 50 (by decide)).bytes ∨
      Isolated (short 97 50 (by decide)).name
        [short 97 49 (by decide), short 98 49 (by decide)] ∨
      ((varbufOf [short 97 49 (by decide), short 98 49 (by decide)] [0, 0, 0]).length <
          (newData [short 97 49 (by decide), short 98 49 (by decide)]
            (short 97 50 (by decide)).toCString).length ∧
        Stops (short 97 50 (by decide)).heading
          (varbufOf [short 97 49 (by decide), short 98 49 (by decide)] [0, 0, 0])) :=
  replace_nvram_variable_iff [short 97 49 (by decide), short 98 49 (by decide)] [0, 0, 0]
    (short 97 50 (by decide)).toCString (by decide)

/-- With `a=1` alone, `a=2` is put behind the trailing zero. -/
theorem replace_nvram_variable_fails :
    ¬ ∀ rs free var, (varbufOf rs free).length ≤ 0xFFFFFFFF → Replaces rs free var := by
  intro h
  obtain ⟨res, hres, htrue, -⟩ := h [short 97 49 (by decide)] [0, 0, 0]
    (short 97 50 (by decide)).toCString (by decide)
  cases hres
  obtain ⟨hpre, -⟩ := htrue (by decide)
  exact absurd hpre (by decide)

end Bcmdhd.NvramVars
