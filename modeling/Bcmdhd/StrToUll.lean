import Bcmdhd.Lib.Scan
import Mathlib.Data.List.TakeWhile

/-!
# Numbers in text (`bcm_strtoull` in `bcmutils.c`)

Behind blanks, a sign and a prefix, the value grows by one digit after another, modulo `2^64`.  An
overflow is seen if a value comes out below the one before.

    bcm_strtoull = the value of the digits, or all ones, and the place behind them ↔
      no digit is above f, and the value fits (or comes out right nevertheless), or
      there is no minus sign, some value falls, and behind the digits is no hex digit
                                                                         (bcm_strtoull_iff)
-/

namespace Bcmdhd.StrToUll

/-! ## Characters -/

section

def U : UInt8 := 0x01
def L : UInt8 := 0x02
def D : UInt8 := 0x04
def C : UInt8 := 0x08
def P : UInt8 := 0x10
def S : UInt8 := 0x20
def X : UInt8 := 0x40
def SP : UInt8 := 0x80

set_option maxRecDepth 4000 in
/-- `bcm_ctype` -/
def ctype : Vector UInt8 256 := #v[
  C, C, C, C, C, C, C, C,
  C, C ||| S, C ||| S, C ||| S, C ||| S, C ||| S, C, C,
  C, C, C, C, C, C, C, C,
  C, C, C, C, C, C, C, C,
  S ||| SP, P, P, P, P, P, P, P,
  P, P, P, P, P, P, P, P,
  D, D, D, D, D, D, D, D,
  D, D, P, P, P, P, P, P,
  P, U ||| X, U ||| X, U ||| X, U ||| X, U ||| X, U ||| X, U,
  U, U, U, U, U, U, U, U,
  U, U, U, U, U, U, U, U,
  U, U, U, P, P, P, P, P,
  P, L ||| X, L ||| X, L ||| X, L ||| X, L ||| X, L ||| X, L,
  L, L, L, L, L, L, L, L,
  L, L, L, L, L, L, L, L,
  L, L, L, P, P, P, P, C,
  0, 0, 0, 0, 0, 0, 0, 0,
  0, 0, 0, 0, 0, 0, 0, 0,
  0, 0, 0, 0, 0, 0, 0, 0,
  0, 0, 0, 0, 0, 0, 0, 0,
  S ||| SP, P, P, P, P, P, P, P,
  P, P, P, P, P, P, P, P,
  P, P, P, P, P, P, P, P,
  P, P, P, P, P, P, P, P,
  U, U, U, U, U, U, U, U,
  U, U, U, U, U, U, U, U,
  U, U, U, U, U, U, U, P,
  U, U, U, U, U, U, U, L,
  L, L, L, L, L, L, L, L,
  L, L, L, L, L, L, L, L,
  L, L, L, L, L, L, L, P,
  L, L, L, L, L, L, L, L]

end

def ismask (c : UInt8) : UInt8 := ctype.get c.toFin

def isdigit (c : UInt8) : Bool := ismask c &&& D ≠ 0
def islower (c : UInt8) : Bool := ismask c &&& L ≠ 0
def isspace (c : UInt8) : Bool := ismask c &&& S ≠ 0
def isxdigit (c : UInt8) : Bool := ismask c &&& (D ||| X) ≠ 0

/-- `bcm_toupper`: `c + 'A' - 'a'` -/
def toupper (c : UInt8) : UInt8 := if islower c then c - 32 else c

/-- `*cp - '0'`, or `bcm_toupper(*cp) - 'A' + 10`, of a hex digit -/
def valueOf (c : UInt8) : Nat := (if isdigit c then c - 48 else toupper c - 65 + 10).toNat

/-! ## Algorithm -/

/-- The kernel's `unsigned long` -/
inductive Ulong
  | bits32 | bits64
  deriving DecidableEq

def Ulong.size : Ulong → Nat
  | .bits32 => 0x100000000
  | .bits64 => 0x10000000000000000

def uint64Size : Nat := 0x10000000000000000

/-- A string is read up to its end, or the first character that is not understood, where its
terminating zero is one of these. -/
def sign (cp : List UInt8) : Bool × List UInt8 :=
  if cp.headD 0 = 43 then (false, cp.drop 1)
  else if cp.headD 0 = 45 then (true, cp.drop 1)
  else (false, cp)

/-- `0x` or `0X` -/
def hexPrefix (cp : List UInt8) : Bool :=
  cp.headD 0 = 48 ∧ ((cp.drop 1).headD 0 = 120 ∨ (cp.drop 1).headD 0 = 88)

def radix (base : Nat) (cp : List UInt8) : Nat × List UInt8 :=
  if base = 0 then
    if cp.headD 0 = 48 then
      if hexPrefix cp then (16, cp.drop 2) else (8, cp.drop 1)
    else (10, cp)
  else if base = 16 ∧ hexPrefix cp then (base, cp.drop 2)
  else (base, cp)

/-- An overflow detected, or the result, and the rest of the string. -/
inductive Scanned
  | overflow (cp : List UInt8)
  | done (result : Nat) (cp : List UInt8)

def scan (base : Nat) (minus : Bool) : List UInt8 → Nat → Nat → Scanned
  | [], result, _ => .done result []
  | c :: cp, result, lastResult =>
    if isxdigit c ∧ valueOf c < base then
      let result := (result * base + valueOf c) % uint64Size
      -- go to the end of current number
      if result < lastResult ∧ ¬ minus then .overflow ((c :: cp).dropWhile isxdigit)
      else scan base minus cp result result
    else .done result (c :: cp)

/-- The result, and `*endp`. -/
def bcmStrtoull (u : Ulong) (cp : List UInt8) (base : Nat) : Nat × List UInt8 :=
  let (minus, cp) := sign (cp.dropWhile isspace)
  let (base, cp) := radix base cp
  match scan base minus cp 0 0 with
  | .overflow cp => (u.size - 1, cp)
  | .done result cp => (if minus then (u.size - result % u.size) % u.size else result, cp)

/-! ## What it is for -/

/-- The bases it accepts. -/
structure Base where
  val : Nat
  ok : val = 0 ∨ 2 ≤ val ∧ val ≤ 36

/-- 36 when it is no digit of any base. -/
def digit (c : UInt8) : Nat :=
  if 48 ≤ c ∧ c ≤ 57 then c.toNat - 48
  else if 65 ≤ c ∧ c ≤ 90 then c.toNat - 55
  else if 97 ≤ c ∧ c ≤ 122 then c.toNat - 87
  else 36

def numeral (b : Nat) (ds : List UInt8) : Nat := ds.foldl (fun v c => v * b + digit c) 0

/-- Space, tab to carriage return, and the space of Latin-1 that does not break. -/
def blank (c : UInt8) : Bool := c = 32 ∨ (9 ≤ c ∧ c ≤ 13) ∨ c = 160

/-- Whether it is negative, and what is behind `+` or `-`. -/
def signed : List UInt8 → Bool × List UInt8
  | 43 :: t => (false, t)
  | 45 :: t => (true, t)
  | t => (false, t)

/-- What is behind `0x` or `0X`. -/
def behindHex : List UInt8 → Option (List UInt8)
  | 48 :: 120 :: t => some t
  | 48 :: 88 :: t => some t
  | _ => none

/-- The base of a number, for base 0 by its prefix, and the text without the prefix. -/
def based (base : Nat) (t : List UInt8) : Nat × List UInt8 :=
  match base, behindHex t, t with
  | 0, some t, _ => (16, t)
  | 0, none, 48 :: t => (8, t)
  | 0, none, t => (10, t)
  | 16, some t, _ => (16, t)
  | base, _, t => (base, t)

/-- What stands in the string: the sign, the base, and what is behind the prefix. -/
structure Number where
  minus : Bool
  base : Nat
  text : List UInt8

def number (s : List UInt8) (base : Base) : Number :=
  let (minus, t) := signed (s.dropWhile blank)
  let (base, t) := based base.val t
  ⟨minus, base, t⟩

def Number.digits (n : Number) : List UInt8 := n.text.takeWhile fun c => digit c < n.base

def Number.value (n : Number) : Nat := numeral n.base n.digits

/-- The value, or all ones, and what is behind the digits. -/
def Number.expected (n : Number) : Nat × List UInt8 :=
  (if n.value < uint64Size then
      if n.minus then (uint64Size - n.value) % uint64Size else n.value
    else uint64Size - 1,
    n.text.dropWhile fun c => digit c < n.base)

/-- The digits up to the first one above f. -/
def Number.hexDigits (n : Number) : List UInt8 := n.digits.takeWhile fun c => digit c < 16

/-- After some digit the value, modulo `2^64`, is below the one before. -/
def Falls (b : Nat) (ds : List UInt8) : Prop :=
  ∃ k < ds.length, numeral b (ds.take (k + 1)) % uint64Size < numeral b (ds.take k) % uint64Size

instance (b : Nat) (ds : List UInt8) : Decidable (Falls b ds) :=
  inferInstanceAs (Decidable (∃ k < ds.length, _))

/-- With a minus sign an overflow is not looked for. -/
def Number.Handled (n : Number) (u : Ulong) : Prop :=
  n.minus = false ∧ Falls n.base n.hexDigits ∧
      u = .bits64 ∧ (n.text.takeWhile fun c => digit c < 16) = n.digits ∨
    n.minus = false ∧ ¬ Falls n.base n.hexDigits ∧ (∀ c ∈ n.digits, digit c < 16) ∧
      (n.value < uint64Size ∨ n.value % uint64Size = uint64Size - 1) ∨
    n.minus = true ∧ (∀ c ∈ n.digits, digit c < 16) ∧
      (n.value < uint64Size ∧
          (u = .bits64 ∨ n.value = 0 ∨ uint64Size - Ulong.bits32.size < n.value) ∨
        uint64Size ≤ n.value ∧ u = .bits64 ∧ n.value % uint64Size = 1)

/-! ## Digits -/

theorem ctype_digits : ∀ e ∈ ctype.toList.zipIdx,
    decide (e.1 &&& (D ||| X) ≠ 0) = decide (digit (UInt8.ofNat e.2) < 16) ∧
    (digit (UInt8.ofNat e.2) < 16 →
      (if decide (e.1 &&& D ≠ 0) then UInt8.ofNat e.2 - 48
        else (if decide (e.1 &&& L ≠ 0) then UInt8.ofNat e.2 - 32 else UInt8.ofNat e.2) -
          65 + 10).toNat = digit (UInt8.ofNat e.2)) := by
  decide +kernel

theorem ctype_blank : ∀ e ∈ ctype.toList.zipIdx,
    decide (e.1 &&& S ≠ 0) = blank (UInt8.ofNat e.2) := by
  decide +kernel

theorem ismask_mem (c : UInt8) : (ismask c, c.toNat) ∈ ctype.toList.zipIdx :=
  Scan.get_mem_zipIdx ctype c.toFin

theorem isxdigit_eq (c : UInt8) : isxdigit c = decide (digit c < 16) := by
  have h := (ctype_digits _ (ismask_mem c)).1
  rwa [UInt8.ofNat_toNat] at h

theorem isspace_eq (c : UInt8) : isspace c = blank c := by
  have h := ctype_blank _ (ismask_mem c)
  rwa [UInt8.ofNat_toNat] at h

theorem valueOf_eq {c : UInt8} (hc : digit c < 16) : valueOf c = digit c := by
  have h := (ctype_digits _ (ismask_mem c)).2
  rw [UInt8.ofNat_toNat] at h
  exact h hc

theorem numeral_concat (b : Nat) (ds : List UInt8) (c : UInt8) :
    numeral b (ds ++ [c]) = numeral b ds * b + digit c := by
  unfold numeral
  rw [List.foldl_append]
  rfl

theorem numeral_le_append {b : Nat} (hb : 0 < b) (l r : List UInt8) :
    numeral b l ≤ numeral b (l ++ r) := by
  induction r generalizing l with
  | nil => rw [List.append_nil]
  | cons c r ih =>
    have hnext := ih (l ++ [c])
    rw [List.append_assoc, numeral_concat] at hnext
    exact Nat.le_trans (Nat.le_trans (Nat.le_mul_of_pos_right _ hb) (Nat.le_add_right _ _)) hnext

/-- Only a value that does not fit falls. -/
theorem Falls.large {b : Nat} (hb : 0 < b) {ds : List UInt8} (h : Falls b ds) :
    uint64Size ≤ numeral b ds := by
  obtain ⟨k, -, hlt⟩ := h
  have hle := numeral_le_append hb (ds.take k) ((ds.take (k + 1)).drop k)
  have hall := numeral_le_append hb (ds.take (k + 1)) (ds.drop (k + 1))
  have htake : ds.take k = (ds.take (k + 1)).take k := by
    rw [List.take_take, Nat.min_eq_left (Nat.le_succ k)]
  rw [htake, List.take_append_drop, ← htake] at hle
  rw [List.take_append_drop] at hall
  by_contra hfit
  have hfit' : numeral b (ds.take (k + 1)) < uint64Size :=
    Nat.lt_of_le_of_lt hall (Nat.lt_of_not_le hfit)
  rw [Nat.mod_eq_of_lt hfit', Nat.mod_eq_of_lt (Nat.lt_of_le_of_lt hle hfit')] at hlt
  exact absurd hle (Nat.not_le.mpr hlt)

/-! ## The beginning -/

theorem sign_eq (t : List UInt8) : sign t = signed t := by
  unfold signed
  split
  · rfl
  · rfl
  · next hplus hminus =>
    unfold sign
    cases t with
    | nil => rfl
    | cons c t =>
      rw [List.headD_cons, if_neg fun h => hplus t (congrArg (· :: t) h),
        if_neg fun h => hminus t (congrArg (· :: t) h)]

theorem behindHex_eq (t : List UInt8) :
    behindHex t = if hexPrefix t = true then some (t.drop 2) else none := by
  unfold behindHex
  split
  · rfl
  · rfl
  · next hlower hupper =>
    rw [if_neg]
    intro h
    unfold hexPrefix at h
    obtain ⟨hzero, hx⟩ := of_decide_eq_true h
    match t with
    | [] => exact absurd hzero (by decide)
    | [_] => rcases hx with hx | hx <;> cases hx
    | c :: x :: t =>
      obtain rfl : c = 48 := hzero
      rcases hx with hx | hx
      · exact hlower t (congrArg (48 :: · :: t) hx)
      · exact hupper t (congrArg (48 :: · :: t) hx)

theorem hexPrefix_some {t t' : List UInt8} (h : behindHex t = some t') :
    hexPrefix t = true ∧ t.headD 0 = 48 ∧ t.drop 2 = t' := by
  rw [behindHex_eq] at h
  split at h
  · next hhex => exact ⟨hhex, (of_decide_eq_true hhex).1, Option.some_inj.mp h⟩
  · cases h

theorem hexPrefix_none {t : List UInt8} (h : behindHex t = none) : ¬ hexPrefix t = true := by
  rw [behindHex_eq] at h
  split at h
  · cases h
  · next hhex => exact hhex

theorem radix_eq (base : Nat) (t : List UInt8) : radix base t = based base t := by
  unfold based
  split
  · next h =>
    obtain ⟨hhex, hzero, hdrop⟩ := hexPrefix_some h
    unfold radix
    rw [if_pos rfl, if_pos hzero, if_pos hhex, hdrop]
  · next h =>
    unfold radix
    rw [if_pos rfl, List.headD_cons, if_pos rfl, if_neg (hexPrefix_none h)]
    rfl
  · next t _ _ _ hother h =>
    unfold radix
    rw [if_pos rfl, if_neg]
    intro hzero
    cases t with
    | nil => cases hzero
    | cons c t => exact hother t (congrArg (· :: t) hzero)
  · next h =>
    obtain ⟨hhex, -, hdrop⟩ := hexPrefix_some h
    unfold radix
    rw [if_neg (by decide), if_pos ⟨rfl, hhex⟩, hdrop]
  · next base t _ _ _ hhex hnone hsixteen _ =>
    have hbase : base ≠ 0 := fun h => by
      cases hb : behindHex t with
      | none => exact hnone h hb
      | some t' => exact hhex t' h hb
    have hprefix : ¬ (base = 16 ∧ hexPrefix t = true) := fun h =>
      hsixteen (t.drop 2) h.1 ((behindHex_eq t).trans (if_pos h.2))
    unfold radix
    rw [if_neg hbase, if_neg hprefix]

/-! ## The loop -/

theorem scan_stop {b : Nat} {minus : Bool} {rest : List UInt8} (r : Nat)
    (h : ∀ c ∈ rest.head?, ¬ (digit c < 16 ∧ digit c < b)) :
    scan b minus rest r r = .done r rest := by
  cases rest with
  | nil => rfl
  | cons c rest =>
    have hc := h c rfl
    unfold scan
    rw [if_neg]
    rintro ⟨hx, hv⟩
    rw [isxdigit_eq, decide_eq_true_eq] at hx
    rw [valueOf_eq hx] at hv
    exact hc ⟨hx, hv⟩

/-- The digits `acc` are read behind `l`. -/
theorem scan_eq {b : Nat} {minus : Bool} {acc rest : List UInt8}
    (hacc : ∀ c ∈ acc, digit c < 16 ∧ digit c < b)
    (hrest : ∀ c ∈ rest.head?, ¬ (digit c < 16 ∧ digit c < b)) (l : List UInt8) :
    scan b minus (acc ++ rest) (numeral b l % uint64Size) (numeral b l % uint64Size) =
      if minus = false ∧ ∃ k < acc.length, numeral b (l ++ acc.take (k + 1)) % uint64Size <
          numeral b (l ++ acc.take k) % uint64Size then
        .overflow ((acc ++ rest).dropWhile isxdigit)
      else .done (numeral b (l ++ acc) % uint64Size) rest := by
  induction acc generalizing l with
  | nil =>
    rw [if_neg fun h => by obtain ⟨-, k, hk, -⟩ := h; exact absurd hk (Nat.not_lt_zero k),
      List.append_nil]
    exact scan_stop _ hrest
  | cons c acc ih =>
    obtain ⟨hx, hb⟩ := hacc c List.mem_cons_self
    have hxdigit : isxdigit c = true := by rw [isxdigit_eq, decide_eq_true hx]
    have hnext : (numeral b l % uint64Size * b + valueOf c) % uint64Size =
        numeral b (l ++ [c]) % uint64Size := by
      rw [numeral_concat, valueOf_eq hx, Nat.add_mod, Nat.mod_mul_mod, ← Nat.add_mod]
    have hih := ih (fun d hd => hacc d (List.mem_cons_of_mem c hd)) (l ++ [c])
    rw [List.cons_append]
    unfold scan
    rw [if_pos ⟨hxdigit, by rw [valueOf_eq hx]; exact hb⟩]
    dsimp only
    rw [hnext, hih, List.dropWhile_cons_of_pos hxdigit]
    simp only [List.append_assoc, List.singleton_append, List.length_cons, Nat.exists_lt_succ_left,
      List.take_succ_cons, List.take_zero, List.append_nil]
    cases minus with
    | true => simp
    | false =>
      by_cases hlt : numeral b (l ++ [c]) % uint64Size < numeral b l % uint64Size
      · simp [hlt]
      · simp [hlt]

/-! ## The result -/

theorem number_base_pos (s : List UInt8) (base : Base) : 0 < (number s base).base := by
  unfold number
  dsimp only
  rw [← radix_eq]
  unfold radix
  split
  · split
    · split
      · exact Nat.succ_pos 15
      · exact Nat.succ_pos 7
    · exact Nat.succ_pos 9
  · next h =>
    have hpos : 0 < base.val := Nat.pos_of_ne_zero h
    split <;> exact hpos

/-- A run ends at one place exactly if it has the same characters. -/
theorem dropWhile_eq_iff {α : Type*} (p q : α → Bool) (l : List α) :
    l.dropWhile p = l.dropWhile q ↔ l.takeWhile p = l.takeWhile q := by
  have hp := l.takeWhile_append_dropWhile (p := p)
  have hq := l.takeWhile_append_dropWhile (p := q)
  constructor
  · intro h
    rw [h] at hp
    exact List.append_cancel_right (hp.trans hq.symm)
  · intro h
    rw [h] at hp
    exact List.append_cancel_left (hp.trans hq.symm)

section

variable (n : Number)

def Number.behind : List UInt8 := n.text.dropWhile fun c => digit c < n.base

/-- Where the loop ends. -/
def Number.hexRest : List UInt8 := (n.digits.dropWhile fun c => digit c < 16) ++ n.behind

theorem Number.text_eq : n.text = n.hexDigits ++ n.hexRest := by
  unfold hexRest
  rw [← List.append_assoc, Number.hexDigits, List.takeWhile_append_dropWhile]
  exact List.takeWhile_append_dropWhile.symm

theorem Number.hexDigits_lt : ∀ c ∈ n.hexDigits, digit c < 16 ∧ digit c < n.base := by
  intro c hc
  unfold hexDigits at hc
  have hd : c ∈ n.digits := (List.takeWhile_prefix _).subset hc
  have h16 := List.mem_takeWhile_imp hc
  unfold digits at hd
  have hb := List.mem_takeWhile_imp hd
  exact ⟨of_decide_eq_true h16, of_decide_eq_true hb⟩

theorem head?_dropWhile {α : Type*} (p : α → Bool) (l : List α) :
    ∀ a ∈ (l.dropWhile p).head?, p a = false := by
  intro a ha
  have h := List.head?_dropWhile_not p l
  rw [Option.mem_def] at ha
  rw [ha] at h
  exact h

theorem Number.hexRest_stops : ∀ c ∈ n.hexRest.head?, ¬ (digit c < 16 ∧ digit c < n.base) := by
  rintro c hc ⟨h16, hb⟩
  unfold hexRest at hc
  rw [List.head?_append, Option.mem_def, Option.or_eq_some_iff] at hc
  rcases hc with hc | ⟨-, hc⟩
  · exact absurd h16 (of_decide_eq_false (head?_dropWhile _ _ c hc))
  · exact absurd hb (of_decide_eq_false (head?_dropWhile _ _ c hc))

/-- All digits are below g. -/
theorem Number.hexRest_eq : n.hexRest = n.behind ↔ ∀ c ∈ n.digits, digit c < 16 := by
  unfold hexRest
  rw [List.append_left_eq_self, List.dropWhile_eq_nil_iff]
  simp only [decide_eq_true_eq]

theorem Number.hexDigits_eq (h : ∀ c ∈ n.digits, digit c < 16) : n.hexDigits = n.digits :=
  List.takeWhile_eq_self_iff.mpr fun c hc => decide_eq_true (h c hc)

theorem Number.value_ge {b : Nat} (hb : 0 < b) : numeral b n.hexDigits ≤ numeral b n.digits := by
  have h := numeral_le_append hb n.hexDigits (n.digits.dropWhile fun c => digit c < 16)
  unfold hexDigits at h ⊢
  rwa [List.takeWhile_append_dropWhile] at h

theorem Number.scan_text (minus : Bool) :
    scan n.base minus n.text 0 0 =
      if minus = false ∧ Falls n.base n.hexDigits then .overflow (n.text.dropWhile isxdigit)
      else .done (numeral n.base n.hexDigits % uint64Size) n.hexRest := by
  have h := @scan_eq _ minus _ _ n.hexDigits_lt n.hexRest_stops []
  rw [← n.text_eq] at h
  exact h

end

/-- A value that is all ones when it does not fit. -/
theorem plain_iff (v : Nat) :
    v % uint64Size = (if v < uint64Size then v else uint64Size - 1) ↔
      v < uint64Size ∨ v % uint64Size = uint64Size - 1 := by
  unfold uint64Size
  split <;> omega

theorem minus_iff (u : Ulong) (v : Nat) :
    (u.size - v % uint64Size % u.size) % u.size =
        (if v < uint64Size then (uint64Size - v) % uint64Size else uint64Size - 1) ↔
      v < uint64Size ∧ (u = .bits64 ∨ v = 0 ∨ uint64Size - Ulong.bits32.size < v) ∨
        uint64Size ≤ v ∧ u = .bits64 ∧ v % uint64Size = 1 := by
  unfold uint64Size
  cases u with
  | bits32 =>
    simp only [Ulong.size, reduceCtorEq, false_or, false_and, and_false, or_false]
    split <;> omega
  | bits64 =>
    simp only [Ulong.size, true_or, and_true, true_and]
    split <;> omega

/-- It returns the value of the digits, or all ones, and the place behind them. -/
theorem bcm_strtoull_iff (u : Ulong) (s : List UInt8) (base : Base) :
    bcmStrtoull u s base.val = (number s base).expected ↔ (number s base).Handled u := by
  have hpos := number_base_pos s base
  obtain ⟨n, hn⟩ : ∃ n, n = number s base := ⟨_, rfl⟩
  have hcode : bcmStrtoull u s base.val =
      match scan n.base n.minus n.text 0 0 with
      | .overflow cp => (u.size - 1, cp)
      | .done result cp =>
        (if n.minus then (u.size - result % u.size) % u.size else result, cp) := by
    have hspace : isspace = blank := funext isspace_eq
    unfold bcmStrtoull
    rw [hn, hspace, sign_eq]
    dsimp only
    rw [radix_eq]
    rfl
  rw [← hn] at hpos ⊢
  rw [hcode, n.scan_text]
  unfold Number.Handled Number.expected
  by_cases hf : n.minus = false ∧ Falls n.base n.hexDigits
  · have hlarge : ¬ n.value < uint64Size :=
      Nat.not_lt.mpr (Nat.le_trans (hf.2.large hpos) (n.value_ge hpos))
    have hx : isxdigit = fun c => decide (digit c < 16) := funext isxdigit_eq
    rw [if_pos hf, if_neg hlarge]
    dsimp only
    rw [Prod.mk.injEq, hx, dropWhile_eq_iff]
    constructor
    · rintro ⟨hsize, htake⟩
      refine Or.inl ⟨hf.1, hf.2, ?_, htake⟩
      cases u with
      | bits32 => exact absurd hsize (by decide)
      | bits64 => rfl
    · rintro (⟨-, -, rfl, htake⟩ | ⟨-, hfalls, -⟩ | ⟨hminus, -⟩)
      · exact ⟨rfl, htake⟩
      · exact absurd hf.2 hfalls
      · exact absurd (hf.1.symm.trans hminus) (by decide)
  · rw [if_neg hf]
    dsimp only
    rw [Prod.mk.injEq]
    show _ ∧ n.hexRest = n.behind ↔ _
    rw [n.hexRest_eq]
    cases hm : n.minus with
    | false =>
      have hfalls : ¬ Falls n.base n.hexDigits := fun h => hf ⟨hm, h⟩
      constructor
      · rintro ⟨hv, hall⟩
        rw [n.hexDigits_eq hall] at hv
        exact Or.inr (Or.inl ⟨rfl, hfalls, hall, (plain_iff n.value).mp hv⟩)
      · rintro (⟨-, h, -⟩ | ⟨-, -, hall, hv⟩ | ⟨hminus, -⟩)
        · exact absurd h hfalls
        · rw [n.hexDigits_eq hall]
          exact ⟨(plain_iff n.value).mpr hv, hall⟩
        · cases hminus
    | true =>
      constructor
      · rintro ⟨hv, hall⟩
        rw [n.hexDigits_eq hall] at hv
        exact Or.inr (Or.inr ⟨rfl, hall, (minus_iff u n.value).mp hv⟩)
      · rintro (⟨hminus, -⟩ | ⟨hminus, -⟩ | ⟨-, hall, hv⟩)
        · cases hminus
        · cases hminus
        · rw [n.hexDigits_eq hall]
          exact ⟨(minus_iff u n.value).mpr hv, hall⟩

/-- Base 10. -/
def ten : Base := ⟨10, by decide⟩

/-- `30000000000000000000` comes out as a smaller number, and `z` to the base of 36 is not read. -/
theorem bcm_strtoull_fails :
    bcmStrtoull .bits64 (51 :: List.replicate 19 48) 10 = (11553255926290448384, []) ∧
      (number (51 :: List.replicate 19 48) ten).expected = (18446744073709551615, []) ∧
    bcmStrtoull .bits64 [122] 36 = (0, [122]) ∧
      (number [122] ⟨36, by decide⟩).expected = (35, []) := by
  decide

end Bcmdhd.StrToUll
