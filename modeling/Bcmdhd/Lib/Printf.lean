import Mathlib.Data.List.TakeWhile

/-!
# The conversions of a `printf` format

A conversion is `%[flags][width][.precision][length]conversion`; `%%` is a sign.

* `conversions`: the conversion characters, in the order in which they take arguments.
* `modifiers_split`: what is before a conversion character, and that it does not look like one.
* `conversions_sign`: a sign with its conversion; what is behind is read on as text.
* `conversions_text`: text without a sign has no conversion.
-/

namespace Printf

def isFlag (c : Char) : Bool := c = '-' || c = '+' || c = ' ' || c = '#' || c = '0'

def isLength (c : Char) : Bool := c ∈ ['h', 'l', 'L', 'q', 'j', 'z', 'Z', 't']

def isModifier (c : Char) : Bool := isFlag c || c.isDigit || c = '.' || isLength c

/-- A period, and digits. -/
def dropPrecision : List Char → List Char
  | [] => []
  | c :: s => if c = '.' then s.dropWhile Char.isDigit else c :: s

/-- One letter, or `hh`, or `ll`. -/
def dropLength : List Char → List Char
  | [] => []
  | c :: s =>
    if isLength c then if (c = 'h' ∨ c = 'l') ∧ s.head? = some c then s.tail else s else c :: s

/-- From the conversion character on, of what is behind a sign. -/
def afterModifiers (s : List Char) : List Char :=
  dropLength (dropPrecision ((s.dropWhile isFlag).dropWhile Char.isDigit))

/-- The conversion character of a sign. -/
def conv (s : List Char) : Option Char := (afterModifiers s).head?

/-- `skip` characters belong to the conversion before. -/
def conversionsFrom : Nat → List Char → List Char
  | _, [] => []
  | skip + 1, _ :: s => conversionsFrom skip s
  | 0, c :: s =>
    if c = '%' then
      match conv s with
      | none => []
      | some d =>
        let rest := conversionsFrom (s.length - (afterModifiers s).length + 1) s
        if d = '%' then rest else d :: rest
    else conversionsFrom 0 s

def conversions (s : List Char) : List Char := conversionsFrom 0 s

variable {p : Char → Bool} {c d : Char} {s t q r : List Char}

/-! ## Modifiers -/

theorem dropWhile_append_of_ne_nil (h : s.dropWhile p ≠ []) :
    (s ++ q).dropWhile p = s.dropWhile p ++ q := by
  induction s with
  | nil => exact absurd rfl h
  | cons c s ih =>
    rw [List.cons_append]
    by_cases hc : p c = true
    · rw [List.dropWhile_cons_of_pos hc] at h ⊢
      rw [List.dropWhile_cons_of_pos hc]
      exact ih h
    · rw [List.dropWhile_cons_of_neg hc, List.dropWhile_cons_of_neg hc]
      rfl

theorem dropPrecision_cons (c : Char) (s : List Char) :
    dropPrecision (c :: s) = if c = '.' then s.dropWhile Char.isDigit else c :: s := rfl

theorem dropLength_cons (c : Char) (s : List Char) :
    dropLength (c :: s) =
      if isLength c then if (c = 'h' ∨ c = 'l') ∧ s.head? = some c then s.tail else s
      else c :: s := rfl

theorem dropPrecision_append (h : dropPrecision s ≠ []) :
    dropPrecision (s ++ q) = dropPrecision s ++ q := by
  cases s with
  | nil => exact absurd rfl h
  | cons c s =>
    rw [dropPrecision_cons] at h
    rw [List.cons_append, dropPrecision_cons, dropPrecision_cons]
    split at h
    · next hc =>
      rw [if_pos hc, if_pos hc]
      exact dropWhile_append_of_ne_nil h
    · next hc =>
      rw [if_neg hc, if_neg hc]
      rfl

theorem dropLength_append (h : dropLength s ≠ []) : dropLength (s ++ q) = dropLength s ++ q := by
  cases s with
  | nil => exact absurd rfl h
  | cons c s =>
    rw [dropLength_cons] at h
    rw [List.cons_append, dropLength_cons, dropLength_cons]
    by_cases hc : isLength c = true
    · rw [if_pos hc] at h
      rw [if_pos hc, if_pos hc]
      cases s with
      | nil =>
        rw [if_neg (fun hd => by cases hd.2)] at h
        exact absurd rfl h
      | cons d s =>
        rw [List.cons_append, List.head?_cons, List.head?_cons]
        split
        · rfl
        · rfl
    · rw [if_neg hc, if_neg hc]
      rfl

/-- More text does not change a conversion. -/
theorem afterModifiers_append (h : afterModifiers s ≠ []) :
    afterModifiers (s ++ q) = afterModifiers s ++ q := by
  unfold afterModifiers at h ⊢
  have hlength : dropPrecision ((s.dropWhile isFlag).dropWhile Char.isDigit) ≠ [] := by
    intro hn
    rw [hn] at h
    exact h rfl
  have hdigits : (s.dropWhile isFlag).dropWhile Char.isDigit ≠ [] := by
    intro hn
    rw [hn] at hlength
    exact hlength rfl
  have hflags : s.dropWhile isFlag ≠ [] := by
    intro hn
    rw [hn] at hdigits
    exact hdigits rfl
  rw [dropWhile_append_of_ne_nil hflags, dropWhile_append_of_ne_nil hdigits,
    dropPrecision_append hlength, dropLength_append h]

/-- `t` is `s` without some modifiers in front. -/
def Drops (s t : List Char) : Prop := ∃ m, s = m ++ t ∧ ∀ c ∈ m, isModifier c = true

theorem Drops.refl (s : List Char) : Drops s s := ⟨[], rfl, fun c h => by cases h⟩

theorem Drops.trans (h : Drops s t) (h' : Drops t r) : Drops s r := by
  obtain ⟨m, rfl, hm⟩ := h
  obtain ⟨m', rfl, hm'⟩ := h'
  refine ⟨m ++ m', (List.append_assoc ..).symm, fun c hc => ?_⟩
  rcases List.mem_append.mp hc with hc | hc
  · exact hm c hc
  · exact hm' c hc

theorem Drops.cons (hc : isModifier c = true) : Drops (c :: s) s :=
  ⟨[c], rfl, fun _ hd => (List.mem_singleton.mp hd) ▸ hc⟩

theorem drops_dropWhile (hp : ∀ c, p c = true → isModifier c = true) (s : List Char) :
    Drops s (s.dropWhile p) :=
  ⟨s.takeWhile p, (List.takeWhile_append_dropWhile ..).symm,
    fun c hc => hp c (List.mem_takeWhile_imp hc)⟩

theorem isModifier_flag (c : Char) (h : isFlag c = true) : isModifier c = true := by
  unfold isModifier
  rw [h]
  rfl

theorem isModifier_digit (c : Char) (h : c.isDigit = true) : isModifier c = true := by
  unfold isModifier
  rw [h, Bool.or_true]
  rfl

theorem isModifier_length (c : Char) (h : isLength c = true) : isModifier c = true := by
  unfold isModifier
  rw [h, Bool.or_true]

theorem drops_dropPrecision (s : List Char) : Drops s (dropPrecision s) := by
  cases s with
  | nil => exact Drops.refl _
  | cons c s =>
    rw [dropPrecision_cons]
    split
    · next hc =>
      subst hc
      exact (Drops.cons rfl).trans (drops_dropWhile isModifier_digit s)
    · exact Drops.refl _

theorem drops_dropLength (s : List Char) : Drops s (dropLength s) := by
  cases s with
  | nil => exact Drops.refl _
  | cons c s =>
    rw [dropLength_cons]
    split
    · next hc =>
      have hone := @Drops.cons c s (isModifier_length c hc)
      split
      · next hd =>
        obtain ⟨d, s, rfl⟩ : ∃ d s', s = d :: s' := by
          cases s with
          | nil => cases hd.2
          | cons d s => exact ⟨d, s, rfl⟩
        obtain rfl := Option.some_inj.mp hd.2
        exact hone.trans (Drops.cons (isModifier_length d hc))
      · exact hone
    · exact Drops.refl _

/-- Between a sign and its conversion character are modifiers. -/
theorem modifiers_split (s : List Char) : Drops s (afterModifiers s) :=
  (drops_dropWhile isModifier_flag s).trans <|
    (drops_dropWhile isModifier_digit _).trans <|
      (drops_dropPrecision _).trans (drops_dropLength _)

/-- Digits, and a character that is no modifier. -/
theorem afterModifiers_digits (ht : ∀ d ∈ t, d.isDigit = true) (hc : isModifier c = false) :
    afterModifiers (t ++ c :: s) = c :: s := by
  unfold isModifier at hc
  rw [Bool.or_eq_false_iff, Bool.or_eq_false_iff, Bool.or_eq_false_iff,
    decide_eq_false_iff_not] at hc
  obtain ⟨⟨⟨hflag, hdigit⟩, hperiod⟩, hlength⟩ := hc
  have hsub : ∀ d ∈ t.dropWhile isFlag, d.isDigit = true :=
    fun d hd => ht d ((List.dropWhile_sublist _).mem hd)
  have hflags : (t ++ c :: s).dropWhile isFlag = t.dropWhile isFlag ++ c :: s := by
    by_cases hn : t.dropWhile isFlag = []
    · rw [hn, List.dropWhile_append, hn]
      exact List.dropWhile_cons_of_neg (by rw [hflag]; simp)
    · exact dropWhile_append_of_ne_nil hn
  unfold afterModifiers
  rw [hflags, List.dropWhile_append_of_pos hsub, List.dropWhile_cons_of_neg (by rw [hdigit]; simp)]
  rw [dropPrecision_cons, if_neg hperiod, dropLength_cons, if_neg (by rw [hlength]; simp)]

/-! ## Conversions -/

theorem conversionsFrom_drop (skip : Nat) (s : List Char) :
    conversionsFrom skip s = conversions (s.drop skip) := by
  induction s generalizing skip with
  | nil =>
    rw [List.drop_nil]
    cases skip <;> rfl
  | cons c s ih =>
    cases skip with
    | zero => rfl
    | succ skip => exact ih skip

theorem conversions_cons (h : c ≠ '%') : conversions (c :: s) = conversions s := by
  unfold conversions
  rw [conversionsFrom, if_neg h]

theorem conversions_text (h : ∀ c ∈ t, c ≠ '%') : conversions (t ++ s) = conversions s := by
  induction t with
  | nil => rfl
  | cons c t ih =>
    rw [List.cons_append, conversions_cons (h c List.mem_cons_self)]
    exact ih fun d hd => h d (List.mem_cons_of_mem c hd)

theorem isModifier_ne (h : isModifier c = true) : c ≠ '%' := by
  rintro rfl
  revert h
  decide

/-- A sign whose conversion is not `%%`. -/
theorem conversions_sign (hs : afterModifiers s = d :: r) (hd : d ≠ '%') :
    conversions ('%' :: s) = d :: conversions s := by
  obtain ⟨m, hm, hall⟩ := modifiers_split s
  have hlen : s.length - (afterModifiers s).length = m.length := by
    have hl := congrArg List.length hm
    rw [List.length_append] at hl
    omega
  have hconv : conv s = some d := by
    unfold conv
    rw [hs]
    rfl
  rw [hs] at hm
  unfold conversions
  rw [conversionsFrom, if_pos rfl, hconv]
  dsimp only
  rw [if_neg hd, conversionsFrom_drop, hlen]
  have hrest : conversions (s.drop (m.length + 1)) = conversions s := by
    have htext : ∀ c ∈ m ++ [d], c ≠ '%' := by
      intro c hc
      rcases List.mem_append.mp hc with hc | hc
      · exact isModifier_ne (hall c hc)
      · exact (List.mem_singleton.mp hc) ▸ hd
    have hs' : s = (m ++ [d]) ++ r := by rw [hm, List.append_assoc]; rfl
    rw [hs', conversions_text htext, ← List.drop_drop]
    simp
  exact congrArg (d :: ·) hrest

end Printf
