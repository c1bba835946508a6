import Bcmdhd.EventLog.Parse
import Bcmdhd.Lib.Printf

/-!
# Messages of the firmware (`dhd_dbg_verboselog_printf`)

A record names a format of the format table, and its words are the arguments.  The words stay words,
but for those of `%s`: there a copy of a static string of the firmware, or a text with the address,
is the argument.

    the message is printed with the format `fmt` and `args` →
      (PrintsSafely fmt args  ↔  Plain (argCount h - 1) (replacePercentPToX (localFmt …)))
                                                                       (verboselog_printf_iff)

`Plain`: of the signs that are looked at, each `%s` has nothing but digits before the `s`, and if
none is refused, the format has at most 16 conversions.
-/

namespace Bcmdhd.EventLog.VerboseLog

open Records Printf

/-! ## Algorithm -/

def FMTSTR_SIZE : Nat := 200
def SIZE_LOC_STR : Nat := 50
def EL_MSEC_PER_SEC : Nat := 1000
def EVENT_LOG_TAG_MSCHPROFILE : Nat := 142
def DHD_EVENT_VAL : Nat := 0x800
def DHD_FWLOG_VAL : Nat := 0x400000
def DHD_PRSRV_MEM_VAL : Nat := 0x40000000
def NUL : Char := Char.ofNat 0

/-- The flags, the field width and the precision, as `replace_percent_p_to_x` skips them. -/
def skipModifiers (s : List Char) : List Char :=
  let s := if s.head? = some '#' then s.tail else s
  let s := if s.head?.any (· ∈ ['0', '-', '+']) then s.tail else s
  let s := s.dropWhile Char.isDigit
  if s.head? = some '.' then s.tail.dropWhile Char.isDigit else s

/-- `skip` characters are passed, and the last of them is the conversion. -/
def replaceFrom : Nat → List Char → List Char
  | _, [] => []
  | 0, c :: s =>
    c :: (if c = '%' then replaceFrom (s.length - (skipModifiers s).length + 1) s
      else replaceFrom 0 s)
  | 1, c :: s => (if c = 'p' then 'x' else c) :: replaceFrom 0 s
  | skip + 2, c :: s => c :: replaceFrom (skip + 1) s

/-- Replace all %p to %x to handle 32 bit %p -/
def replacePercentPToX (s : List Char) : List Char := replaceFrom 0 s

/-- To identify format of types %Ns where N >= 0 is a number -/
def checkValidStringFormat (currPtr : List Char) : Bool :=
  match currPtr.idxOf? 's' with
  | none => false
  | some i => (currPtr.take i).all Char.isDigit

def validFmtTypes : List Char :=
  ['d', 'i', 'x', 'X', 'c', 'p', 'u', 'f', 'F', 'e', 'E', 'g', 'G', 'o', 'a', 'A', 'n']

/-- The loop of `check_valid_non_string_format`; `nextFmt` is where the next sign is. -/
def nonStringLoop (nextFmt : Option Nat) : Nat → List Char → Bool
  | _, [] => false
  | pos, c :: s =>
    if c ∈ validFmtTypes then nextFmt.all (pos < ·) else nonStringLoop nextFmt (pos + 1) s

/-- To identify format of non string format types -/
def checkValidNonStringFormat (currPtr : List Char) : Bool :=
  nonStringLoop (currPtr.idxOf? '%') 0 currPtr

/-- A table of static strings. -/
structure Sstr where
  raw : Option (Nat → Char)
  rodataStart : Nat
  rodataEnd : Nat

/-- The static string at `w`, as it is copied. -/
def Sstr.copy (t : Sstr) (w : Nat) : Option (List Char) :=
  match t.raw with
  | none => none
  | some raw =>
    if t.rodataStart < w ∧ w < t.rodataEnd then
      some ((readAt raw (w - t.rodataStart) SIZE_LOC_STR).set (SIZE_LOC_STR - 1) NUL)
    else none

/-- `dhd_event_log_t` -/
structure LogEvent where
  fmts : Option (List (List Char))
  ram : Sstr
  rom : Sstr

/-- `str_buf[count]` of a `%s`: a static string, or the address of a dynamic one as a text -/
def strBuf (ev : LogEvent) (w : Nat) : List Char :=
  match ev.ram.copy w with
  | some buf => buf
  | none =>
    match ev.rom.copy w with
    | some buf => buf
    | none =>
      (['(', 's', ')', '0', 'x'] ++ Nat.toDigits 16 w).take (SIZE_LOC_STR - 1) ++ [NUL]

/-- `u_arg`: left as zero, a word, or the address of a local buffer -/
inductive Arg
  | left
  | val (w : Nat)
  | addr (buf : List Char)
  deriving DecidableEq

/-- The loop over the arguments, with `c_ptr` in the format: the format from there on, and what is
set of `arg`. -/
def setArgs (ev : LogEvent) : List Nat → List Char → List Char × List Arg
  | [], cPtr => (cPtr, [])
  | w :: ws, cPtr =>
    match cPtr.idxOf? '%' with
    | none => (cPtr, [])
    | some i =>
      let next := cPtr.drop (i + 1)
      let r := setArgs ev ws next
      if checkValidStringFormat next then (cPtr.take (i + 1) ++ r.1, .addr (strBuf ev w) :: r.2)
      else if checkValidNonStringFormat next then (cPtr.take (i + 1) ++ r.1, .val w :: r.2)
      -- Terminate the string at current .
      else (cPtr.take i, [])

def padded (width n : Nat) : List Char :=
  let digits := Nat.toDigits 10 n
  List.replicate (width - digits.length) '0' ++ digits

/-- What is before the message: the log set, the block and the time. -/
def console (logset block time : Nat) : List Char :=
  ['C', 'O', 'N', 'S', 'O', 'L', 'E', '_', 'E', ':'] ++ Nat.toDigits 10 logset ++ [':'] ++
    Nat.toDigits 10 block ++ [' '] ++ padded 6 (time / EL_MSEC_PER_SEC) ++ ['.'] ++
    padded 3 (time % EL_MSEC_PER_SEC) ++ [' ']

/-- `fmtstr_loc_buf` -/
def localFmt (h : PrcdEventLogHdr) (logset block time : Nat) (fmt : List Char) : List Char :=
  (if h.tag = EVENT_LOG_TAG_MSCHPROFILE then fmt else console logset block time ++ fmt).take
    (FMTSTR_SIZE - 1)

/-- `plog_hdr->count`, when the arguments are set -/
def argCount (h : PrcdEventLogHdr) : Nat :=
  if h.tag = EVENT_LOG_TAG_MSCHPROFILE then (h.count + 1) % 0x100000000 else h.count

/-- What the function gets from elsewhere. -/
structure Dhd where
  /-- `control_logtrace` is `LOGTRACE_RAW_FMT` -/
  logtraceRawFmt : Bool
  eventLogMaxSets : Nat
  logsetPrsrvMask : Nat
  msgLevel : Nat
  /-- there is memory for `str_buf` -/
  strBufOk : Bool

/-- The message goes to `printk`. -/
def prints (d : Dhd) (logset : Nat) : Bool :=
  if logset < d.eventLogMaxSets ∧ (1 <<< logset) &&& d.logsetPrsrvMask ≠ 0 then
    d.msgLevel &&& DHD_EVENT_VAL ≠ 0 ∧ d.msgLevel &&& DHD_PRSRV_MEM_VAL ≠ 0
  else d.msgLevel &&& DHD_FWLOG_VAL ≠ 0

/-- The format and the arguments of the `printk` at the end.  The callers see to it that `count` is
not 0: the last word is the time. -/
def dhdDbgVerboselogPrintf (d : Dhd) (h : PrcdEventLogHdr) (ev : LogEvent) (logPtr : Nat → Nat)
    (logset block : Nat) : Option (List Char × List Arg) :=
  match ev.fmts with
  | none => none
  | some fmts =>
    if d.logtraceRawFmt ∨ !d.strBufOk then none
    else
      match fmts[h.fmtNum]? with
      | none => none
      | some fmt =>
        if h.binaryPayload then none
        else if MAX_NO_OF_ARG < argCount h then none
        else if prints d logset then
          some (setArgs ev ((List.range (argCount h - 1)).map logPtr)
            (replacePercentPToX (localFmt h logset block (logPtr (h.count - 1)) fmt)))
        else none

/-! ## Specification -/

/-- `%s` can take it: it is the address of a local string, or was left as zero. -/
def Arg.Printable : Arg → Prop
  | .left => True
  | .val _ => False
  | .addr buf => NUL ∈ buf

structure PrintsSafely (fmt : List Char) (args : List Arg) : Prop where
  strings : ∀ i, (conversions fmt)[i]? = some 's' → (args.getD i .left).Printable
  enough : (conversions fmt).length ≤ MAX_NO_OF_ARG

/-- What is behind each sign. -/
def signs : List Char → List (List Char)
  | [] => []
  | c :: s => if c = '%' then s :: signs s else signs s

def accepted (s : List Char) : Bool := checkValidStringFormat s || checkValidNonStringFormat s

/-- The first `n` signs, before one that both checks refuse. -/
def reached (n : Nat) (fmt : List Char) : List (List Char) :=
  ((signs fmt).take n).takeWhile accepted

structure Plain (n : Nat) (fmt : List Char) : Prop where
  digits : ∀ s ∈ reached n fmt, conv s = some 's' → (s.dropWhile Char.isDigit).head? = some 's'
  few : (∃ s ∈ (signs fmt).take n, accepted s = false) ∨ (conversions fmt).length ≤ MAX_NO_OF_ARG

/-! ## The checks -/

section
variable {s : List Char} {c d : Char} {n pos i : Nat}

theorem idxOf?_cases (c : Char) (s : List Char) :
    (s.idxOf? c = none ∧ ∀ d ∈ s, d ≠ c) ∨
      ∃ before after, s = before ++ c :: after ∧ (∀ d ∈ before, d ≠ c) ∧
        s.idxOf? c = some before.length := by
  induction s with
  | nil => exact Or.inl ⟨rfl, fun d h => by cases h⟩
  | cons d s ih =>
    rw [List.idxOf?_cons]
    by_cases hd : d = c
    · subst hd
      exact Or.inr ⟨[], s, rfl, (fun e h => by cases h), if_pos (beq_self_eq_true d)⟩
    · rw [if_neg (by simpa using hd)]
      rcases ih with ⟨hnone, hall⟩ | ⟨before, after, rfl, hall, hsome⟩
      · rw [hnone]
        exact Or.inl ⟨rfl, List.forall_mem_cons.mpr ⟨hd, hall⟩⟩
      · rw [hsome]
        exact Or.inr ⟨d :: before, after, rfl, List.forall_mem_cons.mpr ⟨hd, hall⟩, rfl⟩

/-- `%Ns` -/
theorem checkValidStringFormat_iff :
    checkValidStringFormat s = true ↔ (s.dropWhile Char.isDigit).head? = some 's' := by
  unfold checkValidStringFormat
  rcases idxOf?_cases 's' s with ⟨hnone, hall⟩ | ⟨before, after, rfl, hall, hsome⟩
  · rw [hnone]
    refine iff_of_false Bool.false_ne_true fun h => ?_
    exact hall 's' ((List.dropWhile_sublist _).mem (List.mem_of_head? h)) rfl
  · rw [hsome]
    dsimp only
    rw [List.take_left' rfl, List.all_eq_true]
    constructor
    · intro h
      rw [List.dropWhile_append_of_pos h]
      rfl
    · intro h
      by_contra hn
      obtain ⟨d, hd, hdigit⟩ : ∃ d ∈ before, ¬ d.isDigit = true := by
        by_contra hn'
        exact hn fun d hd => by_contra fun hne => hn' ⟨d, hd, hne⟩
      have hne : before.dropWhile Char.isDigit ≠ [] := by
        intro hnil
        rw [List.dropWhile_eq_nil_iff] at hnil
        exact hdigit (hnil d hd)
      rw [dropWhile_append_of_ne_nil hne, List.head?_append_of_ne_nil _ hne] at h
      exact hall 's' ((List.dropWhile_sublist _).mem (List.mem_of_head? h)) rfl

theorem nonStringLoop_past (h : n ≤ pos) : nonStringLoop (some n) pos s = false := by
  induction s generalizing pos with
  | nil => rfl
  | cons c s ih =>
    unfold nonStringLoop
    split
    · exact decide_eq_false (by omega)
    · exact ih (by omega)

theorem percent_not_valid : '%' ∉ validFmtTypes := by decide

theorem nonStringLoop_eq (pos : Nat) (s : List Char) :
    nonStringLoop ((s.idxOf? '%').map (· + pos)) pos s =
      (s.takeWhile (· ≠ '%')).any (· ∈ validFmtTypes) := by
  induction s generalizing pos with
  | nil => rfl
  | cons c s ih =>
    rw [List.idxOf?_cons]
    by_cases hc : c = '%'
    · subst hc
      rw [if_pos (beq_self_eq_true '%'), List.takeWhile_cons_of_neg (by simp)]
      unfold nonStringLoop
      rw [if_neg percent_not_valid]
      have hle : 0 + pos ≤ pos + 1 := by omega
      exact nonStringLoop_past hle
    · rw [if_neg (by simpa using hc), List.takeWhile_cons_of_pos (by simpa using hc), List.any_cons,
        Option.map_map]
      unfold nonStringLoop
      split
      · next hv =>
        rw [decide_eq_true hv, Bool.true_or]
        cases s.idxOf? '%' with
        | none => rfl
        | some i => exact decide_eq_true (by simp only [Function.comp]; omega)
      · next hv =>
        rw [decide_eq_false hv, Bool.false_or, ← ih (pos + 1)]
        congr 2
        funext i
        simp only [Function.comp]
        omega

/-- A letter of a type comes before the next sign. -/
theorem checkValidNonStringFormat_eq :
    checkValidNonStringFormat s = (s.takeWhile (· ≠ '%')).any (· ∈ validFmtTypes) := by
  rw [← nonStringLoop_eq 0 s]
  unfold checkValidNonStringFormat
  cases s.idxOf? '%' <;> rfl

end

/-! ## Signs -/

section
variable {s q : List Char} {c : Char} {n : Nat}

theorem valid_not_modifier {v : Char} (h : v ∈ validFmtTypes) : isModifier v = false := by
  have hall : validFmtTypes.all (fun v => !isModifier v) = true := rfl
  exact (Bool.not_eq_true' _).mp (List.all_eq_true.mp hall v h)

theorem s_not_modifier : isModifier 's' = false := by decide

theorem eq_of_string (h : checkValidStringFormat s = true) :
    ∃ t r, s = t ++ 's' :: r ∧ ∀ d ∈ t, d.isDigit = true := by
  rw [checkValidStringFormat_iff] at h
  refine ⟨s.takeWhile Char.isDigit, (s.dropWhile Char.isDigit).tail, ?_, fun d hd => ?_⟩
  · rw [List.cons_head?_tail h, List.takeWhile_append_dropWhile]
  · exact List.mem_takeWhile_imp hd

theorem digit_ne {d : Char} (h : d.isDigit = true) : d ≠ '%' := isModifier_ne (isModifier_digit d h)

/-- An accepted sign has a conversion, before the next sign. -/
theorem accepted_conv (h : accepted s = true) :
    ∃ c r, afterModifiers (s.takeWhile (· ≠ '%')) = c :: r ∧ c ≠ '%' := by
  have hne : afterModifiers (s.takeWhile (· ≠ '%')) ≠ [] := by
    unfold accepted at h
    rw [Bool.or_eq_true] at h
    rcases h with h | h
    · obtain ⟨t, r, rfl, ht⟩ := eq_of_string h
      rw [List.takeWhile_append_of_pos (fun d hd => by simpa using digit_ne (ht d hd)),
        List.takeWhile_cons_of_pos (by decide), afterModifiers_digits ht s_not_modifier]
      exact List.cons_ne_nil _ _
    · rw [checkValidNonStringFormat_eq, List.any_eq_true] at h
      obtain ⟨v, hv, hvalid⟩ := h
      intro hnil
      obtain ⟨m, hm, hall⟩ := modifiers_split (s.takeWhile (· ≠ '%'))
      rw [hnil, List.append_nil] at hm
      rw [hm] at hv
      have hmod := hall v hv
      rw [valid_not_modifier (of_decide_eq_true hvalid)] at hmod
      cases hmod
  obtain ⟨c, r, hcr⟩ := List.exists_cons_of_ne_nil hne
  refine ⟨c, r, hcr, ?_⟩
  obtain ⟨m, hm, -⟩ := modifiers_split (s.takeWhile (· ≠ '%'))
  have hmem : c ∈ s.takeWhile (· ≠ '%') := by
    rw [hm, hcr]
    exact List.mem_append_right m List.mem_cons_self
  simpa using List.mem_takeWhile_imp hmem

/-- Whatever comes from the next sign on. -/
theorem accepted_append (h : accepted s = true) :
    ∃ c, conv s = some c ∧ ∀ q, conversions ('%' :: (s.takeWhile (· ≠ '%') ++ q)) =
      c :: conversions (s.takeWhile (· ≠ '%') ++ q) := by
  obtain ⟨c, r, hcr, hc⟩ := accepted_conv h
  have happ : ∀ q, afterModifiers (s.takeWhile (· ≠ '%') ++ q) = c :: (r ++ q) := by
    intro q
    rw [afterModifiers_append (by rw [hcr]; exact List.cons_ne_nil c r), hcr]
    rfl
  refine ⟨c, ?_, fun q => conversions_sign (happ q) hc⟩
  have hs := happ (s.dropWhile (· ≠ '%'))
  rw [List.takeWhile_append_dropWhile] at hs
  unfold conv
  rw [hs]
  rfl

theorem signs_text {t : List Char} (ht : ∀ d ∈ t, d ≠ '%') : signs (t ++ s) = signs s := by
  induction t with
  | nil => rfl
  | cons c t ih =>
    rw [List.cons_append, signs, if_neg (ht c List.mem_cons_self)]
    exact ih fun d hd => ht d (List.mem_cons_of_mem c hd)

theorem signs_none (h : ∀ d ∈ s, d ≠ '%') : signs s = [] := by
  have htext := @signs_text [] s h
  rwa [List.append_nil] at htext

theorem signs_sign : signs ('%' :: s) = s :: signs s := if_pos rfl

end

/-! ## The loop -/

section
variable {ev : LogEvent} {ws : List Nat} {w : Nat} {s before after : List Char}

/-- No sign is left. -/
theorem setArgs_none (h : s.idxOf? '%' = none) : setArgs ev ws s = (s, []) := by
  cases ws with
  | nil => rfl
  | cons w ws =>
    unfold setArgs
    rw [h]

/-- The argument of a sign, that both checks do not refuse. -/
def argOf (ev : LogEvent) (w : Nat) (after : List Char) : Arg :=
  if checkValidStringFormat after then .addr (strBuf ev w) else .val w

theorem setArgs_sign (h : (before ++ '%' :: after).idxOf? '%' = some before.length) :
    setArgs ev (w :: ws) (before ++ '%' :: after) =
      if accepted after then
        (before ++ '%' :: (setArgs ev ws after).1, argOf ev w after :: (setArgs ev ws after).2)
      else (before, []) := by
  have htake : (before ++ '%' :: after).take (before.length + 1) = before ++ ['%'] := by
    rw [List.append_cons]
    exact List.take_left' (by simp)
  have hdrop : (before ++ '%' :: after).drop (before.length + 1) = after := by
    rw [List.append_cons]
    exact List.drop_left' (by simp)
  rw [setArgs, h]
  dsimp only
  rw [htake, hdrop, List.take_left' rfl, List.append_assoc, List.singleton_append]
  unfold accepted argOf
  cases checkValidStringFormat after with
  | true => rfl
  | false =>
    cases checkValidNonStringFormat after with
    | true => rfl
    | false => rfl

/-- The text before the next sign is kept. -/
theorem setArgs_text (ev : LogEvent) (ws : List Nat) (s : List Char) :
    ∃ q, (setArgs ev ws s).1 = s.takeWhile (· ≠ '%') ++ q := by
  rcases idxOf?_cases '%' s with ⟨hnone, -⟩ | ⟨before, after, rfl, hall, hsome⟩
  · rw [setArgs_none hnone]
    exact ⟨s.dropWhile (· ≠ '%'), (List.takeWhile_append_dropWhile ..).symm⟩
  · have htext : (before ++ '%' :: after).takeWhile (· ≠ '%') = before := by
      rw [List.takeWhile_append_of_pos (fun d hd => by simpa using hall d hd),
        List.takeWhile_cons_of_neg (by decide), List.append_nil]
    rw [htext]
    cases ws with
    | nil => exact ⟨'%' :: after, rfl⟩
    | cons w ws =>
      rw [setArgs_sign hsome]
      split
      · exact ⟨_, rfl⟩
      · exact ⟨[], (List.append_nil before).symm⟩

/-- A sign that is accepted gives one conversion. -/
theorem conversions_setArgs (hall : ∀ d ∈ before, d ≠ '%') (h : accepted after = true) :
    ∃ c, conv after = some c ∧ conversions (before ++ '%' :: (setArgs ev ws after).1) =
      c :: conversions (setArgs ev ws after).1 := by
  obtain ⟨c, hc, happ⟩ := accepted_append h
  obtain ⟨q, hq⟩ := setArgs_text ev ws after
  refine ⟨c, hc, ?_⟩
  rw [conversions_text hall, hq]
  exact happ q

theorem reached_sign (hall : ∀ d ∈ before, d ≠ '%') (n : Nat) :
    reached (n + 1) (before ++ '%' :: after) =
      if accepted after then after :: reached n after else [] := by
  unfold reached
  rw [signs_text hall, signs_sign, List.take_succ_cons, List.takeWhile_cons]

theorem strBuf_nul (ev : LogEvent) (w : Nat) : NUL ∈ strBuf ev w := by
  have hcopy : ∀ (t : Sstr) (buf : List Char), t.copy w = some buf → NUL ∈ buf := by
    intro t buf h
    unfold Sstr.copy at h
    split at h
    · cases h
    · split at h
      · obtain rfl := Option.some_inj.mp h
        exact List.mem_set (by rw [readAt_length]; decide) NUL
      · cases h
  unfold strBuf
  split
  · next buf h => exact hcopy _ buf h
  · split
    · next buf h => exact hcopy _ buf h
    · exact List.mem_append_right _ List.mem_cons_self

theorem printable_argOf : (argOf ev w after).Printable ↔ checkValidStringFormat after = true := by
  unfold argOf
  split
  · next h => exact iff_of_true (strBuf_nul ev w) h
  · next h => exact iff_of_false id h

/-- Strings go where strings are asked for, just if each `%s` that is reached is taken for one. -/
theorem strings_iff (ws : List Nat) (s : List Char) :
    (∀ i, (conversions (setArgs ev ws s).1)[i]? = some 's' →
      ((setArgs ev ws s).2.getD i .left).Printable) ↔
    ∀ t ∈ reached ws.length s, conv t = some 's' → checkValidStringFormat t = true := by
  induction ws generalizing s with
  | nil => exact iff_of_true (fun i _ => trivial) (fun t ht => by cases ht)
  | cons w ws ih =>
    rcases idxOf?_cases '%' s with ⟨hnone, hall⟩ | ⟨before, after, rfl, hall, hsome⟩
    · rw [setArgs_none hnone]
      refine iff_of_true (fun i _ => trivial) ?_
      unfold reached
      rw [signs_none hall]
      exact fun t ht => by cases ht
    · rw [setArgs_sign hsome, List.length_cons, reached_sign hall]
      by_cases hacc : accepted after = true
      · obtain ⟨c, hc, hconv⟩ := @conversions_setArgs ev ws before after hall hacc
        rw [if_pos hacc, if_pos hacc, hconv, List.forall_mem_cons, ← ih after, hc,
          Option.some_inj, ← @printable_argOf ev w after]
        constructor
        · exact fun h => ⟨fun hs => h 0 (congrArg some hs), fun i hi => h (i + 1) hi⟩
        · rintro ⟨hzero, hrest⟩ i hi
          cases i with
          | zero => exact hzero (Option.some_inj.mp hi)
          | succ i => exact hrest i hi
      · rw [if_neg hacc, if_neg hacc]
        exact iff_of_true (fun i _ => trivial) (fun t ht => by cases ht)

/-- A refused sign ends the format. -/
theorem conversions_le_of_refused (h : ∃ t ∈ (signs s).take ws.length, accepted t = false) :
    (conversions (setArgs ev ws s).1).length ≤ ws.length := by
  induction ws generalizing s with
  | nil =>
    obtain ⟨t, ht, -⟩ := h
    cases ht
  | cons w ws ih =>
    rcases idxOf?_cases '%' s with ⟨-, hall⟩ | ⟨before, after, rfl, hall, hsome⟩
    · obtain ⟨t, ht, -⟩ := h
      rw [signs_none hall] at ht
      cases ht
    · rw [setArgs_sign hsome]
      by_cases hacc : accepted after = true
      · obtain ⟨c, -, hconv⟩ := @conversions_setArgs ev ws before after hall hacc
        rw [if_pos hacc, hconv]
        refine Nat.succ_le_succ (ih ?_)
        obtain ⟨t, ht, href⟩ := h
        rw [signs_text hall, signs_sign, List.length_cons, List.take_succ_cons] at ht
        rcases List.mem_cons.mp ht with rfl | ht
        · rw [hacc] at href
          cases href
        · exact ⟨t, ht, href⟩
      · have htext := @conversions_text [] before hall
        rw [if_neg hacc, ← List.append_nil before, htext]
        exact Nat.zero_le _

/-- When no sign is refused the format is printed as it is. -/
theorem setArgs_whole (h : ∀ t ∈ (signs s).take ws.length, accepted t = true) :
    (setArgs ev ws s).1 = s := by
  induction ws generalizing s with
  | nil => rfl
  | cons w ws ih =>
    rcases idxOf?_cases '%' s with ⟨hnone, -⟩ | ⟨before, after, rfl, hall, hsome⟩
    · rw [setArgs_none hnone]
    · rw [signs_text hall, signs_sign, List.length_cons, List.take_succ_cons,
        List.forall_mem_cons] at h
      rw [setArgs_sign hsome, if_pos h.1]
      exact congrArg (before ++ '%' :: ·) (ih h.2)

theorem enough_iff (hn : ws.length ≤ MAX_NO_OF_ARG) :
    (conversions (setArgs ev ws s).1).length ≤ MAX_NO_OF_ARG ↔
      (∃ t ∈ (signs s).take ws.length, accepted t = false) ∨
        (conversions s).length ≤ MAX_NO_OF_ARG := by
  by_cases href : ∃ t ∈ (signs s).take ws.length, accepted t = false
  · exact iff_of_true ((conversions_le_of_refused href).trans hn) (Or.inl href)
  · have hall : ∀ t ∈ (signs s).take ws.length, accepted t = true := by
      intro t ht
      by_contra hne
      exact href ⟨t, ht, eq_false_of_ne_true hne⟩
    rw [setArgs_whole hall]
    exact (or_iff_right href).symm

end

/-! ## Top theorem -/

theorem setArgs_iff (ev : LogEvent) (ws : List Nat) (s : List Char)
    (hn : ws.length ≤ MAX_NO_OF_ARG) :
    PrintsSafely (setArgs ev ws s).1 (setArgs ev ws s).2 ↔ Plain ws.length s := by
  have hdigits : (∀ t ∈ reached ws.length s, conv t = some 's' → checkValidStringFormat t = true) ↔
      ∀ t ∈ reached ws.length s, conv t = some 's' →
        (t.dropWhile Char.isDigit).head? = some 's' :=
    forall₂_congr fun t _ => imp_congr_right fun _ => checkValidStringFormat_iff
  constructor
  · exact fun h => ⟨hdigits.mp ((strings_iff ws s).mp h.strings), (enough_iff hn).mp h.enough⟩
  · exact fun h => ⟨(strings_iff ws s).mpr (hdigits.mpr h.digits), (enough_iff hn).mpr h.few⟩

/-- What is printed: the arguments are set for a format of the table. -/
theorem printf_eq_some {d : Dhd} {h : PrcdEventLogHdr} {ev : LogEvent} {logPtr : Nat → Nat}
    {logset block : Nat} {fmts : List (List Char)} {raw : List Char} {p : List Char × List Arg}
    (hfmts : ev.fmts = some fmts) (hraw : fmts[h.fmtNum]? = some raw)
    (hp : dhdDbgVerboselogPrintf d h ev logPtr logset block = some p) :
    argCount h ≤ MAX_NO_OF_ARG ∧ p = setArgs ev ((List.range (argCount h - 1)).map logPtr)
      (replacePercentPToX (localFmt h logset block (logPtr (h.count - 1)) raw)) := by
  unfold dhdDbgVerboselogPrintf at hp
  rw [hfmts] at hp
  dsimp only at hp
  rw [hraw] at hp
  dsimp only at hp
  split at hp
  · cases hp
  · split at hp
    · cases hp
    · split at hp
      · cases hp
      · next hmax =>
        split at hp
        · exact ⟨Nat.le_of_not_lt hmax, (Option.some_inj.mp hp).symm⟩
        · cases hp

/-- **Messages.**  No word is printed as a string, and no argument is missing, just if the format is
a plain one. -/
theorem verboselog_printf_iff (d : Dhd) (h : PrcdEventLogHdr) (ev : LogEvent) (logPtr : Nat → Nat)
    (logset block : Nat) (fmts : List (List Char)) (raw fmt : List Char) (args : List Arg)
    (hfmts : ev.fmts = some fmts) (hraw : fmts[h.fmtNum]? = some raw)
    (hp : dhdDbgVerboselogPrintf d h ev logPtr logset block = some (fmt, args)) :
    PrintsSafely fmt args ↔ Plain (argCount h - 1)
      (replacePercentPToX (localFmt h logset block (logPtr (h.count - 1)) raw)) := by
  obtain ⟨hmax, heq⟩ := printf_eq_some hfmts hraw hp
  obtain ⟨rfl, rfl⟩ := Prod.mk.inj heq
  have hlen : ((List.range (argCount h - 1)).map logPtr).length = argCount h - 1 := by
    rw [List.length_map, List.length_range]
  have hiff := setArgs_iff ev ((List.range (argCount h - 1)).map logPtr)
    (replacePercentPToX (localFmt h logset block (logPtr (h.count - 1)) raw)) (by omega)
  rwa [hlen] at hiff

def console0 : Dhd where
  logtraceRawFmt := false
  eventLogMaxSets := 0
  logsetPrsrvMask := 0
  msgLevel := DHD_FWLOG_VAL
  strBufOk := true

def tables (raw : List Char) : LogEvent := ⟨some [raw], ⟨none, 0, 0⟩, ⟨none, 0, 0⟩⟩

/-- A record with one argument, and the time. -/
def oneArg : PrcdEventLogHdr := ⟨0, 2, 0, 0, 0, 0, false, false⟩

def deadbeef (i : Nat) : Nat := if i = 0 then 0xDEADBEEF else 0

/-- `%4s %d` -/
def digitsOnly : List Char := ['%', '4', 's', ' ', '%', 'd']

theorem verboselog_printf_plain :
    ∃ fmt args, dhdDbgVerboselogPrintf console0 oneArg (tables digitsOnly) deadbeef 0 0 =
      some (fmt, args) ∧ PrintsSafely fmt args := by
  refine ⟨_, _, rfl, ?_⟩
  refine (verboselog_printf_iff console0 oneArg (tables digitsOnly) deadbeef 0 0 [digitsOnly]
    digitsOnly _ _ rfl rfl rfl).mpr ⟨?_, ?_⟩
  · decide
  · exact Or.inr (by decide)

/-- `%-4s is` -/
def leftAligned : List Char := ['%', '-', '4', 's', ' ', 'i', 's']

def seventeen : List Char := (List.replicate 17 ['%', 'd']).flatten

/-- A flag is enough: `%-4s` gets the word.  And nothing counts the conversions. -/
theorem verboselog_printf_fails :
    (∃ fmt args, dhdDbgVerboselogPrintf console0 oneArg (tables leftAligned) deadbeef 0 0 =
        some (fmt, args) ∧ (conversions fmt)[0]? = some 's' ∧ args = [.val 0xDEADBEEF] ∧
        ¬ PrintsSafely fmt args) ∧
      ∃ fmt args, dhdDbgVerboselogPrintf console0 oneArg (tables seventeen) deadbeef 0 0 =
        some (fmt, args) ∧ ¬ PrintsSafely fmt args := by
  constructor
  · exact ⟨_, _, rfl, by decide, by decide, fun h => h.strings 0 (by decide)⟩
  · exact ⟨_, _, rfl, fun h => absurd h.enough (by decide)⟩

end Bcmdhd.EventLog.VerboseLog
