import Bcmdhd.EventLog.VerboseLog

/-!
# Static strings (`dhd_dbg_verboselog_printf`)

For a `%s` whose word is an address in a table of static strings, `SIZE_LOC_STR` bytes are copied
from there on.

    the copies for a message lie in their tables  ↔  StringsFit …        (printfCopies_inside)
-/

namespace Bcmdhd.EventLog.VerboseLog

open Records Printf

/-! ## Algorithm -/

/-- `memcpy` of `SIZE_LOC_STR` bytes from the address `addr` on -/
structure Copy where
  table : Sstr
  addr : Nat

/-- The copy to `str_buf[count]`. -/
def copyOf (ev : LogEvent) (w : Nat) : List Copy :=
  if (ev.ram.copy w).isSome then [⟨ev.ram, w⟩]
  else if (ev.rom.copy w).isSome then [⟨ev.rom, w⟩]
  else []

/-- The copies of the loop over the arguments. -/
def copies (ev : LogEvent) : List Nat → List Char → List Copy
  | [], _ => []
  | w :: ws, cPtr =>
    match cPtr.idxOf? '%' with
    | none => []
    | some i =>
      let next := cPtr.drop (i + 1)
      if checkValidStringFormat next then copyOf ev w ++ copies ev ws next
      else if checkValidNonStringFormat next then copies ev ws next
      else []

/-- The arguments of a call. -/
structure Call where
  h : PrcdEventLogHdr
  logPtr : Nat → Nat
  logset : Nat
  block : Nat

/-- The words that are arguments of the message. -/
def Call.args (c : Call) : List Nat := (List.range (argCount c.h - 1)).map c.logPtr

/-- The format, when the arguments are set. -/
def Call.fmt (c : Call) (raw : List Char) : List Char :=
  replacePercentPToX (localFmt c.h c.logset c.block (c.logPtr (c.h.count - 1)) raw)

/-- The copies of `dhd_dbg_verboselog_printf`, which come before it is known whether the message is
printed. -/
def printfCopies (d : Dhd) (ev : LogEvent) (c : Call) : List Copy :=
  match ev.fmts with
  | none => []
  | some fmts =>
    if d.logtraceRawFmt ∨ !d.strBufOk then []
    else
      match fmts[c.h.fmtNum]? with
      | none => []
      | some raw =>
        if c.h.binaryPayload then []
        else if MAX_NO_OF_ARG < argCount c.h then []
        else copies ev c.args (c.fmt raw)

/-! ## Specification -/

def Copy.Inside (c : Copy) : Prop :=
  c.table.rodataStart ≤ c.addr ∧ c.addr + SIZE_LOC_STR ≤ c.table.rodataEnd

def Sstr.Has (t : Sstr) (w : Nat) : Prop := t.raw.isSome ∧ t.rodataStart < w ∧ w < t.rodataEnd

/-- The table that has `w` ends less than `SIZE_LOC_STR` bytes behind it. -/
def NearEnd (ev : LogEvent) (w : Nat) : Prop :=
  (ev.ram.Has w ∧ ev.ram.rodataEnd < w + SIZE_LOC_STR) ∨
    (¬ ev.ram.Has w ∧ ev.rom.Has w ∧ ev.rom.rodataEnd < w + SIZE_LOC_STR)

/-- The message has a format, and not too many arguments. -/
structure Formatted (d : Dhd) (ev : LogEvent) (c : Call) (raw : List Char) : Prop where
  format : ∃ fmts, ev.fmts = some fmts ∧ fmts[c.h.fmtNum]? = some raw
  traced : d.logtraceRawFmt = false
  buf : d.strBufOk = true
  text : c.h.binaryPayload = false
  few : argCount c.h ≤ MAX_NO_OF_ARG

/-- No `%s` that is reached gets an address near the end of a table. -/
def StringsFit (d : Dhd) (ev : LogEvent) (c : Call) : Prop :=
  ∀ raw, Formatted d ev c raw → ∀ p ∈ (reached c.args.length (c.fmt raw)).zip c.args,
    checkValidStringFormat p.1 = true → ¬ NearEnd ev p.2

/-! ## Copies -/

theorem isSome_copy (t : Sstr) (w : Nat) : (t.copy w).isSome = true ↔ t.Has w := by
  unfold Sstr.copy Sstr.Has
  cases t.raw with
  | none => exact iff_of_false Bool.false_ne_true fun h => Bool.false_ne_true h.1
  | some raw =>
    dsimp only
    split
    · next h => exact iff_of_true rfl ⟨rfl, h⟩
    · next h => exact iff_of_false Bool.false_ne_true fun hh => h hh.2

theorem copyOf_inside (ev : LogEvent) (w : Nat) :
    (∀ c ∈ copyOf ev w, c.Inside) ↔ ¬ NearEnd ev w := by
  unfold copyOf NearEnd
  split
  · next h =>
    rw [isSome_copy] at h
    have hstart := h.2.1
    rw [List.forall_mem_singleton]
    unfold Copy.Inside
    dsimp only
    constructor
    · rintro ⟨-, hend⟩ (⟨-, hnear⟩ | ⟨hno, -⟩)
      · omega
      · exact hno h
    · intro hfar
      refine ⟨Nat.le_of_lt hstart, Nat.le_of_not_lt fun hnear => hfar (Or.inl ⟨h, hnear⟩)⟩
  · next hram =>
    rw [isSome_copy] at hram
    split
    · next h =>
      rw [isSome_copy] at h
      have hstart := h.2.1
      rw [List.forall_mem_singleton]
      unfold Copy.Inside
      dsimp only
      constructor
      · rintro ⟨-, hend⟩ (⟨hhas, -⟩ | ⟨-, -, hnear⟩)
        · exact hram hhas
        · omega
      · intro hfar
        exact ⟨Nat.le_of_lt hstart,
          Nat.le_of_not_lt fun hnear => hfar (Or.inr ⟨hram, h, hnear⟩)⟩
    · next hrom =>
      rw [isSome_copy] at hrom
      refine iff_of_true (fun c hc => by cases hc) ?_
      rintro (⟨hhas, -⟩ | ⟨-, hhas, -⟩)
      · exact hram hhas
      · exact hrom hhas

theorem copies_sign {ev : LogEvent} {w : Nat} {ws : List Nat} {before after : List Char}
    (h : (before ++ '%' :: after).idxOf? '%' = some before.length) :
    copies ev (w :: ws) (before ++ '%' :: after) =
      if checkValidStringFormat after then copyOf ev w ++ copies ev ws after
      else if checkValidNonStringFormat after then copies ev ws after
      else [] := by
  have hdrop : (before ++ '%' :: after).drop (before.length + 1) = after := by
    rw [List.append_cons]
    exact List.drop_left' (by simp)
  rw [copies, h]
  dsimp only
  rw [hdrop]

/-- The words of the `%s` that are reached are all that is copied. -/
theorem copies_inside (ev : LogEvent) (ws : List Nat) (s : List Char) :
    (∀ c ∈ copies ev ws s, c.Inside) ↔
      ∀ p ∈ (reached ws.length s).zip ws, checkValidStringFormat p.1 = true → ¬ NearEnd ev p.2 := by
  induction ws generalizing s with
  | nil =>
    rw [List.zip_nil_right]
    exact iff_of_true (fun c hc => by cases hc) (fun p hp => by cases hp)
  | cons w ws ih =>
    rcases idxOf?_cases '%' s with ⟨hnone, hall⟩ | ⟨before, after, rfl, hall, hsome⟩
    · unfold copies reached
      rw [hnone, signs_none hall]
      exact iff_of_true (fun c hc => by cases hc) (fun p hp => by cases hp)
    · rw [copies_sign hsome, List.length_cons, reached_sign hall]
      unfold accepted
      cases hstr : checkValidStringFormat after with
      | true =>
        rw [if_pos rfl, Bool.true_or, if_pos rfl, List.forall_mem_append, ih after,
          copyOf_inside, List.zip_cons_cons, List.forall_mem_cons]
        exact and_congr_left fun _ => ⟨fun h _ => h, fun h => h hstr⟩
      | false =>
        rw [if_neg Bool.false_ne_true, Bool.false_or]
        split
        · rw [ih after, List.zip_cons_cons, List.forall_mem_cons, hstr]
          exact (and_iff_right fun h => (Bool.false_ne_true h).elim).symm
        · exact iff_of_true (fun c hc => by cases hc) (fun p hp => by cases hp)

/-- **Static strings.**  The copies of a message lie in their tables just if no word of a `%s` is
near the end of one. -/
theorem printfCopies_inside (d : Dhd) (ev : LogEvent) (c : Call) :
    (∀ k ∈ printfCopies d ev c, k.Inside) ↔ StringsFit d ev c := by
  by_cases hf : ∃ raw, Formatted d ev c raw
  · obtain ⟨raw, hraw⟩ := hf
    obtain ⟨fmts, hfmts, hget⟩ := hraw.format
    have hcopies : printfCopies d ev c = copies ev c.args (c.fmt raw) := by
      unfold printfCopies
      rw [hfmts]
      dsimp only
      rw [hget, hraw.traced, hraw.buf, hraw.text]
      exact if_neg (Nat.not_lt_of_le hraw.few)
    rw [hcopies, copies_inside]
    constructor
    · intro h raw' hraw'
      obtain ⟨fmts', hfmts', hget'⟩ := hraw'.format
      obtain rfl := Option.some_inj.mp (hfmts.symm.trans hfmts')
      obtain rfl := Option.some_inj.mp (hget.symm.trans hget')
      exact h
    · exact fun h => h raw hraw
  · refine iff_of_true ?_ fun raw hraw => absurd ⟨raw, hraw⟩ hf
    have hnil : printfCopies d ev c = [] := by
      unfold printfCopies
      split
      · rfl
      · next fmts hfmts =>
        split
        · rfl
        · next htraced =>
          split
          · rfl
          · next raw hget =>
            split
            · rfl
            · next htext =>
              split
              · rfl
              · next hfew =>
                rw [not_or, Bool.not_eq_true, Bool.not_eq_true, Bool.not_eq_false'] at htraced
                exact absurd ⟨raw, ⟨fmts, hfmts, hget⟩, htraced.1, htraced.2,
                  (Bool.not_eq_true _).mp htext, Nat.le_of_not_lt hfew⟩ hf
    rw [hnil]
    exact fun k hk => by cases hk

end Bcmdhd.EventLog.VerboseLog
