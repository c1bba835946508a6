import Bcmdhd.NvramVars
import Mathlib.Data.List.DropRight

/-!
# The NVRAM text (`process_nvram_vars` in `bcmutils.c`)

The lines of the text lose their comments and carriage returns and are moved to the front of the
buffer, each that is not empty with a zero behind it.  The write pointer never passes the read
pointer, so that a byte is read before it is written over:

    buf = out ++ mid ++ rest,   dp = out.length,   n = out.length + mid.length         (loop_eq)

What is written does not end with two zeros by itself: the second comes from the padding.
-/

namespace Bcmdhd.NvramText

open NvramVars (uint32 store store_eq)

/-! ## Algorithm -/

def NL : UInt8 := 10
def CR : UInt8 := 13
def HASH : UInt8 := 35

/-- `(n==0) && (varbuf[0]=='#')`, or `none` when there is no byte to read. -/
def startsComment (varbuf : List UInt8) (n : Nat) : Option Bool :=
  if n = 0 then (varbuf[0]?).map (· == HASH) else some false

/-- The line that is printed. -/
def dumpNvram (info : Bool) (varbuf : List UInt8) (column n : Nat) : Option (List UInt8) := do
  let comment ← startsComment varbuf n
  return if comment || (column == 0 && info) then
    ((varbuf.drop n).take 127).takeWhile (· != NL)
  else []

structure State where
  varbuf : List UInt8
  dp : Nat
  findNewline : Bool
  column : Nat

def turn (info : Bool) (s : State) (n : Nat) : Option State := do
  let c ← s.varbuf[n]?
  if c = CR then return s
  else if s.findNewline && c != NL then return s
  else if c = HASH then return { s with findNewline := true }
  else if c = NL then
    if s.column = 0 then return { s with findNewline := false }
    else do
      let varbuf ← store s.varbuf s.dp [0]
      return ⟨varbuf, s.dp + 1, false, 0⟩
  else do
    let _ ← dumpNvram info s.varbuf s.column n
    let varbuf ← store s.varbuf s.dp [c]
    return ⟨varbuf, s.dp + 1, false, uint32 (s.column + 1)⟩

/-- Rounded up to a multiple of four when that is inside. -/
def padded (bufLen len : Nat) : Nat :=
  let pad := 4 - bufLen % 4
  if bufLen % 4 ≠ 0 ∧ uint32 (bufLen + pad) ≤ len then uint32 (bufLen + pad) else bufLen

/-- What is returned, and the buffer. -/
def processNvramVars (info : Bool) (varbuf : List UInt8) : Option (Nat × List UInt8) := do
  let len := varbuf.length
  let _ ← dumpNvram info varbuf 0 0
  let s ← (List.range' 0 len).foldlM (turn info) ⟨varbuf, 0, false, 0⟩
  let varbuf ← store s.varbuf s.dp (List.replicate (len - s.dp) 0)
  return (padded s.dp len, varbuf)

/-! ## Lines -/

/-- Without comment and carriage returns. -/
def cleanLine (l : List UInt8) : List UInt8 := (l.takeWhile (· != HASH)).filter (· != CR)

def lines (text : List UInt8) : List (List UInt8) := (text.splitOn NL).map cleanLine

def terminate (l : List UInt8) : List UInt8 := if l = [] then [] else l ++ [0]

/-- The lines that end with a newline. -/
def body (text : List UInt8) : List UInt8 := (lines text).dropLast.flatMap terminate

/-- What is behind the last newline. -/
def lastLine (text : List UInt8) : List UInt8 := (lines text).getLastD []

/-- Zeros at the end of the last line terminate it. -/
def lastRecord (text : List UInt8) : List UInt8 := (lastLine text).rdropWhile (· == 0)

/-- Every line that is not empty with one zero behind it. -/
def records (text : List UInt8) : List UInt8 := body text ++ terminate (lastRecord text)

theorem lines_induction {P : List UInt8 → Prop} (hlast : ∀ u, NL ∉ u → P u)
    (hline : ∀ l rest, NL ∉ l → P rest → P (l ++ NL :: rest)) (text : List UInt8) : P text := by
  induction hn : text.length using Nat.strongRecOn generalizing text with
  | ind n ih =>
    by_cases hnl : NL ∈ text
    · obtain ⟨l, rest, rfl, hl⟩ := List.eq_append_cons_of_mem hnl
      refine hline l rest hl (ih rest.length ?_ rest rfl)
      rw [← hn, List.length_append, List.length_cons]
      omega
    · exact hlast text hnl

theorem lines_last {u : List UInt8} (hu : NL ∉ u) : lines u = [cleanLine u] := by
  unfold lines
  rw [List.splitOn_eq_singleton hu]
  rfl

variable {l text : List UInt8} {n len : Nat}

theorem lines_line (hl : NL ∉ l) (rest : List UInt8) :
    lines (l ++ NL :: rest) = cleanLine l :: lines rest := by
  unfold lines
  rw [List.splitOn_append_cons_self_of_not_mem hl]
  rfl

theorem lines_ne_nil (text : List UInt8) : lines text ≠ [] := by
  unfold lines
  simp

theorem body_line (hl : NL ∉ l) (rest : List UInt8) :
    body (l ++ NL :: rest) = terminate (cleanLine l) ++ body rest := by
  unfold body
  rw [lines_line hl, List.dropLast_cons_of_ne_nil (lines_ne_nil rest), List.flatMap_cons]

theorem lastLine_line (hl : NL ∉ l) (rest : List UInt8) :
    lastLine (l ++ NL :: rest) = lastLine rest := by
  unfold lastLine
  rw [lines_line hl]
  obtain ⟨c, t, ht⟩ := List.exists_cons_of_ne_nil (lines_ne_nil rest)
  rw [ht]
  rfl

/-! ## Out of place -/

/-- What is written for a byte, and `findNewline` and `column` behind it. -/
def next (findNewline : Bool) (column : Nat) (c : UInt8) : List UInt8 × Bool × Nat :=
  if c = CR then ([], findNewline, column)
  else if findNewline && c != NL then ([], findNewline, column)
  else if c = HASH then ([], true, column)
  else if c = NL then if column = 0 then ([], false, column) else ([0], false, 0)
  else ([c], false, uint32 (column + 1))

/-- What the loop writes. -/
def pass : Bool → Nat → List UInt8 → List UInt8
  | _, _, [] => []
  | findNewline, column, c :: rest =>
    let (out, findNewline, column) := next findNewline column c
    out ++ pass findNewline column rest

theorem next_cr (findNewline : Bool) (column : Nat) :
    next findNewline column CR = ([], findNewline, column) := if_pos rfl

theorem next_comment {c : UInt8} (hnl : c ≠ NL) (column : Nat) :
    next true column c = ([], true, column) := by
  have hskip : (true && c != NL) = true := by simp [hnl]
  unfold next
  rw [if_pos hskip, ite_self]

theorem next_hash (column : Nat) : next false column HASH = ([], true, column) := rfl

theorem next_newline (findNewline : Bool) (column : Nat) :
    next findNewline column NL = if column = 0 then ([], false, 0) else ([0], false, 0) := by
  unfold next
  rw [if_neg (by decide), if_neg (by simp), if_neg (by decide), if_pos rfl]
  by_cases hcol : column = 0
  · rw [if_pos hcol, if_pos hcol, hcol]
  · rw [if_neg hcol, if_neg hcol]

theorem next_byte {c : UInt8} (hnl : c ≠ NL) (hcr : c ≠ CR) (hhash : c ≠ HASH) (column : Nat) :
    next false column c = ([c], false, uint32 (column + 1)) := by
  unfold next
  rw [if_neg hcr, if_neg (by simp), if_neg hhash, if_neg hnl]

theorem cleanLine_cons {c : UInt8} (hcr : c ≠ CR) (hhash : c ≠ HASH) (l : List UInt8) :
    cleanLine (c :: l) = c :: cleanLine l := by
  simp [cleanLine, hcr, hhash]

theorem cleanLine_cr (l : List UInt8) : cleanLine (CR :: l) = cleanLine l := by
  unfold cleanLine
  rw [List.takeWhile_cons_of_pos (by decide), List.filter_cons_of_neg (by decide)]

theorem cleanLine_hash (l : List UInt8) : cleanLine (HASH :: l) = [] := by
  unfold cleanLine
  rw [List.takeWhile_cons_of_neg (by decide)]
  rfl

theorem pass_comment (hl : NL ∉ l) (column : Nat) (rest : List UInt8) :
    pass true column (l ++ rest) = pass true column rest := by
  induction l with
  | nil => rfl
  | cons c l ih =>
    rw [List.cons_append, pass, next_comment (List.ne_of_not_mem_cons hl).symm]
    exact ih (List.not_mem_of_not_mem_cons hl)

/-- Through a line the column is the number of bytes that are kept. -/
theorem pass_line (hl : NL ∉ l) (column : Nat) (rest : List UInt8)
    (hcol : column + l.length < 0x100000000) :
    ∃ findNewline, pass false column (l ++ rest) =
      cleanLine l ++ pass findNewline (column + (cleanLine l).length) rest := by
  induction l generalizing column with
  | nil => exact ⟨false, rfl⟩
  | cons c l ih =>
    have hc : c ≠ NL := (List.ne_of_not_mem_cons hl).symm
    have htail : NL ∉ l := List.not_mem_of_not_mem_cons hl
    rw [List.length_cons] at hcol
    rw [List.cons_append, pass]
    by_cases hcr : c = CR
    · rw [hcr, next_cr, cleanLine_cr]
      exact ih htail column (by omega)
    · by_cases hhash : c = HASH
      · rw [hhash, next_hash, cleanLine_hash]
        exact ⟨true, pass_comment htail column rest⟩
      · have hsum : uint32 (column + 1) = column + 1 := Nat.mod_eq_of_lt (by omega)
        obtain ⟨findNewline, hrest⟩ := ih htail (column + 1) (by omega)
        refine ⟨findNewline, ?_⟩
        rw [next_byte hc hcr hhash, hsum, cleanLine_cons hcr hhash, List.length_cons,
          ← Nat.add_assoc, Nat.add_right_comm]
        exact congrArg (c :: ·) hrest

theorem pass_newline (findNewline : Bool) (column : Nat) (rest : List UInt8) :
    pass findNewline column (NL :: rest) =
      (if column = 0 then [] else [0]) ++ pass false 0 rest := by
  rw [pass, next_newline]
  by_cases hcol : column = 0
  · rw [if_pos hcol, if_pos hcol]
  · rw [if_neg hcol, if_neg hcol]

theorem pass_eq (text : List UInt8) (hlen : text.length < 0x100000000) :
    pass false 0 text = body text ++ lastLine text := by
  induction text using lines_induction with
  | hlast u hu =>
    obtain ⟨findNewline, hpass⟩ := pass_line hu 0 [] (by omega)
    rw [List.append_nil] at hpass
    rw [hpass, body, lastLine, lines_last hu]
    exact List.append_nil _
  | hline l rest hl ih =>
    rw [List.length_append, List.length_cons] at hlen
    obtain ⟨findNewline, hpass⟩ := pass_line hl 0 (NL :: rest) (by omega)
    have hterm : cleanLine l ++ (if 0 + (cleanLine l).length = 0 then [] else [0]) =
        terminate (cleanLine l) := by
      unfold terminate
      by_cases hempty : cleanLine l = []
      · rw [hempty]
        rfl
      · have hpos := List.length_pos_of_ne_nil hempty
        rw [if_neg (by omega), if_neg hempty]
    rw [hpass, pass_newline, ih (by omega), body_line hl, lastLine_line hl, ← hterm]
    simp only [List.append_assoc]

/-- A byte that is written is neither a newline nor a carriage return and starts no comment. -/
def Plain (text : List UInt8) : Prop := ∀ c ∈ text, c ≠ NL ∧ c ≠ CR ∧ c ≠ HASH

theorem next_plain (findNewline : Bool) (column : Nat) (c : UInt8) :
    Plain (next findNewline column c).1 := by
  unfold next
  split_ifs with hcr _ hhash hnl
  any_goals exact List.forall_mem_nil _
  · exact List.forall_mem_singleton.mpr (by decide)
  · exact List.forall_mem_singleton.mpr ⟨hnl, hcr, hhash⟩

theorem pass_plain (findNewline : Bool) (column : Nat) (text : List UInt8) :
    Plain (pass findNewline column text) := by
  induction text generalizing findNewline column with
  | nil => exact nofun
  | cons c text ih =>
    exact List.forall_mem_append.mpr ⟨next_plain findNewline column c, ih _ _⟩

theorem pass_same (h : Plain text) (column : Nat) :
    pass false column text = text := by
  induction text generalizing column with
  | nil => rfl
  | cons c text ih =>
    obtain ⟨⟨hnl, hcr, hhash⟩, htail⟩ := List.forall_mem_cons.mp h
    rw [pass, next_byte hnl hcr hhash]
    exact congrArg (c :: ·) (ih htail _)

/-! ## In place -/

/-- The byte behind the write pointer is free. -/
theorem store_next (out mid rest : List UInt8) (c d : UInt8) :
    store (out ++ (mid ++ c :: rest)) out.length [d] =
      some (out ++ [d] ++ ((mid ++ [c]).drop 1 ++ rest)) := by
  have hroom : 1 ≤ (mid ++ [c]).length := by simp
  have hrest : mid ++ c :: rest = mid ++ [c] ++ rest := by simp
  rw [hrest, store_eq out _ [d] (by simp; omega), ← List.drop_append_of_le_length hroom]
  rfl

theorem dumpNvram_inside (info : Bool) {varbuf : List UInt8} (h : varbuf ≠ []) (column n : Nat) :
    ∃ vars, dumpNvram info varbuf column n = some vars := by
  obtain ⟨c, t, rfl⟩ := List.exists_cons_of_ne_nil h
  by_cases hn : n = 0
  · rw [hn]
    exact ⟨_, rfl⟩
  · have hread : startsComment (c :: t) n = some false := if_neg hn
    unfold dumpNvram
    rw [hread]
    exact ⟨_, rfl⟩

theorem turn_eq (info : Bool) (out mid rest : List UInt8) (c : UInt8) (findNewline : Bool)
    (column : Nat) :
    ∃ mid', turn info ⟨out ++ (mid ++ c :: rest), out.length, findNewline, column⟩
        (out.length + mid.length) =
      some ⟨out ++ (next findNewline column c).1 ++ (mid' ++ rest),
        (out ++ (next findNewline column c).1).length, (next findNewline column c).2.1,
        (next findNewline column c).2.2⟩ ∧
      (next findNewline column c).1.length + mid'.length = mid.length + 1 := by
  have hread : (out ++ (mid ++ c :: rest))[out.length + mid.length]? = some c := by
    rw [← List.append_assoc, ← List.length_append, List.getElem?_append_right (Nat.le_refl _),
      Nat.sub_self]
    rfl
  obtain ⟨vars, hvars⟩ := dumpNvram_inside info (List.append_ne_nil_of_right_ne_nil out
    (List.append_ne_nil_of_right_ne_nil mid (List.cons_ne_nil c rest))) column
    (out.length + mid.length)
  unfold turn
  dsimp only
  rw [hread]
  dsimp only [Option.bind_eq_bind, Option.bind_some]
  unfold next
  split_ifs
  · exact ⟨mid ++ [c], by simp, by simp⟩
  · exact ⟨mid ++ [c], by simp, by simp⟩
  · exact ⟨mid ++ [c], by simp, by simp⟩
  · exact ⟨mid ++ [c], by simp, by simp⟩
  · refine ⟨(mid ++ [c]).drop 1, ?_, by simp; omega⟩
    rw [store_next]
    simp
  · refine ⟨(mid ++ [c]).drop 1, ?_, by simp; omega⟩
    rw [hvars]
    dsimp only [Option.bind_some]
    rw [store_next]
    simp

theorem loop_eq (info : Bool) (out mid rest : List UInt8) (findNewline : Bool) (column : Nat) :
    ∃ mid' findNewline' column',
      (List.range' (out.length + mid.length) rest.length).foldlM (turn info)
          ⟨out ++ (mid ++ rest), out.length, findNewline, column⟩ =
        some ⟨out ++ pass findNewline column rest ++ mid',
          (out ++ pass findNewline column rest).length, findNewline', column'⟩ ∧
      (out ++ pass findNewline column rest ++ mid').length = (out ++ (mid ++ rest)).length := by
  induction rest generalizing out mid findNewline column with
  | nil => exact ⟨mid, findNewline, column, by simp [pass], by simp [pass]⟩
  | cons c rest ih =>
    obtain ⟨mid', hturn, hmid⟩ := turn_eq info out mid rest c findNewline column
    rw [pass]
    generalize next findNewline column c = r at hturn hmid ⊢
    obtain ⟨e, findNewline', column'⟩ := r
    have hplace : (out ++ e).length + mid'.length = out.length + mid.length + 1 := by
      rw [List.length_append, Nat.add_assoc, hmid, Nat.add_assoc]
    obtain ⟨mid'', findNewline'', column'', hloop, hlen⟩ := ih (out ++ e) mid' findNewline' column'
    rw [hplace, List.append_assoc out e (pass _ _ _)] at hloop
    rw [List.append_assoc out e (pass _ _ _)] at hlen
    refine ⟨mid'', findNewline'', column'', ?_, ?_⟩
    · rw [List.length_cons, List.range'_succ, List.foldlM_cons, hturn]
      exact hloop
    · rw [hlen]
      simp only [List.length_append, List.length_cons] at hplace ⊢
      omega

/-! ## Returned buffer -/

/-- Up to a multiple of four. -/
def fill (n : Nat) : Nat := (4 - n % 4) % 4

theorem padded_eq (hwrap : n + fill n < 0x100000000) :
    padded n len = if n + fill n ≤ len then n + fill n else n := by
  unfold fill at *
  unfold padded uint32
  dsimp only
  by_cases hn : n % 4 = 0
  · have hzero : (4 - n % 4) % 4 = 0 := by omega
    rw [if_neg (by omega), hzero, Nat.add_zero, ite_self]
  · have hmod : (n + (4 - n % 4)) % 0x100000000 = n + (4 - n % 4) % 4 := by omega
    rw [hmod]
    exact if_congr (and_iff_right hn) rfl rfl

theorem padded_wraps (hn : n < 0x100000000) (hwrap : 0x100000000 ≤ n + fill n) :
    padded n len = 0 := by
  unfold fill at hwrap
  have hmod : (n + (4 - n % 4)) % 0x100000000 = 0 := by omega
  unfold padded uint32
  dsimp only
  rw [hmod]
  exact if_pos ⟨by omega, Nat.zero_le len⟩

theorem padded_inside (hn : n ≤ len) (hwrap : n + fill n < 0x100000000) :
    n ≤ padded n len ∧ padded n len ≤ len := by
  rw [padded_eq hwrap]
  by_cases hfill : n + fill n ≤ len
  · rw [if_pos hfill]
    exact ⟨Nat.le_add_right .., hfill⟩
  · rw [if_neg hfill]
    exact ⟨Nat.le_refl n, hn⟩

theorem padded_padded (hwrap : n + fill n < 0x100000000) :
    padded (padded n len) (padded n len) = padded n len := by
  have hself : ∀ m, m + fill m < 0x100000000 → padded m m = m := by
    intro m hm
    rw [padded_eq hm]
    by_cases hfill : m + fill m ≤ m
    · rw [if_pos hfill]
      omega
    · exact if_neg hfill
  apply hself
  rw [padded_eq hwrap]
  by_cases hfill : n + fill n ≤ len
  · rw [if_pos hfill]
    unfold fill at *
    omega
  · rw [if_neg hfill]
    exact hwrap

/-- What is left of the text. -/
def kept (text : List UInt8) : List UInt8 := body text ++ lastLine text

/-- The bytes that are kept, and zeros. -/
theorem process_eq (info : Bool) (hne : text ≠ []) (hlen : text.length < 0x100000000) :
    ∃ zeros, (kept text).length + zeros = text.length ∧
      processNvramVars info text = some (padded (kept text).length text.length,
        kept text ++ List.replicate zeros 0) := by
  obtain ⟨vars, hvars⟩ := dumpNvram_inside info hne 0 0
  obtain ⟨mid, findNewline, column, hloop, hbuf⟩ := loop_eq info [] [] text false 0
  have hkept : [] ++ pass false 0 text = kept text := pass_eq text hlen
  rw [hkept, List.length_append] at hbuf
  rw [hkept] at hloop
  have hsize : (kept text).length + mid.length = text.length := hbuf
  have hrun : (List.range' 0 text.length).foldlM (turn info) ⟨text, 0, false, 0⟩ =
    some ⟨kept text ++ mid, (kept text).length, findNewline, column⟩ := hloop
  have hzeros : (List.replicate mid.length (0 : UInt8)).length = mid.length := List.length_replicate
  refine ⟨mid.length, hsize, ?_⟩
  unfold processNvramVars
  rw [hvars]
  dsimp only [Option.bind_eq_bind, Option.bind_some]
  rw [hrun]
  dsimp only [Option.bind_some]
  rw [show text.length - (kept text).length = mid.length by omega,
    store_eq (kept text) mid _ (Nat.le_of_eq hzeros), hzeros, List.drop_length, List.append_nil]
  rfl

/-- What comes out goes through unchanged. -/
theorem process_same (info : Bool) (hne : text ≠ []) (h : Plain text)
    (hlen : text.length < 0x100000000) (hpadded : padded text.length text.length = text.length) :
    processNvramVars info text = some (text.length, text) := by
  obtain ⟨zeros, hsize, hrun⟩ := process_eq info hne hlen
  have hkept : kept text = text := (pass_eq text hlen).symm.trans (pass_same h 0)
  rw [hkept] at hsize hrun
  obtain rfl : zeros = 0 := Nat.add_left_cancel hsize
  rw [hrun, hpadded, List.replicate_zero, List.append_nil]

/-- The buffer keeps its size, and what is returned covers the records and one more zero. -/
def Processed (text : List UInt8) (ret : Nat) (buf : List UInt8) : Prop :=
  buf.length = text.length ∧ ret ≤ text.length ∧
    ∃ zeros, 0 < zeros ∧ buf.take ret = records text ++ List.replicate zeros 0

/-- Zeros that the last line ends with. -/
def ownZeros (text : List UInt8) : Nat := ((lastLine text).rtakeWhile (· == 0)).length

/-- One ends the text, and one more terminates the last line. -/
def neededZeros (text : List UInt8) : Nat := if lastRecord text = [] then 1 else 2

/-- The zeros are there, or they come from the padding. -/
def Ends (text : List UInt8) : Prop :=
  (kept text).length + fill (kept text).length < 0x100000000 ∧
    (neededZeros text ≤ ownZeros text ∨
      (kept text).length + fill (kept text).length ≤ text.length ∧
        neededZeros text ≤ ownZeros text + fill (kept text).length)

instance (text : List UInt8) : Decidable (Ends text) := inferInstanceAs (Decidable (_ ∧ _))

theorem lastLine_eq (text : List UInt8) :
    lastLine text = lastRecord text ++ List.replicate (ownZeros text) 0 := by
  have hzero : ∀ c ∈ (lastLine text).rtakeWhile (· == 0), c = 0 := by
    intro c hc
    exact beq_iff_eq.mp (List.mem_rtakeWhile_imp (p := (· == 0)) hc)
  have hzeros : (lastLine text).rtakeWhile (· == 0) = List.replicate (ownZeros text) 0 :=
    List.eq_replicate_iff.mpr ⟨rfl, hzero⟩
  rw [← hzeros]
  exact (List.rdropWhile_append_rtakeWhile ..).symm

/-- As many zeros as are left behind the records. -/
theorem take_kept (text : List UInt8) {zeros ret : Nat} (hret : (kept text).length ≤ ret)
    (hsize : ret ≤ (kept text).length + zeros) :
    (kept text ++ List.replicate zeros 0).take ret =
      body text ++ lastRecord text ++
        List.replicate (ownZeros text + (ret - (kept text).length)) 0 := by
  rw [List.take_append, List.take_of_length_le hret, List.take_replicate,
    Nat.min_eq_left (by omega), ← List.replicate_append_replicate]
  unfold kept
  rw [lastLine_eq]
  simp only [List.append_assoc]

theorem covered_iff (text : List UInt8) (n : Nat) :
    (∃ zeros, 0 < zeros ∧ body text ++ lastRecord text ++ List.replicate n 0 =
      records text ++ List.replicate zeros 0) ↔ neededZeros text ≤ n := by
  unfold records terminate neededZeros
  by_cases hlast : lastRecord text = []
  · rw [if_pos hlast, if_pos hlast, hlast]
    constructor
    · rintro ⟨zeros, hpos, heq⟩
      have hn : n = zeros := by simpa using List.append_cancel_left heq
      exact hn ▸ hpos
    · intro hpos
      exact ⟨n, hpos, rfl⟩
  · rw [if_neg hlast, if_neg hlast]
    have hsplit : ∀ zeros, body text ++ (lastRecord text ++ [0]) ++ List.replicate zeros 0 =
        body text ++ lastRecord text ++ List.replicate (zeros + 1) 0 := by
      intro zeros
      rw [List.replicate_succ]
      simp
    constructor
    · rintro ⟨zeros, hpos, heq⟩
      rw [hsplit] at heq
      have hn : n = zeros + 1 := by simpa using List.append_cancel_left heq
      omega
    · intro htwo
      refine ⟨n - 1, by omega, ?_⟩
      rw [hsplit, Nat.sub_add_cancel (by omega)]

theorem ends_iff (hwrap : (kept text).length + fill (kept text).length < 0x100000000) :
    neededZeros text ≤
        ownZeros text + (padded (kept text).length text.length - (kept text).length) ↔
      Ends text := by
  unfold Ends
  rw [padded_eq hwrap]
  by_cases hfill : (kept text).length + fill (kept text).length ≤ text.length
  · rw [if_pos hfill]
    omega
  · rw [if_neg hfill]
    omega

theorem kept_plain (hlen : text.length < 0x100000000) (zeros ret : Nat) :
    Plain ((kept text ++ List.replicate zeros 0).take ret) := by
  intro c hc
  rcases List.mem_append.mp (List.mem_of_mem_take hc) with hkept | hzero
  · have hpass : kept text = pass false 0 text := (pass_eq text hlen).symm
    rw [hpass] at hkept
    exact pass_plain false 0 text c hkept
  · rw [List.eq_of_mem_replicate hzero]
    decide

/-- The text is processed, and what is returned goes through again unchanged, exactly when the last
line has zeros or the padding gives them. -/
theorem process_nvram_vars_iff (info : Bool) (text : List UInt8)
    (hlen : text.length < 0x100000000) :
    (∃ ret buf, processNvramVars info text = some (ret, buf) ∧ Processed text ret buf ∧
      processNvramVars info (buf.take ret) = some (ret, buf.take ret)) ↔ Ends text := by
  by_cases hne : text = []
  · rw [hne]
    constructor
    · rintro ⟨ret, buf, hrun, -⟩
      cases hrun
    · intro hends
      exact absurd hends (by decide)
  obtain ⟨zeros, hsize, hrun⟩ := process_eq info hne hlen
  have hbuf : (kept text ++ List.replicate zeros 0).length = text.length := by
    rw [List.length_append, List.length_replicate, hsize]
  rw [hrun]
  by_cases hwrap : (kept text).length + fill (kept text).length < 0x100000000
  · obtain ⟨hkept, hinside⟩ := padded_inside (Nat.le.intro hsize) hwrap
    have htake := take_kept text hkept (hinside.trans_eq hsize.symm)
    rw [← ends_iff hwrap, ← covered_iff, ← htake]
    constructor
    · rintro ⟨ret, buf, heq, ⟨-, -, hcovered⟩, -⟩
      cases heq
      exact hcovered
    · rintro ⟨n, hpos, hcovered⟩
      refine ⟨_, _, rfl, ⟨hbuf, hinside, n, hpos, hcovered⟩, ?_⟩
      have hlength := List.length_take_of_le (hinside.trans_eq hbuf.symm)
      have hout : (kept text ++ List.replicate zeros 0).take
          (padded (kept text).length text.length) ≠ [] := by
        rw [hcovered]
        exact List.append_ne_nil_of_right_ne_nil _ (List.ne_nil_of_length_pos (by simpa using hpos))
      have hpadded : padded (padded (kept text).length text.length)
          (padded (kept text).length text.length) = padded (kept text).length text.length :=
        padded_padded hwrap
      have hsame := process_same info hout (kept_plain hlen _ _)
        (hlength.trans_lt (Nat.lt_of_le_of_lt hinside hlen))
      rw [hlength] at hsame
      exact hsame hpadded
  · -- zero is returned
    constructor
    · rintro ⟨ret, buf, heq, ⟨-, -, n, hpos, hcovered⟩, -⟩
      cases heq
      have hkept : (kept text).length < 0x100000000 := by omega
      rw [padded_wraps hkept (Nat.not_lt.mp hwrap)] at hcovered
      have hzeros := (List.append_eq_nil_iff.mp hcovered.symm).2
      exact absurd (List.replicate_eq_nil_iff _ |>.mp hzeros) (Nat.ne_of_gt hpos)
    · intro hends
      exact absurd hends.1 hwrap

/-- A line and a comment leave room for two more zeros. -/
theorem process_nvram_vars_comment :
    ∃ ret buf, processNvramVars true [97, 10, 35, 120, 121, 122, 10] = some (ret, buf) ∧
      Processed [97, 10, 35, 120, 121, 122, 10] ret buf ∧
      processNvramVars true (buf.take ret) = some (ret, buf.take ret) :=
  (process_nvram_vars_iff true [97, 10, 35, 120, 121, 122, 10] (by decide)).mpr (by decide)

/-- `a=b` with a newline comes out with one zero, and without one it is not terminated. -/
theorem process_nvram_vars_fails :
    processNvramVars true [97, 61, 98, 10] = some (4, [97, 61, 98, 0]) ∧
      ¬ Processed [97, 61, 98, 10] 4 [97, 61, 98, 0] ∧
      processNvramVars true [97, 61, 98] = some (3, [97, 61, 98]) := by
  refine ⟨by decide, ?_, by decide⟩
  rintro ⟨-, -, n, hpos, hcovered⟩
  have hrecords : records [97, 61, 98, 10] = [97, 61, 98, 0] := by decide
  rw [hrecords] at hcovered
  have hlength := congrArg List.length hcovered
  simp at hlength
  omega

end Bcmdhd.NvramText
