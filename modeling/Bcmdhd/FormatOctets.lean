import Bcmdhd.NvramVars
import Mathlib.Algebra.GroupWithZero.Nat

/-!
# Names of the set bits (`bcm_format_octets` in `bcmutils.c`)

Each bit of the table that is set has its name and a blank written, as long as there is room for
the terminating zero, and a `>` instead of the first one that does not fit.

    buf = text ++ 0 :: free,   slen = p - buf = text.length < len              (loop_inside)

The `>` takes the last byte when the names leave just one, and its zero then lies behind the buffer.
-/

namespace Bcmdhd.FormatOctets

open NvramVars (uint32 store store_eq)

/-! ## Algorithm -/

/-- `bcm_bit_desc_t`; `bit` is a bit offset. -/
structure BitDesc where
  bit : Nat
  name : List UInt8

def isset (addr : Nat → UInt8) (bit : Nat) : Bool :=
  addr (bit / 8) &&& (1 <<< UInt8.ofNat (bit % 8)) ≠ 0

def SPACE : UInt8 := 32
def MORE : UInt8 := 62

/-- The loop, with the buffer, the place in it and whether a name did not fit; `none` when a byte
outside is written. -/
def loop (addr : Nat → UInt8) (len : Nat) :
    List BitDesc → List UInt8 → Nat → Nat → Option (List UInt8 × Nat × Bool)
  | [], buf, p, _ => some (buf, p, false)
  | d :: bd, buf, p, slen =>
    if isset addr d.bit then
      let nlen := uint32 d.name.length
      -- need SPACE - for simplicity
      let slen := uint32 (uint32 (slen + nlen) + 1)
      -- need NULL as well
      if len < uint32 (slen + 1) then some (buf, p, true)
      else do
        let buf ← store buf p (d.name.take nlen)
        let buf ← store buf (p + nlen) [SPACE]
        let buf ← store buf (p + nlen + 1) [0]
        loop addr len bd buf (p + nlen + 1) slen
    else loop addr len bd buf p slen

/-- What is returned, and the buffer. -/
def formatOctets (bd : List BitDesc) (addr : Nat → UInt8) (buf : List UInt8) :
    Option (Nat × List UInt8) :=
  if buf.length < 2 then some (0, buf)
  else do
    let buf ← store buf 0 [0]
    let (buf, p, more) ← loop addr buf.length bd buf 0 0
    if more then do
      let buf ← store buf p [MORE]
      let buf ← store buf (p + 1) [0]
      return (p + 1, buf)
    else return (p, buf)

/-! ## What fits -/

/-- The lengths of the names of the set bits. -/
def lengths (bd : List BitDesc) (addr : Nat → UInt8) : List Nat :=
  (bd.filter fun d => isset addr d.bit).map fun d => uint32 d.name.length

/-- With a blank each. -/
def total (ns : List Nat) : Nat := (ns.map (· + 1)).sum

/-- No name comes when there is room for the terminating zero only, and no sum overflows. -/
def Clear (len s : Nat) (ns : List Nat) : Prop :=
  ∀ l n r, ns = l ++ n :: r →
    s + total l + 1 ≠ len ∧ (s + total l + 1 ≤ len → s + total l + n + 2 < 0x100000000)

section

variable {len s n : Nat} {ns : List Nat}

theorem Clear.head (h : Clear len s (n :: ns)) (hs : s + 1 ≤ len) :
    s + 2 ≤ len ∧ s + n + 2 < 0x100000000 := by
  obtain ⟨hne, hlt⟩ := h [] n ns rfl
  have hsum : s + total [] = s := rfl
  rw [hsum] at hne hlt
  exact ⟨by omega, hlt hs⟩

theorem Clear.tail (h : Clear len s (n :: ns)) : Clear len (s + n + 1) ns := by
  intro l m r heq
  have hsum : s + n + 1 + total l = s + total (n :: l) := by
    unfold total
    rw [List.map_cons, List.sum_cons]
    omega
  rw [hsum]
  exact h (n :: l) m r (congrArg (n :: ·) heq)

end

/-- A name, a blank and the terminating zero are written behind the text. -/
theorem store_name {α : Type} (text b nm : List UInt8) (h : nm.length + 2 ≤ b.length)
    (k : List UInt8 → Option α) :
    (do
      let buf ← store (text ++ b) text.length nm
      let buf ← store buf (text.length + nm.length) [SPACE]
      let buf ← store buf (text.length + nm.length + 1) [0]
      k buf) =
      k ((text ++ nm ++ [SPACE]) ++ 0 :: b.drop (nm.length + 2)) := by
  have hname : text.length + nm.length = (text ++ nm).length := (List.length_append).symm
  have hblank : text.length + nm.length + 1 = (text ++ nm ++ [SPACE]).length := by
    rw [List.length_append, List.length_append]
    rfl
  have hrest : 2 ≤ (b.drop nm.length).length := by
    rw [List.length_drop]
    omega
  rw [store_eq text b nm (by omega)]
  dsimp only [Option.bind_eq_bind, Option.bind_some]
  rw [hname, store_eq (text ++ nm) _ [SPACE] (Nat.le_of_succ_le hrest)]
  dsimp only [Option.bind_some]
  rw [← hname, hblank, store_eq _ _ [0] (by rw [List.length_drop]; exact Nat.le_pred_of_lt hrest),
    List.drop_drop, List.drop_drop, List.append_assoc _ [0]]
  rfl

/-- The text goes on to the zero that terminates it. -/
theorem loop_inside {addr : Nat → UInt8} {bd : List BitDesc} {text free : List UInt8} {len : Nat}
    (hlen : (text ++ 0 :: free).length = len) (hmax : len < 0x100000000)
    (hc : Clear len text.length (lengths bd addr)) :
    ∃ text' free' more, loop addr len bd (text ++ 0 :: free) text.length text.length =
        some (text' ++ 0 :: free', text'.length, more) ∧
      (text' ++ 0 :: free').length = len ∧ (more = true → free' ≠ []) := by
  induction bd generalizing text free with
  | nil => exact ⟨text, free, false, rfl, hlen, nofun⟩
  | cons d bd ih =>
    unfold loop
    cases hd : isset addr d.bit with
    | false =>
      have hsame : lengths (d :: bd) addr = lengths bd addr := by
        simp [lengths, hd]
      rw [hsame] at hc
      rw [if_neg (by decide)]
      exact ih hlen hc
    | true =>
      obtain ⟨n, hn⟩ : ∃ n, n = uint32 d.name.length := ⟨_, rfl⟩
      have hcons : lengths (d :: bd) addr = n :: lengths bd addr := by
        simp [lengths, hd, hn]
      rw [hcons] at hc
      have hplace : text.length + 1 ≤ len := by
        rw [← hlen, List.length_append, List.length_cons]
        omega
      obtain ⟨htwo, hsum⟩ := hc.head hplace
      have hslen : uint32 (uint32 (text.length + n) + 1) = text.length + n + 1 := by
        unfold uint32
        omega
      have hnull : uint32 (text.length + n + 1 + 1) = text.length + n + 2 := by
        unfold uint32
        omega
      have hfree : free.length + 1 + text.length = len := by
        rw [← hlen, List.length_append, List.length_cons]
        omega
      rw [if_pos rfl]
      dsimp only
      rw [← hn, hslen, hnull]
      by_cases hfit : len < text.length + n + 2
      · rw [if_pos hfit]
        refine ⟨text, free, true, rfl, hlen, fun _ => List.ne_nil_of_length_pos (by omega)⟩
      · rw [if_neg hfit]
        obtain ⟨nm, hnm⟩ : ∃ nm, nm = d.name.take n := ⟨_, rfl⟩
        have hlength : nm.length = n := by
          have hle : n ≤ d.name.length := hn ▸ Nat.mod_le _ _
          rw [hnm, List.length_take, Nat.min_eq_left hle]
        have htext : (text ++ nm ++ [SPACE]).length = text.length + n + 1 := by
          rw [List.length_append, List.length_append, hlength]
          rfl
        have hlen' : ((text ++ nm ++ [SPACE]) ++ 0 :: (0 :: free).drop (nm.length + 2)).length =
            len := by
          rw [List.length_append, htext, List.length_cons, List.length_drop, List.length_cons]
          omega
        have hnext := ih hlen' (htext ▸ hc.tail)
        have hstore := store_name text (0 :: free) nm (by rw [List.length_cons]; omega)
          (fun buf => loop addr len bd buf (text.length + n + 1) (text.length + n + 1))
        rw [htext] at hnext
        rw [hlength] at hstore hnext
        rw [← hnm, hstore]
        exact hnext

/-- Without room for two it does nothing.  Otherwise it writes inside the buffer, and the zero is
at the place that is returned. -/
theorem format_octets_inside (bd : List BitDesc) (addr : Nat → UInt8) (buf : List UInt8)
    (hmax : buf.length < 0x100000000) :
    (buf.length < 2 → formatOctets bd addr buf = some (0, buf)) ∧
    (2 ≤ buf.length → Clear buf.length 0 (lengths bd addr) →
      ∃ p buf', formatOctets bd addr buf = some (p, buf') ∧ p < buf.length ∧
        buf'.length = buf.length ∧ buf'[p]? = some 0) := by
  constructor
  · intro hshort
    exact if_pos hshort
  · intro htwo hc
    obtain ⟨c, free, rfl⟩ : ∃ c free, buf = c :: free :=
      List.exists_cons_of_length_pos (Nat.lt_of_lt_of_le Nat.zero_lt_two htwo)
    obtain ⟨text, free', more, hrun, hlength, hmore⟩ : ∃ text free' more,
        loop addr (0 :: free).length bd (0 :: free) 0 0 =
          some (text ++ 0 :: free', text.length, more) ∧
        (text ++ 0 :: free').length = (c :: free).length ∧ (more = true → free' ≠ []) :=
      @loop_inside addr bd [] free _ rfl hmax hc
    have hplace : text.length + 1 + free'.length = (c :: free).length := by
      rw [← hlength, List.length_append, List.length_cons]
      omega
    have hfirst : store (c :: free) 0 [0] = some (0 :: free) := store_eq [] (c :: free) [0] (by simp)
    unfold formatOctets
    rw [if_neg (Nat.not_lt.mpr htwo), hfirst]
    dsimp only [Option.bind_eq_bind, Option.bind_some]
    rw [hrun]
    dsimp only [Option.bind_some]
    cases more with
    | false =>
      refine ⟨text.length, text ++ 0 :: free', rfl, by omega, hlength, ?_⟩
      rw [List.getElem?_append_right (Nat.le_refl _), Nat.sub_self]
      rfl
    | true =>
      obtain ⟨d, free', rfl⟩ := List.exists_cons_of_ne_nil (hmore rfl)
      have hlen : (text ++ [MORE]).length = text.length + 1 := List.length_append
      have hstore : store (text ++ 0 :: d :: free') text.length [MORE] =
          some (text ++ [MORE] ++ d :: free') := by
        rw [store_eq text _ [MORE] (by simp)]
        simp
      have hzero : store (text ++ [MORE] ++ d :: free') (text.length + 1) [0] =
          some (text ++ [MORE] ++ 0 :: free') := by
        rw [← hlen, store_eq (text ++ [MORE]) _ [0] (by simp)]
        simp
      rw [if_pos rfl, hstore]
      dsimp only [Option.bind_some]
      rw [hzero]
      refine ⟨text.length + 1, text ++ [MORE] ++ 0 :: free', rfl, ?_, ?_, ?_⟩
      · rw [List.length_cons] at hplace
        omega
      · rw [List.length_append, hlen, ← hplace]
        rfl
      · rw [← hlen, List.getElem?_append_right (Nat.le_refl _), Nat.sub_self]
        rfl

/-- `on up ` in eight bytes. -/
theorem format_octets_inside_two :
    ∃ p buf', formatOctets [⟨0, [111, 110]⟩, ⟨3, [117, 112]⟩] (fun _ => 9)
        (List.replicate 8 65) = some (p, buf') ∧ p < 8 ∧ buf'.length = 8 ∧ buf'[p]? = some 0 := by
  refine (format_octets_inside _ _ (List.replicate 8 65) (by decide)).2 (by decide) ?_
  have hlengths : lengths [⟨0, [111, 110]⟩, ⟨3, [117, 112]⟩] (fun _ => 9) = [2, 2] := by decide
  rw [hlengths]
  intro l n r heq
  match l with
  | [] =>
    obtain ⟨rfl, -⟩ := List.cons.inj heq
    decide
  | [_] =>
    obtain ⟨rfl, htail⟩ := List.cons.inj heq
    obtain ⟨rfl, -⟩ := List.cons.inj htail
    decide
  | _ :: _ :: l =>
    have htail := (List.cons.inj (List.cons.inj heq).2).2
    exact absurd htail (by simp)

/-- One byte is not terminated, and after a name with a blank that leaves one byte the zero behind
the `>` is written outside. -/
theorem format_octets_fails :
    (¬ ∃ p buf', formatOctets [] (fun _ => 0) [65] = some (p, buf') ∧ p < 1 ∧ 0 ∈ buf') ∧
      formatOctets [⟨0, [97, 98]⟩, ⟨1, [99]⟩] (fun _ => 3) [65, 65, 65, 65] = none := by
  constructor
  · rintro ⟨p, buf', hrun, -, hzero⟩
    cases hrun
    exact absurd hzero (by decide)
  · decide

end Bcmdhd.FormatOctets
