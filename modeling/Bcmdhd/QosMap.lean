import Mathlib.Data.List.Basic

/-!
# QoS map (`wl_set_up_table` in `bcmutils.c`)

The element has the exceptions, pairs of a DSCP and a user priority, and at its end eight ranges
of DSCPs, one for each priority.  The ranges are written to the table one after another, and then
the exceptions, so that the last one that has a DSCP counts.

    wl_set_up_table =  0xff everywhere, if a range is malformed;  otherwise, for each DSCP,
      its last valid exception, or else its last range, or else 0xff        (wl_set_up_table_eq)
-/

namespace Bcmdhd.QosMap

/-! ## Algorithm -/

def UP_TABLE_MAX : Nat := 64
def QOS_MAP_FIXED_LENGTH : Nat := 16
def DOT11_MNG_QOS_MAP_ID : UInt8 := 110
def BCME_OK : Int := 0
def BCME_ERROR : Int := -1

/-- `bcm_tlv_t`, with all of its `len` bytes of data. -/
structure Tlv where
  id : UInt8
  data : List UInt8
  len_lt : data.length < 256

abbrev Table := Fin UP_TABLE_MAX → UInt8

def memset (_ : Table) (v : UInt8) : Table := fun _ => v

/-- `none` when the index is outside. -/
def store (t : Table) (i : Nat) (v : UInt8) : Option Table :=
  if h : i < UP_TABLE_MAX then some (Function.update t ⟨i, h⟩ v) else none

def upTableSet (t : Table) (usrPrio low high : UInt8) : Option (Table × Bool) :=
  if 7 < usrPrio ∨ high < low ∨ UP_TABLE_MAX ≤ low.toNat ∨ UP_TABLE_MAX ≤ high.toNat then
    some (t, false)
  else do
    let t ← (List.range' low.toNat (high.toNat + 1 - low.toNat)).foldlM
      (fun t i => store t i usrPrio) t
    return (t, true)

/-- The ranges at `i`, from `range_ptr` on; inside, `none` when one of them fails. -/
def fillRanges (data : List UInt8) (rangePtr : Nat) :
    List Nat → Table → Option (Option Table)
  | [], t => some (some t)
  | i :: is, t => do
    let low ← data[rangePtr + i]?
    let high ← data[rangePtr + i + 1]?
    if low = 255 ∧ high = 255 then fillRanges data rangePtr is t
    else
      let (t, ok) ← upTableSet t (UInt8.ofNat (i / 2)) low high
      if ok then fillRanges data rangePtr is t else return none

def updateExceptions (data : List UInt8) : List Nat → Table → Option Table
  | [], t => some t
  | i :: is, t => do
    let dscp ← data[i]?
    let usrPrio ← data[i + 1]?
    -- exceptions with invalid dscp/usr_prio are ignored
    let (t, _) ← upTableSet t usrPrio dscp dscp
    updateExceptions data is t

/-- `for (i = 0; i < n; i += 2)`, for an even `n` -/
def evens (n : Nat) : List Nat := (List.range' 0 (n / 2)).map (2 * ·)

def wlSetUpTable (upTable : Table) (ie : Tlv) : Option (Table × Int) :=
  let t := memset upTable 0xff
  let len := ie.data.length
  if ie.id = DOT11_MNG_QOS_MAP_ID ∧ QOS_MAP_FIXED_LENGTH ≤ len ∧ len % 2 = 0 then do
    let exceptLen := len - QOS_MAP_FIXED_LENGTH
    match ← fillRanges ie.data exceptLen (evens QOS_MAP_FIXED_LENGTH) t with
    | none => return (memset t 0xff, BCME_ERROR)
    | some t =>
      let t ← updateExceptions ie.data (evens exceptLen) t
      return (t, BCME_OK)
  else return (t, BCME_OK)

/-! ## What it is for -/

def pairs : List UInt8 → List (UInt8 × UInt8)
  | a :: b :: l => (a, b) :: pairs l
  | _ => []

theorem pairs_cons (a b : UInt8) (l : List UInt8) : pairs (a :: b :: l) = (a, b) :: pairs l := rfl

/-- Its length is `16 + n * 2`, `n` the number of exceptions. -/
def Tlv.Legal (ie : Tlv) : Prop :=
  ie.id = DOT11_MNG_QOS_MAP_ID ∧ QOS_MAP_FIXED_LENGTH ≤ ie.data.length ∧ ie.data.length % 2 = 0

instance (ie : Tlv) : Decidable ie.Legal := inferInstanceAs (Decidable (_ ∧ _))

/-- DSCP and priority -/
def Tlv.exceptions (ie : Tlv) : List (UInt8 × UInt8) :=
  pairs (ie.data.take (ie.data.length - QOS_MAP_FIXED_LENGTH))

/-- Low and high -/
def Tlv.ranges (ie : Tlv) : List (UInt8 × UInt8) :=
  pairs (ie.data.drop (ie.data.length - QOS_MAP_FIXED_LENGTH))

/-- Unused, or from a DSCP to one that is not below it. -/
def WellFormed (r : UInt8 × UInt8) : Prop :=
  r = (255, 255) ∨ r.1 ≤ r.2 ∧ r.2.toNat < UP_TABLE_MAX

instance (r : UInt8 × UInt8) : Decidable (WellFormed r) := inferInstanceAs (Decidable (_ ∨ _))

instance (l : List (UInt8 × UInt8)) : Decidable (∀ r ∈ l, WellFormed r) :=
  List.decidableBAll WellFormed l

def excepts (d : Fin UP_TABLE_MAX) (e : UInt8 × UInt8) : Bool := e.1.toNat = d ∧ e.2 ≤ 7

def covers (d : Fin UP_TABLE_MAX) (r : UInt8 × UInt8) : Bool := r.1.toNat ≤ d ∧ d ≤ r.2.toNat

/-- The last exception for the DSCP, or else the last range that it is in. -/
def Tlv.priority (ie : Tlv) (d : Fin UP_TABLE_MAX) : UInt8 :=
  match ie.exceptions.reverse.find? (excepts d) with
  | some e => e.2
  | none =>
    match ie.ranges.zipIdx.reverse.find? fun r => covers d r.1 with
    | some r => UInt8.ofNat r.2
    | none => 0xff

def Tlv.expected (ie : Tlv) : Table × Int :=
  if ie.Legal then
    if ∀ r ∈ ie.ranges, WellFormed r then (ie.priority, BCME_OK) else (fun _ => 0xff, BCME_ERROR)
  else (fun _ => 0xff, BCME_OK)

/-! ## The last one counts -/

section

variable {α β : Type*}

theorem foldl_last (p : α → Bool) (v : α → β) (l : List α) (x : β) :
    l.foldl (fun x a => if p a then v a else x) x = ((l.reverse.find? p).map v).getD x := by
  induction l generalizing x with
  | nil => rfl
  | cons a l ih =>
    rw [List.foldl_cons, ih, List.reverse_cons, List.find?_append]
    cases l.reverse.find? p with
    | some b => rfl
    | none => cases hp : p a <;> simp [hp]

theorem foldl_at {δ : Type*} (f : α → δ → β → β) (l : List α) (t : δ → β) (d : δ) :
    l.foldl (fun t a d => f a d (t d)) t d = l.foldl (fun x a => f a d x) (t d) := by
  induction l generalizing t with
  | nil => rfl
  | cons a l ih => exact ih _

end

/-! ## Loops -/

/-- The DSCPs from `low` to `high` have the priority. -/
def cover (t : Table) (usrPrio low high : UInt8) : Table :=
  fun d => if covers d (low, high) then usrPrio else t d

theorem store_range (usrPrio : UInt8) (n low : Nat) (t : Table) (h : low + n ≤ UP_TABLE_MAX) :
    (List.range' low n).foldlM (fun t i => store t i usrPrio) t =
      some fun d => if low ≤ d.val ∧ d.val < low + n then usrPrio else t d := by
  induction n generalizing low t with
  | zero =>
    refine congrArg some (funext fun d => ?_)
    rw [if_neg (by omega)]
  | succ n ih =>
    have hlow : low < UP_TABLE_MAX := by omega
    rw [List.range'_succ, List.foldlM_cons]
    unfold store
    rw [dif_pos hlow]
    refine (ih (low + 1) _ (by omega)).trans (congrArg some (funext fun d => ?_))
    by_cases hd : d.val = low
    · have : d = ⟨low, hlow⟩ := Fin.ext hd
      rw [if_neg (by omega), if_pos (by omega), this, Function.update_self]
    · rw [Function.update_of_ne fun he => hd (congrArg Fin.val he)]
      by_cases hin : low + 1 ≤ d.val ∧ d.val < low + 1 + n
      · rw [if_pos hin, if_pos (by omega)]
      · rw [if_neg hin, if_neg (by omega)]

theorem upTableSet_eq (t : Table) (usrPrio low high : UInt8) :
    upTableSet t usrPrio low high =
      some (if usrPrio ≤ 7 ∧ low ≤ high ∧ high.toNat < UP_TABLE_MAX then
        (cover t usrPrio low high, true) else (t, false)) := by
  unfold upTableSet
  split
  · next h =>
    rw [if_neg]
    rintro ⟨h7, hle, hlt⟩
    rcases h with h | h | h | h
    · exact absurd h7 (UInt8.not_le.mpr h)
    · exact absurd hle (UInt8.not_le.mpr h)
    · exact absurd (Nat.lt_of_le_of_lt (UInt8.le_iff_toNat_le.mp hle) hlt) (Nat.not_lt.mpr h)
    · exact absurd hlt (Nat.not_lt.mpr h)
  · next h =>
    rw [not_or, not_or, not_or] at h
    obtain ⟨h7, hle, -, hlt⟩ := h
    have hle' := UInt8.not_lt.mp hle
    have hnat := UInt8.le_iff_toNat_le.mp hle'
    rw [if_pos ⟨UInt8.not_lt.mp h7, hle', Nat.lt_of_not_le hlt⟩,
      store_range usrPrio _ _ t (by omega)]
    refine congrArg some (congrArg (·, true) (funext fun d => ?_))
    unfold cover covers
    have hiff : low.toNat ≤ d.val ∧ d.val < low.toNat + (high.toNat + 1 - low.toNat) ↔
        low.toNat ≤ d.val ∧ d.val ≤ high.toNat := by omega
    simp only [hiff, decide_eq_true_eq]

theorem covers_unused (d : Fin UP_TABLE_MAX) : covers d (255, 255) = false := by
  have hd : d.val < 64 := d.isLt
  refine decide_eq_false fun h => ?_
  have : 255 ≤ d.val := h.1
  omega

theorem cover_unused (t : Table) (usrPrio : UInt8) : cover t usrPrio 255 255 = t := by
  funext d
  unfold cover
  rw [covers_unused]
  rfl

section

variable {data : List UInt8} {i : Nat} {a b : UInt8} {l : List UInt8}

theorem read_pair (h : data.drop i = a :: b :: l) :
    data[i]? = some a ∧ data[i + 1]? = some b ∧ data.drop (i + 2) = l := by
  have hread : ∀ k, data[i + k]? = (a :: b :: l)[k]? := by
    intro k
    rw [← h, List.getElem?_drop]
  refine ⟨hread 0, hread 1, ?_⟩
  rw [← List.drop_drop, h]
  rfl

theorem two_more {n : Nat} (h : l.length = 2 * (n + 1)) :
    ∃ a b m, l = a :: b :: m ∧ m.length = 2 * n := by
  match l, h with
  | a :: b :: m, h => exact ⟨a, b, m, rfl, by simp at h; omega⟩

end

/-- A range is written for the priority of its place. -/
def writeRange (t : Table) (r : (UInt8 × UInt8) × Nat) : Table :=
  cover t (UInt8.ofNat r.2) r.1.1 r.1.2

def writeException (t : Table) (e : UInt8 × UInt8) : Table :=
  if e.2 ≤ 7 ∧ e.1.toNat < UP_TABLE_MAX then cover t e.2 e.1 e.1 else t

theorem prio_le {k : Nat} (h : k < 8) : UInt8.ofNat k ≤ 7 := by
  have h7 : (7 : UInt8).toNat = 7 := rfl
  rw [UInt8.le_iff_toNat_le, h7, UInt8.toNat_ofNat', Nat.mod_eq_of_lt (by omega)]
  omega

theorem fillRanges_eq {data : List UInt8} {rangePtr n k : Nat} {l tail : List UInt8}
    (hd : data.drop (rangePtr + 2 * k) = l ++ tail) (hl : l.length = 2 * n) (hk : k + n ≤ 8)
    (t : Table) :
    fillRanges data rangePtr ((List.range' k n).map (2 * ·)) t =
      some (if ∀ r ∈ pairs l, WellFormed r then some (((pairs l).zipIdx k).foldl writeRange t)
        else none) := by
  induction n generalizing k l t with
  | zero =>
    rw [List.eq_nil_of_length_eq_zero hl, if_pos (by simp [pairs])]
    rfl
  | succ n ih =>
    obtain ⟨a, b, m, rfl, hm⟩ := two_more hl
    obtain ⟨ha, hb, hrest⟩ := read_pair hd
    have hnext := ih (k := k + 1) (l := m) hrest hm (by omega)
    rw [List.range'_succ, List.map_cons]
    unfold fillRanges
    rw [ha, hb, Nat.mul_div_cancel_left k (by decide)]
    dsimp only [Option.bind_eq_bind, Option.bind_some]
    rw [upTableSet_eq]
    dsimp only [Option.bind_some]
    rw [pairs_cons, List.zipIdx_cons, List.foldl_cons]
    simp only [List.forall_mem_cons]
    by_cases hu : a = 255 ∧ b = 255
    · obtain ⟨rfl, rfl⟩ := hu
      have hw : WellFormed (255, 255) := Or.inl rfl
      have hsame : writeRange t ((255, 255), k) = t := cover_unused t _
      rw [if_pos ⟨rfl, rfl⟩, hnext, hsame]
      simp only [hw, true_and]
    · rw [if_neg hu]
      by_cases hr : a ≤ b ∧ b.toNat < UP_TABLE_MAX
      · have hw : WellFormed (a, b) := Or.inr hr
        have hset : UInt8.ofNat k ≤ 7 ∧ a ≤ b ∧ b.toNat < UP_TABLE_MAX := ⟨prio_le (by omega), hr⟩
        rw [if_pos hset]
        refine (hnext _).trans ?_
        simp only [hw, true_and]
        rfl
      · have hw : ¬ WellFormed (a, b) := by
          rintro (he | hw)
          · exact hu ⟨congrArg Prod.fst he, congrArg Prod.snd he⟩
          · exact hr hw
        have hset : ¬ (UInt8.ofNat k ≤ 7 ∧ a ≤ b ∧ b.toNat < UP_TABLE_MAX) := fun h => hr h.2
        rw [if_neg hset]
        simp only [hw, false_and]
        rfl

theorem updateExceptions_eq {data : List UInt8} {n k : Nat} {l tail : List UInt8}
    (hd : data.drop (2 * k) = l ++ tail) (hl : l.length = 2 * n) (t : Table) :
    updateExceptions data ((List.range' k n).map (2 * ·)) t =
      some ((pairs l).foldl writeException t) := by
  induction n generalizing k l t with
  | zero =>
    rw [List.eq_nil_of_length_eq_zero hl]
    rfl
  | succ n ih =>
    obtain ⟨a, b, m, rfl, hm⟩ := two_more hl
    obtain ⟨ha, hb, hrest⟩ := read_pair hd
    have hnext := ih (k := k + 1) (l := m) hrest hm
    rw [List.range'_succ, List.map_cons]
    unfold updateExceptions
    rw [ha, hb]
    dsimp only [Option.bind_eq_bind, Option.bind_some]
    rw [upTableSet_eq]
    dsimp only [Option.bind_some]
    rw [hnext, pairs_cons, List.foldl_cons]
    refine congrArg (fun t => some (List.foldl writeException t (pairs m))) ?_
    unfold writeException
    simp only [UInt8.le_refl, true_and]
    split <;> rfl

/-! ## Tables -/

/-- What the ranges leave for a DSCP. -/
theorem ranges_at (rs : List (UInt8 × UInt8)) (t : Table) (d : Fin UP_TABLE_MAX) :
    rs.zipIdx.foldl writeRange t d =
      ((rs.zipIdx.reverse.find? fun r => covers d r.1).map fun r => UInt8.ofNat r.2).getD (t d) := by
  rw [← foldl_last]
  exact foldl_at (fun (r : (UInt8 × UInt8) × Nat) d x => if covers d r.1 then UInt8.ofNat r.2 else x)
    _ _ _

theorem writeException_at (t : Table) (e : UInt8 × UInt8) (d : Fin UP_TABLE_MAX) :
    writeException t e d = if excepts d e then e.2 else t d := by
  have hd := d.isLt
  unfold writeException cover covers excepts
  split
  · next h =>
    have hiff : e.1.toNat ≤ d.val ∧ d.val ≤ e.1.toNat ↔ e.1.toNat = d.val ∧ e.2 ≤ 7 := by
      rw [and_iff_left h.1]
      omega
    simp only [hiff]
  · next h =>
    rw [if_neg]
    rw [decide_eq_true_eq]
    rintro ⟨he, h7⟩
    exact h ⟨h7, by omega⟩

theorem exceptions_at (es : List (UInt8 × UInt8)) (t : Table) (d : Fin UP_TABLE_MAX) :
    es.foldl writeException t d = ((es.reverse.find? (excepts d)).map Prod.snd).getD (t d) := by
  have hstep : writeException = fun t e d => if excepts d e then e.2 else t d := by
    funext t e d
    exact writeException_at t e d
  rw [← foldl_last, hstep]
  exact foldl_at (fun e d x => if excepts d e then e.2 else x) _ _ _

section

variable {ie : Tlv} (h : ie.Legal)
include h

theorem fillRanges_legal (t : Table) :
    fillRanges ie.data (ie.data.length - QOS_MAP_FIXED_LENGTH) (evens QOS_MAP_FIXED_LENGTH) t =
      some (if ∀ r ∈ ie.ranges, WellFormed r then some (ie.ranges.zipIdx.foldl writeRange t)
        else none) := by
  have h16 : 16 ≤ ie.data.length := h.2.1
  refine fillRanges_eq (n := 8) (k := 0) (List.append_nil _).symm ?_ (Nat.le_refl 8) t
  rw [List.length_drop]
  show ie.data.length - (ie.data.length - 16) = 16
  omega

theorem updateExceptions_legal (t : Table) :
    updateExceptions ie.data (evens (ie.data.length - QOS_MAP_FIXED_LENGTH)) t =
      some (ie.exceptions.foldl writeException t) := by
  have h16 : 16 ≤ ie.data.length := h.2.1
  have heven : ie.data.length % 2 = 0 := h.2.2
  refine updateExceptions_eq (k := 0)
    (List.take_append_drop (ie.data.length - QOS_MAP_FIXED_LENGTH) ie.data).symm ?_ t
  rw [List.length_take]
  show min (ie.data.length - 16) ie.data.length = 2 * ((ie.data.length - 16) / 2)
  omega

end

theorem priority_eq (ie : Tlv) (t : Table) :
    ie.exceptions.foldl writeException (ie.ranges.zipIdx.foldl writeRange (memset t 0xff)) =
      ie.priority := by
  funext d
  rw [exceptions_at, ranges_at]
  unfold Tlv.priority
  cases ie.exceptions.reverse.find? (excepts d) with
  | some e => rfl
  | none => cases ie.ranges.zipIdx.reverse.find? fun r => covers d r.1 <;> rfl

/-- Nothing outside the element is read and nothing outside the table written, and the table is the
one of the element. -/
theorem wl_set_up_table_eq (upTable : Table) (ie : Tlv) :
    wlSetUpTable upTable ie = some ie.expected := by
  unfold wlSetUpTable Tlv.expected
  dsimp only
  by_cases hlegal : ie.Legal
  · rw [if_pos hlegal, if_pos (show ie.id = _ ∧ _ from hlegal), fillRanges_legal hlegal]
    dsimp only [Option.bind_eq_bind, Option.bind_some]
    by_cases hr : ∀ r ∈ ie.ranges, WellFormed r
    · rw [if_pos hr, if_pos hr]
      dsimp only
      rw [updateExceptions_legal hlegal, priority_eq]
      rfl
    · rw [if_neg hr, if_neg hr]
      rfl
  · rw [if_neg hlegal, if_neg (show ¬ (ie.id = _ ∧ _) from hlegal)]
    rfl

end Bcmdhd.QosMap
