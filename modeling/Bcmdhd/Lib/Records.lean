import Mathlib.Data.List.Range

/-!
# Records laid out in a buffer

A buffer is a function of the position.  `Laid bytes buf p es stop` says that the records
`es`, each with its position, follow one another from `p` and end at `stop`.

* `readAt_writeAt`, `readAt_writeAt_of_off`: what a read gives after a write.
* `writeEach_off`, `readAt_writeEach`: the same for writes that are apart.
* `Laid.congr`, `Laid.snoc`, `Laid.append`: frame and append.
* `Laid.unique`: the buffer determines the records, if their bytes do.
-/

namespace Records

variable {α β : Type*}

def readAt (buf : Nat → β) (pos n : Nat) : List β := (List.range n).map fun i => buf (pos + i)

def writeAt (buf : Nat → β) (pos : Nat) (bs : List β) : Nat → β :=
  fun i => if pos ≤ i then (bs[i - pos]?).getD (buf i) else buf i

@[simp] theorem readAt_length (buf : Nat → β) (pos n : Nat) : (readAt buf pos n).length = n := by
  simp [readAt]

theorem readAt_congr {buf buf' : Nat → β} {pos n : Nat}
    (h : ∀ i, pos ≤ i → i < pos + n → buf' i = buf i) : readAt buf' pos n = readAt buf pos n := by
  unfold readAt
  apply List.map_congr_left
  intro i hi
  rw [List.mem_range] at hi
  exact h (pos + i) (by omega) (by omega)

theorem readAt_add (buf : Nat → β) (pos m n : Nat) :
    readAt buf pos (m + n) = readAt buf pos m ++ readAt buf (pos + m) n := by
  unfold readAt
  rw [List.range_add, List.map_append, List.map_map]
  congr 1
  apply List.map_congr_left
  intro i _
  rw [Nat.add_assoc]
  rfl

theorem drop_take_readAt {buf : Nat → β} {pos p k n : Nat} (h : p + k ≤ n) :
    ((readAt buf pos n).drop p).take k = readAt buf (pos + p) k := by
  obtain ⟨m, rfl⟩ := Nat.exists_eq_add_of_le h
  rw [readAt_add, readAt_add, List.append_assoc, List.drop_left' (readAt_length buf pos p),
    List.take_left' (readAt_length buf (pos + p) k)]

theorem drop_readAt (buf : Nat → β) {pos k n : Nat} (h : k ≤ n) :
    (readAt buf pos n).drop k = readAt buf (pos + k) (n - k) := by
  obtain ⟨m, rfl⟩ := Nat.exists_eq_add_of_le h
  rw [readAt_add, List.drop_left' (readAt_length buf pos k), Nat.add_sub_cancel_left]

theorem getD_readAt (buf : Nat → β) {pos k n : Nat} (h : k < n) (b : β) :
    (readAt buf pos n).getD k b = buf (pos + k) := by
  simp [readAt, List.getD, h]

theorem writeAt_of_off {buf : Nat → β} {pos i : Nat} {bs : List β}
    (h : i < pos ∨ pos + bs.length ≤ i) : writeAt buf pos bs i = buf i := by
  unfold writeAt
  split
  · rw [List.getElem?_eq_none (by omega)]
    rfl
  · rfl

theorem readAt_writeAt (buf : Nat → β) (pos : Nat) (bs : List β) :
    readAt (writeAt buf pos bs) pos bs.length = bs := by
  apply List.ext_getElem
  · simp
  · intro i h1 h2
    simp [readAt, writeAt, h2]

/-- Two writes, one behind the other. -/
theorem writeAt_append (buf : Nat → β) (pos : Nat) (as bs : List β) :
    writeAt (writeAt buf pos as) (pos + as.length) bs = writeAt buf pos (as ++ bs) := by
  funext i
  by_cases h : pos + as.length ≤ i
  · have hlt : ¬ i - pos < as.length := by omega
    simp [writeAt, h, show pos ≤ i by omega, List.getElem?_append, hlt,
      show i - (pos + as.length) = i - pos - as.length by omega]
  · by_cases hp : pos ≤ i
    · simp [writeAt, h, hp, List.getElem?_append, show i - pos < as.length by omega]
    · simp [writeAt, h, hp]

/-- Two writes, one in front of the other. -/
theorem writeAt_front {buf : Nat → β} {pos p : Nat} {as bs : List β} (h : p = pos + as.length) :
    writeAt (writeAt buf p bs) pos as = writeAt buf pos (as ++ bs) := by
  subst h
  rw [← writeAt_append]
  funext i
  by_cases hi : pos + as.length ≤ i
  · rw [writeAt_of_off (Or.inr hi)]
    simp [writeAt, hi, List.getElem?_eq_none (show as.length ≤ i - pos by omega)]
  · simp [writeAt, hi]

/-- A write over a part of another one. -/
theorem writeAt_inside (buf : Nat → β) (pos : Nat) {as bs : List β} {i : Nat}
    (h : i + bs.length ≤ as.length) :
    writeAt (writeAt buf pos as) (pos + i) bs =
      writeAt buf pos (as.take i ++ bs ++ as.drop (i + bs.length)) := by
  have hlen : (as.take i).length = i := by
    rw [List.length_take]
    omega
  funext x
  by_cases hx : pos + i ≤ x ∧ x < pos + i + bs.length
  · simp [writeAt, hx.1, List.getElem?_append, hlen, show pos ≤ x by omega,
      show ¬ x - pos < i by omega, show x - pos - i < bs.length by omega,
      show x - (pos + i) = x - pos - i by omega]
  · rw [writeAt_of_off (by omega)]
    unfold writeAt
    by_cases hp : pos ≤ x
    · rw [if_pos hp, if_pos hp, List.append_assoc, List.getElem?_append, hlen]
      by_cases hi : x - pos < i
      · rw [if_pos hi, List.getElem?_take_of_lt hi]
      · rw [if_neg hi, List.getElem?_append_right (by omega), List.getElem?_drop,
          show i + bs.length + (x - pos - i - bs.length) = x - pos by omega]
    · rw [if_neg hp, if_neg hp]

theorem readAt_writeAt_of_off {buf : Nat → β} {pos p n : Nat} {bs : List β}
    (h : p + n ≤ pos ∨ pos + bs.length ≤ p) : readAt (writeAt buf pos bs) p n = readAt buf p n := by
  apply readAt_congr
  intro i h1 h2
  apply writeAt_of_off
  omega

/-! ## Writes that are apart -/

/-- Each list of bytes is written at its place, in turn. -/
def writeEach (buf : Nat → β) (ws : List (Nat × List β)) : Nat → β :=
  ws.foldl (fun buf w => writeAt buf w.1 w.2) buf

def Apart (w w' : Nat × List β) : Prop := w.1 + w.2.length ≤ w'.1 ∨ w'.1 + w'.2.length ≤ w.1

instance (w w' : Nat × List β) : Decidable (Apart w w') := inferInstanceAs (Decidable (_ ∨ _))

theorem writeEach_off {ws : List (Nat × List β)} {buf : Nat → β} {i : Nat}
    (h : ∀ w ∈ ws, i < w.1 ∨ w.1 + w.2.length ≤ i) : writeEach buf ws i = buf i := by
  induction ws generalizing buf with
  | nil => rfl
  | cons v ws ih =>
    have hrest : writeEach (writeAt buf v.1 v.2) ws i = writeAt buf v.1 v.2 i :=
      ih fun w hw => h w (List.mem_cons_of_mem v hw)
    exact hrest.trans (writeAt_of_off (h v List.mem_cons_self))

theorem readAt_writeEach {ws : List (Nat × List β)} (h : ws.Pairwise Apart) (buf : Nat → β)
    {w : Nat × List β} (hw : w ∈ ws) : readAt (writeEach buf ws) w.1 w.2.length = w.2 := by
  induction ws generalizing buf with
  | nil => cases hw
  | cons v ws ih =>
    obtain ⟨hv, hws⟩ := List.pairwise_cons.mp h
    rcases List.mem_cons.mp hw with rfl | hw
    · -- what is written later is elsewhere
      have hoff : ∀ i, w.1 ≤ i → i < w.1 + w.2.length →
          writeEach (writeAt buf w.1 w.2) ws i = writeAt buf w.1 w.2 i := by
        intro i h1 h2
        apply writeEach_off
        intro u hu
        have hu' : w.1 + w.2.length ≤ u.1 ∨ u.1 + u.2.length ≤ w.1 := hv u hu
        omega
      exact (readAt_congr hoff).trans (readAt_writeAt buf w.1 w.2)
    · exact ih hws (writeAt buf v.1 v.2) hw

/-! ## Layouts -/

/-- The records follow one another from `pos` to `stop`. -/
def Laid (bytes : α → List β) (buf : Nat → β) : Nat → List (Nat × α) → Nat → Prop
  | pos, [], stop => pos = stop
  | pos, (p, e) :: es, stop =>
    p = pos ∧ readAt buf pos (bytes e).length = bytes e ∧
      Laid bytes buf (pos + (bytes e).length) es stop

variable {bytes : α → List β} {buf buf' : Nat → β} {pos stop : Nat} {e : α}
  {es es' : List (Nat × α)}

theorem Laid.le (h : Laid bytes buf pos es stop) : pos ≤ stop := by
  induction es generalizing pos with
  | nil => exact Nat.le_of_eq h
  | cons x es ih =>
    have hle := ih h.2.2
    omega

/-- Only the bytes between the two ends matter. -/
theorem Laid.congr (h : Laid bytes buf pos es stop)
    (heq : ∀ i, pos ≤ i → i < stop → buf' i = buf i) : Laid bytes buf' pos es stop := by
  induction es generalizing pos with
  | nil => exact h
  | cons x es ih =>
    have hle := h.2.2.le
    refine ⟨h.1, ?_, ih h.2.2 fun i h1 h2 => heq i (by omega) h2⟩
    rw [readAt_congr fun i h1 h2 => heq i h1 (by omega)]
    exact h.2.1

theorem Laid.snoc (h : Laid bytes buf pos es stop)
    (he : readAt buf stop (bytes e).length = bytes e) :
    Laid bytes buf pos (es ++ [(stop, e)]) (stop + (bytes e).length) := by
  induction es generalizing pos with
  | nil =>
    rw [show pos = stop from h]
    exact ⟨rfl, he, rfl⟩
  | cons x es ih => exact ⟨h.1, h.2.1, ih h.2.2⟩

theorem Laid.append {mid : Nat} (h : Laid bytes buf pos es mid) (h' : Laid bytes buf mid es' stop) :
    Laid bytes buf pos (es ++ es') stop := by
  induction es generalizing pos with
  | nil =>
    rw [show pos = mid from h]
    exact h'
  | cons x es ih => exact ⟨h.1, h.2.1, ih h.2.2⟩

/-- Records are not more than bytes, if none is empty. -/
theorem Laid.length_le (h : Laid bytes buf pos es stop) (hpos : ∀ e, 0 < (bytes e).length) :
    es.length ≤ stop - pos := by
  induction es generalizing pos with
  | nil => exact Nat.zero_le _
  | cons x es ih =>
    have hlen := ih h.2.2
    have hx := hpos x.2
    have hle := h.2.2.le
    rw [List.length_cons]
    omega

/-- The records are determined by the buffer, if no record's bytes start another's. -/
theorem Laid.unique (h : Laid bytes buf pos es stop) (h' : Laid bytes buf pos es' stop)
    (hpos : ∀ e, 0 < (bytes e).length)
    (hdet : ∀ p e e', readAt buf p (bytes e).length = bytes e →
      readAt buf p (bytes e').length = bytes e' → e = e') : es = es' := by
  induction es generalizing pos es' with
  | nil =>
    cases es' with
    | nil => rfl
    | cons x es' =>
      have hx := hpos x.2
      have hle := h'.2.2.le
      have heq : pos = stop := h
      omega
  | cons x es ih =>
    cases es' with
    | nil =>
      have hx := hpos x.2
      have hle := h.2.2.le
      have heq : pos = stop := h'
      omega
    | cons y es' =>
      obtain ⟨p, e⟩ := x
      obtain ⟨q, f⟩ := y
      obtain ⟨rfl, he, hrest⟩ := h
      obtain ⟨rfl, hf, hrest'⟩ := h'
      obtain rfl := hdet q e f he hf
      rw [ih hrest hrest']

end Records
