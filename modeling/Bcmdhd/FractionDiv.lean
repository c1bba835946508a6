import Mathlib.Tactic.Ring

/-!
# Division by multiplication with a fraction (`div_1K`, `div_1M` in `bcmutils.c`)

`1/n` is `d1`, `d2` to 64 bits behind its leading zeros, rounded up, and `q` has the halves `hi`
and `lo`.  Three of the four products are formed; `lo * d2` is made up for by one more `lo`.

    n * product = 2^(32 + S) * q + e2 * hi + e1 * lo                       (product_eq)
    product / 2^(32 + S) = q / n ↔ e2 * hi + e1 * lo < (n - q % n) * 2^(32 + S)
-/

namespace Bcmdhd.FractionDiv

/-! ## Algorithm -/

def lo (q : UInt64) : UInt32 := q.toUInt32

def hi (q : UInt64) : UInt32 := (q >>> 32).toUInt32

def divFraction (d1 d2 S q : UInt64) : UInt64 :=
  let a1 := (lo q).toUInt64 * (d1 + 1)
  let a := (hi q).toUInt64 * (d2 + 1) + a1
  let carry := a < a1
  let aLow := (a >>> 32).toUInt32
  let a := (hi q).toUInt64 * d1 + aLow.toUInt64
  let a := if carry then a + 0x100000000 else a
  a >>> S

def div1K (q : UInt64) : UInt64 := divFraction 0x83126E97 0x8D4FDF3B 9 q

def div1M (q : UInt64) : UInt64 := divFraction 0x8637BD05 0xAF6C69B5 19 q

/-! ## Quotients -/

/-- A product that is `e` too large gives the quotient as long as `e` does not reach the next
multiple. -/
theorem quotient_iff {n m t q e : Nat} (hn : 0 < n) (hm : 0 < m) (h : n * t = m * q + e) :
    t / m = q / n ↔ e < (n - q % n) * m := by
  obtain ⟨k, hk⟩ : ∃ k, k = q / n := ⟨_, rfl⟩
  obtain ⟨r, hr⟩ : ∃ r, r = q % n := ⟨_, rfl⟩
  have hrn : r < n := hr ▸ Nat.mod_lt q hn
  have hq : q = n * k + r := by
    rw [hk, hr]
    exact (Nat.div_add_mod q n).symm
  have hnt : n * t = n * m * k + (m * r + e) := by
    rw [h, hq]
    ring
  have hdiv : t / m = k + (m * r + e) / (n * m) := by
    rw [← Nat.mul_div_mul_left t m hn, hnt, Nat.mul_add_div (Nat.mul_pos hn hm)]
  have hsub : (n - r) * m + m * r = n * m := by
    rw [Nat.mul_comm m r, ← Nat.add_mul, Nat.sub_add_cancel (Nat.le_of_lt hrn)]
  rw [← hk, ← hr, hdiv]
  constructor
  · intro heq
    have hzero : (m * r + e) / (n * m) = 0 := by omega
    have hlt := Nat.lt_of_div_eq_zero (Nat.mul_pos hn hm) hzero
    omega
  · intro hlt
    rw [Nat.div_eq_of_lt (by omega), Nat.add_zero]

/-! ## Words -/

theorem lo_toNat (q : UInt64) : (lo q).toNat = q.toNat % 2 ^ 32 := by
  unfold lo
  rw [UInt64.toNat_toUInt32]

theorem hi_toNat (q : UInt64) : (hi q).toNat = q.toNat / 2 ^ 32 := by
  have hq := q.toNat_lt
  have hS : (32 : UInt64).toNat % 64 = 32 := rfl
  unfold hi
  rw [UInt64.toNat_toUInt32, UInt64.toNat_shiftRight, Nat.shiftRight_eq_div_pow, hS]
  exact Nat.mod_eq_of_lt (by omega)

/-- The sum of two words, to 65 bits, without the lower half. -/
theorem carry_eq (x y : UInt64) :
    (if x + y < y then 2 ^ 32 else 0) + ((x + y) >>> 32).toUInt32.toNat =
      (x.toNat + y.toNat) / 2 ^ 32 := by
  have hx := x.toNat_lt
  have hy := y.toNat_lt
  have hsum : (x + y).toNat = (x.toNat + y.toNat) % 2 ^ 64 := UInt64.toNat_add x y
  have hlow : ((x + y) >>> 32).toUInt32.toNat = (x + y).toNat / 2 ^ 32 := hi_toNat (x + y)
  rw [hlow]
  split
  · next hc =>
    rw [UInt64.lt_iff_toNat_lt] at hc
    omega
  · next hc =>
    rw [UInt64.lt_iff_toNat_lt] at hc
    omega

/-- The 128-bit product without its lower half, short of `lo * d2`. -/
def product (d1 d2 : Nat) (q : UInt64) : Nat :=
  (2 ^ 32 * d1 + (d2 + 1)) * (hi q).toNat + (d1 + 1) * (lo q).toNat

theorem divFraction_toNat {d1 d2 S : UInt64} (h1 : d1.toNat < 2 ^ 32) (h2 : d2.toNat < 2 ^ 32)
    (hS : S.toNat < 64) (q : UInt64) :
    (divFraction d1 d2 S q).toNat = product d1.toNat d2.toNat q / 2 ^ (32 + S.toNat) := by
  have hhi : (hi q).toNat < 2 ^ 32 := (hi q).toNat_lt
  have hlo : (lo q).toNat < 2 ^ 32 := (lo q).toNat_lt
  have hone1 : (d1 + 1).toNat = d1.toNat + 1 := by
    rw [UInt64.toNat_add]
    exact Nat.mod_eq_of_lt (by simp; omega)
  have hone2 : (d2 + 1).toNat = d2.toNat + 1 := by
    rw [UInt64.toNat_add]
    exact Nat.mod_eq_of_lt (by simp; omega)
  have hmul : ∀ (a : UInt32) (b : UInt64), b.toNat ≤ 2 ^ 32 →
      (a.toUInt64 * b).toNat = a.toNat * b.toNat := by
    intro a b hb
    have ha := a.toNat_lt
    have hle : a.toNat * b.toNat ≤ (2 ^ 32 - 1) * 2 ^ 32 := Nat.mul_le_mul (by omega) hb
    rw [UInt64.toNat_mul, UInt32.toNat_toUInt64]
    exact Nat.mod_eq_of_lt (by omega)
  obtain ⟨x, hx⟩ : ∃ x, x = (hi q).toUInt64 * (d2 + 1) := ⟨_, rfl⟩
  obtain ⟨y, hy⟩ : ∃ y, y = (lo q).toUInt64 * (d1 + 1) := ⟨_, rfl⟩
  have hxn : x.toNat = (hi q).toNat * (d2.toNat + 1) := by rw [hx, hmul _ _ (by omega), hone2]
  have hyn : y.toNat = (lo q).toNat * (d1.toNat + 1) := by rw [hy, hmul _ _ (by omega), hone1]
  have hcarry := carry_eq x y
  have hd1 := hmul (hi q) d1 (by omega)
  -- the sum does not overflow: `(2^32 - 1)^2 + 2 * (2^32 - 1) = 2^64 - 1`
  have htop : (hi q).toNat * d1.toNat ≤ (2 ^ 32 - 1) * (2 ^ 32 - 1) :=
    Nat.mul_le_mul (by omega) (by omega)
  have hxtop : x.toNat ≤ (2 ^ 32 - 1) * 2 ^ 32 := hxn ▸ Nat.mul_le_mul (by omega) (by omega)
  have hytop : y.toNat ≤ (2 ^ 32 - 1) * 2 ^ 32 := hyn ▸ Nat.mul_le_mul (by omega) (by omega)
  have hsum : (if x + y < y then (hi q).toUInt64 * d1 + ((x + y) >>> 32).toUInt32.toUInt64 + 0x100000000
      else (hi q).toUInt64 * d1 + ((x + y) >>> 32).toUInt32.toUInt64).toNat =
      (hi q).toNat * d1.toNat + (x.toNat + y.toNat) / 2 ^ 32 := by
    rw [← hcarry]
    have hword : (0x100000000 : UInt64).toNat = 2 ^ 32 := rfl
    by_cases hc : x + y < y
    · rw [if_pos hc] at hcarry
      rw [if_pos hc, if_pos hc, UInt64.toNat_add, UInt64.toNat_add, hd1, UInt32.toNat_toUInt64, hword]
      omega
    · rw [if_neg hc] at hcarry
      rw [if_neg hc, if_neg hc, UInt64.toNat_add, hd1, UInt32.toNat_toUInt64]
      omega
  unfold divFraction
  dsimp only
  rw [← hx, ← hy, UInt64.toNat_shiftRight, hsum, Nat.shiftRight_eq_div_pow, Nat.mod_eq_of_lt hS,
    Nat.pow_add, ← Nat.div_div_eq_div_mul, hxn, hyn]
  congr 1
  unfold product
  rw [← Nat.mul_add_div (by decide : 0 < 2 ^ 32)]
  congr 1
  ring

theorem product_eq {n d1 d2 S e1 e2 : Nat} (he1 : n * (d1 + 1) = 2 ^ (32 + S) + e1)
    (he2 : n * (2 ^ 32 * d1 + (d2 + 1)) = 2 ^ 32 * 2 ^ (32 + S) + e2) (q : UInt64) :
    n * product d1 d2 q =
      2 ^ (32 + S) * q.toNat + (e2 * (hi q).toNat + e1 * (lo q).toNat) := by
  have hq : q.toNat = 2 ^ 32 * (hi q).toNat + (lo q).toNat := by
    rw [hi_toNat, lo_toNat]
    exact (Nat.div_add_mod _ _).symm
  unfold product
  calc n * ((2 ^ 32 * d1 + (d2 + 1)) * (hi q).toNat + (d1 + 1) * (lo q).toNat)
      = n * (2 ^ 32 * d1 + (d2 + 1)) * (hi q).toNat + n * (d1 + 1) * (lo q).toNat := by ring
    _ = (2 ^ 32 * 2 ^ (32 + S) + e2) * (hi q).toNat + (2 ^ (32 + S) + e1) * (lo q).toNat := by
      rw [he1, he2]
    _ = 2 ^ (32 + S) * q.toNat + (e2 * (hi q).toNat + e1 * (lo q).toNat) := by
      rw [hq]
      ring

/-- A quotient that comes from the fraction of `1/n`. -/
theorem divFraction_iff {d1 d2 S n : UInt64} {e1 e2 : Nat} (h1 : d1.toNat < 2 ^ 32)
    (h2 : d2.toNat < 2 ^ 32) (hS : S.toNat < 64) (hn : 0 < n.toNat)
    (he1 : n.toNat * (d1.toNat + 1) = 2 ^ (32 + S.toNat) + e1)
    (he2 : n.toNat * (2 ^ 32 * d1.toNat + (d2.toNat + 1)) = 2 ^ 32 * 2 ^ (32 + S.toNat) + e2)
    (q : UInt64) :
    divFraction d1 d2 S q = q / n ↔
      e2 * (hi q).toNat + e1 * (lo q).toNat < (n.toNat - q.toNat % n.toNat) * 2 ^ (32 + S.toNat) := by
  rw [← UInt64.toNat_inj, divFraction_toNat h1 h2 hS, UInt64.toNat_div]
  exact quotient_iff hn (Nat.two_pow_pos _) (product_eq he1 he2 q)

/-- The quotients are right as long as the rounding does not carry over to the next one. -/
theorem div_exact_iff (q : UInt64) :
    (div1K q = q / 1000 ↔
      608 * (hi q).toNat + 448 * (lo q).toNat < (1000 - q.toNat % 1000) * 2 ^ 41) ∧
    (div1M q = q / 1000000 ↔
      350592 * (hi q).toNat + 314752 * (lo q).toNat < (1000000 - q.toNat % 1000000) * 2 ^ 51) := by
  constructor
  · exact divFraction_iff (n := 1000) (by decide) (by decide) (by decide) (by decide) (by decide)
      (by decide) q
  · exact divFraction_iff (n := 1000000) (by decide) (by decide) (by decide) (by decide) (by decide)
      (by decide) q

/-- Dividends that come out one too large. -/
theorem div_exact_fails :
    div1K 1941762651621162999 = 1941762651621162999 / 1000 + 1 ∧
      div1M 11024948334618999999 = 11024948334618999999 / 1000000 + 1 := by
  decide

end Bcmdhd.FractionDiv
