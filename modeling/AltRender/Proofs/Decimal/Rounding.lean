import AltRender.Decimal.Binary
import Mathlib.Algebra.Order.Field.Power
import Mathlib.Algebra.Order.Floor.Semifield
import Mathlib.Data.Rat.Floor
import Mathlib.Tactic.FieldSimp
import Mathlib.Tactic.Linarith
import Mathlib.Tactic.NormNum
import Mathlib.Tactic.Positivity
import Mathlib.Tactic.Ring

/-!
# `Proofs/Decimal/Rounding` — which fractions round to a number

`Binary.round` computes with natural numbers; what it is supposed to do is a statement about
rationals. A mantissa and an exponent are *canonical* in a format if they are the ones that the bits
of a number say, and a rational *rounds to* them if it lies in the interval around `m · 2^e` that
ends midway to the neighbours, the ends included if `m` is even.

Main fact: a fraction that rounds to canonical `m · 2^e` is rounded to its bits
(`Binary.round_of_roundsTo`). So the interval of a number may be searched for a decimal with any
property at all: whatever is found reads back.
-/

set_option autoImplicit false

namespace AltRender.Decimal

theorem two_zpow_pos (e : Int) : (0 : ℚ) < (2 : ℚ) ^ e := zpow_pos (by norm_num) e

theorem ten_zpow_pos (e : Int) : (0 : ℚ) < (10 : ℚ) ^ e := zpow_pos (by norm_num) e

/-- A power of two below another is at most half of it. -/
theorem two_mul_zpow_le {e e' : Int} (h : e < e') : 2 * (2 : ℚ) ^ e ≤ (2 : ℚ) ^ e' := by
  have hstep : (2 : ℚ) ^ (e + 1) = 2 * (2 : ℚ) ^ e := by
    rw [zpow_add₀ (by norm_num), zpow_one, mul_comm]
  rw [← hstep]
  exact zpow_le_zpow_right₀ (by norm_num) (by omega)

/-! ## Fractions in units of a power -/

/-- The fraction `num / den` in units of `b^e`, the power on whichever side keeps both parts
natural. -/
def fractionAt (b num den : Nat) (e : Int) : Nat × Nat :=
  if 0 ≤ e then (num, den * Nat.pow b e.toNat) else (num * Nat.pow b (-e).toNat, den)

theorem fractionAt_den_pos {b den : Nat} (hb : 0 < b) (hd : 0 < den) (num : Nat) (e : Int) :
    0 < (fractionAt b num den e).2 := by
  unfold fractionAt
  split
  · exact Nat.mul_pos hd (Nat.pow_pos hb)
  · exact hd

theorem fractionAt_eq (b num den : Nat) (e : Int) :
    ((fractionAt b num den e).1 : ℚ) / (fractionAt b num den e).2 =
      (num : ℚ) / den / (b : ℚ) ^ e := by
  unfold fractionAt
  split
  · rename_i he
    lift e to Nat using he
    simp only [Int.toNat_natCast, Nat.pow_eq, Nat.cast_mul, Nat.cast_pow, zpow_natCast]
    rw [div_div]
  · rename_i he
    have hflip : (b : ℚ) ^ e = ((b : ℚ) ^ (-e).toNat)⁻¹ := by
      rw [← zpow_natCast, ← zpow_neg]
      congr 1
      omega
    rw [hflip, div_inv_eq_mul]
    simp only [Nat.pow_eq, Nat.cast_mul, Nat.cast_pow]
    rw [mul_div_right_comm]

/-! ## Rounding a fraction to a whole number -/

/-- The quotient without fractions: the number that the dividend is half a divisor away from at
most. -/
theorem divideToEven_of_le {num den m : Nat} (hd : 0 < den) (low : 2 * m * den ≤ 2 * num + den)
    (high : 2 * num ≤ (2 * m + 1) * den)
    (tie : 2 * m * den = 2 * num + den ∨ 2 * num = (2 * m + 1) * den → m % 2 = 0) :
    Binary.divideToEven num den = m := by
  unfold Binary.divideToEven
  have hsplit : den * (num / den) + num % den = num := Nat.div_add_mod num den
  have hrest : num % den < den := Nat.mod_lt _ hd
  generalize num / den = whole at hsplit ⊢
  generalize num % den = rest at hsplit hrest ⊢
  -- The bounds leave the quotient and its successor, and at a tie the even one of them.
  have h₁ : m ≤ whole + 1 := by
    by_contra h
    have : (2 * whole + 4) * den ≤ 2 * m * den := Nat.mul_le_mul_right _ (by omega)
    have : (2 * whole + 4) * den = 2 * (den * whole) + 4 * den := by ring
    omega
  have h₂ : whole ≤ m := by
    by_contra h
    have : (2 * m + 1 + 1) * den ≤ 2 * whole * den := Nat.mul_le_mul_right _ (by omega)
    have : 2 * whole * den = 2 * (den * whole) := by ring
    have : (2 * m + 1 + 1) * den = (2 * m + 1) * den + den := by ring
    omega
  obtain rfl | rfl : whole = m ∨ m = whole + 1 := by omega
  · have : (2 * whole + 1) * den = 2 * (den * whole) + den := by ring
    have : 2 * rest = den → whole % 2 = 0 := fun h => tie (.inr (by omega))
    grind
  · have : 2 * (whole + 1) * den = 2 * (den * whole) + 2 * den := by ring
    have : 2 * rest = den → (whole + 1) % 2 = 0 := fun h => tie (.inl (by omega))
    grind

/-- A fraction within a half of a whole number is rounded to it; at exactly a half if the number is
even. -/
theorem divideToEven_eq {num den m : Nat} (hd : 0 < den) (low : (m : ℚ) - 1 / 2 ≤ (num : ℚ) / den)
    (high : (num : ℚ) / den ≤ m + 1 / 2)
    (tie : (num : ℚ) / den = m - 1 / 2 ∨ (num : ℚ) / den = m + 1 / 2 → m % 2 = 0) :
    Binary.divideToEven num den = m := by
  have hdq : (0 : ℚ) < den := by exact_mod_cast hd
  refine divideToEven_of_le hd ?_ ?_ ?_
  · rw [le_div_iff₀ hdq] at low
    have : (2 * m * den : ℚ) ≤ 2 * num + den := by linarith
    exact_mod_cast this
  · rw [div_le_iff₀ hdq] at high
    have : (2 * num : ℚ) ≤ (2 * m + 1) * den := by linarith
    exact_mod_cast this
  · rintro (h | h)
    · refine tie (.inl ?_)
      have : (2 * m * den : ℚ) = 2 * num + den := by exact_mod_cast h
      rw [div_eq_iff hdq.ne']
      linarith
    · refine tie (.inr ?_)
      have : (2 * num : ℚ) = (2 * m + 1) * den := by exact_mod_cast h
      rw [div_eq_iff hdq.ne']
      linarith

/-! ## The numbers of a format -/

namespace Binary

/-- The mantissa and the exponent that the bits of a finite number say: as long a mantissa as the
format has, unless the exponent is the least there is. -/
structure Canonical (f : Binary) (m : Nat) (e : Int) : Prop where
  lt : m < 2 * f.exponentUnit
  least : f.minExponent ≤ e
  normal : f.minExponent < e → f.exponentUnit ≤ m

/-- How far below `m · 2^e`, in units of `2^e`, the interval of the number reaches. Below a power of
two the numbers lie twice as dense. -/
def reachBelow (f : Binary) (m : Nat) (e : Int) : ℚ :=
  if m = f.exponentUnit ∧ f.minExponent < e then 1 / 4 else 1 / 2

/-- **Whether a rational rounds to `m · 2^e`,** given how many `2^e` it is. -/
def RoundsTo (f : Binary) (m : Nat) (e : Int) (q : ℚ) : Prop :=
  ((m : ℚ) - f.reachBelow m e < q / 2 ^ e ∧ q / 2 ^ e < m + 1 / 2) ∨
    (m % 2 = 0 ∧ (m : ℚ) - f.reachBelow m e ≤ q / 2 ^ e ∧ q / 2 ^ e ≤ m + 1 / 2)

theorem reachBelow_le (f : Binary) (m : Nat) (e : Int) : f.reachBelow m e ≤ 1 / 2 := by
  unfold reachBelow
  split <;> norm_num

theorem RoundsTo.le {f : Binary} {m : Nat} {e : Int} {q : ℚ} (h : f.RoundsTo m e q) :
    (m : ℚ) - f.reachBelow m e ≤ q / 2 ^ e ∧ q / 2 ^ e ≤ m + 1 / 2 := by
  rcases h with ⟨h₁, h₂⟩ | ⟨-, h₁, h₂⟩
  · exact ⟨h₁.le, h₂.le⟩
  · exact ⟨h₁, h₂⟩

/-! ## The exponent of the last place -/

/-- Twice the weight of the exponent field is the bound of all mantissas. -/
theorem two_mul_exponentUnit {f : Binary} (hp : 0 < f.precision) :
    2 * f.exponentUnit = 2 ^ f.precision := by
  obtain ⟨n, hn⟩ : ∃ n, f.precision = n + 1 := ⟨f.precision - 1, by omega⟩
  rw [exponentUnit, Nat.pow_eq, hn, Nat.add_sub_cancel, pow_succ, mul_comm]

theorem exponentUnit_pos (f : Binary) : 0 < f.exponentUnit := Nat.pow_pos (by norm_num)

/-- The first guess at the exponent of the last place: from the lengths of numerator and denominator
in bits. -/
def firstGuess (f : Binary) (num den : Nat) : Int :=
  (num.log2 : Int) - den.log2 - f.precision

theorem lastPlace_eq {f : Binary} (hp : 0 < f.precision) (num : Nat) {den : Nat} (hd : 0 < den) :
    f.lastPlace num den = max f.minExponent
      (if (num : ℚ) / den < 2 * f.exponentUnit * 2 ^ f.firstGuess num den then f.firstGuess num den
        else f.firstGuess num den + 1) := by
  have hshape : f.lastPlace num den = max f.minExponent
      (if (fractionAt 2 num den (f.firstGuess num den)).1 /
        (fractionAt 2 num den (f.firstGuess num den)).2 <
        Nat.pow 2 f.precision then f.firstGuess num den else f.firstGuess num den + 1) := rfl
  have hden := fractionAt_den_pos (b := 2) (by norm_num) hd num (f.firstGuess num den)
  have hiff : (fractionAt 2 num den (f.firstGuess num den)).1 /
    (fractionAt 2 num den (f.firstGuess num den)).2 <
      Nat.pow 2 f.precision ↔ (num : ℚ) / den < 2 * f.exponentUnit * 2 ^ f.firstGuess num den := by
    rw [Nat.pow_eq, ← two_mul_exponentUnit hp, Nat.div_lt_iff_lt_mul hden,
      ← div_lt_iff₀ (two_zpow_pos _)]
    have heq := fractionAt_eq 2 num den (f.firstGuess num den)
    push_cast at heq
    rw [← heq, div_lt_iff₀ (by exact_mod_cast hden)]
    exact_mod_cast Iff.rfl
  rw [hshape]
  simp only [hiff]

/-- A fraction lies between one and four times the weight of the exponent field, in units of the
first guess. -/
theorem firstGuess_bounds {f : Binary} (hp : 0 < f.precision) {num den : Nat} (hn : 0 < num)
    (hd : 0 < den) :
    f.exponentUnit * (2 : ℚ) ^ f.firstGuess num den < (num : ℚ) / den ∧
      (num : ℚ) / den < 4 * f.exponentUnit * 2 ^ f.firstGuess num den := by
  have hdq : (0 : ℚ) < den := by exact_mod_cast hd
  have hn₁ : (2 : ℚ) ^ num.log2 ≤ num := by exact_mod_cast Nat.log2_self_le hn.ne'
  have hn₂ : (num : ℚ) < 2 ^ num.log2 * 2 := by exact_mod_cast Nat.lt_log2_self (n := num)
  have hd₁ : (2 : ℚ) ^ den.log2 ≤ den := by exact_mod_cast Nat.log2_self_le hd.ne'
  have hd₂ : (den : ℚ) < 2 ^ den.log2 * 2 := by exact_mod_cast Nat.lt_log2_self (n := den)
  have hu : (2 : ℚ) * f.exponentUnit = 2 ^ f.precision := by exact_mod_cast two_mul_exponentUnit hp
  -- In one unit: `2u · 2^guess · 2^(log den) = 2^(log num)`.
  have hunit : 2 * f.exponentUnit * (2 : ℚ) ^ f.firstGuess num den * 2 ^ den.log2 =
    2 ^ num.log2 := by
    rw [hu, ← zpow_natCast, ← zpow_natCast (n := den.log2), ← zpow_natCast (n := num.log2),
      ← zpow_add₀ (by norm_num), ← zpow_add₀ (by norm_num), firstGuess]
    congr 1
    omega
  have hg := two_zpow_pos (f.firstGuess num den)
  have hux : (0 : ℚ) < f.exponentUnit := by exact_mod_cast f.exponentUnit_pos
  have hug : 0 < f.exponentUnit * (2 : ℚ) ^ f.firstGuess num den := mul_pos hux hg
  constructor
  · rw [lt_div_iff₀ hdq]
    nlinarith
  · rw [div_lt_iff₀ hdq]
    nlinarith

/-- **A fraction has the format's precision in its last place,** or fewer digits in the least place
there is. -/
theorem lastPlace_spec {f : Binary} (hp : 0 < f.precision) {num den : Nat} (hn : 0 < num)
    (hd : 0 < den) :
    f.minExponent ≤ f.lastPlace num den ∧
      (num : ℚ) / den < 2 * f.exponentUnit * 2 ^ f.lastPlace num den ∧
      (f.minExponent < f.lastPlace num den →
        f.exponentUnit * 2 ^ f.lastPlace num den ≤ (num : ℚ) / den) := by
  obtain ⟨hlow, hhigh⟩ := firstGuess_bounds hp hn hd
  have hux : (0 : ℚ) < f.exponentUnit := by exact_mod_cast f.exponentUnit_pos
  rw [lastPlace_eq hp num hd]
  generalize f.firstGuess num den = guess at hlow hhigh ⊢
  -- The guess, or one more, is the place where the precision is used up; a greater one only makes
  -- room.
  have hplace : ∀ place : Int, (num : ℚ) / den < 2 * f.exponentUnit * 2 ^ place →
      f.exponentUnit * (2 : ℚ) ^ place ≤ (num : ℚ) / den →
      f.minExponent ≤ max f.minExponent place ∧
        (num : ℚ) / den < 2 * f.exponentUnit * 2 ^ max f.minExponent place ∧
        (f.minExponent < max f.minExponent place →
          f.exponentUnit * (2 : ℚ) ^ max f.minExponent place ≤ (num : ℚ) / den) := by
    intro place h₁ h₂
    refine ⟨le_max_left _ _, h₁.trans_le ?_, fun h => ?_⟩
    · exact mul_le_mul_of_nonneg_left (zpow_le_zpow_right₀ (by norm_num) (le_max_right _ _))
        (by positivity)
    · rwa [max_eq_right (by omega)]
  split
  · rename_i h
    exact hplace guess h hlow.le
  · rename_i h
    have hstep : (2 : ℚ) ^ (guess + 1) = 2 * 2 ^ guess := by
      rw [zpow_add₀ (by norm_num), zpow_one, mul_comm]
    refine hplace (guess + 1) ?_ ?_
    · rw [hstep]
      linarith
    · rw [hstep]
      linarith

/-! ## Rounding to the format -/

theorem round_eq {f : Binary} {num : Nat} (hn : 0 < num) (den : Nat) :
    f.round num den =
      min f.infinityBits ((f.lastPlace num den - f.minExponent).toNat * f.exponentUnit +
      divideToEven (fractionAt 2 num den (f.lastPlace num den)).1
        (fractionAt 2 num den (f.lastPlace num den)).2) := by
  unfold round fractionAt
  rw [if_neg hn.ne']
  dsimp only
  split <;> rfl

/-- Rounding to a whole number takes what rounds to `m · 2^e` to `m`, if it is counted in units of
`2^e`. -/
theorem RoundsTo.divideToEven_eq {f : Binary} {m : Nat} {e : Int} {v : ℚ} (h : f.RoundsTo m e v)
    {num den : Nat} (hd : 0 < den) (hv : (num : ℚ) / den = v / 2 ^ e) :
    divideToEven num den = m := by
  obtain ⟨h₁, h₂⟩ := h.le
  have hreach := f.reachBelow_le m e
  rw [← hv] at h₁ h₂
  refine Decimal.divideToEven_eq hd (by linarith) h₂ fun htie => ?_
  rcases h with ⟨h₁, h₂⟩ | ⟨heven, -, -⟩
  · rw [← hv] at h₁ h₂
    rcases htie with htie | htie <;> linarith
  · exact heven

/-- The place of a fraction that rounds to canonical `m · 2^e` is `e`, or it is one less, where the
fraction lies just below the power of two that `m · 2^e` is. -/
theorem RoundsTo.place {f : Binary} {m : Nat} {e : Int} (hc : f.Canonical m e) {v : ℚ}
    (h : f.RoundsTo m e v) {place : Int} (hmin : f.minExponent ≤ place)
    (hlt : v < 2 * f.exponentUnit * 2 ^ place)
    (hge : f.minExponent < place → f.exponentUnit * 2 ^ place ≤ v) :
    place = e ∨ place + 1 = e ∧ m = f.exponentUnit ∧
    2 * (f.exponentUnit : ℚ) - 1 / 2 ≤ v / 2 ^ place := by
  obtain ⟨h₁, h₂⟩ := h.le
  have hux : (1 : ℚ) ≤ f.exponentUnit := by exact_mod_cast f.exponentUnit_pos
  have he := two_zpow_pos e
  rw [le_div_iff₀ he] at h₁
  rw [div_le_iff₀ he] at h₂
  rcases lt_trichotomy place e with hpe | hpe | hpe
  · -- Then the fraction is below the least normal number with last place `e`, and `m · 2^e` has to
    -- be that number.
    right
    have hnormal := hc.normal (by omega)
    have hdouble := two_mul_zpow_le hpe
    have hm : m = f.exponentUnit := by
      by_contra hne
      have hm : (f.exponentUnit : ℚ) + 1 ≤ m := by
        exact_mod_cast (by omega : f.exponentUnit + 1 ≤ m)
      have hreach := f.reachBelow_le m e
      nlinarith
    have hreach : f.reachBelow m e = 1 / 4 := by rw [reachBelow, if_pos ⟨hm, by omega⟩]
    rw [hreach, hm] at h₁
    have hnext : place + 1 = e := by
      by_contra hne
      have hdouble' := two_mul_zpow_le (show place + 1 < e by omega)
      rw [zpow_add₀ (by norm_num), zpow_one] at hdouble'
      nlinarith
    refine ⟨hnext, hm, ?_⟩
    rw [← hnext, zpow_add₀ (by norm_num), zpow_one] at h₁
    rw [le_div_iff₀ (two_zpow_pos place)]
    linarith
  · exact .inl hpe
  · exfalso
    have hm : (m : ℚ) + 1 ≤ 2 * f.exponentUnit := by exact_mod_cast hc.lt
    have hdouble := two_mul_zpow_le hpe
    have := hge (by have := hc.least; omega)
    nlinarith

/-- **A fraction that rounds to `m · 2^e` is rounded to its bits.** -/
theorem round_of_roundsTo {f : Binary} (hp : 0 < f.precision) {m : Nat} {e : Int}
    (hc : f.Canonical m e) {num den : Nat} (hn : 0 < num) (hd : 0 < den)
    (h : f.RoundsTo m e ((num : ℚ) / den)) :
    f.round num den = min f.infinityBits ((e - f.minExponent).toNat * f.exponentUnit + m) := by
  obtain ⟨hmin, hlt, hge⟩ := lastPlace_spec hp hn hd
  rw [round_eq hn]
  have hden := fractionAt_den_pos (b := 2) (by norm_num) hd num (f.lastPlace num den)
  have hfrac := fractionAt_eq 2 num den (f.lastPlace num den)
  push_cast at hfrac
  rcases h.place hc hmin hlt hge with hplace | ⟨hplace, hm, hnear⟩
  · rw [hplace] at hfrac hden ⊢
    rw [h.divideToEven_eq hden hfrac]
  · -- Rounded up to the next power of two, the mantissa has one digit more and the place is one
    -- less.
    rw [hfrac.symm] at hnear
    have htop := Decimal.divideToEven_eq (m := 2 * f.exponentUnit) hden (by push_cast; exact hnear)
      (by
        rw [hfrac, div_le_iff₀ (two_zpow_pos _)]
        push_cast
        nlinarith [two_zpow_pos (f.lastPlace num den)])
      (fun _ => by omega)
    rw [htop, hm]
    obtain ⟨k, hk⟩ :=
      Int.eq_ofNat_of_zero_le (show 0 ≤ f.lastPlace num den - f.minExponent by omega)
    have hk' : (e - f.minExponent).toNat = k + 1 := by omega
    rw [hk, hk', Int.toNat_natCast]
    congr 1
    ring

end Binary

end AltRender.Decimal
