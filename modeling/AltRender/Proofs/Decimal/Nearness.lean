import AltRender.Decimal.Shortest
import AltRender.Proofs.Decimal.Rounding
import Mathlib.Data.Nat.Cast.Order.Field

/-!
# `Proofs/Decimal/Nearness` — the shortest digits round to their number

The search for the shortest decimal looks at the two neighbours of a number on one grid of decimals
after the other. What it finds lies in the interval of the number, by the test it makes. That it
finds something is the point: the grid of seventeen digits is finer than the interval is wide, in
every format whose mantissas stay below `10^16`.

Main fact: the shortest decimal of a canonical number rounds to it (`shortest_roundsTo`).

All of it is about rationals: the interval has three numerators over one denominator, and
`Scaled.value` and `scaleByTwo_eq` say which rationals those are. Below that the arithmetic is that
of ordered fields.
-/

set_option autoImplicit false

namespace AltRender.Decimal

/-- The rational that a decimal is. -/
def Scaled.value (d : Scaled) : ℚ :=
  d.digits * 10 ^ d.exponent

/-! ## The test -/

theorem scaleByTwo_eq (m : Nat) (e : Int) :
    ((scaleByTwo m e).1 : ℚ) / (scaleByTwo m e).2 = m * 2 ^ e := by
  unfold scaleByTwo
  split
  · rename_i he
    lift e to Nat using he
    simp
  · rename_i he
    have hflip : (2 : ℚ) ^ e = ((2 : ℚ) ^ (-e).toNat)⁻¹ := by
      rw [← zpow_natCast, ← zpow_neg]
      congr 1
      omega
    simp [hflip, div_eq_mul_inv]

theorem scaleByTwo_den_pos (m : Nat) (e : Int) : 0 < (scaleByTwo m e).2 := by
  unfold scaleByTwo
  split
  · exact Nat.one_pos
  · exact Nat.pow_pos (by norm_num)

namespace Interval

/-- The three numbers that the test compares are the decimal and the ends of the interval, in some
unit. -/
theorem contains_iff {i : Interval} (hd : 0 < i.denominator) (digits : Nat) (exponent : Int) :
    i.contains digits exponent = true ↔
      ((i.low : ℚ) / i.denominator < digits * 10 ^ exponent ∧
        digits * 10 ^ exponent < (i.high : ℚ) / i.denominator) ∨
        (i.closed = true ∧ (i.low : ℚ) / i.denominator ≤ digits * 10 ^ exponent ∧
          digits * 10 ^ exponent ≤ (i.high : ℚ) / i.denominator) := by
  have hdq : (0 : ℚ) < i.denominator := by exact_mod_cast hd
  obtain ⟨x, low, high, unit, hunit, hx, hlow, hhigh, htest⟩ :
    ∃ (x low high : Nat) (unit : ℚ), 0 < unit ∧
      (x : ℚ) = unit * (digits * 10 ^ exponent * i.denominator) ∧ (low : ℚ) = unit * i.low ∧
      (high : ℚ) = unit * i.high ∧ i.contains digits exponent =
        (if i.closed then low ≤ x && x ≤ high else low < x && x < high : Bool) := by
    -- The test multiplies whichever side keeps all numbers whole.
    by_cases he : 0 ≤ exponent
    · refine ⟨digits * Nat.pow 10 exponent.toNat * i.denominator, i.low, i.high, 1, one_pos, ?_,
        by simp, by simp, ?_⟩
      · lift exponent to Nat using he
        simp
      · simp only [contains, if_pos he]
    · have hflip : (10 : ℚ) ^ exponent = ((10 : ℚ) ^ (-exponent).toNat)⁻¹ := by
        rw [← zpow_natCast, ← zpow_neg]
        congr 1
        omega
      refine ⟨digits * i.denominator, i.low * Nat.pow 10 (-exponent).toNat,
        i.high * Nat.pow 10 (-exponent).toNat,
        10 ^ (-exponent).toNat, by positivity, ?_, by simp [mul_comm], by simp [mul_comm], ?_⟩
      · rw [hflip]
        push_cast
        field_simp
      · simp only [contains, if_neg he]
  have hlt : ∀ a b : ℚ, unit * a < unit * b ↔ a < b := fun a b => mul_lt_mul_iff_of_pos_left hunit
  have hle : ∀ a b : ℚ, unit * a ≤ unit * b ↔ a ≤ b := fun a b => mul_le_mul_iff_of_pos_left hunit
  have hcast : ∀ a b : Nat, (a < b ↔ (a : ℚ) < b) ∧ (a ≤ b ↔ (a : ℚ) ≤ b) :=
    fun a b => ⟨Nat.cast_lt.symm, Nat.cast_le.symm⟩
  rw [htest, div_lt_iff₀ hdq, lt_div_iff₀ hdq, div_le_iff₀ hdq, le_div_iff₀ hdq]
  cases i.closed with
  | false => simp [hcast, hx, hlow, hhigh, hlt]
  | true =>
    simp only [if_true, Bool.and_eq_true, decide_eq_true_eq, true_and, hcast, hx, hlow, hhigh, hle]
    exact ⟨.inr, fun h => h.elim (fun h => ⟨h.1.le, h.2.le⟩) id⟩

/-- The ends of the interval around a number, and the number itself. -/
theorem around_eq {f : Binary} {m : Nat} (hm : 0 < m) (e : Int) :
    0 < (around f m e).denominator ∧
      ((around f m e).low : ℚ) / (around f m e).denominator = (m - f.reachBelow m e) * 2 ^ e ∧
      ((around f m e).value : ℚ) / (around f m e).denominator = m * 2 ^ e ∧
      ((around f m e).high : ℚ) / (around f m e).denominator = (m + 1 / 2) * 2 ^ e := by
  have hquarter : ((scaleByTwo 1 (e - 2)).1 : ℚ) / (scaleByTwo 1 (e - 2)).2 = 2 ^ e / 4 := by
    rw [scaleByTwo_eq, Nat.cast_one, one_mul, zpow_sub₀ (by norm_num)]
    norm_num
  refine ⟨scaleByTwo_den_pos _ _, ?_, ?_, ?_⟩
  · have hstep : (((4 * m - if m = f.exponentUnit ∧ f.minExponent < e then 1 else 2 : Nat)) : ℚ) =
        4 * (m - f.reachBelow m e) := by
      unfold Binary.reachBelow
      split
      · rw [Nat.cast_sub (by omega)]
        push_cast
        ring
      · rw [Nat.cast_sub (by omega)]
        push_cast
        ring
    simp only [around, Nat.cast_mul, hstep, mul_div_assoc, hquarter]
    ring
  · simp only [around, Nat.cast_mul, mul_div_assoc, hquarter]
    push_cast
    ring
  · simp only [around, Nat.cast_mul, mul_div_assoc, hquarter]
    push_cast
    ring

/-- **The test asks whether a decimal rounds to the number.** -/
theorem contains_around {f : Binary} {m : Nat} (hm : 0 < m) (e : Int) (digits : Nat)
    (exponent : Int) :
    (around f m e).contains digits exponent = true ↔ f.RoundsTo m e (digits * 10 ^ exponent) := by
  obtain ⟨hd, hlow, -, hhigh⟩ := around_eq (f := f) hm e
  have hclosed : (around f m e).closed = true ↔ m % 2 = 0 := by simp [around]
  rw [contains_iff hd, hlow, hhigh, hclosed, Binary.RoundsTo, lt_div_iff₀ (two_zpow_pos e),
    div_lt_iff₀ (two_zpow_pos e), le_div_iff₀ (two_zpow_pos e), div_le_iff₀ (two_zpow_pos e)]

/-! ## One grid -/

theorem onGrid_eq (i : Interval) (tie : Tie) (exponent : Int) :
    i.onGrid tie exponent =
      let fraction := fractionAt 10 i.value i.denominator exponent
      let below := fraction.1 / fraction.2
      match i.contains below exponent, i.contains (below + 1) exponent with
      | true, true =>
        if 2 * (fraction.1 % fraction.2) < fraction.2 then some below
        else if fraction.2 < 2 * (fraction.1 % fraction.2) then some (below + 1)
        else some (tie.choose below)
      | true, false => some below
      | false, true => some (below + 1)
      | false, false => none := rfl

theorem contains_of_onGrid {i : Interval} {tie : Tie} {exponent : Int} {digits : Nat}
    (h : i.onGrid tie exponent = some digits) : i.contains digits exponent = true := by
  rw [onGrid_eq] at h
  simp only at h
  generalize (fractionAt 10 i.value i.denominator exponent).1 = num at h
  generalize (fractionAt 10 i.value i.denominator exponent).2 = den at h
  split at h
  · rename_i hbelow habove
    have hboth : ∀ d, d = num / den ∨ d = num / den + 1 → i.contains d exponent = true := by
      rintro d (rfl | rfl)
      · exact hbelow
      · exact habove
    have hchoice : tie.choose (num / den) = num / den ∨ tie.choose (num / den) = num / den + 1 := by
      cases tie with
      | up => exact .inr rfl
      | even =>
        simp only [Tie.choose]
        omega
    refine hboth digits ?_
    split_ifs at h
    · exact .inl (Option.some.inj h).symm
    · exact .inr (Option.some.inj h).symm
    · rw [← Option.some.inj h]
      exact hchoice
  · rename_i hbelow _
    rwa [← Option.some.inj h]
  · rename_i _ habove
    rwa [← Option.some.inj h]
  · exact absurd h (by simp)

/-- If a grid has a point of the interval right below or right above the number, the search stops
there. -/
theorem onGrid_isSome {i : Interval} (tie : Tie) {exponent : Int} {below : Nat}
    (hd : 0 < i.denominator) (hlow : below * (10 : ℚ) ^ exponent ≤ i.value / i.denominator)
    (hhigh : (i.value : ℚ) / i.denominator < (below + 1) * (10 : ℚ) ^ exponent)
    (h : i.contains below exponent = true ∨ i.contains (below + 1) exponent = true) :
    (i.onGrid tie exponent).isSome = true := by
  have hden := fractionAt_den_pos (b := 10) (by norm_num) hd i.value exponent
  have hbelow : (fractionAt 10 i.value i.denominator exponent).1 /
    (fractionAt 10 i.value i.denominator exponent).2 =
      below := by
    have hfrac := fractionAt_eq 10 i.value i.denominator exponent
    push_cast at hfrac
    have hten := ten_zpow_pos exponent
    rw [← le_div_iff₀ hten, ← hfrac] at hlow
    rw [← div_lt_iff₀ hten, ← hfrac] at hhigh
    rw [← Nat.floor_div_eq_div (K := ℚ), Nat.floor_eq_iff (by positivity)]
    exact ⟨hlow, hhigh⟩
  rw [onGrid_eq]
  simp only [hbelow]
  -- Whichever neighbour of the number lies in the interval is taken, and where both do the tie
  -- decides.
  rcases h with h | h
  · cases h' : i.contains (below + 1) exponent with
    | true =>
      simp only [h]
      split_ifs <;> rfl
    | false => simp only [h, Option.isSome_some]
  · cases h' : i.contains below exponent with
    | true =>
      simp only [h]
      split_ifs <;> rfl
    | false => simp only [h, Option.isSome_some]

/-! ## The search -/

theorem contains_search {i : Interval} {tie : Tie} {top : Int} {fuel n : Nat}
    (h : (i.onGrid tie (top - (n + fuel : Nat))).isSome = true) :
    i.contains (i.search tie top fuel n).digits (i.search tie top fuel n).exponent = true := by
  induction fuel generalizing n with
  | zero =>
    obtain ⟨digits, hdigits⟩ := Option.isSome_iff_exists.mp h
    rw [Nat.add_zero] at hdigits
    simp only [search, hdigits, Option.getD_some]
    exact contains_of_onGrid hdigits
  | succ fuel ih =>
    unfold search
    cases hgrid : i.onGrid tie (top - n) with
    | some digits =>
      simp only [hgrid]
      exact contains_of_onGrid hgrid
    | none =>
      simp only [hgrid]
      exact ih (by rwa [← Nat.add_assoc, Nat.add_right_comm] at h)

end Interval

/-! ## How many digits a number has -/

theorem pow_digitCount_le {n : Nat} (hn : 0 < n) : 10 ^ (digitCount n - 1) ≤ n := by
  induction n using Nat.strongRecOn with
  | _ n ih =>
    rw [digitCount, if_neg hn.ne', Nat.add_sub_cancel]
    by_cases hten : n < 10
    · rw [Nat.div_eq_of_lt hten, digitCount, if_pos rfl, pow_zero]
      exact hn
    · have hq : 0 < n / 10 := by omega
      have hpos : 0 < digitCount (n / 10) := by
        rw [digitCount, if_neg hq.ne']
        omega
      calc 10 ^ digitCount (n / 10) = 10 ^ (digitCount (n / 10) - 1) * 10 := by
            rw [← pow_succ, Nat.sub_add_cancel hpos]
        _ ≤ n / 10 * 10 := Nat.mul_le_mul_right _ (ih (n / 10) (by omega) hq)
        _ ≤ n := Nat.div_mul_le_self n 10

theorem le_leadingZeros {num den : Nat} {fuel k : Nat} (h : den ≤ num * 10 ^ (k + fuel)) :
    den ≤ num * 10 ^ leadingZeros num den fuel k := by
  induction fuel generalizing k with
  | zero => exact h
  | succ fuel ih =>
    unfold leadingZeros
    split
    · assumption
    · exact ih (by rwa [← Nat.add_assoc, Nat.add_right_comm] at h)

/-- **A number has at least as many digits before the point as its magnitude says.** -/
theorem magnitude_le {num den : Nat} (hn : 0 < num) (hd : 0 < den) :
    (10 : ℚ) ^ (magnitude num den - 1) ≤ (num : ℚ) / den := by
  have hdq : (0 : ℚ) < den := by exact_mod_cast hd
  unfold magnitude
  split
  · rename_i hle
    have hq : 0 < num / den := Nat.div_pos hle hd
    have hpos : 0 < digitCount (num / den) := by
      rw [digitCount, if_neg hq.ne']
      omega
    calc (10 : ℚ) ^ ((digitCount (num / den) : Int) - 1) =
      ((10 ^ (digitCount (num / den) - 1) : Nat) : ℚ) := by
          rw [Nat.cast_pow, ← zpow_natCast]
          congr 1
          omega
      _ ≤ ((num / den : Nat) : ℚ) := by exact_mod_cast pow_digitCount_le hq
      _ ≤ (num : ℚ) / den := Nat.cast_div_le
  · -- The candidates do not run out before one of them is large enough.
    have hfuel : den ≤ num * 10 ^ (1 + (den.log2 + 1)) :=
      calc den ≤ 2 ^ (den.log2 + 1) := Nat.lt_log2_self.le
        _ ≤ 10 ^ (den.log2 + 1) := Nat.pow_le_pow_left (by norm_num) _
        _ ≤ 10 ^ (1 + (den.log2 + 1)) := Nat.pow_le_pow_right (by norm_num) (by omega)
        _ ≤ num * 10 ^ (1 + (den.log2 + 1)) := Nat.le_mul_of_pos_left _ hn
    have hzeros := le_leadingZeros hfuel
    generalize leadingZeros num den (den.log2 + 1) 1 = k at hzeros ⊢
    rw [show (1 : Int) - k - 1 = -(k : Int) by ring, zpow_neg, zpow_natCast, le_div_iff₀ hdq,
      inv_mul_le_iff₀ (by positivity), mul_comm]
    exact_mod_cast hzeros

/-! ## Seventeen digits -/

/-- **The grid of seventeen digits has a point of the interval** right below or right above the
number. -/
theorem Binary.RoundsTo.of_fine_grid {f : Binary} (hf : 2 * f.exponentUnit < 10 ^ 16) {m : Nat}
    {e : Int} (hc : f.Canonical m e) {unit : ℚ} (hunit : 0 < unit)
    (hfine : unit * 10 ^ 16 ≤ m * 2 ^ e) {below : Nat} (hlow : below * unit ≤ m * 2 ^ e)
    (hhigh : m * 2 ^ e < (below + 1) * unit) :
    f.RoundsTo m e (below * unit) ∨ f.RoundsTo m e ((below + 1) * unit) := by
  have he := two_zpow_pos e
  have hm : (m : ℚ) + 1 ≤ 2 * f.exponentUnit := by exact_mod_cast hc.lt
  have hf' : (2 : ℚ) * f.exponentUnit + 1 ≤ 10 ^ 16 := by exact_mod_cast hf
  have hstrict : ∀ q : ℚ, (m - f.reachBelow m e) * 2 ^ e < q → q < (m + 1 / 2) * 2 ^ e →
    f.RoundsTo m e q := by
    intro q h₁ h₂
    exact .inl ⟨(lt_div_iff₀ he).mpr h₁, (div_lt_iff₀ he).mpr h₂⟩
  unfold Binary.reachBelow at hstrict
  split at hstrict
  · -- Above a power of two the interval is long enough for the upper neighbour, wherever the number
    -- lies.
    rename_i hpow
    have hm' : (m : ℚ) = f.exponentUnit := by exact_mod_cast hpow.1
    have hsmall : unit < 2 ^ e / 2 := by nlinarith
    refine .inr (hstrict _ ?_ ?_)
    · nlinarith
    · nlinarith
  · -- Anywhere else the neighbour that is nearer lies less than half a place away.
    have hsmall : unit < 2 ^ e := by nlinarith
    by_cases hhalf : m * 2 ^ e - below * unit < 2 ^ e / 2
    · refine .inl (hstrict _ ?_ ?_)
      · nlinarith
      · nlinarith
    · refine .inr (hstrict _ ?_ ?_)
      · nlinarith
      · nlinarith

theorem onGrid_seventeen {f : Binary} (hf : 2 * f.exponentUnit < 10 ^ 16) (tie : Tie) {m : Nat}
    (hm : 0 < m) {e : Int} (hc : f.Canonical m e) :
    ((Interval.around f m e).onGrid tie
      (magnitude (Interval.around f m e).value (Interval.around f m e).denominator -
        (1 + 16 : Nat))).isSome = true := by
  obtain ⟨hd, -, hvalue, -⟩ := Interval.around_eq (f := f) hm e
  have hpos : (0 : ℚ) < m * 2 ^ e := by
    have := two_zpow_pos e
    positivity
  have hv : 0 < (Interval.around f m e).value := by
    rw [← hvalue] at hpos
    by_contra h
    rw [Nat.eq_zero_of_not_pos h, Nat.cast_zero, zero_div] at hpos
    exact lt_irrefl _ hpos
  have hmagnitude := magnitude_le hv hd
  rw [hvalue] at hmagnitude
  generalize hexp : magnitude (Interval.around f m e).value (Interval.around f m e).denominator -
    (1 + 16 : Nat) = exponent
  -- Seventeen digits put at least 10 ^ 16 steps of the grid below the number, which is finer than
  -- its own last place.
  have hfine : (10 : ℚ) ^ exponent * 10 ^ 16 ≤ m * 2 ^ e := by
    rw [← zpow_natCast, ← zpow_add₀ (by norm_num)]
    convert hmagnitude using 2
    omega
  have hunit := ten_zpow_pos exponent
  have hlow : (⌊(m : ℚ) * 2 ^ e / 10 ^ exponent⌋₊ : ℚ) * 10 ^ exponent ≤ m * 2 ^ e := by
    rw [← le_div_iff₀ hunit]
    exact Nat.floor_le (by positivity)
  have hhigh : (m : ℚ) * 2 ^ e < (⌊(m : ℚ) * 2 ^ e / 10 ^ exponent⌋₊ + 1) * 10 ^ exponent := by
    rw [← div_lt_iff₀ hunit]
    exact Nat.lt_floor_add_one _
  have hrounds := Binary.RoundsTo.of_fine_grid hf hc hunit hfine hlow hhigh
  refine Interval.onGrid_isSome tie hd (by rwa [hvalue]) (by rwa [hvalue]) ?_
  rw [Interval.contains_around hm, Interval.contains_around hm]
  push_cast
  exact hrounds

/-! ## The shortest decimal -/

theorem Scaled.value_strip (d : Scaled) : d.strip.value = d.value := by
  induction d using Scaled.strip.induct with
  | case1 d h ih =>
    rw [Scaled.strip, if_pos h, ih]
    have hdigits : d.digits = d.digits / 10 * 10 := by omega
    simp only [Scaled.value]
    conv_rhs => rw [hdigits]
    rw [zpow_add₀ (by norm_num), zpow_one]
    push_cast
    ring
  | case2 d h => rw [Scaled.strip, if_neg h]

/-- **The shortest decimal of a number rounds to it.** -/
theorem shortest_roundsTo {f : Binary} (hf : 2 * f.exponentUnit < 10 ^ 16) (tie : Tie) {m : Nat}
    (hm : 0 < m) {e : Int} (hc : f.Canonical m e) : f.RoundsTo m e (shortest f tie m e).value := by
  rw [shortest, if_neg hm.ne', Scaled.value_strip, Scaled.value, ← Interval.contains_around hm]
  exact Interval.contains_search (onGrid_seventeen hf tie hm hc)

end AltRender.Decimal
