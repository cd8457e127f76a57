import AltRender.Proofs.Decimal.Rounding

/-!
# `Proofs/Decimal/Bits` — the bits of a double and its exact value

A double is its 64 bits, of which those that are no number are one and the same
(`toBits_of_notANumber`). So a double is what its bits say (`Exact.ofFloat_injective`), and a
fraction that rounds to a finite double is read as that double (`toFloat_of_roundsTo`).

The reader of decimal numbers and the printer of them both work on exact fractions, and this is
where they meet the 64 bits. The bits below the sign can be read as one number, the exponent in
front of the mantissa, and that number is also the place of the double in the order of all doubles
(`Exact.ofBits_finite`). So packing a mantissa with its exponent gives back the bits that they were
unpacked from, for the small numbers without the hidden bit as for the others (`pack_subnormal`,
`pack_normal`).
-/

set_option autoImplicit false

namespace AltRender.Decimal

open Float.Model Float.Model.UnpackedFloat

/-! ## The fields of a double -/

theorem toNat_unpackExponent (b : BitVec Format.binary64.numBits) :
    (@unpackExponent Format.binary64 b).toNat = b.toNat / 2 ^ 52 % 2 ^ 11 := by
  simp [unpackExponent, BitVec.extractLsb_toNat, Nat.shiftRight_eq_div_pow]

theorem toNat_unpackMantissa (b : BitVec Format.binary64.numBits) :
    (@unpackMantissa Format.binary64 b).toNat = b.toNat % 2 ^ 52 := by
  simp [unpackMantissa, BitVec.extractLsb_toNat]

theorem toNat_unpackSign (b : BitVec Format.binary64.numBits) :
    (@unpackSign Format.binary64 b).toNat = b.toNat / 2 ^ 63 % 2 := by
  change (b.extractLsb 63 63).toNat = b.toNat / 2 ^ 63 % 2
  rw [BitVec.extractLsb_toNat, Nat.shiftRight_eq_div_pow]

theorem toNat_packComponents (s : Sign) (e : BitVec 11) (m : BitVec 52) :
    (packComponents Format.binary64 s e m).toNat =
      (s.toBitVec.toNat * 2 ^ 11 + e.toNat) * 2 ^ 52 + m.toNat := by
  have h1 := e.isLt
  have h2 := m.isLt
  simp only [packComponents, BitVec.toNat_append]
  rw [← Nat.shiftLeft_add_eq_or_of_lt h2, ← Nat.shiftLeft_add_eq_or_of_lt h1, Nat.shiftLeft_eq,
    Nat.shiftLeft_eq]

theorem toNat_ofBitVec_toBitVec (b : BitVec 1) : (Sign.ofBitVec b).toBitVec = b := by
  have : b = 0#1 ∨ b = 1#1 := by
    have := b.isLt
    rcases (by omega : b.toNat = 0 ∨ b.toNat = 1) with h | h
    · exact .inl (BitVec.eq_of_toNat_eq h)
    · exact .inr (BitVec.eq_of_toNat_eq h)
  rcases this with rfl | rfl <;> rfl

theorem packComponents_unpack (b : BitVec Format.binary64.numBits) :
    packComponents Format.binary64 (Sign.ofBitVec (unpackSign b)) (unpackExponent b)
      (unpackMantissa b) = b := by
  apply BitVec.eq_of_toNat_eq
  rw [toNat_packComponents, toNat_ofBitVec_toBitVec, toNat_unpackSign, toNat_unpackExponent,
    toNat_unpackMantissa]
  have : b.toNat < 2 ^ 64 := b.isLt
  omega

/-- A number below the normal ones is packed into the bits it was unpacked from. -/
theorem pack_subnormal {b : BitVec Format.binary64.numBits} (hexp : unpackExponent b = 0#_)
    (hpos : 0 < (unpackMantissa b).toNat) :
    UnpackedFloat.pack Format.binary64
      (.finite (Sign.ofBitVec (unpackSign b)) (unpackMantissa b).toNat
      ((unpackExponent b).toNat -
        (Format.binary64.exponentBias + Format.binary64.mantissaBitsWithoutImplicit) + 1) hpos)
      = b := by
  have hparts := packComponents_unpack b
  have hm := (unpackMantissa b).isLt
  rw [hexp] at hparts ⊢
  have hlog : (unpackMantissa b).toNat.log2 < 52 := (Nat.log2_lt hpos.ne').mpr hm
  have hbits : Format.binary64.mantissaBits = 53 := rfl
  unfold UnpackedFloat.pack
  dsimp only
  rw [if_neg (by simp; omega), if_neg (by omega), BitVec.ofNat_toNat, BitVec.setWidth_eq]
  exact hparts

/-- A normal number is packed into the bits it was unpacked from. -/
theorem pack_normal {b : BitVec Format.binary64.numBits} (hlt : (unpackExponent b).toNat < 2047)
    (hpos : 0 < (1#1 ++ unpackMantissa b).toNat) :
    UnpackedFloat.pack Format.binary64
      (.finite (Sign.ofBitVec (unpackSign b)) (1#1 ++ unpackMantissa b).toNat
      ((unpackExponent b).toNat -
        (Format.binary64.exponentBias + Format.binary64.mantissaBitsWithoutImplicit)) hpos)
      = b := by
  have hparts := packComponents_unpack b
  have hm := (unpackMantissa b).isLt
  have htop : (1#1 ++ unpackMantissa b).toNat = 2 ^ 52 + (unpackMantissa b).toNat := by
    rw [BitVec.toNat_append, ← Nat.shiftLeft_add_eq_or_of_lt hm]
    rfl
  -- The bit on top of the mantissa decides the logarithm.
  have hlog : (2 ^ 52 + (unpackMantissa b).toNat).log2 = 52 := by
    have h₁ := (@Nat.le_log2 (2 ^ 52 + (unpackMantissa b).toNat) 52 (by omega)).mpr (by omega)
    have h₂ :=
      (@Nat.log2_lt (2 ^ 52 + (unpackMantissa b).toNat) 53 (by omega)).mpr (by simp at hm; omega)
    omega
  have hbits : Format.binary64.mantissaBits = 53 := rfl
  have hexponent :
    ∀ n bias : Nat, ((n : Int) - (bias + (52 : Nat)) + bias + (52 : Nat)).toNat = n := by
    intro n bias
    omega
  have hmant : BitVec.ofNat 52 (2 ^ 52 + (unpackMantissa b).toNat) = unpackMantissa b := by
    apply BitVec.eq_of_toNat_eq
    rw [BitVec.toNat_ofNat, Nat.add_mod_left, Nat.mod_eq_of_lt hm]
  unfold UnpackedFloat.pack
  dsimp only
  simp only [htop, hlog]
  rw [hexponent, if_neg (by omega), if_pos hbits.symm, BitVec.ofNat_toNat, BitVec.setWidth_eq,
    hmant]
  exact hparts

theorem pack_unpack {b : BitVec Format.binary64.numBits} (hb : Format.binary64.Valid b) :
    UnpackedFloat.pack Format.binary64 (UnpackedFloat.unpack Format.binary64 b) = b := by
  have hparts := packComponents_unpack b
  unfold UnpackedFloat.unpack
  dsimp only
  by_cases hexp : unpackExponent b = -1#_
  · rw [if_pos hexp]
    by_cases hmant : unpackMantissa b = 0#_
    · rw [if_pos hmant]
      rw [hexp, hmant] at hparts
      exact hparts
    · -- Of all the bits that stand for no number only one pattern is valid.
      rw [if_neg hmant]
      exact (hb.eq_packedNaN hexp hmant).symm
  · rw [if_neg hexp]
    by_cases hexp0 : unpackExponent b = 0#_
    · rw [if_pos hexp0]
      by_cases hmant : unpackMantissa b = 0#_
      · rw [dif_pos hmant]
        rw [hexp0, hmant] at hparts
        exact hparts
      · rw [dif_neg hmant]
        exact pack_subnormal hexp0 _
    · rw [if_neg hexp0]
      have he := (unpackExponent b).isLt
      have hne : (unpackExponent b).toNat ≠ 2047 := fun h => hexp (BitVec.eq_of_toNat_eq h)
      simp at he
      exact pack_normal (by omega) _

/-! ## Doubles are their bits -/

theorem ofBits_toBits (x : Float) : Float.ofBits x.toBits = x := by
  obtain ⟨⟨bits, hvalid⟩⟩ := x
  have hpack := pack_unpack hvalid
  show Float.ofModel (Float.Model.ofBits bits) = _
  congr 1
  unfold Float.Model.ofBits Float.Model.pack
  congr 1
  rw [hpack]

theorem toBits_injective {x y : Float} (h : x.toBits = y.toBits) : x = y := by
  rw [← ofBits_toBits x, h, ofBits_toBits y]

/-! ## Exact values and bits -/

/-- Bits are a sign and what is left without it. -/
theorem sign_add_magnitude (f : Binary) (bits : Nat) :
    (if decide (f.signBits ≤ bits) = true then f.signBits else 0) +
      (if decide (f.signBits ≤ bits) = true then bits - f.signBits else bits) = bits := by
  split
  · rename_i hle
    simp only [decide_eq_true_eq] at hle
    omega
  · omega

/-- **The bits of a finite number say its sign and then, as one number, its exponent and its
mantissa.** -/
theorem Exact.ofBits_finite {f : Binary} {bits : Nat} {negative : Bool} {m : Nat} {e : Int}
    (h : Exact.ofBits f bits = .finite negative m e) :
    f.Canonical m e ∧ (e - f.minExponent).toNat * f.exponentUnit + m < f.infinityBits ∧
      bits = (if negative then f.signBits else 0) +
        ((e - f.minExponent).toNat * f.exponentUnit + m) := by
  have hu := f.exponentUnit_pos
  unfold Exact.ofBits at h
  simp only at h
  have hsign := sign_add_magnitude f bits
  generalize (if decide (f.signBits ≤ bits) = true then bits - f.signBits else bits) =
    magnitude at h hsign
  split_ifs at h with h₁ h₂ h₃
  · -- The exponent field is empty: a number below the normal ones.
    injection h with hneg hm he
    have hmod := Nat.div_add_mod magnitude f.exponentUnit
    have hmlt := Nat.mod_lt magnitude hu
    rw [h₃, Nat.mul_zero, Nat.zero_add] at hmod
    subst hneg hm he
    rw [hmod, Int.sub_self, Int.toNat_zero, Nat.zero_mul, Nat.zero_add]
    exact ⟨⟨by omega, le_refl _, fun h => absurd h (lt_irrefl _)⟩, by omega, hsign.symm⟩
  · injection h with hneg hm he
    have hmod := Nat.div_add_mod magnitude f.exponentUnit
    have hmlt := Nat.mod_lt magnitude hu
    obtain ⟨k, hk⟩ : ∃ k, magnitude / f.exponentUnit = k + 1 := ⟨_, (Nat.succ_pred h₃).symm⟩
    rw [hk, Nat.add_sub_cancel] at he
    rw [hk] at hmod
    subst hneg hm he
    have hcancel : (f.minExponent + (k : Int) - f.minExponent).toNat = k := by omega
    have hsum : k * f.exponentUnit + (magnitude % f.exponentUnit + f.exponentUnit) = magnitude := by
      rw [Nat.mul_comm f.exponentUnit, Nat.succ_mul] at hmod
      omega
    rw [hcancel, hsum]
    exact ⟨⟨by omega, by omega, fun _ => by omega⟩, by omega, hsign.symm⟩

theorem Exact.ofBits_infinite {f : Binary} {bits : Nat} {negative : Bool}
    (h : Exact.ofBits f bits = .infinite negative) :
    bits = (if negative then f.signBits else 0) + f.infinityBits := by
  unfold Exact.ofBits at h
  simp only at h
  have hsign := sign_add_magnitude f bits
  generalize (if decide (f.signBits ≤ bits) = true then bits - f.signBits else bits) =
    magnitude at h hsign
  split_ifs at h with h₁
  injection h with hneg
  subst hneg
  omega

/-- There is one number that is none. -/
theorem toBits_of_notANumber {x : Float} (h : Exact.ofFloat x = .notANumber) :
    x.toBits = 0x7FF8000000000000 := by
  have hlt : x.toBits.toNat < 2 ^ 64 := x.toBits.toNat_lt
  have hbits : x.toBits.toBitVec.toNat = x.toBits.toNat := rfl
  have hmagnitude : 0x7FF0000000000000 < x.toBits.toNat % 2 ^ 63 := by
    have hsign : Binary.double.signBits = 2 ^ 63 := rfl
    unfold Exact.ofFloat Exact.ofBits at h
    simp only [hsign] at h
    change (if (if decide (2 ^ 63 ≤ x.toBits.toNat) = true then _ else _) = 0x7FF0000000000000
      then _ else
      if 0x7FF0000000000000 < (if decide (2 ^ 63 ≤ x.toBits.toNat) = true then _ else _)
      then _ else _) = _ at h
    split_ifs at h <;> simp_all <;> omega
  -- The exponent is all ones and the mantissa is not zero, and among those bits only one pattern is
  -- a valid float.
  have hexp : @unpackExponent Format.binary64 x.toBits.toBitVec = -1#11 := by
    apply BitVec.eq_of_toNat_eq
    rw [toNat_unpackExponent, hbits]
    show _ = 2047
    omega
  have hmant : @unpackMantissa Format.binary64 x.toBits.toBitVec ≠ 0#52 := by
    intro hzero
    have := congrArg BitVec.toNat hzero
    rw [toNat_unpackMantissa, hbits] at this
    simp only [BitVec.toNat_ofNat, Nat.zero_mod] at this
    omega
  exact UInt64.toBitVec_inj.mp (x.toModel.valid.eq_packedNaN hexp hmant)

/-- **A number is its exact value,** the sign of a zero included. -/
theorem Exact.ofFloat_injective {x y : Float} (h : Exact.ofFloat x = Exact.ofFloat y) : x = y := by
  cases hx : Exact.ofFloat x with
  | notANumber =>
    exact toBits_injective ((toBits_of_notANumber hx).trans (toBits_of_notANumber (h ▸ hx)).symm)
  | infinite negative =>
    have hbits := (ofBits_infinite hx).trans (ofBits_infinite (h ▸ hx)).symm
    exact toBits_injective (UInt64.toNat_inj.mp hbits)
  | finite negative m e =>
    have hbits := (ofBits_finite hx).2.2.trans (ofBits_finite (h ▸ hx)).2.2.symm
    exact toBits_injective (UInt64.toNat_inj.mp hbits)

theorem toFloat_eq_of_bits {x : Float} {negative : Bool} {m : Nat} {e : Int}
    (hx : Exact.ofFloat x = .finite negative m e) {num den : Nat}
    (h : Binary.double.round num den =
      (e - Binary.double.minExponent).toNat * Binary.double.exponentUnit + m) :
    toFloat negative num den = x := by
  have hbits := (Exact.ofBits_finite hx).2.2
  have hsum : (if negative = true then Binary.double.signBits + Binary.double.round num den else
      Binary.double.round num den) = x.toBits.toNat := by
    rw [hbits, h]
    cases negative <;> simp
  calc toFloat negative num den = Float.ofBits (UInt64.ofNat x.toBits.toNat) := by
        rw [← hsum]
        rfl
    _ = Float.ofBits x.toBits := by rw [UInt64.ofNat_toNat]
    _ = x := ofBits_toBits x

/-- **What rounds to a number is read as it.** -/
theorem toFloat_of_roundsTo {x : Float} {negative : Bool} {m : Nat} {e : Int}
    (hx : Exact.ofFloat x = .finite negative m e) {num den : Nat} (hn : 0 < num) (hd : 0 < den)
    (h : Binary.double.RoundsTo m e ((num : ℚ) / den)) : toFloat negative num den = x := by
  obtain ⟨hc, hlt, -⟩ := Exact.ofBits_finite hx
  refine toFloat_eq_of_bits hx ?_
  rw [Binary.round_of_roundsTo (by decide) hc hn hd h]
  exact min_eq_right hlt.le

end AltRender.Decimal
