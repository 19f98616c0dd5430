import CheckedScript.Decimal.Layout
import CheckedScript.Proofs.Rounding

/-! Doubles and their decimals. The decimal that is written for a finite double has that double as its nearest one: it is
found among candidates that are read back as they are tried, the exact decimal being the last resort, and zeros that are
dropped at its end are made up for by its exponent. -/

namespace CheckedScript.Decimal

open Float.Model (Format UnpackedFloat)
open Float.Model.UnpackedFloat (unpackExponent unpackMantissa)

section Bits

variable {w : UInt64}

theorem unpackExponent_eq_iff : @unpackExponent Format.binary64 w.toBitVec = -1#11 ↔
    w.toNat / 2 ^ 52 % 2 ^ 11 = 2047 := by
  rw [UnpackedFloat.unpackExponent_def, ← BitVec.toNat_inj, BitVec.extractLsb'_toNat, Nat.shiftRight_eq_div_pow]
  exact Iff.rfl

theorem unpackMantissa_eq_iff : @unpackMantissa Format.binary64 w.toBitVec = 0#52 ↔
    w.toNat % 2 ^ 52 = 0 := by
  rw [UnpackedFloat.unpackMantissa_def, ← BitVec.toNat_inj, BitVec.extractLsb'_toNat, Nat.shiftRight_eq_div_pow, pow_zero,
    Nat.div_one]
  exact Iff.rfl

theorem isNaN_unpack (b : BitVec Format.binary64.numBits) : (UnpackedFloat.unpack Format.binary64 b).isNaN = true ↔
    unpackExponent b = -1#11 ∧ unpackMantissa b ≠ 0#52 := by
  unfold UnpackedFloat.unpack
  dsimp only
  split_ifs <;> simp only [UnpackedFloat.isNaN, Bool.false_eq_true] <;> tauto

theorem isNaN_unpack_iff : (UnpackedFloat.unpack Format.binary64 w.toBitVec).isNaN = true ↔
    w.toNat / 2 ^ 52 % 2 ^ 11 = 2047 ∧ w.toNat % 2 ^ 52 ≠ 0 := by
  rw [isNaN_unpack, unpackExponent_eq_iff, Ne, unpackMantissa_eq_iff]

theorem isInf_unpack_iff : (UnpackedFloat.unpack Format.binary64 w.toBitVec).isInf = true ↔
    w.toNat / 2 ^ 52 % 2 ^ 11 = 2047 ∧ w.toNat % 2 ^ 52 = 0 := by
  rw [← unpackExponent_eq_iff, ← unpackMantissa_eq_iff]
  unfold UnpackedFloat.unpack
  dsimp only
  split_ifs <;> simp only [UnpackedFloat.isInf, Bool.false_eq_true] <;> tauto

/-- Bits that do not stand for no number are those of the number that they give. -/
theorem toBits_ofBits (h : ¬ (w.toNat / 2 ^ 52 % 2 ^ 11 = 2047 ∧ w.toNat % 2 ^ 52 ≠ 0)) : (Float.ofBits w).toBits = w := by
  rw [← unpackExponent_eq_iff, Ne, ← unpackMantissa_eq_iff] at h
  have hpack := @UnpackedFloat.pack_unpack Format.binary64 w.toBitVec (by decide)
  have hbits : @UnpackedFloat.isNaNBits Format.binary64 w.toBitVec = false := by
    simpa [UnpackedFloat.isNaNBits] using h
  rw [hbits, if_neg Bool.false_ne_true] at hpack
  exact congrArg UInt64.ofBitVec hpack

/-- What is packed is a number if it was one. -/
theorem isNaN_pack {u : UnpackedFloat} (hu : u.isNaN = false) :
    (UnpackedFloat.unpack Format.binary64 (u.pack Format.binary64)).isNaN = false := by
  rw [Bool.eq_false_iff, Ne, isNaN_unpack]
  cases u with
  | notANumber => cases hu
  | infinity s =>
    rintro ⟨-, hmantissa⟩
    exact hmantissa UnpackedFloat.unpackMantissa_packComponents
  | zero s =>
    rintro ⟨-, hmantissa⟩
    exact hmantissa UnpackedFloat.unpackMantissa_packComponents
  | finite s m e hm =>
    unfold UnpackedFloat.pack
    dsimp only
    split_ifs with hlarge hnormal
    · rintro ⟨-, hmantissa⟩
      exact hmantissa UnpackedFloat.unpackMantissa_packComponents
    · rintro ⟨hexponent, -⟩
      have hall : (-1#11).toNat = 2047 := rfl
      rw [UnpackedFloat.unpackExponent_packComponents, ← BitVec.toNat_inj, BitVec.toNat_ofNat, hall] at hexponent
      omega
    · rintro ⟨hexponent, -⟩
      rw [UnpackedFloat.unpackExponent_packComponents] at hexponent
      exact absurd hexponent (by decide)

end Bits

section Doubles

variable {x : Float} {num den : ℕ}

theorem isNaN_iff : x.isNaN = true ↔ x.toBits.toNat / 2 ^ 52 % 2 ^ 11 = 2047 ∧ x.toBits.toNat % 2 ^ 52 ≠ 0 :=
  isNaN_unpack_iff

theorem isInf_iff : x.isInf = true ↔ x.toBits.toNat / 2 ^ 52 % 2 ^ 11 = 2047 ∧ x.toBits.toNat % 2 ^ 52 = 0 :=
  isInf_unpack_iff

/-- What is rounded is a number. -/
theorem isNaN_nearest (negative : Bool) (num den : ℕ) : (nearest negative num den).isNaN = false := by
  have hle : nearestBits num den ≤ 0x7ff * 2 ^ 52 := nearestBits_le
  have hw : (UInt64.ofNat ((if negative then Nat.pow 2 63 else 0) + nearestBits num den)).toNat =
      (if negative then 2 ^ 63 else 0) + nearestBits num den := by
    rw [UInt64.toNat_ofNat']
    apply Nat.mod_eq_of_lt
    cases negative <;> simp <;> omega
  have hnumber : ¬ (((if negative then 2 ^ 63 else 0) + nearestBits num den) / 2 ^ 52 % 2 ^ 11 = 2047 ∧
      ((if negative then 2 ^ 63 else 0) + nearestBits num den) % 2 ^ 52 ≠ 0) := by
    cases negative <;> simp <;> omega
  rw [← hw] at hnumber
  rw [Bool.eq_false_iff, Ne, isNaN_iff, nearest, toBits_ofBits hnumber]
  exact hnumber

theorem isNaN_ofDecimal (negative : Bool) (m : ℕ) (e : ℤ) : (ofDecimal negative m e).isNaN = false := by
  unfold ofDecimal
  split_ifs <;> exact isNaN_nearest _ _ _

theorem isNaN_neg (hx : x.isNaN = false) : (-x).isNaN = false := by
  have hneg : x.toModel.unpack.neg.isNaN = false := by
    have hmodel : x.toModel.unpack.isNaN = false := hx
    cases hu : x.toModel.unpack with
    | notANumber =>
      rw [hu] at hmodel
      cases hmodel
    | _ => rfl
  exact isNaN_pack hneg

theorem nearest_eq (h : nearestBits num den = x.toBits.toNat % 2 ^ 63) :
    nearest (decide (x.toBits.toNat / 2 ^ 63 = 1)) num den = x := by
  have hlt : x.toBits.toNat < 2 ^ 64 := x.toBits.toNat_lt
  have hsum : (if decide (x.toBits.toNat / 2 ^ 63 = 1) then Nat.pow 2 63 else 0) + nearestBits num den =
      x.toBits.toNat := by
    rw [h]
    by_cases hs : x.toBits.toNat / 2 ^ 63 = 1
    · simp only [hs, decide_true, if_true, Nat.pow_eq]
      omega
    · simp only [hs, decide_false, Bool.false_eq_true, if_false]
      omega
  rw [nearest, hsum, UInt64.ofNat_toNat, Float.ofBits_toBits]

/-- The parts of a finite double have it as their nearest one. -/
theorem nearestBits_ofFloat (h : x.toBits.toNat / 2 ^ 52 % 2 ^ 11 ≠ 2047) :
    nearestBits (Binary.ofFloat x).num (Binary.ofFloat x).den = x.toBits.toNat % 2 ^ 63 := by
  have hlt : x.toBits.toNat < 2 ^ 64 := x.toBits.toNat_lt
  have hm : (Binary.ofFloat x).magnitude = if x.toBits.toNat / 2 ^ 52 % 2 ^ 11 = 0 then x.toBits.toNat % 2 ^ 52
      else 2 ^ 52 + x.toBits.toNat % 2 ^ 52 := rfl
  have he : (Binary.ofFloat x).exponent = (max (x.toBits.toNat / 2 ^ 52 % 2 ^ 11) 1 : ℕ) - 1075 := rfl
  rw [Binary.num, Binary.den, nearestBits_double, hm, he]
  · split_ifs <;> omega
  · rw [hm]
    split_ifs <;> omega
  · omega
  · omega
  · rw [hm, he]
    split_ifs <;> omega

end Doubles
theorem roundDiv_cases (num den : ℕ) : roundDiv num den = num / den ∨ roundDiv num den = num / den + 1 := by
  simp only [roundDiv]
  split_ifs
  · exact Or.inr rfl
  · exact Or.inl rfl

namespace Shortest

/-- The bits of the double nearest to the decimal. -/
def bits (d : Shortest) : ℕ := nearestBits (d.digits * Nat.pow 10 d.exponent.toNat) (Nat.pow 10 (-d.exponent).toNat)

theorem readsAs_iff {bits : ℕ} {d : Shortest} : readsAs bits d = true ↔ d.bits = bits := beq_iff_eq

theorem bits_congr {d d' : Shortest} (h : (d.digits : ℚ) * 10 ^ d.exponent = d'.digits * 10 ^ d'.exponent) :
    d.bits = d'.bits := by
  have hpos (e : ℤ) : 0 < Nat.pow 10 (-e).toNat := Nat.pow_pos (by omega)
  have hne (e : ℤ) : ((Nat.pow 10 (-e).toNat : ℕ) : ℚ) ≠ 0 := by exact_mod_cast (hpos e).ne'
  apply nearestBits_congr (hpos _) (hpos _)
  rw [← ten_zpow_mul_eq, ← ten_zpow_mul_eq, div_eq_div_iff (hne _) (hne _)] at h
  exact_mod_cast h

theorem bits_of_digits_zero {d : Shortest} (h : d.digits = 0) : d.bits = 0 := by
  simp [bits, h, nearestBits]

theorem onGrid?_bits {bits num den : ℕ} {unit : ℤ} {d : Shortest} (h : onGrid? bits num den unit = some d) :
    d.bits = bits := by
  rw [← readsAs_iff]
  unfold onGrid? at h
  dsimp only at h
  split at h
  next hbelow _ =>
    obtain rfl := Option.some.inj h
    exact hbelow
  next _ habove =>
    obtain rfl := Option.some.inj h
    exact habove
  next => exact absurd h (by simp)
  next hbelow habove =>
    obtain rfl := Option.some.inj h
    rcases roundDiv_cases (num * Nat.pow 10 (-unit).toNat) (den * Nat.pow 10 unit.toNat) with hr | hr
    · rw [hr]
      exact hbelow
    · rw [hr]
      exact habove

/-- A zero at the end that is dropped is made up for by the exponent. -/
theorem dropZeros_bits (fuel : ℕ) (d : Shortest) : (dropZeros fuel d).bits = d.bits := by
  induction fuel generalizing d with
  | zero => rfl
  | succ fuel ih =>
    rw [dropZeros]
    split_ifs with h
    · rw [ih]
      apply bits_congr
      have hten : (d.digits : ℚ) = (d.digits / 10 : ℕ) * 10 := by exact_mod_cast (Nat.div_mul_cancel (by omega)).symm
      rw [hten, zpow_add_one₀ (by norm_num)]
      ring
    · rfl

/-- The decimal of all digits of a double. -/
theorem exact_bits (b : Binary) :
    bits ⟨b.num * Nat.pow 10 (-b.exponent).toNat / b.den, -((-b.exponent).toNat : ℤ)⟩ = nearestBits b.num b.den := by
  obtain ⟨k, hk⟩ : ∃ k, k = (-b.exponent).toNat := ⟨_, rfl⟩
  have hten : Nat.pow 10 k = 5 ^ k * Nat.pow 2 k := mul_pow 5 2 k
  have hden : 0 < Nat.pow 10 k := Nat.pow_pos (by omega)
  have hpos : 0 < Nat.pow 2 k := Nat.pow_pos (by omega)
  have hdiv : b.num * Nat.pow 10 k / Nat.pow 2 k = b.num * 5 ^ k := by
    rw [hten, ← mul_assoc, Nat.mul_div_cancel _ hpos]
  have htoNat : (-(k : ℤ)).toNat = 0 := by omega
  simp only [bits, Binary.den, ← hk, hdiv, htoNat, neg_neg, Int.toNat_natCast]
  apply nearestBits_congr hden hpos
  have hone : Nat.pow 10 0 = 1 := rfl
  rw [hten, ← mul_assoc, hone, mul_one]

/-- The decimal that is written for a double has it as its nearest one. -/
theorem ofBinary_bits (b : Binary) : (ofBinary b).bits = nearestBits b.num b.den := by
  unfold ofBinary
  split_ifs with hzero
  · simp [bits, Binary.num, hzero, nearestBits]
  · dsimp only
    rw [dropZeros_bits]
    generalize hfound : (List.range 17).findSome? _ = found
    cases found with
    | none => exact exact_bits b
    | some d =>
      obtain ⟨i, -, hi⟩ := List.exists_of_findSome?_eq_some hfound
      exact onGrid?_bits hi

/-- Only zero is written with the digit zero. -/
theorem ofBinary_digits_zero {x : Float} (hfinite : x.toBits.toNat / 2 ^ 52 % 2 ^ 11 ≠ 2047)
    (h : (ofBinary (Binary.ofFloat x)).digits = 0) : (ofBinary (Binary.ofFloat x)).exponent = 0 := by
  have hbits : x.toBits.toNat % 2 ^ 63 = 0 := by
    rw [← nearestBits_ofFloat hfinite, ← ofBinary_bits, bits_of_digits_zero h]
  have hm : (Binary.ofFloat x).magnitude = if x.toBits.toNat / 2 ^ 52 % 2 ^ 11 = 0 then x.toBits.toNat % 2 ^ 52
      else 2 ^ 52 + x.toBits.toNat % 2 ^ 52 := rfl
  have hzero : (Binary.ofFloat x).magnitude = 0 := by
    rw [hm, if_pos (by omega)]
    omega
  rw [ofBinary, if_pos hzero]

/-- A decimal of the same size as the one that is written is read as the double. -/
theorem ofDecimal_eq_of_finite {x : Float} (hfinite : x.toBits.toNat / 2 ^ 52 % 2 ^ 11 ≠ 2047) {m : ℕ} {e : ℤ}
    (h : (m : ℚ) * 10 ^ e = (ofBinary (Binary.ofFloat x)).digits * 10 ^ (ofBinary (Binary.ofFloat x)).exponent) :
    ofDecimal (Binary.ofFloat x).negative m e = x := by
  have hbits : nearestBits (m * Nat.pow 10 e.toNat) (Nat.pow 10 (-e).toNat) = x.toBits.toNat % 2 ^ 63 := by
    rw [← nearestBits_ofFloat hfinite, ← ofBinary_bits]
    exact bits_congr (d := ⟨m, e⟩) h
  rw [ofDecimal_eq]
  exact nearest_eq hbits

end Shortest
end CheckedScript.Decimal
