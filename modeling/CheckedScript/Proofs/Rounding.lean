import CheckedScript.Decimal.Shortest
import Mathlib

/-! The number nearest to a quotient. It depends on the quotient alone and not on the two numbers that it is written
with, and a number that is a double already is nearest to itself. Quotients far outside the range of doubles are rounded to
zero or to infinity, so reading a decimal may skip the power of ten there. -/

namespace CheckedScript.Decimal

variable {num den : ℕ}

theorem roundDiv_mul_right {k : ℕ} (hk : 0 < k) : roundDiv (num * k) (den * k) = roundDiv num den := by
  have hdiv : num * k / (den * k) = num / den := Nat.mul_div_mul_right _ _ hk
  have hmod : num * k % (den * k) = num % den * k := Nat.mul_mod_mul_right k num den
  have hlt : den * k < 2 * (num % den * k) ↔ den < 2 * (num % den) := by
    rw [← mul_assoc]
    exact Nat.mul_lt_mul_right hk
  have heq : 2 * (num % den * k) = den * k ↔ 2 * (num % den) = den := by
    rw [← mul_assoc]
    exact Nat.mul_left_inj hk.ne'
  simp only [roundDiv, hdiv, hmod, hlt, heq]

/-- A power with an exponent of either sign is a quotient of two powers of which one is one. -/
theorem zpow_eq_div {b : ℕ} (hb : 0 < b) (e : ℤ) : (b : ℚ) ^ e = (b ^ e.toNat : ℕ) / (b ^ (-e).toNat : ℕ) := by
  have hb' : (b : ℚ) ≠ 0 := by exact_mod_cast hb.ne'
  have he : e = (e.toNat : ℤ) - ((-e).toNat : ℤ) := by omega
  conv_lhs => rw [he]
  rw [zpow_sub₀ hb', zpow_natCast, zpow_natCast]
  push_cast
  rfl

theorem two_zpow_le_iff (num : ℕ) (hd : 0 < den) (e : ℤ) :
    den * Nat.pow 2 e.toNat ≤ num * Nat.pow 2 (-e).toNat ↔ (2 : ℚ) ^ e ≤ num / den := by
  have hd' : (0 : ℚ) < den := by exact_mod_cast hd
  have hpow := zpow_eq_div (b := 2) (by omega) e
  push_cast at hpow
  rw [hpow, div_le_div_iff₀ (by positivity) hd', mul_comm ((2 : ℚ) ^ _)]
  exact_mod_cast Iff.rfl

theorem two_zpow_le_iff_le_log {q : ℚ} (hq : 0 < q) (e : ℤ) : (2 : ℚ) ^ e ≤ q ↔ e ≤ Int.log 2 q := by
  rw [← Int.zpow_le_iff_le_log (by omega) hq, Nat.cast_ofNat]

theorem lt_two_zpow_iff_log_lt {q : ℚ} (hq : 0 < q) (e : ℤ) : q < (2 : ℚ) ^ e ↔ Int.log 2 q < e := by
  rw [← Int.lt_zpow_iff_log_lt (by omega) hq, Nat.cast_ofNat]

/-- What is computed from the lengths of two numbers is the logarithm of their quotient. -/
theorem log2Quotient_eq_log (hn : 0 < num) (hd : 0 < den) : log2Quotient num den = Int.log 2 ((num : ℚ) / den) := by
  have hq : (0 : ℚ) < num / den := by positivity
  have hn₁ : (2 : ℚ) ^ num.log2 ≤ num := by exact_mod_cast Nat.log2_self_le hn.ne'
  have hn₂ : (num : ℚ) < 2 ^ (num.log2 + 1) := by exact_mod_cast Nat.lt_log2_self
  have hd₁ : (2 : ℚ) ^ den.log2 ≤ den := by exact_mod_cast Nat.log2_self_le hd.ne'
  have hd₂ : (den : ℚ) < 2 ^ (den.log2 + 1) := by exact_mod_cast Nat.lt_log2_self
  -- the quotient lies within a factor of two of the quotient of the two powers
  have hlow : (2 : ℚ) ^ ((num.log2 : ℤ) - (den.log2 + 1 : ℕ)) ≤ num / den := by
    rw [zpow_sub₀ two_ne_zero, zpow_natCast, zpow_natCast]
    gcongr
  have hhigh : (num : ℚ) / den < 2 ^ (((num.log2 + 1 : ℕ) : ℤ) - den.log2) := by
    rw [zpow_sub₀ two_ne_zero, zpow_natCast, zpow_natCast, div_lt_div_iff₀ (by positivity) (by positivity)]
    exact mul_lt_mul hn₂ hd₁ (by positivity) (by positivity)
  rw [two_zpow_le_iff_le_log hq] at hlow
  rw [lt_two_zpow_iff_log_lt hq] at hhigh
  have htest := (two_zpow_le_iff num hd ((num.log2 : ℤ) - den.log2)).trans (two_zpow_le_iff_le_log hq _)
  simp only [log2Quotient, htest]
  split_ifs with h <;> omega

theorem nearestBits_mul_right {k : ℕ} (hd : 0 < den) (hk : 0 < k) :
    nearestBits (num * k) (den * k) = nearestBits num den := by
  rcases Nat.eq_zero_or_pos num with rfl | hn
  · simp [nearestBits]
  have hlog : log2Quotient (num * k) (den * k) = log2Quotient num den := by
    have hk' : (k : ℚ) ≠ 0 := by exact_mod_cast hk.ne'
    rw [log2Quotient_eq_log (by positivity) (by positivity), log2Quotient_eq_log hn hd]
    push_cast
    rw [mul_div_mul_right _ _ hk']
  have hround (a b : ℕ) : roundDiv (num * k * a) (den * k * b) = roundDiv (num * a) (den * b) := by
    rw [mul_right_comm num, mul_right_comm den]
    exact roundDiv_mul_right hk
  simp only [nearestBits, hlog, hround, Nat.mul_eq_zero, hn.ne', hk.ne', or_self, if_false]

/-- Equal quotients have the same nearest number. -/
theorem nearestBits_congr {num' den' : ℕ} (hd : 0 < den) (hd' : 0 < den') (h : num * den' = num' * den) :
    nearestBits num den = nearestBits num' den' := by
  rw [← nearestBits_mul_right hd hd', h, mul_comm den, nearestBits_mul_right hd' hd]

/-- The bits of infinity without its sign. -/
def infinityBits : ℕ := 0x7ff * 2 ^ 52

theorem nearestBits_le : nearestBits num den ≤ infinityBits := by
  unfold nearestBits infinityBits
  split_ifs
  · exact Nat.zero_le _
  · exact Nat.min_le_right _ _

theorem roundDiv_self_mul {n k : ℕ} (hk : 0 < k) : roundDiv (n * k) k = n := by
  have hmod : n * k % k = 0 := Nat.mul_mod_left n k
  have hdiv : n * k / k = n := Nat.mul_div_left n hk
  simp only [roundDiv, hmod, hdiv]
  split_ifs with h
  · omega
  · rfl

/-- A whole multiple of a power of two that fits a double is nearest to itself. Either its leading bit is in the first place,
or the exponent is the least one. -/
theorem nearestBits_double {m : ℕ} {e : ℤ} (hm : m < 2 ^ 53) (hlow : -1074 ≤ e) (hhigh : e ≤ 971)
    (hnormal : 2 ^ 52 ≤ m ∨ e = -1074) :
    nearestBits (m * Nat.pow 2 e.toNat) (Nat.pow 2 (-e).toNat) = (e + 1074).toNat * 2 ^ 52 + m := by
  rcases Nat.eq_zero_or_pos m with rfl | hpos
  · have he : e = -1074 := hnormal.resolve_left (by norm_num)
    subst he
    simp [nearestBits]
  have hden : 0 < Nat.pow 2 (-e).toNat := Nat.pow_pos (by omega)
  have hnum : 0 < m * Nat.pow 2 e.toNat := Nat.mul_pos hpos (Nat.pow_pos (by omega))
  have hvalue : ((m * Nat.pow 2 e.toNat : ℕ) : ℚ) / (Nat.pow 2 (-e).toNat : ℕ) = m * 2 ^ e := by
    have hpow := zpow_eq_div (b := 2) (by omega) e
    rw [Nat.cast_ofNat] at hpow
    rw [Nat.cast_mul, mul_div_assoc, hpow]
    rfl
  have hq : (0 : ℚ) < m * 2 ^ e := by positivity
  have hlog : log2Quotient (m * Nat.pow 2 e.toNat) (Nat.pow 2 (-e).toNat) = Int.log 2 ((m : ℚ) * 2 ^ e) := by
    rw [log2Quotient_eq_log hnum hden, hvalue]
  have hbelow : Int.log 2 ((m : ℚ) * 2 ^ e) < 53 + e := by
    rw [← lt_two_zpow_iff_log_lt hq, zpow_add₀ two_ne_zero]
    have : (m : ℚ) < 2 ^ (53 : ℤ) := by exact_mod_cast hm
    gcongr
  -- so the exponent that is chosen is that of the number
  have hexp : max (Int.log 2 ((m : ℚ) * 2 ^ e) - 52) (-1074) = e := by
    rcases hnormal with hm' | rfl
    · have habove : 52 + e ≤ Int.log 2 ((m : ℚ) * 2 ^ e) := by
        rw [← two_zpow_le_iff_le_log hq, zpow_add₀ two_ne_zero]
        have : (2 : ℚ) ^ (52 : ℤ) ≤ m := by exact_mod_cast hm'
        gcongr
      omega
    · omega
  have hround : roundDiv (m * Nat.pow 2 e.toNat * Nat.pow 2 (-e).toNat) (Nat.pow 2 (-e).toNat * Nat.pow 2 e.toNat) = m := by
    rw [mul_assoc, mul_comm (Nat.pow 2 e.toNat)]
    exact roundDiv_self_mul (Nat.mul_pos hden (Nat.pow_pos (by omega)))
  simp only [nearestBits, hlog, hexp, hround, hnum.ne', if_false]
  apply Nat.min_eq_left
  calc (e + 1074).toNat * 2 ^ 52 + m ≤ 2045 * 2 ^ 52 + 2 * 2 ^ 52 :=
        Nat.add_le_add (Nat.mul_le_mul_right _ (by omega)) (by omega)
    _ = 0x7ff * 2 ^ 52 := rfl

theorem two_pow_le_iff (hd : 0 < den) (k : ℕ) : den * Nat.pow 2 k ≤ num ↔ (2 : ℚ) ^ (k : ℤ) ≤ num / den := by
  rw [zpow_natCast, le_div_iff₀ (by positivity), mul_comm, Nat.pow_eq]
  exact_mod_cast Iff.rfl

theorem lt_two_pow_neg_iff (hd : 0 < den) (k : ℕ) :
    2 * (num * Nat.pow 2 k) < den ↔ (num : ℚ) / den < 2 ^ (-((k + 1 : ℕ) : ℤ)) := by
  rw [zpow_neg, zpow_natCast, div_lt_iff₀ (by positivity), inv_mul_eq_div, lt_div_iff₀ (by positivity), Nat.pow_eq,
    pow_succ, mul_comm 2, mul_assoc]
  exact_mod_cast Iff.rfl

/-- Below half of the least double all is rounded to zero. The exponent has a name so that its power is never computed. -/
theorem nearestBits_tiny {k : ℕ} (hk : k = 1074) (h : 2 * (num * Nat.pow 2 k) < den) : nearestBits num den = 0 := by
  rcases Nat.eq_zero_or_pos num with rfl | hn
  · simp [nearestBits]
  have hd : 0 < den := by omega
  have hlog := log2Quotient_eq_log hn hd
  have hsmall := (lt_two_zpow_iff_log_lt (by positivity) _).mp ((lt_two_pow_neg_iff hd k).mp h)
  have hexp : max (log2Quotient num den - 52) (-1074) = -k := by omega
  have hlt : num * Nat.pow 2 k < den := by omega
  have hround : roundDiv (num * Nat.pow 2 k) den = 0 := by
    simp only [roundDiv, Nat.div_eq_of_lt hlt, Nat.mod_eq_of_lt hlt]
    rw [if_neg]
    omega
  have hzero : ((-k : ℤ) + 1074).toNat = 0 := by omega
  simp only [nearestBits, hexp, hn.ne', if_false, hzero]
  simpa using hround

/-- From `2 ^ 1024` on all is rounded to infinity. -/
theorem nearestBits_huge {k : ℕ} (hk : k = 1024) (hd : 0 < den) (h : den * Nat.pow 2 k ≤ num) :
    nearestBits num den = infinityBits := by
  have hn : 0 < num := lt_of_lt_of_le (Nat.mul_pos hd (Nat.pow_pos (by omega))) h
  have hq : (0 : ℚ) < num / den := by positivity
  have hlog := log2Quotient_eq_log hn hd
  have hlarge := (two_zpow_le_iff_le_log hq _).mp ((two_pow_le_iff hd k).mp h)
  obtain ⟨e, he⟩ : ∃ e : ℕ, log2Quotient num den - 52 = e := ⟨(log2Quotient num den - 52).toNat, by omega⟩
  have hexp : max (log2Quotient num den - 52) (-1074) = e := by omega
  -- the leading bit of the fraction is in the first place
  have hfraction : 2 ^ 52 ≤ roundDiv num (den * Nat.pow 2 e) := by
    have hself : den * Nat.pow 2 (e + 52) ≤ num := by
      rw [two_pow_le_iff hd, two_zpow_le_iff_le_log hq]
      omega
    have hpos : 0 < den * Nat.pow 2 e := Nat.mul_pos hd (Nat.pow_pos (by omega))
    have hdiv : 2 ^ 52 ≤ num / (den * Nat.pow 2 e) := by
      rw [Nat.le_div_iff_mul_le hpos, mul_comm, mul_assoc]
      rw [Nat.pow_eq, pow_add] at hself
      exact hself
    simp only [roundDiv]
    split_ifs <;> omega
  have he' : 972 ≤ e := by omega
  have hneg : (-(e : ℤ)).toNat = 0 := by omega
  have hone : num * Nat.pow 2 0 = num := mul_one num
  simp only [nearestBits, hexp, hneg, Int.toNat_natCast, hn.ne', hone, if_false]
  apply Nat.min_eq_right
  calc 0x7ff * 2 ^ 52 ≤ ((e + 1074 : ℤ).toNat + 1) * 2 ^ 52 := Nat.mul_le_mul_right _ (by omega)
    _ = (e + 1074 : ℤ).toNat * 2 ^ 52 + 2 ^ 52 := Nat.succ_mul _ _
    _ ≤ _ := Nat.add_le_add_left hfraction _

theorem ten_zpow_mul_eq (m : ℕ) (e : ℤ) :
    ((m * Nat.pow 10 e.toNat : ℕ) : ℚ) / (Nat.pow 10 (-e).toNat : ℕ) = m * 10 ^ e := by
  have hpow := zpow_eq_div (b := 10) (by omega) e
  rw [Nat.cast_ofNat] at hpow
  rw [Nat.cast_mul, mul_div_assoc, hpow]
  rfl

theorem decimal_tiny {m : ℕ} {e : ℤ} (h : m.log2 + 3 * e < -1100) :
    nearestBits (m * Nat.pow 10 e.toNat) (Nat.pow 10 (-e).toNat) = 0 := by
  obtain ⟨n, rfl⟩ : ∃ n : ℕ, e = -n := ⟨(-e).toNat, by omega⟩
  have hm : (m : ℚ) < 2 ^ (m.log2 + 1) := by exact_mod_cast Nat.lt_log2_self
  have hpow : (10 : ℚ) ^ (-(n : ℤ)) ≤ 2 ^ (-(3 * n : ℤ)) := by
    rw [zpow_neg, zpow_neg, zpow_mul, zpow_natCast, zpow_natCast]
    apply inv_anti₀ (by positivity)
    gcongr
    norm_num
  have hden : 0 < Nat.pow 10 (- -(n : ℤ)).toNat := Nat.pow_pos (by omega)
  obtain ⟨k, hk⟩ : ∃ k, k = 1074 := ⟨_, rfl⟩
  apply nearestBits_tiny hk
  rw [lt_two_pow_neg_iff hden, ten_zpow_mul_eq]
  calc (m : ℚ) * 10 ^ (-(n : ℤ)) < 2 ^ (m.log2 + 1) * 10 ^ (-(n : ℤ)) := by gcongr
    _ ≤ 2 ^ (m.log2 + 1) * 2 ^ (-(3 * n : ℤ)) := by gcongr
    _ = 2 ^ ((m.log2 + 1 : ℕ) + -(3 * n : ℤ)) := by rw [zpow_add₀ two_ne_zero, zpow_natCast]
    _ ≤ 2 ^ (-((k + 1 : ℕ) : ℤ)) := zpow_le_zpow_right₀ (by norm_num) (by omega)

theorem decimal_huge {m : ℕ} {e : ℤ} (hm : 0 < m) (h : 400 < e) :
    nearestBits (m * Nat.pow 10 e.toNat) (Nat.pow 10 (-e).toNat) = infinityBits := by
  have hden : 0 < Nat.pow 10 (-e).toNat := Nat.pow_pos (by omega)
  have hm' : (1 : ℚ) ≤ m := by exact_mod_cast hm
  obtain ⟨k, hk⟩ : ∃ k, k = 1024 := ⟨_, rfl⟩
  apply nearestBits_huge hk hden
  rw [two_pow_le_iff hden, ten_zpow_mul_eq]
  calc (2 : ℚ) ^ (k : ℤ) ≤ 2 ^ (3 * e) := zpow_le_zpow_right₀ (by norm_num) (by omega)
    _ = (2 ^ (3 : ℤ)) ^ e := zpow_mul 2 3 e
    _ ≤ 10 ^ e := zpow_le_zpow_left₀ (by omega) (by norm_num) (by norm_num)
    _ ≤ m * 10 ^ e := le_mul_of_one_le_left (by positivity) hm'

/-- Where the power of ten is not computed, it would make no difference. -/
theorem ofDecimal_eq (negative : Bool) (m : ℕ) (e : ℤ) :
    ofDecimal negative m e = nearest negative (m * Nat.pow 10 e.toNat) (Nat.pow 10 (-e).toNat) := by
  unfold ofDecimal
  split_ifs with hsmall hlarge
  · have hzero : nearestBits (m * Nat.pow 10 e.toNat) (Nat.pow 10 (-e).toNat) = nearestBits 0 1 := by
      rcases hsmall with rfl | hsmall
      · simp [nearestBits]
      · rw [decimal_tiny hsmall]
        rfl
    simp only [nearest, hzero]
  · have hm : 0 < m := Nat.pos_of_ne_zero fun h => hsmall (Or.inl h)
    have hinf {k : ℕ} (hk : k = 1024) : nearestBits (Nat.pow 2 k) 1 = infinityBits :=
      nearestBits_huge hk one_pos (one_mul _).le
    unfold nearest
    rw [decimal_huge hm hlarge, hinf (k := 1024) rfl]
  · rfl

end CheckedScript.Decimal
