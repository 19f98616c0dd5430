import CheckedScript.Data.Reader
import CheckedScript.Proofs.Decimals

/-! Numbers in data files. A numeral ends where something follows that cannot continue it. What is written for a whole number is
read as that number, and what is written for a double as that double: in each layout the digits and the exponent that are
read make a decimal of the same size as the one that was written. -/

namespace CheckedScript.Data

open Decimal (Shortest Layout)

/-- What may follow a numeral. -/
def EndsNumeral (rest : List Char) : Prop :=
  ∀ c ∈ rest.head?, c.isDigit = false ∧ c ≠ '.' ∧ c ≠ 'e' ∧ c ≠ 'E'

section Runs

variable {digits rest : List Char}

theorem takeWhile_digits (hd : ∀ c ∈ digits, c.isDigit = true) (hr : ∀ c ∈ rest.head?, c.isDigit = false) :
    (digits ++ rest).takeWhile Char.isDigit = digits := by
  rw [List.takeWhile_append_of_pos hd]
  cases rest with
  | nil => simp
  | cons c rest => simp [hr c rfl]

theorem dropWhile_digits (hd : ∀ c ∈ digits, c.isDigit = true) (hr : ∀ c ∈ rest.head?, c.isDigit = false) :
    (digits ++ rest).dropWhile Char.isDigit = rest := by
  rw [List.dropWhile_append_of_pos hd]
  cases rest with
  | nil => rfl
  | cons c rest => simp [hr c rfl]

theorem readFraction_digits (hd : ∀ c ∈ digits, c.isDigit = true) (hne : digits ≠ [])
    (hr : ∀ c ∈ rest.head?, c.isDigit = false) : readFraction ('.' :: (digits ++ rest)) = some (digits, rest) := by
  simp [readFraction, takeWhile_digits hd hr, dropWhile_digits hd hr, hne]

theorem readFraction_none (hr : ∀ c ∈ rest.head?, c ≠ '.') : readFraction rest = none := by
  unfold readFraction
  split
  · exact absurd rfl (hr '.' rfl)
  · rfl

theorem readExponent_none (hr : ∀ c ∈ rest.head?, c ≠ 'e' ∧ c ≠ 'E') : readExponent rest = none := by
  cases rest with
  | nil => rfl
  | cons c rest =>
    obtain ⟨he, hE⟩ := hr c rfl
    simp [readExponent, he, hE]

theorem readExponent_digits (negative : Bool) (hd : ∀ c ∈ digits, c.isDigit = true) (hne : digits ≠ [])
    (hr : ∀ c ∈ rest.head?, c.isDigit = false) :
    readExponent ('e' :: (if negative then '-' else '+') :: (digits ++ rest)) =
      some (if negative then -(digitsNumber digits : Int) else digitsNumber digits, rest) := by
  cases negative <;> simp [readExponent, takeWhile_digits hd hr, dropWhile_digits hd hr, hne]

end Runs

/-- The rest of a number whose digits before the point have been read. -/
def readTail (negative : Bool) (digits rest : List Char) : Read (Data × List Char) :=
  let fraction := readFraction rest
  let rest := (fraction.map Prod.snd).getD rest
  let exponent := readExponent rest
  let rest := (exponent.map Prod.snd).getD rest
  if fraction.isNone && exponent.isNone then
    let n : Int := digitsNumber digits
    if digitLimit < digits.length then .error (.longNumber digits.length)
    else .ok (.int (if negative then -n else n), rest)
  else
    let places := (fraction.map Prod.fst).getD []
    let e := (exponent.map Prod.fst).getD 0 - places.length
    .ok (.float (Decimal.ofDecimal negative (digitsNumber (digits ++ places)) e), rest)

/-- The digits before the point are all there are, unless the first one is a zero: then it is the only one. -/
theorem readNumber_eq (negative : Bool) {digits rest : List Char} (hd : ∀ c ∈ digits, c.isDigit = true)
    (hne : digits ≠ []) (hzero : digits.head? = some '0' → digits = ['0'])
    (hr : ∀ c ∈ rest.head?, c.isDigit = false) :
    readNumber negative (digits ++ rest) = readTail negative digits rest := by
  have hrun := takeWhile_digits hd hr
  have hdrop : (digits ++ rest).drop digits.length = rest := List.drop_left
  cases digits with
  | nil => exact absurd rfl hne
  | cons c more =>
    by_cases hc : c = '0'
    · subst hc
      obtain rfl : more = [] := by simpa using hzero rfl
      rfl
    · have hlead : readNumber negative (c :: more ++ rest) =
          if ((c :: more ++ rest).takeWhile Char.isDigit).isEmpty then .error .notData else
            readTail negative ((c :: more ++ rest).takeWhile Char.isDigit)
              ((c :: more ++ rest).drop ((c :: more ++ rest).takeWhile Char.isDigit).length) := by
        unfold readNumber readTail
        split
        · rename_i h
          exact absurd (List.cons.inj h).1 hc
        · rfl
      rw [hlead, hrun, hdrop]
      rfl

section Digits

theorem isDigit_toDigits (n : ℕ) : ∀ c ∈ Nat.toDigits 10 n, c.isDigit = true :=
  fun _ hc => Nat.isDigit_of_mem_toDigits (by omega) le_rfl hc

theorem digitsNumber_toDigits (n : ℕ) : digitsNumber (Nat.toDigits 10 n) = n := Nat.ofDigitChars_ten_toDigits

theorem digitsNumber_append (a b : List Char) :
    digitsNumber (a ++ b) = 10 ^ b.length * digitsNumber a + digitsNumber b := by
  have happend : digitsNumber (a ++ b) = Nat.ofDigitChars 10 b (digitsNumber a) := Nat.ofDigitChars_append 0
  rw [happend, Nat.ofDigitChars_eq_ofDigitChars_zero]
  rfl

theorem digitsNumber_zeros (k : ℕ) : digitsNumber (List.replicate k '0') = 0 := by
  have h : digitsNumber (List.replicate k '0') = 10 ^ k * 0 := Nat.ofDigitChars_replicate_zero
  rw [h, mul_zero]

/-- Only zero starts with a zero. -/
theorem toDigits_head (n : ℕ) (h : (Nat.toDigits 10 n).head? = some '0') : n = 0 := by
  induction n using Nat.strong_induction_on with
  | _ n ih =>
    by_cases hn : n < 10
    · rw [Nat.toDigits_of_lt_base hn] at h
      simpa using h
    · rw [Nat.toDigits_of_base_le (by omega) (by omega), List.head?_append_of_ne_nil _ Nat.toDigits_ne_nil] at h
      have := ih (n / 10) (by omega) h
      omega

theorem toDigits_of_head (n : ℕ) (h : (Nat.toDigits 10 n).head? = some '0') : Nat.toDigits 10 n = ['0'] := by
  rw [toDigits_head n h, Nat.toDigits_zero]

end Digits

section Scalars

variable {c : Char} {cs : List Char}

theorem readScalar_digit (hc : c.isDigit = true) : readScalar (c :: cs) = readNumber false (c :: cs) := by
  have hne (k : Char) (hk : k.isDigit = false) : k ≠ c := by
    rintro rfl
    simp [hc] at hk
  have hn := hne 'n' rfl
  have ht := hne 't' rfl
  have hf := hne 'f' rfl
  have hN := hne 'N' rfl
  have hI := hne 'I' rfl
  have hm := hne '-' rfl
  simp [readScalar, words, after?, hn, ht, hf, hN, hI, hm, hm.symm]

theorem readScalar_minus (hc : c.isDigit = true) : readScalar ('-' :: c :: cs) = readNumber true (c :: cs) := by
  have hI : 'I' ≠ c := by
    rintro rfl
    exact absurd hc (by decide)
  simp [readScalar, words, after?, hI]

variable {rest : List Char}

theorem EndsNumeral.not_digit (hr : EndsNumeral rest) : ∀ c ∈ rest.head?, c.isDigit = false := fun c hc => (hr c hc).1

theorem EndsNumeral.readFraction (hr : EndsNumeral rest) : readFraction rest = none :=
  readFraction_none fun c hc => (hr c hc).2.1

theorem EndsNumeral.readExponent (hr : EndsNumeral rest) : readExponent rest = none :=
  readExponent_none fun c hc => (hr c hc).2.2

theorem readNumber_toDigits (negative : Bool) {n : ℕ} (hn : n < 10 ^ digitLimit) (hr : EndsNumeral rest) :
    readNumber negative (Nat.toDigits 10 n ++ rest) = .ok (.int (if negative then -(n : Int) else n), rest) := by
  have hlength : ¬ digitLimit < (Nat.toDigits 10 n).length := by
    rw [not_lt, Nat.length_toDigits_le_iff (by omega) (by decide)]
    exact hn
  rw [readNumber_eq negative (isDigit_toDigits n) Nat.toDigits_ne_nil (toDigits_of_head n) hr.not_digit]
  simp only [readTail, hr.readFraction, hr.readExponent, Option.map_none, Option.getD_none, Option.isNone_none,
    Bool.and_self, if_true, hlength, if_false, digitsNumber_toDigits]

theorem toDigits_cons (n : ℕ) : ∃ c more, Nat.toDigits 10 n = c :: more ∧ c.isDigit = true := by
  obtain ⟨c, more, h⟩ := List.exists_cons_of_ne_nil (Nat.toDigits_ne_nil (n := n) (b := 10))
  exact ⟨c, more, h, isDigit_toDigits n c (by simp [h])⟩

theorem toList_toString_ofNat (n : ℕ) : (toString (Int.ofNat n)).toList = Nat.toDigits 10 n := String.toList_ofList

theorem toList_toString_negSucc (n : ℕ) : (toString (Int.negSucc n)).toList = '-' :: Nat.toDigits 10 (n + 1) := by
  have h : toString (Int.negSucc n) = "-" ++ Nat.repr (n + 1) := rfl
  simp [h, Nat.repr_eq_ofList_toDigits]

/-- A whole number that is not too long is read as it was written. -/
theorem readScalar_int {i : Int} (hi : i.natAbs < 10 ^ digitLimit) (hr : EndsNumeral rest) :
    readScalar ((toString i).toList ++ rest) = .ok (.int i, rest) := by
  cases i with
  | ofNat n =>
    obtain ⟨c, more, hcons, hc⟩ := toDigits_cons n
    have hread := readNumber_toDigits false hi hr
    rw [toList_toString_ofNat]
    rw [Int.ofNat_eq_natCast, Int.natAbs_natCast] at hread
    rw [hcons, List.cons_append] at hread ⊢
    rw [readScalar_digit hc, hread]
    rfl
  | negSucc n =>
    obtain ⟨c, more, hcons, hc⟩ := toDigits_cons (n + 1)
    have hread := readNumber_toDigits true (n := n + 1) hi hr
    rw [toList_toString_negSucc, List.cons_append]
    rw [hcons, List.cons_append] at hread ⊢
    rw [readScalar_minus hc, hread]
    rfl

end Scalars

section Doubles

variable {rest : List Char}

/-- A number with a point, and the decimal that is read. -/
theorem readTail_point (negative : Bool) (digits places : List Char)
    (hd : ∀ c ∈ places, c.isDigit = true) (hne : places ≠ []) (hr : EndsNumeral rest) :
    readTail negative digits ('.' :: (places ++ rest)) =
      .ok (.float (Decimal.ofDecimal negative (digitsNumber (digits ++ places)) (-(places.length : ℤ))), rest) := by
  simp [readTail, readFraction_digits hd hne hr.not_digit, hr.readExponent]

/-- A number with an exponent, with or without a point. -/
theorem readTail_exponent (negative below : Bool) (digits places power : List Char)
    (hd : ∀ c ∈ places, c.isDigit = true) (hp : ∀ c ∈ power, c.isDigit = true) (hne : power ≠ []) (hr : EndsNumeral rest) :
    readTail negative digits ((if places.isEmpty then [] else '.' :: places) ++
        'e' :: (if below then '-' else '+') :: (power ++ rest)) =
      .ok (.float (Decimal.ofDecimal negative (digitsNumber (digits ++ places))
        ((if below then -(digitsNumber power : ℤ) else digitsNumber power) - places.length)), rest) := by
  have hexponent := readExponent_digits below hp hne hr.not_digit
  cases places with
  | nil =>
    have hfraction : readFraction ('e' :: (if below then '-' else '+') :: (power ++ rest)) = none :=
      readFraction_none (by simp)
    simp [readTail, hfraction, hexponent]
  | cons c more =>
    have hmark : ∀ x ∈ ('e' :: (if below then '-' else '+') :: (power ++ rest)).head?, x.isDigit = false := by simp
    have hfraction := readFraction_digits hd (List.cons_ne_nil c more) hmark
    rw [List.cons_append] at hfraction
    simp [readTail, hfraction, hexponent]

/-- The text starts with a digit, and what is read from it is a decimal of the size of `d`. -/
structure ReadsDecimal (text : List Char) (d : Shortest) : Prop where
  starts : ∃ c more, text = c :: more ∧ c.isDigit = true
  reads : ∀ (negative : Bool) (rest : List Char), EndsNumeral rest →
    ∃ (m : ℕ) (e : ℤ), readNumber negative (text ++ rest) = .ok (.float (Decimal.ofDecimal negative m e), rest) ∧
      (m : ℚ) * 10 ^ e = d.digits * 10 ^ d.exponent

variable {d : Shortest}

theorem readsDecimal_of_tail {tail : List Char} (digits : List Char) {m : ℕ} {e : ℤ} (hd : ∀ c ∈ digits, c.isDigit = true)
    (hne : digits ≠ []) (hzero : digits.head? = some '0' → digits = ['0'])
    (htail : ∃ c more, tail = c :: more ∧ c.isDigit = false)
    (hread : ∀ negative rest, EndsNumeral rest →
      readTail negative digits (tail ++ rest) = .ok (.float (Decimal.ofDecimal negative m e), rest))
    (hsize : (m : ℚ) * 10 ^ e = d.digits * 10 ^ d.exponent) : ReadsDecimal (digits ++ tail) d := by
  obtain ⟨c, more, rfl, hc⟩ := htail
  refine ⟨?_, ?_⟩
  · obtain ⟨first, others, rfl⟩ := List.exists_cons_of_ne_nil hne
    exact ⟨first, _, List.cons_append, hd first (by simp)⟩
  · intro negative rest hr
    refine ⟨m, e, ?_, hsize⟩
    rw [List.append_assoc, readNumber_eq negative hd hne hzero (by simp [hc]), hread negative rest hr]

theorem isDigit_zeros (k : ℕ) : ∀ c ∈ List.replicate k '0', c.isDigit = true := by
  intro c hc
  rw [List.eq_of_mem_replicate hc]
  rfl

/-- Below one: zeros stand between the point and the digits. -/
theorem readsDecimal_below {k : ℕ} (hk : (k : ℤ) + (Nat.toDigits 10 d.digits).length = -d.exponent) :
    ReadsDecimal ('0' :: '.' :: (List.replicate k '0' ++ Nat.toDigits 10 d.digits)) d := by
  have hplaces : ∀ c ∈ List.replicate k '0' ++ Nat.toDigits 10 d.digits, c.isDigit = true :=
    List.forall_mem_append.mpr ⟨isDigit_zeros k, isDigit_toDigits _⟩
  have hm : digitsNumber (['0'] ++ (List.replicate k '0' ++ Nat.toDigits 10 d.digits)) = d.digits := by
    have hzero : digitsNumber ['0'] = 0 := rfl
    simp only [digitsNumber_append, digitsNumber_zeros, digitsNumber_toDigits, hzero, mul_zero, zero_add]
  have he : -((List.replicate k '0' ++ Nat.toDigits 10 d.digits).length : ℤ) = d.exponent := by
    simp only [List.length_append, List.length_replicate]
    omega
  apply readsDecimal_of_tail ['0'] (m := d.digits) (e := d.exponent) (by simp) (by simp) (fun _ => rfl)
    ⟨_, _, rfl, rfl⟩ _ rfl
  intro negative rest hr
  have hread := readTail_point negative ['0'] _ hplaces (by simp [Nat.toDigits_ne_nil]) hr
  rwa [hm, he] at hread

/-- Whole: zeros stand after the digits, and one more after the point. -/
theorem readsDecimal_whole {k : ℕ} (hk : d.exponent = k) (hzero : d.digits = 0 → d.exponent = 0) :
    ReadsDecimal (Nat.toDigits 10 d.digits ++ List.replicate k '0' ++ ['.', '0']) d := by
  have hhead : (Nat.toDigits 10 d.digits ++ List.replicate k '0').head? = some '0' →
      Nat.toDigits 10 d.digits ++ List.replicate k '0' = ['0'] := by
    intro h
    rw [List.head?_append_of_ne_nil _ Nat.toDigits_ne_nil] at h
    have hk₀ : k = 0 := by
      have := hzero (toDigits_head _ h)
      omega
    simp [toDigits_of_head _ h, hk₀]
  have hm : digitsNumber (Nat.toDigits 10 d.digits ++ List.replicate k '0' ++ ['0']) = 10 * (10 ^ k * d.digits) := by
    have hlast : digitsNumber ['0'] = 0 := rfl
    simp only [digitsNumber_append, digitsNumber_zeros, digitsNumber_toDigits, hlast, List.length_replicate,
      List.length_singleton, pow_one, add_zero]
  apply readsDecimal_of_tail _ (m := 10 * (10 ^ k * d.digits)) (e := -1)
    (List.forall_mem_append.mpr ⟨isDigit_toDigits _, isDigit_zeros k⟩) (by simp [Nat.toDigits_ne_nil]) hhead
    ⟨_, _, rfl, rfl⟩
  · intro negative rest hr
    have hread := readTail_point negative (Nat.toDigits 10 d.digits ++ List.replicate k '0') ['0'] (by simp)
      (by simp) hr
    rwa [hm] at hread
  · rw [hk, zpow_neg_one, zpow_natCast]
    push_cast
    field_simp

/-- The point stands among the digits. -/
theorem readsDecimal_among {k : ℕ} (hpos : 0 < k) (hk : (k : ℤ) = (Nat.toDigits 10 d.digits).length + d.exponent)
    (hneg : d.exponent < 0) (hzero : d.digits = 0 → d.exponent = 0) :
    ReadsDecimal ((Nat.toDigits 10 d.digits).take k ++ '.' :: (Nat.toDigits 10 d.digits).drop k) d := by
  have hhead : ((Nat.toDigits 10 d.digits).take k).head? = some '0' → (Nat.toDigits 10 d.digits).take k = ['0'] := by
    intro h
    rw [List.head?_take, if_neg (by omega)] at h
    have := hzero (toDigits_head _ h)
    omega
  have he : -(((Nat.toDigits 10 d.digits).drop k).length : ℤ) = d.exponent := by
    rw [List.length_drop]
    omega
  have hdrop : (Nat.toDigits 10 d.digits).drop k ≠ [] := by
    apply List.ne_nil_of_length_pos
    omega
  apply readsDecimal_of_tail _ (m := d.digits) (e := d.exponent)
    (fun c hc => isDigit_toDigits _ c (List.mem_of_mem_take hc)) (by simp [Nat.toDigits_ne_nil]; omega) hhead
    ⟨_, _, rfl, rfl⟩ _ rfl
  intro negative rest hr
  have hread := readTail_point negative ((Nat.toDigits 10 d.digits).take k) _
    (fun c hc => isDigit_toDigits _ c (List.mem_of_mem_drop hc)) hdrop hr
  rwa [List.take_append_drop, digitsNumber_toDigits, he] at hread

theorem digitsNumber_padded (width n : ℕ) : digitsNumber (Decimal.padded width n) = n := by
  simp only [Decimal.padded, digitsNumber_append, digitsNumber_zeros, digitsNumber_toDigits, mul_zero, zero_add]

theorem isDigit_padded (width n : ℕ) : ∀ c ∈ Decimal.padded width n, c.isDigit = true :=
  List.forall_mem_append.mpr ⟨isDigit_zeros _, isDigit_toDigits _⟩

/-- One digit before the point and an exponent. -/
theorem readsDecimal_exponent (width : ℕ) {first : ℤ}
    (hfirst : first = (Nat.toDigits 10 d.digits).length + d.exponent - 1) :
    ReadsDecimal ((Nat.toDigits 10 d.digits).take 1 ++
      ((if ((Nat.toDigits 10 d.digits).drop 1).isEmpty then [] else '.' :: (Nat.toDigits 10 d.digits).drop 1) ++
        'e' :: (if first < 0 then '-' else '+') :: Decimal.padded width first.natAbs)) d := by
  have hhead : ((Nat.toDigits 10 d.digits).take 1).head? = some '0' → (Nat.toDigits 10 d.digits).take 1 = ['0'] := by
    intro h
    rw [List.head?_take, if_neg (by omega)] at h
    rw [toDigits_of_head _ h]
    rfl
  have he : (if first < 0 then -(first.natAbs : ℤ) else first.natAbs) - ((Nat.toDigits 10 d.digits).drop 1).length =
      d.exponent := by
    have hpos := Nat.length_toDigits_pos (b := 10) (n := d.digits)
    rw [List.length_drop]
    split_ifs <;> omega
  apply readsDecimal_of_tail _ (m := d.digits) (e := d.exponent)
    (fun c hc => isDigit_toDigits _ c (List.mem_of_mem_take hc)) (by simp [Nat.toDigits_ne_nil]) hhead _ _ rfl
  · cases (Nat.toDigits 10 d.digits).drop 1 with
    | nil => exact ⟨_, _, rfl, rfl⟩
    | cons c more => exact ⟨_, _, rfl, rfl⟩
  · intro negative rest hr
    have hread := readTail_exponent negative (decide (first < 0)) ((Nat.toDigits 10 d.digits).take 1)
      ((Nat.toDigits 10 d.digits).drop 1) (Decimal.padded width first.natAbs)
      (fun c hc => isDigit_toDigits _ c (List.mem_of_mem_drop hc)) (isDigit_padded _ _) (by simp [Decimal.padded, Nat.toDigits_ne_nil]) hr
    simp only [decide_eq_true_eq, List.take_append_drop, digitsNumber_toDigits, digitsNumber_padded, he] at hread
    rw [List.append_assoc]
    exact hread

/-- Whatever the layout, the text of a decimal is read as a decimal of the same size. -/
theorem readsDecimal_text (layout : Layout) (hzero : d.digits = 0 → d.exponent = 0) :
    ReadsDecimal (d.text layout) d := by
  have hpos := Nat.length_toDigits_pos (b := 10) (n := d.digits)
  unfold Shortest.text
  dsimp only
  obtain ⟨first, hfirst⟩ : ∃ first, first = ((Nat.toDigits 10 d.digits).length : ℤ) + d.exponent - 1 := ⟨_, rfl⟩
  rw [← hfirst]
  by_cases hplain : layout.leastPositional ≤ first ∧ first < layout.beyondPositional
  · rw [if_pos hplain]
    by_cases hbelow : first < 0
    · rw [if_pos hbelow]
      exact readsDecimal_below (by omega)
    · rw [if_neg hbelow]
      by_cases hexponent : 0 ≤ d.exponent
      · have htake : (Nat.toDigits 10 d.digits).length ≤ (first + 1).toNat := by omega
        rw [List.take_of_length_le htake, List.drop_of_length_le htake]
        exact readsDecimal_whole (by omega) hzero
      · have hzeros : d.exponent.toNat = 0 := by omega
        have hdrop : ¬ ((Nat.toDigits 10 d.digits).drop (first + 1).toNat).isEmpty := by
          rw [List.isEmpty_iff, List.drop_eq_nil_iff]
          omega
        rw [hzeros, List.replicate_zero, List.append_nil, if_neg hdrop]
        exact readsDecimal_among (by omega) (by omega) (by omega) hzero
  · rw [if_neg hplain, List.append_assoc]
    exact readsDecimal_exponent layout.exponentWidth hfirst

theorem ReadsDecimal.readScalar {text : List Char} (h : ReadsDecimal text d) (negative : Bool) (hr : EndsNumeral rest) :
    ∃ (m : ℕ) (e : ℤ), readScalar ((if negative then ['-'] else []) ++ text ++ rest) =
        .ok (.float (Decimal.ofDecimal negative m e), rest) ∧ (m : ℚ) * 10 ^ e = d.digits * 10 ^ d.exponent := by
  obtain ⟨c, more, rfl, hc⟩ := h.starts
  obtain ⟨m, e, hread, hsize⟩ := h.reads negative rest hr
  refine ⟨m, e, ?_, hsize⟩
  rw [← hread]
  cases negative with
  | false => exact readScalar_digit hc
  | true => exact readScalar_minus hc

/-- The bits of an infinite double are known up to the sign. -/
theorem eq_of_isInf {x y : Float} (hx : x.isInf = true) (hy : y.isInf = true)
    (hs : x.toBits.toNat / 2 ^ 63 = y.toBits.toNat / 2 ^ 63) : x = y := by
  rw [← Float.toBits_inj, ← UInt64.toNat_inj]
  rw [Decimal.isInf_iff] at hx hy
  omega

theorem readScalar_infinity (rest : List Char) :
    readScalar ("Infinity".toList ++ rest) = .ok (.float (1.0 / 0.0), rest) := rfl

theorem readScalar_minusInfinity (rest : List Char) :
    readScalar ('-' :: ("Infinity".toList ++ rest)) = .ok (.float (-1.0 / 0.0), rest) := rfl

/-- A double that is a number is read as it was written, the infinities and the negative zero too. -/
theorem readScalar_float {x : Float} (hx : x.isNaN = false) (hr : EndsNumeral rest) :
    readScalar ((Decimal.render .data x).toList ++ rest) = .ok (.float x, rest) := by
  have hlt : x.toBits.toNat < 2 ^ 64 := x.toBits.toNat_lt
  have hsign : (Decimal.Binary.ofFloat x).negative = decide (x.toBits.toNat / 2 ^ 63 = 1) := rfl
  have hne : x ≠ Float.nan := by simpa using hx
  by_cases hinf : x.isInf = true
  · cases hneg : (Decimal.Binary.ofFloat x).negative with
    | false =>
      have htext : Decimal.render .data x = "Infinity" := by
        simp [Decimal.render, hne, hinf, hneg, Layout.data]
      rw [htext, readScalar_infinity]
      have hone : (1.0 / 0.0 : Float).toBits.toNat / 2 ^ 63 = 0 := rfl
      rw [hsign, decide_eq_false_iff_not] at hneg
      rw [eq_of_isInf hinf (y := 1.0 / 0.0) rfl (by omega)]
    | true =>
      have htext : (Decimal.render .data x).toList = '-' :: "Infinity".toList := by
        simp [Decimal.render, hne, hinf, hneg, Layout.data]
      rw [htext, List.cons_append, readScalar_minusInfinity]
      have hone : (-1.0 / 0.0 : Float).toBits.toNat / 2 ^ 63 = 1 := rfl
      rw [hsign, decide_eq_true_eq] at hneg
      rw [eq_of_isInf hinf (y := -1.0 / 0.0) rfl (by omega)]
  · have hfinite : x.toBits.toNat / 2 ^ 52 % 2 ^ 11 ≠ 2047 := by
      have hnan : ¬ x.isNaN = true := Bool.eq_false_iff.mp hx
      rw [Decimal.isNaN_iff] at hnan
      rw [Decimal.isInf_iff] at hinf
      tauto
    have htext : (Decimal.render .data x).toList = (if (Decimal.Binary.ofFloat x).negative then ['-'] else []) ++
        (Shortest.ofBinary (Decimal.Binary.ofFloat x)).text .data := by
      cases hneg : (Decimal.Binary.ofFloat x).negative <;> simp [Decimal.render, hne, hinf, hneg]
    have hdecimal := readsDecimal_text .data (Shortest.ofBinary_digits_zero hfinite)
    obtain ⟨m, e, hread, hsize⟩ := hdecimal.readScalar (Decimal.Binary.ofFloat x).negative hr
    rw [htext, hread, Shortest.ofDecimal_eq_of_finite hfinite hsize]

end Doubles

end CheckedScript.Data
