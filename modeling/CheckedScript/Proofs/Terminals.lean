import CheckedScript.Parse
import CheckedScript.Proofs.Tokens

/-! What a token that was scanned can say. The text of a token is one that its kind allows, and the texts that the scan takes
for quoted texts and for numbers are texts of literals too. The one exception are numbers that start with a digit of
another script: the scan takes them for numbers and the reading of literals does not. -/

namespace CheckedScript

theorem Text.isDigit_of_ascii {c : Char} (h : c.isDigit = true) : Text.isDigit c = true := by
  simp only [Char.isDigit, Bool.and_eq_true, decide_eq_true_eq, ge_iff_le] at h
  have h₁ : 0x30 ≤ c.toNat := by simpa using UInt32.le_iff_toNat_le.mp h.1
  have h₂ : c.toNat ≤ 0x39 := by simpa using UInt32.le_iff_toNat_le.mp h.2
  have hz : (0x30 ≤ c.toNat && c.toNat < 0x30 + 10) = true := by
    simp only [Bool.and_eq_true, decide_eq_true_eq]
    omega
  simp only [Text.isDigit, Text.digit?, Text.zeros, List.find?_cons, hz, Option.map_some, Option.isSome_some]

/-- No digit of any script is among the characters from the colon to the last small letter. -/
theorem Text.not_isDigit_of_letter {c : Char} (h₁ : 0x3a ≤ c.toNat) (h₂ : c.toNat < 0x7b) : Text.isDigit c = false := by
  have hnone : ∀ n < 0x7b, 0x3a ≤ n → (Text.zeros.find? fun z => z ≤ n && n < z + 10) = none := by decide
  simp only [Text.isDigit, Text.digit?, hnone c.toNat h₂ h₁, Option.map_none, Option.isSome_none]

namespace Literal

theorem isNameStart_range {c : Char} (h : isNameStart c = true) : 0x3a ≤ c.toNat ∧ c.toNat < 0x7b := by
  rcases Bool.or_eq_true_iff.mp h with h | h
  · obtain ⟨ha, hz⟩ := Bool.and_eq_true_iff.mp h
    have h₁ : 0x61 ≤ c.toNat := by simpa using UInt32.le_iff_toNat_le.mp (of_decide_eq_true ha)
    have h₂ : c.toNat ≤ 0x7a := by simpa using UInt32.le_iff_toNat_le.mp (of_decide_eq_true hz)
    omega
  · rw [beq_iff_eq.mp h]
    decide

/-- No name starts with a digit. -/
theorem not_isNameStart {c : Char} (h : Text.isDigit c = true) : isNameStart c = false := by
  cases hs : isNameStart c with
  | false => rfl
  | true =>
    obtain ⟨h₁, h₂⟩ := isNameStart_range hs
    rw [Text.not_isDigit_of_letter h₁ h₂] at h
    cases h

/-- Digits of any script, and possibly a point with more digits after it. -/
def isDecimal (cs : List Char) : Bool :=
  !(cs.takeWhile Text.isDigit).isEmpty &&
    match cs.dropWhile Text.isDigit with
    | [] => true
    | '.' :: fraction => !fraction.isEmpty && fraction.all Text.isDigit
    | _ => false

/-- Does the text start with one of the digits from `0` to `9`? -/
def startsPlain (cs : List Char) : Bool := cs.head?.any Char.isDigit

/-- A literal is a number if it is a decimal that starts with a plain digit. -/
theorem isUnsigned_eq (cs : List Char) : isUnsigned cs = (startsPlain cs && isDecimal cs) := by
  cases cs with
  | nil => rfl
  | cons c rest =>
    cases hc : c.isDigit with
    | false => simp [isUnsigned, startsPlain, hc]
    | true =>
      have hd := Text.isDigit_of_ascii hc
      cases hdrop : rest.dropWhile Text.isDigit with
      | nil => simp [isUnsigned, startsPlain, isDecimal, hc, hd, hdrop]
      | cons d fraction =>
        by_cases hpoint : d = '.'
        · subst hpoint
          simp [isUnsigned, startsPlain, isDecimal, hc, hd, hdrop]
        · simp [isUnsigned, startsPlain, isDecimal, hc, hd, hdrop, hpoint]

theorem head_of_isDecimal {cs : List Char} (h : isDecimal cs = true) :
    ∃ c rest, cs = c :: rest ∧ Text.isDigit c = true := by
  cases cs with
  | nil => simp [isDecimal] at h
  | cons c rest =>
    refine ⟨c, rest, rfl, ?_⟩
    cases hc : Text.isDigit c with
    | true => rfl
    | false => simp [isDecimal, hc] at h

theorem isNumber_of_isDecimal {cs : List Char} (h : isDecimal cs = true) : isNumber cs = startsPlain cs := by
  obtain ⟨c, rest, rfl, hc⟩ := head_of_isDecimal h
  unfold isNumber
  split
  · rename_i heq
    cases heq
    exact absurd hc (by decide)
  · rw [isUnsigned_eq, h, Bool.and_true]

end Literal

namespace Token

/-- The text of the token is one that its kind allows, and there is a token of that kind at all. -/
structure Lexical (t : Token) : Prop where
  faithful : t.Faithful
  exists_kind : t.kind ≠ .ending
  name : t.kind = .name → Literal.isName t.text.toList = true ∧ Kind.ofKeyword? t.text = none
  number : t.kind = .numberLit → Literal.isDecimal t.text.toList = true
  string : t.kind = .stringLit → Literal.isString t.text.toList = true

theorem lexical_of_symbol {t : Token} {s : String} (h : t.kind.symbol? = some s) (hf : t.Faithful) : t.Lexical := by
  refine ⟨hf, ?_, ?_, ?_, ?_⟩ <;>
  · intro hk
    rw [hk] at h
    cases h

namespace Lexeme

/-- A rule makes a token whose text its kind allows. -/
def Proper (cs : List Char) (l : Lexeme) : Prop :=
  ∀ k start stop, l.kind = some k → Lexical ⟨k, String.ofList (cs.take l.length), start, stop⟩

theorem take_of_initial {w cs : List Char} (h : w <+: cs) : String.ofList (cs.take w.length) = String.ofList w := by
  rw [← List.prefix_iff_eq_take.mp h]

theorem all_run {p : Char → Bool} {cs : List Char} : ∀ c ∈ cs.takeWhile p, p c = true :=
  List.all_eq_true.mp List.all_takeWhile

/-- The safe characters between two quotes. -/
theorem stringLit?_proper {cs : List Char} {l : Lexeme} (h : stringLit? cs = some l) : l.Proper cs := by
  unfold stringLit? at h
  split at h
  · rename_i rest
    split at h
    · rename_i hq
      cases h
      rintro _ start stop ⟨⟩
      refine ⟨nofun, nofun, nofun, nofun, fun _ => ?_⟩
      obtain ⟨after, hafter⟩ := List.head?_eq_some_iff.mp hq
      have hinitial : '\'' :: (rest.takeWhile Literal.isSafe ++ ['\'']) <+: '\'' :: rest := by
        refine ⟨after, ?_⟩
        rw [List.cons_append, List.append_assoc, List.singleton_append, ← hafter, List.takeWhile_append_dropWhile]
      have htext := take_of_initial hinitial
      simp only [List.length_cons, List.length_append, List.length_nil, Nat.zero_add] at htext
      simp only [htext, String.toList_ofList, Literal.isString, List.getLast?_append, List.getLast?_singleton,
        Option.some_or, List.dropLast_concat, List.all_takeWhile, BEq.rfl, Bool.and_self]
    · cases h
  · cases h

/-- A run of digits, or two with a point between them. -/
theorem isDecimal_run {whole fraction : List Char} (hw : whole.isEmpty = false) (hd : ∀ c ∈ whole, Text.isDigit c = true)
    (hf : ∀ c ∈ fraction, Text.isDigit c = true) :
    Literal.isDecimal (whole ++ if fraction.isEmpty then [] else '.' :: fraction) = true := by
  have hpoint : Text.isDigit '.' = false := by decide
  rw [Literal.isDecimal, List.takeWhile_append_of_pos hd, List.dropWhile_append_of_pos hd]
  cases fraction with
  | nil => simpa using hw
  | cons c rest => simpa [hpoint, List.takeWhile_cons, List.dropWhile_cons] using ⟨by simpa using hw, by simpa using hf⟩

/-- The digits after the point of a number. -/
def fraction (cs : List Char) : List Char :=
  match cs.dropWhile Text.isDigit with
  | '.' :: rest => rest.takeWhile Text.isDigit
  | _ => []

theorem numberLit?_eq (cs : List Char) : numberLit? cs =
    if (cs.takeWhile Text.isDigit).isEmpty then none
    else some ⟨some .numberLit,
      (cs.takeWhile Text.isDigit).length + (if (fraction cs).isEmpty then 0 else (fraction cs).length + 1)⟩ := rfl

theorem fraction_digits (cs : List Char) : ∀ c ∈ fraction cs, Text.isDigit c = true := by
  unfold fraction
  split
  · exact all_run
  · simp

theorem fraction_initial (cs : List Char) :
    (cs.takeWhile Text.isDigit ++ if (fraction cs).isEmpty then [] else '.' :: fraction cs) <+: cs := by
  split
  · rw [List.append_nil]
    exact List.takeWhile_prefix _
  · rename_i hf
    unfold fraction at hf ⊢
    split at hf
    · rename_i rest hrest
      refine ⟨rest.dropWhile Text.isDigit, ?_⟩
      rw [List.append_assoc, List.cons_append, List.takeWhile_append_dropWhile, ← hrest, List.takeWhile_append_dropWhile]
    · simp at hf

theorem numberLit?_proper {cs : List Char} {l : Lexeme} (h : numberLit? cs = some l) : l.Proper cs := by
  rw [numberLit?_eq] at h
  split at h
  · cases h
  · rename_i hw
    cases h
    rintro _ start stop ⟨⟩
    refine ⟨nofun, nofun, nofun, fun _ => ?_, nofun⟩
    have hlength : (cs.takeWhile Text.isDigit).length + (if (fraction cs).isEmpty then 0 else (fraction cs).length + 1) =
        (cs.takeWhile Text.isDigit ++ if (fraction cs).isEmpty then [] else '.' :: fraction cs).length := by
      split <;> simp
    simp only [hlength, take_of_initial (fraction_initial cs), String.toList_ofList]
    exact isDecimal_run (by simpa using hw) all_run (fraction_digits cs)

/-- Letters and then digits. -/
theorem isName_run {letters digits : List Char} (hl : letters.isEmpty = false)
    (hs : ∀ c ∈ letters, Literal.isNameStart c = true) (hd : ∀ c ∈ digits, c.isDigit = true) :
    Literal.isName (letters ++ digits) = true := by
  have hnone : digits.takeWhile Literal.isNameStart = [] ∧ digits.dropWhile Literal.isNameStart = digits := by
    cases digits with
    | nil => exact ⟨rfl, rfl⟩
    | cons c rest =>
      have hc := Literal.not_isNameStart (Text.isDigit_of_ascii (hd c (.head _)))
      simp [hc]
  rw [Literal.isName, List.takeWhile_append_of_pos hs, List.dropWhile_append_of_pos hs, hnone.1, hnone.2, List.append_nil,
    hl, Bool.not_false, Bool.true_and, List.all_eq_true]
  exact hd

theorem word?_proper {cs : List Char} {l : Lexeme} (h : word? cs = some l) : l.Proper cs := by
  have hspells := word?_spells h
  simp only [word?] at h
  split at h
  · cases h
  · rename_i hw
    cases h
    intro k start stop hk
    have hfaithful : Faithful ⟨k, _, start, stop⟩ := fun s hs => hspells k s hk hs
    have htext := take_of_initial (run_append (p := Literal.isNameStart) (q := Char.isDigit) cs)
    cases hkey : Kind.ofKeyword? (String.ofList
        (cs.takeWhile Literal.isNameStart ++ (cs.dropWhile Literal.isNameStart).takeWhile Char.isDigit)) with
    | some k' =>
      rw [hkey] at hk
      cases hk
      exact lexical_of_symbol (Kind.symbol?_ofKeyword hkey) hfaithful
    | none =>
      rw [hkey] at hk
      cases hk
      refine ⟨hfaithful, by simp, fun _ => ?_, by simp, by simp⟩
      simp only [htext, hkey, and_true, String.toList_ofList]
      exact isName_run (by simpa using hw) all_run all_run

theorem first?_proper {cs : List Char} {l : Lexeme} (h : first? cs = some l) : l.Proper cs := by
  have hspells := first?_spells h
  have hsymbol (hk : ∀ k, l.kind = some k → ∃ s, k.symbol? = some s) : l.Proper cs := by
    intro k start stop hl
    obtain ⟨s, hs⟩ := hk k hl
    exact lexical_of_symbol hs fun s' hs' => hspells k s' hl hs'
  have hskip (hk : l.kind = none) : l.Proper cs := by
    intro k start stop hl
    rw [hk] at hl
    cases hl
  simp only [first?, HOrElse.hOrElse, OrElse.orElse, Option.orElse_eq_or, Option.or_eq_some_iff] at h
  rcases h with h | ⟨-, h | ⟨-, h | ⟨-, h | ⟨-, h | ⟨-, h | ⟨-, h | ⟨-, h⟩⟩⟩⟩⟩⟩⟩
  · exact stringLit?_proper h
  · refine hskip ?_
    unfold blockComment? at h
    split at h
    · obtain ⟨_, -, rfl⟩ := Option.map_eq_some_iff.mp h
      rfl
    · cases h
  · exact word?_proper h
  · refine hskip ?_
    simp only [space?] at h
    split at h <;> cases h
    rfl
  · exact numberLit?_proper h
  · refine hskip ?_
    unfold lineComment? at h
    split at h <;> cases h
    rfl
  · refine hsymbol fun k hk => ?_
    unfold pair? at h
    split at h
    · obtain ⟨k', hk', rfl⟩ := Option.map_eq_some_iff.mp h
      cases hk
      exact ⟨_, Kind.symbol?_ofPair hk'⟩
    · cases h
  · refine hsymbol fun k hk => ?_
    unfold single? at h
    split at h
    · obtain ⟨k', hk', rfl⟩ := Option.map_eq_some_iff.mp h
      cases hk
      exact ⟨_, Kind.symbol?_ofChar hk'⟩
    · cases h

end Lexeme

theorem scanFrom_lexical (start taken : Nat) (cs : List Char) : ∀ t ∈ (scanFrom start taken cs).tokens, t.Lexical := by
  fun_induction scanFrom start taken cs with
  | case1 => simp
  | case2 start taken c rest ih => exact ih
  | case3 => simp
  | case4 start c rest n hf ih => exact ih
  | case5 start c rest kind n hf ih =>
    intro t ht
    rcases List.mem_cons.mp ht with rfl | ht
    · exact Lexeme.first?_proper hf kind start (start + n) rfl
    · exact ih t ht

/-- Every token of a source has a text that its kind allows. -/
theorem scan_lexical (source : String) : ∀ t ∈ (scan source).tokens, t.Lexical := scanFrom_lexical 0 0 source.toList

namespace Lexical

variable {t : Token}

/-- What is scanned as a quoted text is read as one. -/
theorem parse_string (h : t.Lexical) (hk : t.kind = .stringLit) :
    Literal.parse t.text = .ok (.text (Parse.unquote t.text)) := by
  simp only [Literal.parse, Literal.classify, h.string hk, if_true]
  rfl

/-- What is scanned as a number is no quoted text, no truth value and no name. -/
theorem classify_number (h : t.Lexical) (hk : t.kind = .numberLit) : Literal.classify t.text =
    if Literal.startsPlain t.text.toList then .ok .number
    else .error (Problem.located (.unknownLiteral t.text) .zero) := by
  obtain ⟨c, rest, hcs, hc⟩ := Literal.head_of_isDecimal (h.number hk)
  have hstring : Literal.isString t.text.toList = false := by
    rw [hcs, Literal.isString.eq_def]
    split
    · rename_i heq
      cases heq
      exact absurd hc (by decide)
    · rfl
  have hword : ¬(t.text = "true" ∨ t.text = "false") := by
    rintro (ht | ht) <;>
    · rw [ht] at hcs
      cases hcs
      exact absurd hc (by decide)
  have hname : Literal.isName t.text.toList = false := by
    rw [hcs, Literal.isName, List.takeWhile_cons, Literal.not_isNameStart hc]
    rfl
  simp only [Literal.classify, hstring, hword, hname, Literal.isNumber_of_isDecimal (h.number hk), if_false,
    Bool.false_eq_true]

/-- A number is read as one if it starts with a plain digit. -/
theorem parse_number (h : t.Lexical) (hk : t.kind = .numberLit) : Literal.parse t.text =
    if Literal.startsPlain t.text.toList then .ok (.number (Literal.number t.text.toList))
    else .error (Problem.located (.unknownLiteral t.text) .zero) := by
  simp only [Literal.parse, h.classify_number hk]
  split <;> rfl

theorem isForeignNumber_eq (h : t.Lexical) :
    t.isForeignNumber = (t.kind == .numberLit && !Literal.startsPlain t.text.toList) := by
  unfold isForeignNumber
  by_cases hk : t.kind = .numberLit
  · rw [Literal.isNumber_of_isDecimal (h.number hk)]
  · rw [beq_eq_false_iff_ne.mpr hk, Bool.false_and, Bool.false_and]

theorem isForeignNumber_iff (h : t.Lexical) :
    t.isForeignNumber = true ↔ t.kind = .numberLit ∧ Literal.startsPlain t.text.toList = false := by
  rw [h.isForeignNumber_eq, Bool.and_eq_true, beq_iff_eq, Bool.not_eq_true']

/-- Literals are read from their tokens, unless they are numbers of another script. -/
theorem parse_ok_iff (h : t.Lexical) (hk : t.kind = .numberLit ∨ t.kind = .stringLit) :
    (∃ v, Literal.parse t.text = .ok v) ↔ t.isForeignNumber = false := by
  rw [h.isForeignNumber_eq]
  rcases hk with hk | hk
  · rw [h.parse_number hk, hk]
    cases Literal.startsPlain t.text.toList with
    | true => exact ⟨fun _ => rfl, fun _ => ⟨_, rfl⟩⟩
    | false => exact ⟨nofun, nofun⟩
  · rw [h.parse_string hk, hk]
    exact ⟨fun _ => rfl, fun _ => ⟨_, rfl⟩⟩

/-- The type keywords name types. -/
theorem typeNamed (h : t.Lexical) (hk : t.kind ∈ Parse.typeWords) :
    Literal.typeNamed t.text = .ok (Ty.ofKind t.text) := by
  simp only [Parse.typeWords, List.mem_cons, List.not_mem_nil, or_false] at hk
  rcases hk with hk | hk | hk <;> rw [h.faithful _ (by rw [hk]; rfl)] <;> rfl

end Lexical
end Token
end CheckedScript
