import CheckedScript.Token.Scan

/-! The text of a token. Keywords, operators and signs are tokens of kinds with one text each, and a token that was scanned has
the text of its kind; so what is read off the text of an operator can be read off its kind. -/

namespace CheckedScript.Token

/-- The only text of a kind that has no other. -/
def Kind.symbol? : Kind → Option String
  | ending | name | numberLit | stringLit => none
  | bang => some "!"
  | boolean => some "boolean"
  | breakWord => some "break"
  | comma => some ","
  | define => some "def"
  | elseWord => some "else"
  | equal => some "="
  | falseWord => some "false"
  | ifWord => some "if"
  | lbrace => some "\x7b"
  | less => some "<"
  | lpar => some "("
  | minus => some "-"
  | more => some ">"
  | number => some "number"
  | percent => some "%"
  | plus => some "+"
  | print => some "print"
  | rbrace => some "\x7d"
  | returnWord => some "return"
  | rpar => some ")"
  | semicolon => some ";"
  | slash => some "/"
  | star => some "*"
  | string => some "string"
  | trueWord => some "true"
  | whileWord => some "while"
  | same => some "=="
  | differs => some "!="
  | percentEqual => some "%="
  | increment => some "++"
  | decrement => some "--"
  | moreEqual => some ">="
  | lessEqual => some "<="
  | both => some "&&"
  | either => some "||"
  | plusEqual => some "+="
  | minusEqual => some "-="
  | starEqual => some "*="
  | slashEqual => some "/="

/-- The token has the text of its kind, if that has only one. -/
def Faithful (t : Token) : Prop := ∀ s, t.kind.symbol? = some s → t.text = s

theorem Kind.symbol?_ofKeyword {word : String} {k : Kind} (h : ofKeyword? word = some k) : k.symbol? = some word := by
  obtain ⟨before, after, htable, -⟩ := List.lookup_eq_some_iff.mp h
  have hall : ∀ p ∈ before ++ (word, k) :: after, p.2.symbol? = some p.1 := by
    rw [← htable]
    decide
  exact hall (word, k) (by simp)

theorem Kind.symbol?_ofPair {c d : Char} {k : Kind} (h : ofPair? c d = some k) :
    k.symbol? = some (String.ofList [c, d]) := by
  unfold ofPair? at h
  split at h <;> cases h <;> rfl

theorem Kind.symbol?_ofChar {c : Char} {k : Kind} (h : ofChar? c = some k) : k.symbol? = some (String.ofList [c]) := by
  unfold ofChar? at h
  split at h <;> cases h <;> rfl

namespace Lexeme

/-- What a rule takes has the text of the kind that it makes. -/
def Spells (cs : List Char) (l : Lexeme) : Prop :=
  ∀ k s, l.kind = some k → k.symbol? = some s → String.ofList (cs.take l.length) = s

theorem run_append {p q : Char → Bool} (cs : List Char) : cs.takeWhile p ++ (cs.dropWhile p).takeWhile q <+: cs :=
  ⟨(cs.dropWhile p).dropWhile q, by
    rw [List.append_assoc, List.takeWhile_append_dropWhile, List.takeWhile_append_dropWhile]⟩

theorem word?_spells {cs : List Char} {l : Lexeme} (h : word? cs = some l) : l.Spells cs := by
  simp only [word?] at h
  split at h
  · cases h
  · cases h
    intro k s hk hs
    have htake := List.prefix_iff_eq_take.mp (run_append (p := Literal.isNameStart) (q := Char.isDigit) cs)
    dsimp only at hk ⊢
    rw [← htake]
    generalize cs.takeWhile Literal.isNameStart ++ (cs.dropWhile Literal.isNameStart).takeWhile Char.isDigit = word
      at hk
    cases hw : Kind.ofKeyword? (String.ofList word) with
    | none =>
      rw [hw] at hk
      cases hk
      cases hs
    | some k' =>
      rw [hw] at hk
      cases hk
      exact Option.some.inj ((Kind.symbol?_ofKeyword hw).symm.trans hs)

theorem pair?_spells {cs : List Char} {l : Lexeme} (h : pair? cs = some l) : l.Spells cs := by
  unfold pair? at h
  split at h
  · obtain ⟨k, hk, rfl⟩ := Option.map_eq_some_iff.mp h
    rintro _ s ⟨⟩ hs
    exact Option.some.inj ((Kind.symbol?_ofPair hk).symm.trans hs)
  · cases h

theorem single?_spells {cs : List Char} {l : Lexeme} (h : single? cs = some l) : l.Spells cs := by
  unfold single? at h
  split at h
  · obtain ⟨k, hk, rfl⟩ := Option.map_eq_some_iff.mp h
    rintro _ s ⟨⟩ hs
    exact Option.some.inj ((Kind.symbol?_ofChar hk).symm.trans hs)
  · cases h

/-- A rule that makes no token, or one of a kind with many texts. -/
theorem spells_of_kind {cs : List Char} {l : Lexeme} (h : ∀ k, l.kind = some k → k.symbol? = none) : l.Spells cs := by
  intro k s hk hs
  rw [h k hk] at hs
  cases hs

theorem first?_spells {cs : List Char} {l : Lexeme} (h : first? cs = some l) : l.Spells cs := by
  simp only [first?, HOrElse.hOrElse, OrElse.orElse, Option.orElse_eq_or, Option.or_eq_some_iff] at h
  rcases h with h | ⟨-, h | ⟨-, h | ⟨-, h | ⟨-, h | ⟨-, h | ⟨-, h | ⟨-, h⟩⟩⟩⟩⟩⟩⟩
  · refine spells_of_kind fun k hk => ?_
    unfold stringLit? at h
    repeat' split at h
    all_goals cases h
    cases hk
    rfl
  · refine spells_of_kind fun k hk => ?_
    unfold blockComment? at h
    split at h
    · obtain ⟨_, -, rfl⟩ := Option.map_eq_some_iff.mp h
      cases hk
    · cases h
  · exact word?_spells h
  · refine spells_of_kind fun k hk => ?_
    simp only [space?] at h
    split at h <;> cases h
    cases hk
  · refine spells_of_kind fun k hk => ?_
    simp only [numberLit?] at h
    split at h <;> cases h
    cases hk
    rfl
  · refine spells_of_kind fun k hk => ?_
    unfold lineComment? at h
    split at h <;> cases h
    cases hk
  · exact pair?_spells h
  · exact single?_spells h

end Lexeme

theorem scanFrom_faithful (start taken : Nat) (cs : List Char) : ∀ t ∈ (scanFrom start taken cs).tokens, t.Faithful := by
  fun_induction scanFrom start taken cs with
  | case1 => simp
  | case2 start taken c rest ih => exact ih
  | case3 => simp
  | case4 start c rest n hf ih => exact ih
  | case5 start c rest kind n hf ih =>
    intro t ht
    rcases List.mem_cons.mp ht with rfl | ht
    · intro s hs
      exact Lexeme.first?_spells hf kind s rfl hs
    · exact ih t ht

/-- Every token of a source has the text of its kind. -/
theorem scan_faithful (source : String) : ∀ t ∈ (scan source).tokens, t.Faithful := scanFrom_faithful 0 0 source.toList

end CheckedScript.Token
