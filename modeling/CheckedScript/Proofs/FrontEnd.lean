import CheckedScript.Process
import CheckedScript.Proofs.Terminals

/-! What the front end can answer. A source has a tree, or a character that starts no token, or a token where none of its kind
may stand. There is one more answer: the kinds of the tokens are those of a program, and yet a number among them starts with
a digit of another script. Such a source is refused as an error of types, at no place, and processing it gives no tree
although the syntax is said to be right. -/

namespace CheckedScript

open Token (scan)

/-- An error that scanning or parsing is there to find. -/
def Failure.IsRefusal : Failure → Prop
  | error e => e.problem.category = .lexical ∨ e.problem.category = .malformed
  | escape _ => False

/-- The tokens are those of a program, but a number among them starts with a digit of another script. -/
def Foreign (source : String) : Prop :=
  (scan source).error = none ∧ (∃ statements, Parse.program (scan source).tokens = .ok statements) ∧
    ∃ t ∈ (scan source).tokens, t.kind = .numberLit ∧ Literal.startsPlain t.text.toList = false

namespace Token

/-- The scan ends only at a character that starts no token. -/
theorem scanFrom_error (start taken : Nat) (cs : List Char) :
    ∀ e ∈ (scanFrom start taken cs).error, e.problem.category = .lexical := by
  fun_induction scanFrom start taken cs with
  | case1 => simp
  | case2 start taken c rest ih => exact ih
  | case3 start c rest hf =>
    rintro e ⟨⟩
    rfl
  | case4 start c rest n hf ih => exact ih
  | case5 start c rest kind n hf ih => exact ih

theorem tokenize_eq_ok {source : String} {ts : List Token} :
    tokenize source = .ok ts ↔ (scan source).error = none ∧ (scan source).tokens = ts := by
  simp only [tokenize]
  cases he : (scan source).error <;> simp

theorem tokenize_eq_error {source : String} {f : Failure} :
    tokenize source = .error f ↔ ∃ e, (scan source).error = some e ∧ f = .error e := by
  simp only [tokenize]
  cases he : (scan source).error <;> simp [eq_comm]

end Token

/-- The first number of another script is what a foreign source is refused for. -/
theorem Foreign.parse {source : String} (h : Foreign source) : ∃ t, (scan source).tokens.find? Token.isForeignNumber = some t ∧
    Program.parse source = .error (Problem.located (.unknownLiteral t.text) .zero) := by
  obtain ⟨herror, ⟨statements, hprogram⟩, t, ht, hforeign⟩ := h
  have hfind : ((scan source).tokens.find? Token.isForeignNumber).isSome = true :=
    List.find?_isSome.mpr ⟨t, ht, (Token.scan_lexical source t ht).isForeignNumber_iff.mpr hforeign⟩
  obtain ⟨u, hu⟩ := Option.isSome_iff_exists.mp hfind
  refine ⟨u, hu, ?_⟩
  simp only [Program.parse, Program.ofScan, hprogram, herror, hu]

theorem Foreign.of_find? {source : String} {body : List Stmt} {t : Token} (herror : (scan source).error = none)
    (hprogram : Parse.program (scan source).tokens = .ok body)
    (hfind : (scan source).tokens.find? Token.isForeignNumber = some t) : Foreign source := by
  have ht := List.mem_of_find?_eq_some hfind
  exact ⟨herror, ⟨body, hprogram⟩, t, ht, (Token.scan_lexical source t ht).isForeignNumber_iff.mp (List.find?_some hfind)⟩

/-- What can be read from a scan, and when: a token is refused, or the scan is stuck before any token is, or the tokens end too
early, or they are those of a program with or without a number of another script. -/
inductive Program.Read (s : Token.Scan) : Except Failure Program → Prop where
  | refused {t expected} (h : Parse.program s.tokens = .error ⟨some t, expected⟩) :
      Read s (.error (.error ⟨.unexpected (some t.text) expected, t.span⟩))
  | stuck {e} (h : ∀ t expected, Parse.program s.tokens ≠ .error ⟨some t, expected⟩) (he : s.error = some e) :
      Read s (.error (.error e))
  | ended {expected} (h : Parse.program s.tokens = .error ⟨none, expected⟩) (he : s.error = none) :
      Read s (.error (.error ⟨.unexpected none expected, (s.tokens.getLast?.map Token.span).getD .zero⟩))
  | foreign {body t} (h : Parse.program s.tokens = .ok body) (he : s.error = none)
      (ht : s.tokens.find? Token.isForeignNumber = some t) : Read s (.error (.error ⟨.unknownLiteral t.text, .zero⟩))
  | tree {body} (h : Parse.program s.tokens = .ok body) (he : s.error = none)
      (ht : s.tokens.find? Token.isForeignNumber = none) : Read s (.ok ⟨Token.extent s.tokens, body⟩)

theorem Program.read_ofScan (s : Token.Scan) : Read s (ofScan s) := by
  unfold ofScan
  split
  · rename_i h
    exact .refused h
  · rename_i he hne
    exact .stuck hne he
  · rename_i h he
    exact .ended h he
  · rename_i h he
    split
    · rename_i ht
      exact .foreign h he ht
    · rename_i ht
      exact .tree h he ht

/-- All other sources have a tree or are refused by the scan or by the parse. -/
theorem Program.parse_of_not_foreign {source : String} (h : ¬Foreign source) :
    (∃ p, Program.parse source = .ok p) ∨ ∃ f, Program.parse source = .error f ∧ f.IsRefusal := by
  have hread := read_ofScan (scan source)
  rw [Program.parse]
  generalize ofScan (scan source) = answer at hread ⊢
  cases hread with
  | refused _ => exact Or.inr ⟨_, rfl, Or.inr rfl⟩
  | stuck _ he => exact Or.inr ⟨_, rfl, Or.inl (Token.scanFrom_error _ _ _ _ he)⟩
  | ended _ _ => exact Or.inr ⟨_, rfl, Or.inr rfl⟩
  | foreign hprogram he hfind => exact absurd (.of_find? he hprogram hfind) h
  | tree _ _ _ => exact Or.inl ⟨_, rfl⟩

theorem Program.parse_foreign_iff (source : String) :
    ((∃ p, Program.parse source = .ok p) ∨ ∃ f, Program.parse source = .error f ∧ f.IsRefusal) ↔ ¬Foreign source := by
  refine ⟨?_, Program.parse_of_not_foreign⟩
  intro hparse hforeign
  obtain ⟨t, -, ht⟩ := hforeign.parse
  rw [ht] at hparse
  rcases hparse with ⟨p, hp⟩ | ⟨f, hf, hrefusal⟩
  · cases hp
  · cases hf
    rcases hrefusal with h | h <;> cases h

namespace Processed

/-- An outcome with an error has failed in its syntax if the error is one of scanning or parsing. -/
theorem parsed_unwalked (tokens : List Token) (tree : Option Program) (f : Failure) :
    (unwalked tokens tree (some f)).parsed = false ↔ f.IsRefusal := by
  cases f with
  | error e =>
    have hphase (c : Category) : (decide (some c.phase ≠ some Phase.scanning) && decide (some c.phase ≠ some Phase.parsing)) =
        false ↔ c = .lexical ∨ c = .malformed := by
      cases c <;> decide
    exact hphase e.problem.category
  | escape e => exact ⟨nofun, nofun⟩

end Processed

/-- Beyond the scan, an outcome without a tree says that the syntax is wrong, unless the source is foreign. -/
theorem process_tree_iff (source : String) {mode : Mode} (hmode : mode ≠ .scan) (settings : Settings)
    (destination : Destination) :
    ((process source mode settings destination).tree = none → (process source mode settings destination).parsed = false) ↔
      ¬Foreign source := by
  cases herror : (scan source).error with
  | some e =>
    have htokens : Token.tokenize source = .error (.error e) := by
      simp only [Token.tokenize, herror]
    have hlexical : Failure.IsRefusal (.error e) := Or.inl (Token.scanFrom_error _ _ _ e herror)
    simp only [process, htokens, Processed.parsed_unwalked, hlexical, implies_true, true_iff]
    rintro ⟨hnone, -⟩
    rw [herror] at hnone
    cases hnone
  | none =>
    have htokens : Token.tokenize source = .ok (scan source).tokens := by
      simp only [Token.tokenize, herror]
    rw [← Program.parse_foreign_iff]
    simp only [process, htokens, hmode, if_false]
    cases hparse : Program.parse source with
    | error f =>
      simp only [Processed.parsed_unwalked]
      simp [Processed.unwalked]
    | ok p =>
      have htree : (if mode = .parse then Processed.unwalked (scan source).tokens (some p) none
          else processTree (scan source).tokens p mode settings destination).tree = some p := by
        split <;> rfl
      simp [htree]

/-- A source has a tree, or is refused by the scan or the parse, exactly if no number among tokens that would make a program
starts with a digit of another script; and exactly then an outcome without a tree says that the syntax is wrong. A source
with such a number is refused for the first of them, which is the one literal that the scan knows and that has no value. -/
theorem parse_refuses_unless_foreign (source : String) :
    (((∃ p, Program.parse source = .ok p) ∨ ∃ f, Program.parse source = .error f ∧ f.IsRefusal) ↔ ¬Foreign source) ∧
    (∀ mode settings destination, mode ≠ .scan →
      (((process source mode settings destination).tree = none →
        (process source mode settings destination).parsed = false) ↔ ¬Foreign source)) ∧
    (Foreign source → ∃ t, (scan source).tokens.find? Token.isForeignNumber = some t ∧
      Program.parse source = .error (Problem.located (.unknownLiteral t.text) .zero)) ∧
    ∀ t ∈ (scan source).tokens, t.kind = .numberLit ∨ t.kind = .stringLit →
      ((∃ v, Literal.parse t.text = .ok v) ↔ t.isForeignNumber = false) := by
  refine ⟨Program.parse_foreign_iff source, ?_, Foreign.parse, ?_⟩
  · intro mode settings destination hmode
    exact process_tree_iff source hmode settings destination
  · intro t ht hk
    exact (Token.scan_lexical source t ht).parse_ok_iff hk

/-- A number in digits of another script. -/
def printsForeign : String := "print(٣);"

theorem foreign_printsForeign : Foreign printsForeign := by
  refine ⟨Option.isNone_iff_eq_none.mp (by decide +kernel), ?_, by decide +kernel⟩
  have hsome : (Parse.program (scan printsForeign).tokens).toOption.isSome = true := by decide +kernel
  cases hprogram : Parse.program (scan printsForeign).tokens with
  | ok statements => exact ⟨statements, rfl⟩
  | error refusal =>
    rw [hprogram] at hsome
    cases hsome

/-- It is refused by neither the scan nor the parse, and without a tree its syntax is said to be right. -/
theorem parse_printsForeign :
    ¬((∃ p, Program.parse printsForeign = .ok p) ∨ ∃ f, Program.parse printsForeign = .error f ∧ f.IsRefusal) ∧
    (process printsForeign .parse .standard .stream).tree = none ∧
    (process printsForeign .parse .standard .stream).parsed = true := by
  refine ⟨fun h => (Program.parse_foreign_iff printsForeign).mp h foreign_printsForeign, ?_, by decide +kernel⟩
  exact Option.isNone_iff_eq_none.mp (by decide +kernel)

end CheckedScript
