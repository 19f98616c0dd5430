import CheckedScript.Proofs.Coverage
import CheckedScript.Proofs.Endings
import CheckedScript.Proofs.FrontEnd

/-! Layout is of no account. What a source says are its tokens: if their texts are written again with single spaces between
them, the scan finds the same tokens, since nothing that starts like a token reaches over the space behind it. A quoted text
ends with its own quote, no other token has a space in it, and what was no comment before becomes none. So the source and
its respaced form are read as the same tree, apart from the places, or refused for the same reason. -/

namespace CheckedScript

namespace Token

/-- The texts of the tokens with single spaces between them. -/
def spaced (ts : List Token) : String := " ".intercalate (ts.map text)

/-- What a token says, wherever it stands. -/
def said (t : Token) : Kind × String := (t.kind, t.text)

theorem map_unplaced_of_said {ts ts' : List Token} (h : ts'.map said = ts.map said) :
    ts'.map unplaced = ts.map unplaced := by
  have hsaid : (fun p : Kind × String => (⟨p.1, p.2, 0, 0⟩ : Token)) ∘ said = unplaced := rfl
  rw [← hsaid, ← List.map_map, h, List.map_map]

namespace Lexeme

variable {w t : List Char}

theorem space_notMem_name (h : Literal.isName w = true) : ' ' ∉ w := by
  intro hspace
  rw [← List.takeWhile_append_dropWhile (p := Literal.isNameStart) (l := w)] at hspace
  rcases List.mem_append.mp hspace with hletter | hdigit
  · exact absurd (all_run _ hletter) (by decide)
  · exact absurd (List.all_eq_true.mp (Bool.and_eq_true_iff.mp h).2 _ hdigit) (by decide)

theorem space_notMem_decimal (h : Literal.isDecimal w = true) : ' ' ∉ w := by
  have hdigit : Text.isDigit ' ' = false := by decide
  obtain ⟨-, hrest⟩ := Bool.and_eq_true_iff.mp h
  intro hspace
  rw [← List.takeWhile_append_dropWhile (p := Text.isDigit) (l := w)] at hspace
  rcases List.mem_append.mp hspace with hwhole | hfraction
  · exact absurd (all_run _ hwhole) (by simp [hdigit])
  · split at hrest
    · rename_i hnil
      rw [hnil] at hfraction
      cases hfraction
    · rename_i fraction hpoint
      rw [hpoint] at hfraction
      rcases List.mem_cons.mp hfraction with heq | hmem
      · exact absurd heq (by decide)
      · exact absurd (List.all_eq_true.mp (Bool.and_eq_true_iff.mp hrest).2 _ hmem) (by simp [hdigit])
    · cases hrest

/-- Only a quoted text has a space in it. -/
theorem head?_of_space (hw : IsLexeme w) (hspace : ' ' ∈ w) : w.head? = some '\'' := by
  rcases isLexeme_cases hw with hname | ⟨c, d, k, rfl, hpair⟩ | ⟨c, k, rfl, hchar⟩ | hnumber | hstring
  · exact absurd hspace (space_notMem_name hname)
  · unfold Kind.ofPair? at hpair
    split at hpair <;> cases hpair <;> exact absurd hspace (by decide)
  · unfold Kind.ofChar? at hchar
    split at hchar <;> cases hchar <;> exact absurd hspace (by decide)
  · exact absurd hspace (space_notMem_decimal hnumber)
  · unfold Literal.isString at hstring
    split at hstring
    · rfl
    · cases hstring

/-- The text is that of one token, and the token is all that the rules take of it. -/
def Alone (k : Kind) (w : List Char) : Prop := first? w = some ⟨some k, w.length⟩

theorem Alone.ne_nil {k : Kind} (h : Alone k w) : w ≠ [] := by
  rintro rfl
  cases h

/-- No gap starts where a token stands, with a space behind it. -/
theorem Alone.not_gap {k : Kind} {rest x : List Char} (h : Alone k w) : ¬Gap rest (w ++ ' ' :: x) := by
  intro hgap
  obtain ⟨c, w, rfl⟩ := List.exists_cons_of_ne_nil h.ne_nil
  generalize hcs : c :: w ++ ' ' :: x = cs at hgap
  cases hgap with
  | none => cases hcs
  | space hc _ =>
    cases hcs
    rw [Alone, first?_space hc] at h
    cases h
  | line _ _ _ =>
    obtain _ | ⟨d, w⟩ := w
    · cases hcs
    · simp only [List.cons_append, List.cons.injEq] at hcs
      obtain ⟨rfl, rfl, -⟩ := hcs
      rw [Alone, first?_lineComment] at h
      cases h
  | @block body _ _ _ =>
    obtain _ | ⟨d, w⟩ := w
    · cases hcs
    · simp only [List.cons_append, List.cons.injEq] at hcs
      obtain ⟨rfl, rfl, -⟩ := hcs
      cases hclosed : commentLength? w with
      | none =>
        rw [Alone, first?_slash hclosed] at h
        cases h
      | some n =>
        have hcomment : first? ('/' :: '*' :: w) = some ⟨none, n + 2⟩ := by
          simp [first?, stringLit?, blockComment?, hclosed]
        rw [Alone, hcomment] at h
        cases h

/-- A space ends a token, and a quoted text has ended before it. -/
theorem Alone.first?_space {k : Kind} (h : Alone k w) (t : List Char) :
    first? (w ++ ' ' :: t) = some ⟨some k, w.length⟩ := by
  rcases first?_local w (' ' :: t) with hsame | ⟨⟨kind, n⟩, hl, hlong⟩
  · exact hsame.trans h
  · have hsplit : (w ++ ' ' :: t).take n = w ++ ' ' :: t.take (n - w.length - 1) := by
      obtain ⟨m, rfl⟩ : ∃ m, n = w.length + (m + 1) := ⟨n - w.length - 1, by simp only at hlong; omega⟩
      rw [List.take_length_add_append, List.take_succ_cons]
      congr 3
      omega
    cases kind with
    | none =>
      have hgap := gap_of_first? hl
      rw [hsplit] at hgap
      exact absurd hgap h.not_gap
    | some k' =>
      have hlexeme : IsLexeme ((w ++ ' ' :: t).take n) := ⟨k', first?_proper hl k' 0 0 rfl⟩
      rw [hsplit] at hlexeme
      -- a longer token would have the space in it, so it would be a quoted text, but that has ended before
      obtain ⟨c, w, rfl⟩ := List.exists_cons_of_ne_nil h.ne_nil
      obtain rfl : c = '\'' := by simpa using head?_of_space hlexeme (by simp)
      have hclosed : w.dropWhile Literal.isSafe ≠ [] := by
        intro hopen
        rw [Alone, first?_quote, stringLit?, hopen] at h
        cases h
      rw [List.cons_append, first?_quote, stringLit?_append hclosed, ← first?_quote]
      exact h

end Lexeme

/-- The text of every token that was scanned is that of the token alone. -/
theorem scanFrom_alone (start taken : Nat) (cs : List Char) :
    ∀ t ∈ (scanFrom start taken cs).tokens, Lexeme.Alone t.kind t.text.toList := by
  fun_induction scanFrom start taken cs with
  | case1 => simp
  | case2 start taken c rest ih => exact ih
  | case3 => simp
  | case4 start c rest n hf ih => exact ih
  | case5 start c rest kind n hf ih =>
    intro t ht
    rcases List.mem_cons.mp ht with rfl | ht
    · have hlength := Lexeme.first?_length hf
      rw [← List.take_append_drop n (c :: rest)] at hf
      simp only [Lexeme.Alone, String.toList_ofList]
      rw [Lexeme.first?_of_append hf (by simpa using hlength), List.length_take, Nat.min_eq_left hlength]
    · exact ih t ht

/-- The texts of tokens are scanned one by one if there are spaces between them. -/
theorem scanFrom_spaced (start : Nat) {ts : List Token} (hts : ∀ t ∈ ts, Lexeme.Alone t.kind t.text.toList) :
    (scanFrom start 0 (spaced ts).toList).error = none ∧
      (scanFrom start 0 (spaced ts).toList).tokens.map said = ts.map said := by
  have hspaced (us : List Token) : (spaced us).toList = [' '].intercalate (us.map fun t => t.text.toList) := by
    rw [spaced, String.toList_intercalate, List.map_map]
    rfl
  induction ts generalizing start with
  | nil => exact ⟨rfl, rfl⟩
  | cons t rest ih =>
    have ht := hts t (.head _)
    have htoken (more : List Char) : Lexeme.tokens ⟨some t.kind, t.text.toList.length⟩ start (t.text.toList ++ more) =
        [⟨t.kind, t.text, start, start + t.text.toList.length⟩] := by
      simp [Lexeme.tokens]
    cases rest with
    | nil =>
      have hone := htoken []
      rw [List.append_nil] at hone
      rw [hspaced, List.map_singleton, List.intercalate_singleton, scanFrom_step ht.ne_nil ht, hone, List.drop_length]
      exact ⟨rfl, rfl⟩
    | cons t' rest =>
      have hnext := ih (start + t.text.toList.length + 1) fun u hu => hts u (.tail _ hu)
      have hfirst : (spaced (t :: t' :: rest)).toList = t.text.toList ++ ' ' :: (spaced (t' :: rest)).toList := by
        simp only [hspaced, List.map_cons, List.intercalate_cons_cons, List.append_assoc, List.singleton_append]
      rw [hfirst, scanFrom_step (by simp) (ht.first?_space _), htoken, List.drop_left, scanFrom_space (by decide)]
      exact ⟨hnext.1, congrArg (t.said :: ·) hnext.2⟩

end Token

/-- Two failures that differ in their places only. -/
theorem Failure.exists_of_unplaced {f : Failure} {e : Error} (h : f.unplaced = (error e).unplaced) :
    ∃ e', f = error e' ∧ e'.problem = e.problem := by
  cases f with
  | escape x => cases h
  | error e' =>
    simp only [unplaced, error.injEq, Error.mk.injEq, and_true] at h
    exact ⟨e', rfl, h⟩

namespace Program

open Token (spaced said tokenize scan)

/-- Scans that come to the end with tokens that say the same are read alike. -/
theorem ofScan_of_said {s s' : Token.Scan} (hs : s.error = none) (hs' : s'.error = none)
    (h : s'.tokens.map said = s.tokens.map said) :
    (∀ p, ofScan s = .ok p → ∃ q, ofScan s' = .ok q ∧ q.unplaced = p.unplaced) ∧
      ∀ e, ofScan s = .error (.error e) → ∃ e', ofScan s' = .error (.error e') ∧ e'.problem = e.problem := by
  have hsame : s'.unplaced = s.unplaced := by
    simp only [Token.Scan.unplaced, hs, hs', Token.map_unplaced_of_said h]
  have heq := ofScan_unplaced s
  rw [← hsame, ofScan_unplaced s'] at heq
  constructor
  · intro p hp
    rw [hp] at heq
    cases hq : ofScan s' with
    | error f =>
      rw [hq] at heq
      cases heq
    | ok q =>
      rw [hq] at heq
      exact ⟨q, rfl, Except.ok.inj heq⟩
  · intro e he
    rw [he] at heq
    cases hf : ofScan s' with
    | ok q =>
      rw [hf] at heq
      cases heq
    | error f =>
      rw [hf] at heq
      obtain ⟨e', rfl, hproblem⟩ := Failure.exists_of_unplaced (Except.error.inj heq)
      exact ⟨e', rfl, hproblem⟩

/-- The texts are read as the same tree but for the places, or both are refused for a token that may not stand where it does,
with the same message. -/
def ReadAlike (source source' : String) : Prop :=
  (∃ p q, parse source = .ok p ∧ parse source' = .ok q ∧ q.unplaced = p.unplaced) ∨
    ∃ e e', parse source = .error (.error e) ∧ parse source' = .error (.error e') ∧ e.problem.category = .malformed ∧
      e'.problem = e.problem

theorem not_readAlike_of_foreign {source source' : String} (h : Foreign source) : ¬ReadAlike source source' := by
  obtain ⟨t, -, ht⟩ := h.parse
  rintro (⟨p, q, hp, -⟩ | ⟨e, e', he, -, hcategory, -⟩)
  · cases ht.symm.trans hp
  · cases ht.symm.trans he
    cases hcategory

/-- An unknown literal has no place. -/
theorem location_of_unknownLiteral {s : Token.Scan} (hs : s.error = none) {e : Error} {text : String}
    (h : ofScan s = .error (.error e)) (hproblem : e.problem = .unknownLiteral text) : e = ⟨.unknownLiteral text, .zero⟩ := by
  have hread := read_ofScan s
  generalize hanswer : ofScan s = answer at hread
  have he := h.symm.trans hanswer
  cases hread with
  | refused _ | ended _ _ =>
    cases he
    cases hproblem
  | stuck _ hstuck => cases hs.symm.trans hstuck
  | foreign _ _ _ =>
    cases he
    cases hproblem
    rfl
  | tree _ _ _ => cases he

/-- The layout of a source is of no account. If a source has tokens, their texts with single spaces between them have tokens
that say the same. Both are read alike unless a number of the source starts with a digit of another script: then both are
refused for the first such number, with the same error. -/
theorem parse_spaced {source : String} {ts : List Token} (h : tokenize source = .ok ts) :
    (∃ ts', tokenize (spaced ts) = .ok ts' ∧ ts'.map said = ts.map said) ∧
    (ReadAlike source (spaced ts) ↔ ¬Foreign source) ∧
    (Foreign source → ∃ t, ts.find? Token.isForeignNumber = some t ∧
      parse source = .error (Problem.located (.unknownLiteral t.text) .zero) ∧
      parse (spaced ts) = .error (Problem.located (.unknownLiteral t.text) .zero)) := by
  obtain ⟨herror, rfl⟩ := Token.tokenize_eq_ok.mp h
  obtain ⟨herror', hsaid⟩ := Token.scanFrom_spaced 0 (Token.scanFrom_alone 0 0 source.toList)
  obtain ⟨hok, hrefused⟩ := ofScan_of_said herror herror' hsaid
  refine ⟨⟨_, Token.tokenize_eq_ok.mpr ⟨herror', rfl⟩, hsaid⟩, ⟨fun halike hforeign => ?_, ?_⟩, ?_⟩
  · exact not_readAlike_of_foreign hforeign halike
  · intro hforeign
    have hread := read_ofScan (scan source)
    generalize hanswer : ofScan (scan source) = answer at hread
    cases hread with
    | refused _ | ended _ _ =>
      obtain ⟨e', he', hproblem⟩ := hrefused _ hanswer
      exact .inr ⟨_, e', hanswer, he', rfl, hproblem⟩
    | stuck _ he => cases herror.symm.trans he
    | foreign hprogram _ hfind => exact absurd (.of_find? herror hprogram hfind) hforeign
    | tree _ _ _ =>
      obtain ⟨q, hq, hplaces⟩ := hok _ hanswer
      exact .inl ⟨_, q, hanswer, hq, hplaces⟩
  · intro hforeign
    obtain ⟨t, hfind, hparse⟩ := hforeign.parse
    obtain ⟨e', he', hproblem⟩ := hrefused _ hparse
    refine ⟨t, hfind, hparse, he'.trans ?_⟩
    rw [location_of_unknownLiteral herror' he' hproblem]
    rfl

/-- A comment that is never closed is a slash and a star. -/
def unclosed : String := "one1='a  b';// c\nx=-1.5/*2;"

/-- The slash and the star stay so when they are spaced; the comment that ends the line goes, and the blanks in the quotes
stay. -/
theorem parse_spaced_unclosed : ∃ ts, tokenize unclosed = .ok ts ∧ spaced ts = "one1 = 'a  b' ; x = - 1.5 / * 2 ;" ∧
    (∃ ts', tokenize (spaced ts) = .ok ts' ∧ ts'.map said = ts.map said) ∧ ¬Foreign unclosed ∧
    ReadAlike unclosed (spaced ts) := by
  obtain ⟨ts, hts, hspaced⟩ : ∃ ts, tokenize unclosed = .ok ts ∧ spaced ts = "one1 = 'a  b' ; x = - 1.5 / * 2 ;" :=
    ⟨_, rfl, by decide +kernel⟩
  have hrefused : (Parse.program (scan unclosed).tokens).toOption = none := by decide +kernel
  have hforeign : ¬Foreign unclosed := by
    rintro ⟨-, ⟨body, hbody⟩, -⟩
    rw [hbody] at hrefused
    cases hrefused
  obtain ⟨htokens, halike, -⟩ := parse_spaced hts
  exact ⟨ts, hts, hspaced, htokens, hforeign, halike.mpr hforeign⟩

/-- A source that is read as no tree, and is not refused for a token either, with or without spaces. -/
theorem not_readAlike_printsForeign : ∃ ts, tokenize printsForeign = .ok ts ∧ spaced ts = "print ( ٣ ) ;" ∧
    ¬ReadAlike printsForeign (spaced ts) :=
  ⟨_, rfl, by decide +kernel, not_readAlike_of_foreign foreign_printsForeign⟩

end Program
end CheckedScript
