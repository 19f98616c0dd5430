import CheckedScript.Proofs.Coverage
import CheckedScript.Proofs.FrontEnd
import CheckedScript.Proofs.Prefixes

/-! Which fault of a source is named. A source that has no tree for its syntax is refused at the first token with which its
tokens start no sentence, or at its last token if only the end comes too early. If there is a character that starts no
token, then all tokens before it come first: the character is named only if they start a sentence. -/

namespace CheckedScript

open Grammar
open Token (scan tokenize)

namespace Grammar

theorem sentence_iff {x : List Token.Kind} : Sentence x ↔ x ∈ StmtPart.outers.language := by
  rw [Sentence, StmtPart.language_eq]
  rfl

theorem Viable.of_append {x y : List Token.Kind} (h : Viable (x ++ y)) : Viable x := by
  obtain ⟨more, hmore⟩ := h
  exact ⟨y ++ more, by rwa [← List.append_assoc]⟩

end Grammar

namespace Parse

open Token.Kind

variable {ts : List Token} {expected : List Token.Kind}

theorem program_outcome (ts : List Token) : Outcome StmtPart.outers.language [ending] ts (programWith (ts.length + 1) ts) :=
  (programWith_recognizes (ts.length + 1) le_rfl).outcome ts (Nat.lt_succ_self _)

/-- The kinds of tokens that are read are a sentence. -/
theorem sentence_of_program {body : List Stmt} (hts : ∀ t ∈ ts, t.kind ≠ ending) (h : program ts = .ok body) :
    Sentence (kinds ts) := by
  have hout := program_outcome ts
  unfold program at h
  cases hanswer : programWith (ts.length + 1) ts with
  | error r =>
    rw [hanswer] at h
    cases h
  | ok a =>
    obtain ⟨body, rest⟩ := a
    have hrest := programWith_rest hanswer
    rw [hanswer] at hout
    cases hout with
    | @accepted w _ _ heq hw =>
      cases rest with
      | nil =>
        rw [heq, List.append_nil]
        exact sentence_iff.mpr hw.mem
      | cons t rest => exact absurd hrest (hts t (by simp [heq]))

/-- Tokens that are refused start a sentence up to the refused one, and with it they do not. -/
theorem broken_of_program {r : Refusal} (h : program ts = .error r) : ∃ u rest, ts = u ++ rest ∧ r.found = rest.head? ∧
    Viable (kinds u) ∧ ∀ more, Sentence more → ¬seen u rest <+: more ++ [ending] := by
  have hout := program_outcome ts
  unfold program at h
  cases hanswer : programWith (ts.length + 1) ts with
  | ok a =>
    rw [hanswer] at h
    cases h
  | error r' =>
    rw [hanswer] at h hout
    cases h
    cases hout with
    | @refused u rest _ heq hfound hu =>
      obtain ⟨x, hx, more, rfl⟩ := hu.viable
      refine ⟨u, rest, heq, hfound, ⟨more, sentence_iff.mpr hx⟩, ?_⟩
      intro x hx
      -- only the end may follow a program, and it counts as a kind here
      exact hu.stuck x (sentence_iff.mp hx) [ending] ⟨ending, .head _, [], rfl⟩

theorem refused_of_program {t : Token} (h : program ts = .error ⟨some t, expected⟩) :
    ∃ before after, ts = before ++ t :: after ∧ Viable (kinds before) ∧ ¬Viable (kinds (before ++ [t])) := by
  obtain ⟨u, rest, rfl, hfound, hviable, hstuck⟩ := broken_of_program h
  obtain ⟨after, rfl⟩ := List.head?_eq_some_iff.mp hfound.symm
  refine ⟨u, after, rfl, hviable, ?_⟩
  rintro ⟨more, hmore⟩
  apply hstuck _ hmore
  rw [kinds_append, List.append_assoc]
  exact List.prefix_append _ _

theorem ended_of_program (h : program ts = .error ⟨none, expected⟩) :
    (∃ more, more ≠ [] ∧ Sentence (kinds ts ++ more)) ∧ ¬Sentence (kinds ts) := by
  obtain ⟨u, rest, rfl, hfound, ⟨more, hmore⟩, hstuck⟩ := broken_of_program h
  obtain rfl := List.head?_eq_none_iff.mp hfound.symm
  rw [List.append_nil]
  have hnot : ¬Sentence (kinds u) := fun hsentence => hstuck _ hsentence List.prefix_rfl
  refine ⟨⟨more, ?_, hmore⟩, hnot⟩
  rintro rfl
  rw [List.append_nil] at hmore
  exact hnot hmore

/-- A token is refused exactly if the tokens start no sentence. -/
theorem viable_iff_program (hts : ∀ t ∈ ts, t.kind ≠ ending) :
    Viable (kinds ts) ↔ ∀ t expected, program ts ≠ .error ⟨some t, expected⟩ := by
  constructor
  · intro hviable t expected h
    obtain ⟨before, after, rfl, -, hnot⟩ := refused_of_program h
    rw [← List.singleton_append, ← List.append_assoc, kinds_append] at hviable
    exact hnot hviable.of_append
  · intro h
    cases hanswer : program ts with
    | ok body => exact ⟨[], by rw [List.append_nil]; exact sentence_of_program hts hanswer⟩
    | error r =>
      obtain ⟨found, expected⟩ := r
      cases found with
      | some t => exact absurd hanswer (h t expected)
      | none =>
        obtain ⟨⟨more, -, hmore⟩, -⟩ := ended_of_program hanswer
        exact ⟨more, hmore⟩

end Parse

namespace Program

/-- A syntax error is reported at the earliest token. If a token is named, the tokens before it start a sentence and with it
they do not, and the place is that of the token. If the end is named, then all the tokens start a sentence and are none,
and the place is that of the last token. -/
theorem parse_malformed {source : String} {e : Error} (h : parse source = .error (.error e))
    (hcategory : e.problem.category = .malformed) :
    (∃ before t after expected, (scan source).tokens = before ++ t :: after ∧
      e = ⟨.unexpected (some t.text) expected, t.span⟩ ∧ Viable (kinds before) ∧ ¬Viable (kinds (before ++ [t]))) ∨
    ∃ ts last expected, tokenize source = .ok ts ∧ ts.getLast? = some last ∧ e = ⟨.unexpected none expected, last.span⟩ ∧
      (∃ more, more ≠ [] ∧ Sentence (kinds ts ++ more)) ∧ ¬Sentence (kinds ts) := by
  have hread := read_ofScan (scan source)
  generalize hanswer : ofScan (scan source) = answer at hread
  have he := h.symm.trans hanswer
  cases hread with
  | @refused t expected hprogram =>
    cases he
    obtain ⟨before, after, htokens, hbefore, hat⟩ := Parse.refused_of_program hprogram
    exact .inl ⟨before, t, after, expected, htokens, rfl, hbefore, hat⟩
  | stuck _ hstuck =>
    cases he
    rw [Token.scanFrom_error _ _ _ _ hstuck] at hcategory
    cases hcategory
  | @ended expected hprogram hscan =>
    cases he
    obtain ⟨hmore, hnot⟩ := Parse.ended_of_program hprogram
    have hne : (scan source).tokens ≠ [] := by
      intro hnil
      rw [hnil] at hnot
      exact hnot (DerivesStmt.start .outers_none).mem
    have hlast := List.getLast?_eq_some_getLast hne
    refine .inr ⟨_, _, expected, Token.tokenize_eq_ok.mpr ⟨hscan, rfl⟩, hlast, ?_, hmore, hnot⟩
    rw [hlast]
    rfl
  | foreign _ _ _ =>
    cases he
    cases hcategory
  | tree _ _ _ => cases he

/-- The category and the place of the error that a source is refused for. -/
def refusal? (source : String) : Option (Category × Option (Int × Int)) :=
  match parse source with
  | .error (.error e) => some (e.problem.category, e.location.offsets?)
  | _ => none

theorem exists_of_refusal? {source : String} {c : Category} {place : Option (Int × Int)}
    (h : refusal? source = some (c, place)) :
    ∃ e, parse source = .error (.error e) ∧ e.problem.category = c ∧ e.location.offsets? = place := by
  unfold refusal? at h
  split at h
  · rename_i e he
    cases h
    exact ⟨e, he, rfl, rfl⟩
  · cases h

/-- A comparison in a comparison needs its own parentheses, so the second sign is the first token that may not stand there;
what is missing at the end is not looked for. -/
theorem parse_malformed_comparison : ∃ e, parse "if (a < b < c) x = 1" = .error (.error e) ∧
    e.problem.category = .malformed ∧ e.location.offsets? = some (10, 11) ∧
    ((∃ before t after expected, (scan "if (a < b < c) x = 1").tokens = before ++ t :: after ∧
      e = ⟨.unexpected (some t.text) expected, t.span⟩ ∧ Viable (kinds before) ∧ ¬Viable (kinds (before ++ [t]))) ∨
    ∃ ts last expected, tokenize "if (a < b < c) x = 1" = .ok ts ∧ ts.getLast? = some last ∧
      e = ⟨.unexpected none expected, last.span⟩ ∧ (∃ more, more ≠ [] ∧ Sentence (kinds ts ++ more)) ∧
      ¬Sentence (kinds ts)) := by
  have hrefused : refusal? "if (a < b < c) x = 1" = some (.malformed, some (10, 11)) := by decide +kernel
  obtain ⟨e, he, hcategory, hplace⟩ := exists_of_refusal? hrefused
  exact ⟨e, he, hcategory, hplace, parse_malformed he hcategory⟩

end Program

/-- Where a scan is stuck, and what it has found before. -/
theorem Token.scan_stuck {source : String} {e : Error} (h : (scan source).error = some e) : ∃ place c,
    source.toList[place]? = some c ∧ e = ⟨.noToken c, .ofOffsets (place : Nat) (place + 1 : Nat)⟩ ∧
      tokenize (String.ofList (source.toList.take place)) = .ok (scan source).tokens ∧
      ∀ t ∈ (scan source).tokens, t.start < t.stop ∧ t.stop ≤ place := by
  obtain ⟨front, c, rest, hsplit, -, rfl, hfront⟩ := scanFrom_stuck h
  have htokens : (scanFrom 0 0 front).tokens = (scan source).tokens := by rw [hfront]; rfl
  have herror : (scanFrom 0 0 front).error = none := by rw [hfront]
  have hcovers := scanFrom_covers front 0 (Nat.zero_le _) herror
  refine ⟨front.length, c, by simp [hsplit], by rw [Nat.zero_add], ?_, ?_⟩
  · rw [hsplit, List.take_left, tokenize_eq_ok, scan, String.toList_ofList]
    exact ⟨herror, htokens⟩
  · rw [← htokens]
    exact fun t ht => (hcovers.inside t ht).2

namespace Program

/-- Scanning first and scanning on demand agree. If a source has tokens, then reading it names no character that starts no
token, and processing it beyond the scan ends with what reading it is refused for. If there is such a character, then
reading the source names it too, provided that the tokens before it start a sentence, and otherwise a token that stands
before it; processing the source ends with that character in any case. -/
theorem scan_parse_agree (source : String) :
    (∃ ts, tokenize source = .ok ts ∧ (∀ e, parse source = .error (.error e) → e.problem.category ≠ .lexical) ∧
      ∀ f, parse source = .error f → ∀ mode ≠ Mode.scan, ∀ settings destination,
        (process source mode settings destination).failure = some f) ∨
    ∃ e place before, tokenize source = .error (.error e) ∧ e.problem.category = .lexical ∧
      e.location = .ofOffsets (place : Nat) (place + 1 : Nat) ∧
      tokenize (String.ofList (source.toList.take place)) = .ok before ∧
      (Viable (kinds before) ∧ parse source = .error (.error e) ∨
        ¬Viable (kinds before) ∧ ∃ e' start stop, parse source = .error (.error e') ∧ e'.problem.category = .malformed ∧
          e'.location = .ofOffsets (start : Nat) (stop : Nat) ∧ start < stop ∧ stop ≤ place) ∧
      ∀ mode settings destination, (process source mode settings destination).failure = some (.error e) := by
  have hread := read_ofScan (scan source)
  generalize hanswer : ofScan (scan source) = answer at hread
  have hkinds : ∀ t ∈ (scan source).tokens, t.kind ≠ .ending := fun t ht => (Token.scan_lexical source t ht).exists_kind
  cases hscan : (scan source).error with
  | none =>
    have htokens : tokenize source = .ok (scan source).tokens := Token.tokenize_eq_ok.mpr ⟨hscan, rfl⟩
    refine .inl ⟨_, htokens, ?_, ?_⟩
    · intro e he
      have he := he.symm.trans hanswer
      cases hread with
      | stuck _ hstuck =>
        rw [hscan] at hstuck
        cases hstuck
      | refused _ | ended _ _ | foreign _ _ _ =>
        cases he
        intro hlexical
        cases hlexical
      | tree _ _ _ => cases he
    · intro f hf mode hmode settings destination
      simp only [process, htokens, hmode, if_false, hf]
      rfl
  | some e =>
    have htokens : tokenize source = .error (.error e) := Token.tokenize_eq_error.mpr ⟨e, hscan, rfl⟩
    obtain ⟨place, c, -, rfl, hbefore, hplaces⟩ := Token.scan_stuck hscan
    refine .inr ⟨_, place, _, htokens, rfl, rfl, hbefore, ?_, ?_⟩
    · rw [Parse.viable_iff_program hkinds]
      cases hread with
      | @refused t expected hprogram =>
        obtain ⟨before, after, hsplit, -⟩ := Parse.refused_of_program hprogram
        have hplace := hplaces t (by simp [hsplit])
        exact .inr ⟨fun hnot => hnot t expected hprogram, _, t.start, t.stop, hanswer, rfl, rfl, hplace.1, hplace.2⟩
      | stuck hnot hstuck =>
        cases hscan.symm.trans hstuck
        exact .inl ⟨hnot, hanswer⟩
      | ended _ hnone | foreign _ hnone _ | tree _ hnone _ => cases hscan.symm.trans hnone
    · intro mode settings destination
      simp only [process, htokens]
      rfl

end Program
end CheckedScript
