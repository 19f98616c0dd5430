import CheckedScript.Proofs.Agreement
import CheckedScript.Proofs.Shifting
import CheckedScript.Proofs.WrittenTrees

/-! Sources that are joined. Two sources with the end of a line between them are scanned one after the other, since no token
reaches over the end of a line unless it is a quoted text, and those of the first source are closed. What could reach over
it is a comment that was opened and not closed; but then the first source has a slash with a star after it, which no
program has. So the tree of the whole is the tree of the first source with that of the second, moved, behind it. -/

namespace CheckedScript.Token

/-- The scan with tokens before it. -/
def Scan.before (ts : List Token) (s : Scan) : Scan := ⟨ts ++ s.tokens, s.error⟩

@[simp] theorem Scan.before_nil (s : Scan) : s.before [] = s := rfl

@[simp] theorem Scan.before_before (ts ts' : List Token) (s : Scan) : (s.before ts').before ts = s.before (ts ++ ts') := by
  simp [before]

/-- What was taken by a lexeme is passed over. -/
theorem scanFrom_drop (start taken : Nat) (cs : List Char) :
    scanFrom start taken cs = scanFrom (start + taken) 0 (cs.drop taken) := by
  induction taken generalizing start cs with
  | zero => rfl
  | succ taken ih =>
    cases cs with
    | nil => simp [scanFrom]
    | cons c rest => rw [scanFrom, ih, List.drop_succ_cons, Nat.add_assoc, Nat.add_comm 1]

namespace Lexeme

/-- The token that the lexeme makes, if it makes one. -/
def tokens (l : Lexeme) (start : Nat) (cs : List Char) : List Token :=
  l.kind.toList.map fun k => ⟨k, String.ofList (cs.take l.length), start, start + l.length⟩

theorem tokens_append {l : Lexeme} {start : Nat} {cs : List Char} (h : l.length ≤ cs.length) (more : List Char) :
    l.tokens start (cs ++ more) = l.tokens start cs := by
  rw [tokens, tokens, List.take_append_of_le_length h]

theorem length_pos_of_run {run : List Char} (h : ¬run.isEmpty = true) : 0 < run.length :=
  List.length_pos_iff.mpr fun hrun => h (by rw [hrun]; rfl)

/-- A rule that matches takes something. -/
theorem first?_pos {cs : List Char} {l : Lexeme} (h : first? cs = some l) : 0 < l.length := by
  simp only [first?, HOrElse.hOrElse, OrElse.orElse, Option.orElse_eq_or, Option.or_eq_some_iff] at h
  rcases h with h | ⟨-, h | ⟨-, h | ⟨-, h | ⟨-, h | ⟨-, h | ⟨-, h | ⟨-, h⟩⟩⟩⟩⟩⟩⟩
  · unfold stringLit? at h
    repeat' split at h
    all_goals cases h
    exact Nat.succ_pos _
  · unfold blockComment? at h
    split at h
    · obtain ⟨_, -, rfl⟩ := Option.map_eq_some_iff.mp h
      exact Nat.succ_pos _
    · cases h
  · simp only [word?] at h
    split at h
    · cases h
    · rename_i hw
      cases h
      rw [List.length_append]
      exact Nat.add_pos_left (length_pos_of_run hw) _
  · simp only [space?] at h
    split at h
    · cases h
    · rename_i hw
      cases h
      exact length_pos_of_run hw
  · rw [numberLit?_eq] at h
    split at h
    · cases h
    · rename_i hw
      cases h
      exact Nat.add_pos_left (length_pos_of_run hw) _
  · unfold lineComment? at h
    split at h <;> cases h
    exact Nat.succ_pos _
  · unfold pair? at h
    split at h
    · obtain ⟨_, -, rfl⟩ := Option.map_eq_some_iff.mp h
      exact Nat.succ_pos _
    · cases h
  · unfold single? at h
    split at h
    · obtain ⟨_, -, rfl⟩ := Option.map_eq_some_iff.mp h
      exact Nat.succ_pos _
    · cases h

end Lexeme

/-- A scan goes from lexeme to lexeme. -/
theorem scanFrom_step {start : Nat} {cs : List Char} {l : Lexeme} (hcs : cs ≠ []) (h : Lexeme.first? cs = some l) :
    scanFrom start 0 cs = (scanFrom (start + l.length) 0 (cs.drop l.length)).before (l.tokens start cs) := by
  obtain ⟨c, rest, rfl⟩ := List.exists_cons_of_ne_nil hcs
  obtain ⟨kind, n⟩ := l
  obtain ⟨n, rfl⟩ := Nat.exists_eq_succ_of_ne_zero (Lexeme.first?_pos h).ne'
  have hdrop := scanFrom_drop (start + 1) n rest
  rw [Nat.add_assoc, Nat.add_comm 1] at hdrop
  cases kind with
  | none => simpa [scanFrom, h, Lexeme.tokens] using hdrop
  | some k => simp [scanFrom, h, Lexeme.tokens, Scan.cons, Scan.before, hdrop]

namespace Lexeme

section Newline

variable {p : Char → Bool} (u t : List Char)

theorem takeWhile_newline (hp : p '\n' = false) : (u ++ '\n' :: t).takeWhile p = u.takeWhile p := by
  induction u with
  | nil => simp [hp]
  | cons c rest ih => simp only [List.cons_append, List.takeWhile_cons, ih]

theorem dropWhile_newline (hp : p '\n' = false) : (u ++ '\n' :: t).dropWhile p = u.dropWhile p ++ '\n' :: t := by
  induction u with
  | nil => simp [hp]
  | cons c rest ih =>
    simp only [List.cons_append, List.dropWhile_cons, ih]
    split <;> rfl

theorem word?_newline : word? (u ++ '\n' :: t) = word? u := by
  have hstart : Literal.isNameStart '\n' = false := by decide
  have hdigit : Char.isDigit '\n' = false := by decide
  simp only [word?, takeWhile_newline u t hstart, dropWhile_newline u t hstart, takeWhile_newline _ t hdigit]

theorem fraction_newline : fraction (u ++ '\n' :: t) = fraction u := by
  have hdigit : Text.isDigit '\n' = false := by decide
  simp only [fraction, dropWhile_newline u t hdigit]
  cases u.dropWhile Text.isDigit with
  | nil => rfl
  | cons c rest =>
    by_cases hc : c = '.'
    · subst hc
      exact takeWhile_newline rest t hdigit
    · simp [hc]

theorem numberLit?_newline : numberLit? (u ++ '\n' :: t) = numberLit? u := by
  have hdigit : Text.isDigit '\n' = false := by decide
  simp only [numberLit?_eq, fraction_newline, takeWhile_newline u t hdigit]

theorem lineComment?_newline : lineComment? (u ++ '\n' :: t) = lineComment? u := by
  obtain _ | ⟨c, _ | ⟨d, rest⟩⟩ := u
  · rfl
  · by_cases hc : c = '/'
    · subst hc
      rfl
    · simp [lineComment?, hc]
  · by_cases hcd : c = '/' ∧ d = '/'
    · obtain ⟨rfl, rfl⟩ := hcd
      simp only [List.cons_append, lineComment?]
      rw [takeWhile_newline rest t (by decide)]
    · have hnone (cs : List Char) : lineComment? (c :: d :: cs) = none := by
        unfold lineComment?
        split
        · rename_i heq
          cases heq
          exact absurd ⟨rfl, rfl⟩ hcd
        · rfl
      exact (hnone _).trans (hnone rest).symm

theorem pair?_newline (hu : u ≠ []) : pair? (u ++ '\n' :: t) = pair? u := by
  obtain ⟨c, _ | ⟨d, rest⟩, rfl⟩ := List.exists_cons_of_ne_nil hu
  · have hnone : Kind.ofPair? c '\n' = none := by
      unfold Kind.ofPair?
      split <;> first | rfl | (rename_i heq; cases heq)
    simp [pair?, hnone]
  · rfl

theorem single?_newline (hu : u ≠ []) : single? (u ++ '\n' :: t) = single? u := by
  obtain ⟨c, rest, rfl⟩ := List.exists_cons_of_ne_nil hu
  rfl

/-- White space ends before something else. -/
theorem space?_newline (hu : ¬∀ c ∈ u, isSpace c = true) : space? (u ++ '\n' :: t) = space? u := by
  have hrun : (u ++ '\n' :: t).takeWhile isSpace = u.takeWhile isSpace := by
    rw [List.takeWhile_append, if_neg]
    intro hlength
    have hall := (List.takeWhile_prefix isSpace).eq_of_length hlength
    have hrun : ∀ c ∈ u.takeWhile isSpace, isSpace c = true := all_run
    rw [hall] at hrun
    exact hu hrun
  simp only [space?, hrun]

/-- A comment ends where it ended. -/
theorem commentLength?_append {cs : List Char} {n : Nat} (h : commentLength? cs = some n) (more : List Char) :
    commentLength? (cs ++ more) = some n := by
  fun_induction commentLength? cs generalizing n with
  | case1 => cases h
  | case2 rest =>
    cases h
    rfl
  | case3 c rest hne ih =>
    obtain ⟨m, hm, rfl⟩ := Option.map_eq_some_iff.mp h
    have hmore := ih hm
    obtain _ | ⟨d, rest⟩ := rest
    · cases hm
    · rw [List.cons_append, List.cons_append, commentLength?, ← List.cons_append, hmore]
      · rfl
      · intro after hc hd
        cases hd
        exact hne rest hc rfl

/-- A quote starts a quoted text or nothing. -/
theorem first?_quote (rest : List Char) : first? ('\'' :: rest) = stringLit? ('\'' :: rest) := by
  cases h : stringLit? ('\'' :: rest) with
  | some l => simp [first?, h]
  | none =>
    have hdigit : Text.isDigit '\'' = false := by decide
    have hspace : isSpace '\'' = false := by decide
    cases rest <;> simp [first?, h, blockComment?, word?, space?, numberLit?, lineComment?, pair?, single?, Kind.ofPair?,
      Kind.ofChar?, hdigit, hspace, Literal.isNameStart]

/-- A quoted text ends at the first character that may not stand in it. -/
theorem stringLit?_append {rest : List Char} (h : rest.dropWhile Literal.isSafe ≠ []) (more : List Char) :
    stringLit? ('\'' :: (rest ++ more)) = stringLit? ('\'' :: rest) := by
  obtain ⟨d, after, hafter⟩ := List.exists_cons_of_ne_nil h
  have hdrop : (rest ++ more).dropWhile Literal.isSafe = d :: (after ++ more) := by
    rw [List.dropWhile_append, hafter]
    rfl
  have htake : (rest ++ more).takeWhile Literal.isSafe = rest.takeWhile Literal.isSafe := by
    rw [List.takeWhile_append, if_neg]
    intro hlength
    have hall := congrArg List.length (List.takeWhile_append_dropWhile (p := Literal.isSafe) (l := rest))
    rw [hafter, List.length_append, List.length_cons] at hall
    omega
  simp only [stringLit?, hdrop, htake, hafter, List.head?_cons]

theorem stringLit?_newline (hu : u ≠ []) (hsome : (first? u).isSome) : stringLit? (u ++ '\n' :: t) = stringLit? u := by
  obtain ⟨c, rest, rfl⟩ := List.exists_cons_of_ne_nil hu
  by_cases hc : c = '\''
  · subst hc
    by_cases hrest : rest.dropWhile Literal.isSafe = []
    · simp [first?_quote, stringLit?, hrest] at hsome
    · exact stringLit?_append hrest _
  · simp [stringLit?, hc]

/-- The end of a line closes no quoted text. -/
theorem stringLit?_line : stringLit? (u ++ ['\n']) = stringLit? u := by
  obtain _ | ⟨c, rest⟩ := u
  · rfl
  · by_cases hc : c = '\''
    · subst hc
      by_cases hrest : rest.dropWhile Literal.isSafe = []
      · have hline : (['\n'].dropWhile Literal.isSafe).head? ≠ some '\'' := by decide
        simp [stringLit?, List.dropWhile_append, hrest, hline]
      · exact stringLit?_append hrest _
    · simp [stringLit?, hc]

/-- No comment is opened and not closed. -/
def Closed (cs : List Char) : Prop := ∀ rest, cs = '/' :: '*' :: rest → commentLength? rest ≠ none

theorem blockComment?_newline (hu : Closed u) : blockComment? (u ++ '\n' :: t) = blockComment? u := by
  obtain _ | ⟨c, _ | ⟨d, rest⟩⟩ := u
  · rfl
  · by_cases hc : c = '/'
    · subst hc
      rfl
    · simp [blockComment?, hc]
  · by_cases hcd : c = '/' ∧ d = '*'
    · obtain ⟨rfl, rfl⟩ := hcd
      obtain ⟨n, hn⟩ := Option.ne_none_iff_exists'.mp (hu rest rfl)
      simp only [List.cons_append, blockComment?, hn, commentLength?_append hn]
    · have hnone (cs : List Char) : blockComment? (c :: d :: cs) = none := by
        unfold blockComment?
        split
        · rename_i heq
          cases heq
          exact absurd ⟨rfl, rfl⟩ hcd
        · rfl
      exact (hnone _).trans (hnone rest).symm

/-- The end of a line closes no comment. -/
theorem commentLength?_line (cs : List Char) : commentLength? (cs ++ ['\n']) = commentLength? cs := by
  fun_induction commentLength? cs with
  | case1 => rfl
  | case2 rest => rfl
  | case3 c rest hne ih =>
    rw [List.cons_append, commentLength?, ih]
    intro after hc hd
    obtain _ | ⟨d, rest⟩ := rest
    · cases hd
    · cases hd
      exact hne rest hc rfl

theorem Closed.of_line {u : List Char} (h : Closed (u ++ ['\n'])) : Closed u := by
  rintro rest rfl
  rw [← commentLength?_line]
  exact h (rest ++ ['\n']) rfl

theorem ne_nil_of_not_blank {u : List Char} (h : ¬∀ c ∈ u, isSpace c = true) : u ≠ [] := by
  rintro rfl
  simp at h

/-- What a rule takes before the end of a line does not depend on what comes after it. -/
theorem first?_newline {l : Lexeme} (hblank : ¬∀ c ∈ u, isSpace c = true) (hclosed : Closed u) (h : first? u = some l) :
    first? (u ++ '\n' :: t) = some l := by
  have hu := ne_nil_of_not_blank hblank
  rw [← h]
  simp only [first?, stringLit?_newline u t hu (by simp [h]), blockComment?_newline u t hclosed, word?_newline,
    space?_newline u t hblank, numberLit?_newline, lineComment?_newline, pair?_newline u t hu, single?_newline u t hu]

/-- The end of a line makes no rule match. -/
theorem first?_line (hblank : ¬∀ c ∈ u, isSpace c = true) (hclosed : Closed u) : first? (u ++ ['\n']) = first? u := by
  have hu := ne_nil_of_not_blank hblank
  simp only [first?, stringLit?_line, blockComment?_newline u [] hclosed, word?_newline, space?_newline u [] hblank,
    numberLit?_newline, lineComment?_newline, pair?_newline u [] hu, single?_newline u [] hu]

end Newline

/-- White space is taken as far as it goes. -/
theorem first?_space {c : Char} (hc : isSpace c = true) (t : List Char) :
    first? (c :: t) = some ⟨none, (t.takeWhile isSpace).length + 1⟩ := by
  have hnone : Literal.isNameStart c = false ∧ c ≠ '\'' ∧ c ≠ '/' := by
    have hblank : c = ' ' ∨ c = '\t' ∨ c = '\x0c' ∨ c = '\r' ∨ c = '\n' := by simpa [isSpace] using hc
    rcases hblank with rfl | rfl | rfl | rfl | rfl <;> decide
  simp [first?, stringLit?, blockComment?, word?, space?, hnone, hc]

end Lexeme

theorem scanFrom_spaces {start : Nat} {c : Char} (hc : Lexeme.isSpace c = true) (t : List Char) :
    scanFrom start 0 (c :: t) =
      scanFrom (start + 1 + (t.takeWhile Lexeme.isSpace).length) 0 (t.drop (t.takeWhile Lexeme.isSpace).length) := by
  rw [scanFrom, Lexeme.first?_space hc]
  exact scanFrom_drop _ _ t

/-- One character of white space is passed over, however many follow. -/
theorem scanFrom_space {start : Nat} {c : Char} (hc : Lexeme.isSpace c = true) (t : List Char) :
    scanFrom start 0 (c :: t) = scanFrom (start + 1) 0 t := by
  rw [scanFrom_spaces hc]
  cases t with
  | nil => rfl
  | cons d rest =>
    cases hd : Lexeme.isSpace d with
    | false => simp [hd]
    | true =>
      rw [scanFrom_spaces hd]
      simp only [List.takeWhile_cons, hd, if_true, List.length_cons, List.drop_succ_cons]
      rw [Nat.add_assoc (start + 1), Nat.add_comm 1]

/-- White space is passed over. -/
theorem scanFrom_blank {start : Nat} {u : List Char} (hu : ∀ c ∈ u, Lexeme.isSpace c = true) (t : List Char) :
    scanFrom start 0 (u ++ t) = scanFrom (start + u.length) 0 t := by
  induction u generalizing start with
  | nil => rfl
  | cons c rest ih =>
    rw [List.cons_append, scanFrom_space (hu c (.head _)), ih fun d hd => hu d (.tail _ hd), List.length_cons,
      Nat.add_assoc, Nat.add_comm 1]

end CheckedScript.Token

namespace CheckedScript.Grammar

/-- Whatever is divided by, a slash has a factor after it. -/
def Divides : List Token → Prop
  | [] => True
  | t :: rest => (t.kind = .slash → nextKind rest ∈ Parse.factorFirst) ∧ Divides rest

section Divides

variable {kinds : List Token.Kind} {t : Token} {u v w : List Token}

theorem Terminal.cons_divides (ht : Terminal kinds t) (hw : Divides w) (hk : .slash ∉ kinds := by decide) :
    Divides (t :: w) :=
  ⟨fun h => absurd (h ▸ ht.kind_mem) hk, hw⟩

theorem append_divides (hu : Divides u) (hv : Divides v) : Divides (u ++ v) := by
  induction u with
  | nil => exact hv
  | cons t rest ih =>
    refine ⟨fun h => ?_, ih hu.2⟩
    have hnext := hu.1 h
    exact nextKind_append_mem v hnext (by decide) fun k hk => hk

theorem divides_of_append (h : Divides (u ++ v)) : Divides v := by
  induction u with
  | nil => exact h
  | cons t rest ih => exact ih h.2

theorem nil_divides : Divides [] := trivial

theorem DerivesExpr.divides {n : ExprPart} {e : n.Tree} (h : DerivesExpr n w e) : Divides w := by
  induction h with
  | value_expr _ ih | value_cond _ ih | side_expr _ ih | side_cond _ ih | header_side _ ih => exact ih
  | negand_atom _ ih | negand_cond _ ih | expr_term _ ih | term_factor _ ih | factor_atom _ ih | atom_call _ ih => exact ih
  | args_some _ ih | someArgs_one _ ih => exact ih
  | args_none => exact nil_divides
  | header_binary _ ho _ ihu ihv | expr_binary _ ho _ ihu ihv | someArgs_more _ ho _ ihu ihv =>
    exact append_divides ihu (ho.cons_divides ihv)
  | term_binary _ _ hv ihu ihv => exact append_divides ihu ⟨fun _ => hv.first, ihv⟩
  | cond_binary hl _ ho _ hr ihu ihv =>
    exact hl.cons_divides (append_divides ihu (ho.cons_divides (append_divides ihv (hr.cons_divides nil_divides))))
  | cond_not ht _ ih | factor_folded ht _ ih | factor_negated ht _ _ ih => exact ht.cons_divides ih
  | atom_literal ht | atom_boolean ht | atom_name ht => exact ht.cons_divides nil_divides
  | call hf hl _ hr ih => exact hf.cons_divides (hl.cons_divides (append_divides ih (hr.cons_divides nil_divides)))

theorem DerivesStmt.divides {n : StmtPart} {s : n.Tree} (h : DerivesStmt n w s) : Divides w := by
  induction h with
  | declare hk _ ha hs => exact hk.cons_divides (ha.cons_divides (hs.cons_divides nil_divides))
  | declare_init hk _ ha ho hw hs =>
    have hvalue := append_divides hw.divides (hs.cons_divides nil_divides)
    exact hk.cons_divides (ha.cons_divides (ho.cons_divides hvalue))
  | assign ha ho hw hs =>
    exact ha.cons_divides (ho.cons_divides (append_divides hw.divides (hs.cons_divides nil_divides)))
  | step ha ho hs => exact ha.cons_divides (ho.cons_divides (hs.cons_divides nil_divides))
  | call hw hs => exact append_divides hw.divides (hs.cons_divides nil_divides)
  | print ha hl hr hs => exact ha.cons_divides (hl.cons_divides (hr.cons_divides (hs.cons_divides nil_divides)))
  | print_value ha hl hw hr hs =>
    have hend := hr.cons_divides (hs.cons_divides nil_divides)
    exact ha.cons_divides (hl.cons_divides (append_divides hw.divides hend))
  | branch ha hl hw hr _ ih | loop ha hl hw hr _ ih =>
    exact ha.cons_divides (hl.cons_divides (append_divides hw.divides (hr.cons_divides ih)))
  | branch_else ha hl hw hr _ ho _ ihu ihv =>
    have hblocks := append_divides ihu (ho.cons_divides ihv)
    exact ha.cons_divides (hl.cons_divides (append_divides hw.divides (hr.cons_divides hblocks)))
  | breakOut ha hs => exact ha.cons_divides (hs.cons_divides nil_divides)
  | inners_none | params_none | outers_none => exact nil_divides
  | inners_more _ _ ihu ihv | outers_more _ _ ihu ihv => exact append_divides ihu ihv
  | block hl _ hr ih => exact hl.cons_divides (append_divides ih (hr.cons_divides nil_divides))
  | someParams_more _ hc _ ihu ihv => exact append_divides ihu (hc.cons_divides ihv)
  | param hk _ ha => exact hk.cons_divides (ha.cons_divides nil_divides)
  | define hd hk _ ha hl _ hr hb _ ho hv hs hc ihu ihw =>
    have hvalue := append_divides hv.divides (hs.cons_divides (hc.cons_divides nil_divides))
    have hbody := hb.cons_divides (append_divides ihw (ho.cons_divides hvalue))
    have hparams := hl.cons_divides (append_divides ihu (hr.cons_divides hbody))
    exact hd.cons_divides (hk.cons_divides (ha.cons_divides hparams))
  | params_some _ ih | someParams_one _ ih | outer_inner _ ih | outer_define _ ih | start _ ih => exact ih

end Divides

/-- One program after another. -/
theorem DerivesStmt.append {u v : List Token} {first second : List Stmt} (hu : DerivesStmt .outers u first)
    (hv : DerivesStmt .outers v second) : DerivesStmt .outers (u ++ v) (first ++ second) := by
  induction first generalizing u with
  | nil =>
    cases hu
    exact hv
  | cons s rest ih =>
    cases hu with
    | outers_more hs hrest =>
      rw [List.append_assoc]
      exact .outers_more hs (ih hrest)

end CheckedScript.Grammar

namespace CheckedScript.Token

open Grammar (Divides nextKind)

theorem scanFrom_all_blank {start : Nat} {u : List Char} (hu : ∀ c ∈ u, Lexeme.isSpace c = true) :
    scanFrom start 0 u = ⟨[], none⟩ := by
  have h : scanFrom start 0 (u ++ []) = scanFrom (start + u.length) 0 [] := scanFrom_blank hu []
  rw [List.append_nil] at h
  exact h

/-- Where no comment is closed, the signs of its start are signs of arithmetic. -/
theorem first?_slash {rest : List Char} (h : Lexeme.commentLength? rest = none) :
    Lexeme.first? ('/' :: '*' :: rest) = some ⟨some .slash, 1⟩ := by
  have hdigit : Text.isDigit '/' = false := by decide
  have hspace : Lexeme.isSpace '/' = false := by decide
  simp [Lexeme.first?, Lexeme.stringLit?, Lexeme.blockComment?, h, Lexeme.word?, Lexeme.space?, Lexeme.numberLit?,
    Lexeme.lineComment?, Lexeme.pair?, Lexeme.single?, Kind.ofPair?, Kind.ofChar?, hdigit, hspace, Literal.isNameStart]

theorem first?_star (rest : List Char) :
    ∃ k ∈ [Kind.star, .starEqual], ∃ n, Lexeme.first? ('*' :: rest) = some ⟨some k, n⟩ := by
  have hdigit : Text.isDigit '*' = false := by decide
  have hspace : Lexeme.isSpace '*' = false := by decide
  have hfirst : Lexeme.first? ('*' :: rest) = (Lexeme.pair? ('*' :: rest)).or (some ⟨some .star, 1⟩) := by
    simp [Lexeme.first?, Lexeme.stringLit?, Lexeme.blockComment?, Lexeme.word?, Lexeme.space?, Lexeme.numberLit?,
      Lexeme.lineComment?, Lexeme.single?, Kind.ofChar?, hdigit, hspace, Literal.isNameStart]
  rw [hfirst]
  obtain _ | ⟨d, rest⟩ := rest
  · exact ⟨.star, by decide, 1, rfl⟩
  · by_cases hd : d = '='
    · subst hd
      exact ⟨.starEqual, by decide, 2, rfl⟩
    · exact ⟨.star, by decide, 1, by simp [Lexeme.pair?, Kind.ofPair?, hd]⟩

/-- A source that divides only by factors leaves no comment open. -/
theorem closed_of_divides {start : Nat} {cs : List Char} (h : Divides (scanFrom start 0 cs).tokens) :
    Lexeme.Closed cs := by
  rintro rest rfl hnone
  obtain ⟨k, hk, n, hstar⟩ := first?_star rest
  rw [scanFrom_step (List.cons_ne_nil _ _) (first?_slash hnone)] at h
  have hnext := h.1 rfl
  rw [List.drop_succ_cons, List.drop_zero, scanFrom_step (List.cons_ne_nil _ _) hstar] at hnext
  exact (by decide : ∀ k ∈ [Kind.star, .starEqual], k ∉ Parse.factorFirst) k hk hnext

/-- A source is scanned up to the end of a line as it is scanned alone. -/
theorem scanFrom_newline (start : Nat) (u t : List Char) (herror : (scanFrom start 0 u).error = none)
    (hdivides : Divides (scanFrom start 0 u).tokens) :
    scanFrom start 0 (u ++ '\n' :: t) =
      (scanFrom (start + (u.length + 1)) 0 t).before (scanFrom start 0 u).tokens := by
  by_cases hblank : ∀ c ∈ u, Lexeme.isSpace c = true
  · rw [scanFrom_all_blank hblank, scanFrom_blank hblank, scanFrom_space (by decide), Nat.add_assoc]
    rfl
  · have hu := Lexeme.ne_nil_of_not_blank hblank
    cases hl : Lexeme.first? u with
    | none =>
      obtain ⟨c, rest, rfl⟩ := List.exists_cons_of_ne_nil hu
      simp [scanFrom, hl] at herror
    | some l =>
      have hpos := Lexeme.first?_pos hl
      have hlength := Lexeme.first?_length hl
      have hjoined := Lexeme.first?_newline u t hblank (closed_of_divides hdivides) hl
      rw [scanFrom_step hu hl] at herror hdivides ⊢
      have hstop : start + l.length + ((u.drop l.length).length + 1) = start + (u.length + 1) := by
        rw [List.length_drop]
        omega
      have hrest := scanFrom_newline (start + l.length) (u.drop l.length) t herror (Grammar.divides_of_append hdivides)
      rw [scanFrom_step (by simp) hjoined, List.drop_append_of_le_length hlength, hrest, hstop,
        Lexeme.tokens_append hlength, Scan.before_before]
      rfl
termination_by u.length
decreasing_by
  rw [List.length_drop]
  omega

/-- The end of a line behind a source changes nothing. -/
theorem scanFrom_line (start : Nat) (u : List Char) (hdivides : Divides (scanFrom start 0 (u ++ ['\n'])).tokens) :
    scanFrom start 0 (u ++ ['\n']) = scanFrom start 0 u := by
  by_cases hblank : ∀ c ∈ u, Lexeme.isSpace c = true
  · rw [scanFrom_all_blank hblank, scanFrom_blank hblank, scanFrom_space (by decide)]
    rfl
  · have hu := Lexeme.ne_nil_of_not_blank hblank
    have hfirst := Lexeme.first?_line u hblank (closed_of_divides hdivides).of_line
    cases hl : Lexeme.first? u with
    | none =>
      obtain ⟨c, rest, rfl⟩ := List.exists_cons_of_ne_nil hu
      rw [hl, List.cons_append] at hfirst
      simp [scanFrom, hl, hfirst]
    | some l =>
      have hpos := Lexeme.first?_pos hl
      have hlength := Lexeme.first?_length hl
      rw [scanFrom_step (by simp) (hfirst.trans hl), List.drop_append_of_le_length hlength] at hdivides ⊢
      rw [scanFrom_step hu hl, Lexeme.tokens_append hlength, scanFrom_line _ _ (Grammar.divides_of_append hdivides)]
termination_by u.length
decreasing_by
  rw [List.length_drop]
  omega

/-- The tokens of two sources with the end of a line between them. -/
theorem scan_newline {a : String} (herror : (scan a).error = none) (hdivides : Divides (scan a).tokens) (b : String) :
    (scan (a ++ "\n" ++ b)).tokens = (scan a).tokens ++ (scan b).tokens.map (shift (a.length + 1)) ∧
      ((scan (a ++ "\n" ++ b)).error = none ↔ (scan b).error = none) := by
  have hsource : (a ++ "\n" ++ b).toList = a.toList ++ '\n' :: b.toList := by simp [String.toList_append]
  have hscan := scanFrom_newline 0 a.toList b.toList herror hdivides
  obtain ⟨htokens, hnone⟩ := scanFrom_shift (a.toList.length + 1) 0 0 b.toList
  rw [String.length_toList] at htokens hnone hscan
  rw [scan, hsource, hscan]
  exact ⟨congrArg ((scan a).tokens ++ ·) htokens, hnone⟩

end CheckedScript.Token

namespace CheckedScript.Program

open Grammar

/-- The end of a line behind a program is of no account. -/
theorem parse_newline (a : String) (p : Program) : parse (a ++ "\n") = .ok p ↔ parse a = .ok p := by
  have hsource : (a ++ "\n").toList = a.toList ++ ['\n'] := by simp [String.toList_append]
  constructor
  · intro h
    obtain ⟨-, hp⟩ := (parse_iff_derives _ p).mp h
    have hdivides := hp.divides
    rw [Token.scan, hsource] at hdivides
    rwa [parse, Token.scan, hsource, Token.scanFrom_line 0 a.toList hdivides] at h
  · intro h
    obtain ⟨herror, hp⟩ := (parse_iff_derives a p).mp h
    have hscan := Token.scanFrom_newline 0 a.toList [] herror hp.divides
    rw [parse, Token.scan, hsource, hscan, Token.Scan.before, Token.scanFrom, List.append_nil, ← herror]
    exact h

/-- The trees of tokens that are joined, the second ones moved. -/
theorem derives_joined {u v : List Token} {p q : Program} (hp : DerivesStmt .start u p) (hq : DerivesStmt .start v q)
    (d : Nat) : ∃ span, DerivesStmt .start (u ++ v.map (Token.shift d))
      ⟨span, p.statements ++ q.statements.map (Stmt.shift d)⟩ := by
  cases hp with
  | @start _ first hfirst =>
    cases hq with
    | @start _ second hsecond =>
      have hmoved : DerivesStmt .outers (v.map (Token.shift d)) (Stmt.shiftAll d second) := hsecond.shift (by decide)
      rw [Stmt.shiftAll_eq] at hmoved
      exact ⟨_, .start (hfirst.append hmoved)⟩

/-- The tree of two sources with the end of a line between them: the statements of the first, and then those of the second with
every range moved to where the second source starts. -/
theorem parse_joined {a b : String} {p q : Program} (ha : parse a = .ok p) (hb : parse b = .ok q) :
    (parse (a ++ "\n" ++ b)).map statements =
      .ok (p.statements ++ q.statements.map (Stmt.shift (a.length + 1))) := by
  obtain ⟨herror, hp⟩ := (parse_iff_derives a p).mp ha
  obtain ⟨herror', hq⟩ := (parse_iff_derives b q).mp hb
  obtain ⟨htokens, hnone⟩ := Token.scan_newline herror hp.divides b
  obtain ⟨span, hjoined⟩ := derives_joined hp hq (a.length + 1)
  rw [← htokens] at hjoined
  rw [(parse_iff_derives _ _).mpr ⟨hnone.mpr herror', hjoined⟩]
  rfl

/-- A source that ends inside of a line comment, after an `if` that could go on. -/
def endsInComment : String := "if (true) \x7b print('\n'); \x7d // no else"

/-- A source with a comment before its only statement. -/
def startsWithComment : String := "/* a\n */ x = 1 / 2;"

theorem parse_joined_comments : ∃ p q, parse endsInComment = .ok p ∧ parse startsWithComment = .ok q ∧
    (parse (endsInComment ++ "\n" ++ startsWithComment)).map statements =
      .ok (p.statements ++ q.statements.map (Stmt.shift (endsInComment.length + 1))) ∧
    p.statements.length = 1 ∧ q.statements.length = 1 := by
  obtain ⟨p, hp, hlength⟩ := exists_of_parse endsInComment rfl (fun p => p.statements.length = 1) (by decide +kernel)
  obtain ⟨q, hq, hlength'⟩ := exists_of_parse startsWithComment rfl (fun q => q.statements.length = 1) (by decide +kernel)
  exact ⟨p, q, hp, hq, parse_joined hp hq, hlength, hlength'⟩

end CheckedScript.Program
