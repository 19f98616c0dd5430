import CheckedScript.Proofs.Joining

/-! What the tokens of a source cover. A source that can be scanned is made of tokens with gaps around them: white space and
complete comments. Each token is the longest that starts at its place. A source that cannot be scanned has a place up to
which it can, and where nothing starts. -/

namespace CheckedScript.Token

/-- The characters from one offset up to another. -/
def slice (cs : List Char) (start stop : Nat) : List Char := (cs.drop start).take (stop - start)

/-- A text that tokens of some kind have: an operator, a keyword, a name, a number or a quoted text. -/
def IsLexeme (w : List Char) : Prop := ∃ k, Lexical ⟨k, String.ofList w, 0, 0⟩

/-- White space and complete comments, one after the other, with `rest` behind them. A line comment goes up to the end of its
line or of the source, and a block comment up to the first mark that ends it. -/
inductive Gap (rest : List Char) : List Char → Prop where
  | none : Gap rest []
  | space {c cs} (hc : Lexeme.isSpace c = true) (h : Gap rest cs) : Gap rest (c :: cs)
  | line {body cs} (hbody : '\n' ∉ body) (hend : ∀ c ∈ (cs ++ rest).head?, c = '\n') (h : Gap rest cs) :
      Gap rest ('/' :: '/' :: (body ++ cs))
  | block {body cs} (hbody : ¬['*', '/'] <:+: body ++ ['*']) (h : Gap rest cs) :
      Gap rest ('/' :: '*' :: (body ++ '*' :: '/' :: cs))

theorem Gap.append {rest g h : List Char} (hg : Gap (h ++ rest) g) (hh : Gap rest h) : Gap rest (g ++ h) := by
  induction hg with
  | none => exact hh
  | space hc _ ih => exact .space hc ih
  | @line body cs hbody hend _ ih =>
    rw [List.cons_append, List.cons_append, List.append_assoc]
    exact .line hbody (by rwa [List.append_assoc]) ih
  | @block body cs hbody _ ih =>
    rw [List.cons_append, List.cons_append, List.append_assoc, List.cons_append, List.cons_append]
    exact .block hbody ih

/-- White space alone. -/
theorem gap_of_spaces {rest g : List Char} (hg : ∀ c ∈ g, Lexeme.isSpace c = true) : Gap rest g := by
  induction g with
  | nil => exact .none
  | cons c cs ih => exact .space (hg c (.head _)) (ih fun d hd => hg d (.tail _ hd))

/-- Where the gaps are: from the offset to the first token, from each token to the next, and from the last one to the end. -/
def gaps (start stop : Nat) (ts : List Token) : List (Nat × Nat) :=
  (start :: ts.map Token.stop).zip (ts.map Token.start ++ [stop])

/-- The tokens are those of the source from an offset on: they follow one another, each is the longest at its place, and between
them there are gaps only. -/
structure Covers (source : List Char) (start : Nat) (ts : List Token) : Prop where
  ordered : ts.Pairwise fun a b => a.stop ≤ b.start
  inside : ∀ t ∈ ts, start ≤ t.start ∧ t.start < t.stop ∧ t.stop ≤ source.length
  texts : ∀ t ∈ ts, t.text = String.ofList (slice source t.start t.stop)
  longest : ∀ t ∈ ts, t.Lexical ∧ ∀ w, w <+: source.drop t.start → IsLexeme w → w.length ≤ t.stop - t.start
  gaps : ∀ g ∈ Token.gaps start source.length ts, Gap (source.drop g.2) (slice source g.1 g.2)

/-- Neither a token nor a gap starts here. -/
structure NothingStarts (cs : List Char) : Prop where
  token : ∀ w, w <+: cs → ¬IsLexeme w
  gap : ∀ g rest, cs = g ++ rest → Gap rest g → g = []

namespace Lexeme

theorem first?_eq_or (cs : List Char) : first? cs =
    (stringLit? cs).or ((blockComment? cs).or ((word? cs).or ((space? cs).or ((numberLit? cs).or
      ((lineComment? cs).or ((pair? cs).or (single? cs))))))) := by
  simp only [first?, HOrElse.hOrElse, OrElse.orElse, Option.orElse_eq_or]

section Local

variable {r r' : List Char → Option Lexeme} {p q : Char → Bool}

/-- What the rule makes of a text it makes of every text that goes on behind it, unless it goes on as well. -/
def Local (r : List Char → Option Lexeme) : Prop :=
  ∀ u v, r (u ++ v) = r u ∨ ∃ l, r (u ++ v) = some l ∧ u.length < l.length

theorem Local.or (h : Local r) (h' : Local r') : Local fun cs => (r cs).or (r' cs) := by
  intro u v
  dsimp only
  rcases h u v with hsame | ⟨l, hl, hlong⟩
  · rw [hsame]
    cases r u with
    | some l => exact .inl rfl
    | none => exact h' u v
  · rw [hl]
    exact .inr ⟨l, rfl, hlong⟩

theorem takeWhile_local (p : Char → Bool) (u v : List Char) :
    (u ++ v).takeWhile p = u.takeWhile p ∨ u.length < ((u ++ v).takeWhile p).length := by
  rw [List.takeWhile_append]
  split
  · rename_i hall
    cases hv : v.takeWhile p with
    | nil =>
      rw [List.append_nil]
      exact .inl ((List.takeWhile_prefix p).eq_of_length hall).symm
    | cons c cs =>
      refine .inr ?_
      simp only [List.length_append, List.length_cons]
      omega
  · exact .inl rfl

/-- Where a run ends inside of a text, what follows the run is the rest of the text. -/
theorem dropWhile_of_local {u v : List Char} (h : (u ++ v).takeWhile p = u.takeWhile p) :
    (u ++ v).dropWhile p = u.dropWhile p ++ v := by
  have hall : (u ++ v).takeWhile p ++ (u ++ v).dropWhile p = (u ++ v).takeWhile p ++ (u.dropWhile p ++ v) := by
    rw [List.takeWhile_append_dropWhile, h, ← List.append_assoc, List.takeWhile_append_dropWhile]
  exact List.append_cancel_left hall

theorem length_run (p : Char → Bool) (u : List Char) : (u.takeWhile p).length + (u.dropWhile p).length = u.length := by
  rw [← List.length_append, List.takeWhile_append_dropWhile]

theorem stringLit?_local : Local stringLit? := by
  intro u v
  obtain _ | ⟨c, rest⟩ := u
  · cases hv : stringLit? v with
    | none => exact .inl hv
    | some l => exact .inr ⟨l, hv, first?_pos (by rw [first?_eq_or, hv]; rfl)⟩
  · by_cases hc : c = '\''
    · subst hc
      by_cases hrest : rest.dropWhile Literal.isSafe = []
      · have hshort : stringLit? ('\'' :: rest) = none := by simp [stringLit?, hrest]
        cases hlong : stringLit? ('\'' :: (rest ++ v)) with
        | none => exact .inl (hlong.trans hshort.symm)
        | some l =>
          refine .inr ⟨l, hlong, ?_⟩
          have hsafe := length_run Literal.isSafe rest
          rw [hrest] at hsafe
          have hrun : (rest ++ v).takeWhile Literal.isSafe = rest ++ v.takeWhile Literal.isSafe := by
            rw [List.takeWhile_append, if_pos (by simpa using hsafe)]
          unfold stringLit? at hlong
          split at hlong
          · rename_i heq
            cases heq
            split at hlong
            · cases hlong
              simp only [hrun, List.length_append, List.length_cons]
              omega
            · cases hlong
          · cases hlong
      · exact .inl (stringLit?_append hrest v)
    · simp [stringLit?, hc]

theorem commentLength?_local (u v : List Char) :
    commentLength? (u ++ v) = commentLength? u ∨ ∃ n, commentLength? (u ++ v) = some n ∧ u.length < n := by
  induction u with
  | nil =>
    cases hv : commentLength? v with
    | none => exact .inl hv
    | some n =>
      refine .inr ⟨n, hv, ?_⟩
      unfold commentLength? at hv
      split at hv
      · cases hv
      · cases hv
        exact Nat.succ_pos _
      · obtain ⟨m, -, rfl⟩ := Option.map_eq_some_iff.mp hv
        exact Nat.succ_pos _
  | cons c rest ih =>
    by_cases hclosed : c = '*' ∧ ∃ after, rest = '/' :: after
    · obtain ⟨rfl, after, rfl⟩ := hclosed
      exact .inl rfl
    · by_cases hmark : c = '*' ∧ ∃ after, rest ++ v = '/' :: after
      · obtain ⟨rfl, after, hafter⟩ := hmark
        obtain rfl : rest = [] := by
          cases rest with
          | nil => rfl
          | cons d more =>
            cases hafter
            exact absurd ⟨rfl, more, rfl⟩ hclosed
        refine .inr ⟨2, ?_, by simp⟩
        rw [List.nil_append] at hafter
        simp [hafter, commentLength?]
      · have hlong : commentLength? (c :: (rest ++ v)) = (commentLength? (rest ++ v)).map (· + 1) := by
          rw [commentLength?]
          exact fun after hc hrest => hmark ⟨hc, after, hrest⟩
        have hshort : commentLength? (c :: rest) = (commentLength? rest).map (· + 1) := by
          rw [commentLength?]
          exact fun after hc hrest => hclosed ⟨hc, after, hrest⟩
        rw [List.cons_append, hlong, hshort]
        rcases ih with hsame | ⟨n, hn, hlt⟩
        · exact .inl (by rw [hsame])
        · exact .inr ⟨n + 1, by rw [hn]; rfl, by simpa using hlt⟩

/-- A text that is shorter than anything the rule takes. -/
theorem local_of_short {n : Nat} {u : List Char} (htakes : ∀ cs l, r cs = some l → n ≤ l.length) (hnone : r u = none)
    (hu : u.length < n) (v : List Char) : r (u ++ v) = r u ∨ ∃ l, r (u ++ v) = some l ∧ u.length < l.length := by
  cases hv : r (u ++ v) with
  | none => exact .inl hnone.symm
  | some l => exact .inr ⟨l, rfl, Nat.lt_of_lt_of_le hu (htakes _ l hv)⟩

theorem blockComment?_takes (cs : List Char) (l : Lexeme) (h : blockComment? cs = some l) : 2 ≤ l.length := by
  unfold blockComment? at h
  split at h
  · obtain ⟨n, -, rfl⟩ := Option.map_eq_some_iff.mp h
    exact Nat.le_add_left 2 n
  · cases h

theorem blockComment?_local : Local blockComment? := by
  intro u v
  obtain _ | ⟨c, _ | ⟨d, rest⟩⟩ := u
  · exact local_of_short blockComment?_takes rfl (by simp) v
  · exact local_of_short blockComment?_takes (by simp [blockComment?]) (by simp) v
  · by_cases hcd : c = '/' ∧ d = '*'
    · obtain ⟨rfl, rfl⟩ := hcd
      simp only [List.cons_append, blockComment?]
      rcases commentLength?_local rest v with hsame | ⟨n, hn, hlt⟩
      · exact .inl (by rw [hsame])
      · exact .inr ⟨_, by rw [hn]; rfl, by simpa using hlt⟩
    · have hnone (cs : List Char) : blockComment? (c :: d :: cs) = none := by
        unfold blockComment?
        split
        · rename_i heq
          cases heq
          exact absurd ⟨rfl, rfl⟩ hcd
        · rfl
      exact .inl ((hnone _).trans (hnone rest).symm)

theorem lineComment?_takes (cs : List Char) (l : Lexeme) (h : lineComment? cs = some l) : 2 ≤ l.length := by
  unfold lineComment? at h
  split at h <;> cases h
  exact Nat.le_add_left 2 _

theorem lineComment?_local : Local lineComment? := by
  intro u v
  obtain _ | ⟨c, _ | ⟨d, rest⟩⟩ := u
  · exact local_of_short lineComment?_takes rfl (by simp) v
  · exact local_of_short lineComment?_takes (by simp [lineComment?]) (by simp) v
  · by_cases hcd : c = '/' ∧ d = '/'
    · obtain ⟨rfl, rfl⟩ := hcd
      simp only [List.cons_append, lineComment?]
      rcases takeWhile_local (· ≠ '\n') rest v with hsame | hlong
      · exact .inl (by rw [hsame])
      · exact .inr ⟨_, rfl, by simpa using hlong⟩
    · have hnone (cs : List Char) : lineComment? (c :: d :: cs) = none := by
        unfold lineComment?
        split
        · rename_i heq
          cases heq
          exact absurd ⟨rfl, rfl⟩ hcd
        · rfl
      exact .inl ((hnone _).trans (hnone rest).symm)

theorem word?_local : Local word? := by
  intro u v
  unfold word?
  dsimp only
  rcases takeWhile_local Literal.isNameStart u v with hsame | hlong
  · rw [dropWhile_of_local hsame, hsame]
    split
    · exact .inl rfl
    · rcases takeWhile_local Char.isDigit (u.dropWhile Literal.isNameStart) v with hdigits | hlong
      · exact .inl (by rw [hdigits])
      · refine .inr ⟨_, rfl, ?_⟩
        have hlength := length_run Literal.isNameStart u
        simp only [List.length_append]
        omega
  · refine .inr ⟨_, if_neg ?_, ?_⟩
    · intro hnone
      rw [List.isEmpty_iff.mp hnone] at hlong
      exact Nat.not_lt_zero _ hlong
    · simp only [List.length_append]
      omega

theorem space?_local : Local space? := by
  intro u v
  unfold space?
  dsimp only
  rcases takeWhile_local isSpace u v with hsame | hlong
  · exact .inl (by rw [hsame])
  · refine .inr ⟨_, if_neg ?_, hlong⟩
    intro hnone
    rw [List.isEmpty_iff.mp hnone] at hlong
    exact Nat.not_lt_zero _ hlong

/-- A number goes on if its digits do, or if a point with digits is put behind them. -/
theorem numberLit?_local : Local numberLit? := by
  intro u v
  rw [numberLit?_eq, numberLit?_eq]
  rcases takeWhile_local Text.isDigit u v with hsame | hlong
  · have hrest := dropWhile_of_local hsame
    have hlength := length_run Text.isDigit u
    rw [hsame]
    split
    · exact .inl rfl
    · have hfraction : fraction (u ++ v) = fraction u ∨ u.length < (u.takeWhile Text.isDigit).length +
          (if (fraction (u ++ v)).isEmpty then 0 else (fraction (u ++ v)).length + 1) := by
        unfold fraction
        rw [hrest]
        cases hu : u.dropWhile Text.isDigit with
        | nil =>
          rw [hu, List.length_nil, Nat.add_zero] at hlength
          cases v with
          | nil => exact .inl rfl
          | cons c more =>
            by_cases hc : c = '.'
            · subst hc
              cases hmore : more.takeWhile Text.isDigit with
              | nil => exact .inl (by simpa using hmore)
              | cons d ds =>
                refine .inr ?_
                simp only [List.nil_append, hmore, List.isEmpty_cons, Bool.false_eq_true, if_false, List.length_cons]
                omega
            · exact .inl (by simp [hc])
        | cons c more =>
          by_cases hc : c = '.'
          · subst hc
            rw [hu, List.length_cons] at hlength
            rcases takeWhile_local Text.isDigit more v with hdigits | hlong
            · exact .inl (by simpa using hdigits)
            · refine .inr ?_
              cases hboth : (more ++ v).takeWhile Text.isDigit with
              | nil =>
                rw [hboth] at hlong
                exact absurd hlong (Nat.not_lt_zero _)
              | cons d ds =>
                rw [hboth] at hlong
                simp only [List.cons_append, hboth, List.isEmpty_cons, Bool.false_eq_true, if_false]
                omega
          · exact .inl (by simp [hc])
      rcases hfraction with hf | hf
      · exact .inl (by rw [hf])
      · exact .inr ⟨_, rfl, hf⟩
  · refine .inr ⟨_, if_neg ?_, Nat.lt_of_lt_of_le hlong (Nat.le_add_right _ _)⟩
    intro hnone
    rw [List.isEmpty_iff.mp hnone] at hlong
    exact Nat.not_lt_zero _ hlong

theorem pair?_local : Local pair? := by
  have htakes (cs : List Char) (l : Lexeme) (h : pair? cs = some l) : 2 ≤ l.length := by
    unfold pair? at h
    split at h
    · obtain ⟨k, -, rfl⟩ := Option.map_eq_some_iff.mp h
      exact Nat.le_refl 2
    · cases h
  intro u v
  obtain _ | ⟨c, _ | ⟨d, rest⟩⟩ := u
  · exact local_of_short htakes rfl (by simp) v
  · exact local_of_short htakes rfl (by simp) v
  · exact .inl rfl

theorem single?_local : Local single? := by
  have htakes (cs : List Char) (l : Lexeme) (h : single? cs = some l) : 1 ≤ l.length := by
    unfold single? at h
    split at h
    · obtain ⟨k, -, rfl⟩ := Option.map_eq_some_iff.mp h
      exact Nat.le_refl 1
    · cases h
  intro u v
  obtain _ | ⟨c, rest⟩ := u
  · exact local_of_short htakes rfl (by simp) v
  · exact .inl rfl

theorem first?_local : Local first? := by
  have h := stringLit?_local.or (blockComment?_local.or (word?_local.or (space?_local.or (numberLit?_local.or
    (lineComment?_local.or (pair?_local.or single?_local))))))
  intro u v
  rw [first?_eq_or, first?_eq_or]
  exact h u v

/-- A lexeme does not depend on what comes after it. -/
theorem first?_of_append {u v : List Char} {l : Lexeme} (h : first? (u ++ v) = some l) (hl : l.length ≤ u.length) :
    first? u = some l := by
  rcases first?_local u v with hsame | ⟨l', hl', hlong⟩
  · exact hsame.symm.trans h
  · rw [h] at hl'
    cases hl'
    exact absurd hlong (Nat.not_lt_of_le hl)

end Local

section Whole

variable {w : List Char}

/-- The text of a keyword, an operator or a sign. -/
theorem symbol?_cases {k : Kind} {s : String} (h : k.symbol? = some s) :
    Literal.isName s.toList = true ∨ (∃ c d, s.toList = [c, d] ∧ Kind.ofPair? c d = some k) ∨
      ∃ c, s.toList = [c] ∧ Kind.ofChar? c = some k := by
  cases k <;> cases h <;>
    first
    | exact .inl (by decide)
    | exact .inr (.inl ⟨_, _, rfl, rfl⟩)
    | exact .inr (.inr ⟨_, rfl, rfl⟩)

/-- The rules take all of the text. -/
def Whole (w : List Char) : Prop := (first? w).map Lexeme.length = some w.length

theorem whole_of_isName (hw : Literal.isName w = true) : Whole w := by
  obtain ⟨hletters, hdigits⟩ := Bool.and_eq_true_iff.mp hw
  have hall : (w.dropWhile Literal.isNameStart).takeWhile Char.isDigit = w.dropWhile Literal.isNameStart :=
    List.takeWhile_eq_self_iff.mpr (List.all_eq_true.mp hdigits)
  have hword : word? w = some ⟨some ((Kind.ofKeyword? (String.ofList w)).getD .name), w.length⟩ := by
    unfold word?
    dsimp only
    rw [hall, List.takeWhile_append_dropWhile, if_neg (by simpa using hletters)]
  obtain _ | ⟨c, rest⟩ := w
  · cases hletters
  have hc : Literal.isNameStart c = true := by
    cases hstart : Literal.isNameStart c with
    | true => rfl
    | false => simp [hstart] at hletters
  have hother : c ≠ '\'' ∧ c ≠ '/' := by
    constructor <;>
    · rintro rfl
      exact absurd hc (by decide)
  rw [Whole, first?_eq_or, hword]
  simp [stringLit?, blockComment?, hother]

theorem whole_of_isDecimal (hw : Literal.isDecimal w = true) : Whole w := by
  obtain ⟨c, rest, hcs, hc⟩ := Literal.head_of_isDecimal hw
  have hother : c ≠ '\'' ∧ c ≠ '/' ∧ isSpace c = false := by
    refine ⟨?_, ?_, ?_⟩
    · rintro rfl
      exact absurd hc (by decide)
    · rintro rfl
      exact absurd hc (by decide)
    · cases hspace : isSpace c with
      | false => rfl
      | true =>
        have hblank : c = ' ' ∨ c = '\t' ∨ c = '\x0c' ∨ c = '\r' ∨ c = '\n' := by simpa [isSpace] using hspace
        rcases hblank with rfl | rfl | rfl | rfl | rfl <;> exact absurd hc (by decide)
  have hnumber : numberLit? w = some ⟨some .numberLit, w.length⟩ := by
    obtain ⟨hdigits, hrest⟩ := Bool.and_eq_true_iff.mp hw
    have hlength := length_run Text.isDigit w
    rw [numberLit?_eq, if_neg (by simpa using hdigits)]
    unfold fraction
    cases hdrop : w.dropWhile Text.isDigit with
    | nil =>
      rw [hdrop] at hlength
      simpa using hlength
    | cons d fraction =>
      by_cases hd : d = '.'
      · subst hd
        rw [hdrop] at hlength hrest
        obtain ⟨hsome, hall⟩ := Bool.and_eq_true_iff.mp hrest
        have htake := List.takeWhile_eq_self_iff.mpr (List.all_eq_true.mp hall)
        simp only [htake]
        rw [if_neg (by simpa using hsome)]
        simpa using hlength
      · rw [hdrop] at hrest
        simp [hd] at hrest
  have hname := Literal.not_isNameStart hc
  rw [Whole, first?_eq_or, hnumber, hcs]
  simp [stringLit?, blockComment?, word?, space?, hother, hname]

theorem whole_of_isString (hw : Literal.isString w = true) : Whole w := by
  unfold Literal.isString at hw
  split at hw
  · rename_i rest
    obtain ⟨hlast, hsafe⟩ := Bool.and_eq_true_iff.mp hw
    obtain ⟨body, rfl⟩ := List.getLast?_eq_some_iff.mp (beq_iff_eq.mp hlast)
    rw [List.dropLast_concat] at hsafe
    have hall := List.all_eq_true.mp hsafe
    have hquote : Literal.isSafe '\'' = false := by decide
    rw [Whole, first?_quote, stringLit?, List.dropWhile_append_of_pos hall, List.takeWhile_append_of_pos hall]
    simp [hquote]
  · cases hw

/-- A name or a keyword, an operator, a sign, a number or a quoted text. -/
theorem isLexeme_cases (h : IsLexeme w) : Literal.isName w = true ∨ (∃ c d k, w = [c, d] ∧ Kind.ofPair? c d = some k) ∨
    (∃ c k, w = [c] ∧ Kind.ofChar? c = some k) ∨ Literal.isDecimal w = true ∨ Literal.isString w = true := by
  obtain ⟨k, hk⟩ := h
  have htext : (String.ofList w).toList = w := String.toList_ofList
  cases hs : k.symbol? with
  | some s =>
    have hw : w = s.toList := by rw [← hk.faithful s hs, htext]
    rcases symbol?_cases hs with hname | ⟨c, d, hcd, hpair⟩ | ⟨c, hc, hchar⟩
    · exact .inl (hw ▸ hname)
    · exact .inr (.inl ⟨c, d, k, hw.trans hcd, hpair⟩)
    · exact .inr (.inr (.inl ⟨c, k, hw.trans hc, hchar⟩))
  | none =>
    have hkind : k = .name ∨ k = .numberLit ∨ k = .stringLit := by
      have hending := hk.exists_kind
      cases k <;> simp_all [Kind.symbol?]
    rcases hkind with hname | hnumber | hstring
    · exact .inl (by simpa [htext] using (hk.name hname).1)
    · exact .inr (.inr (.inr (.inl (by simpa [htext] using hk.number hnumber))))
    · exact .inr (.inr (.inr (.inr (by simpa [htext] using hk.string hstring))))

theorem whole_of_isLexeme (h : IsLexeme w) : Whole w := by
  rcases isLexeme_cases h with hname | ⟨c, d, k, rfl, hpair⟩ | ⟨c, k, rfl, hchar⟩ | hnumber | hstring
  · exact whole_of_isName hname
  · unfold Kind.ofPair? at hpair
    split at hpair <;> cases hpair <;> rfl
  · unfold Kind.ofChar? at hchar
    split at hchar <;> cases hchar <;> rfl
  · exact whole_of_isDecimal hnumber
  · exact whole_of_isString hstring

/-- Where a text that tokens have stands, as much as that text is taken. -/
theorem first?_reaches {cs : List Char} (hw : IsLexeme w) (h : w <+: cs) : ∃ l, first? cs = some l ∧ w.length ≤ l.length := by
  obtain ⟨t, rfl⟩ := h
  obtain ⟨l, hl, hlength⟩ := Option.map_eq_some_iff.mp (whole_of_isLexeme hw)
  rcases first?_local w t with hsame | ⟨l, hl, hlong⟩
  · exact ⟨l, hsame.trans hl, Nat.le_of_eq hlength.symm⟩
  · exact ⟨l, hl, Nat.le_of_lt hlong⟩

end Whole

section Gaps

variable {cs : List Char}

theorem commentLength?_eq_some {n : Nat} (h : commentLength? cs = some n) :
    ∃ body after, cs = body ++ '*' :: '/' :: after ∧ n = body.length + 2 ∧ ¬['*', '/'] <:+: body ++ ['*'] := by
  fun_induction commentLength? cs generalizing n with
  | case1 => cases h
  | case2 rest =>
    cases h
    exact ⟨[], rest, rfl, rfl, by decide⟩
  | case3 c rest hne ih =>
    obtain ⟨m, hm, rfl⟩ := Option.map_eq_some_iff.mp h
    obtain ⟨body, after, rfl, rfl, hbody⟩ := ih hm
    refine ⟨c :: body, after, rfl, rfl, ?_⟩
    intro hinfix
    rcases List.infix_cons_iff.mp hinfix with ⟨more, hmore⟩ | hinfix
    · cases body with
      | nil => cases hmore
      | cons d body =>
        cases hmore
        exact hne _ rfl rfl
    · exact hbody hinfix

theorem commentLength?_ne_none (body after : List Char) : commentLength? (body ++ '*' :: '/' :: after) ≠ none := by
  induction body with
  | nil => simp [commentLength?]
  | cons c body ih =>
    obtain ⟨n, hn⟩ := Option.ne_none_iff_exists'.mp ih
    rw [List.cons_append]
    unfold commentLength?
    split
    · rename_i heq
      cases heq
    · simp
    · rename_i heq
      cases heq
      simp [hn]

/-- What makes no token is a gap. -/
theorem gap_of_first? {n : Nat} (h : first? cs = some ⟨none, n⟩) : Gap (cs.drop n) (cs.take n) := by
  simp only [first?_eq_or, Option.or_eq_some_iff] at h
  rcases h with h | ⟨-, h | ⟨-, h | ⟨-, h | ⟨-, h | ⟨-, h | ⟨-, h | ⟨-, h⟩⟩⟩⟩⟩⟩⟩
  · unfold stringLit? at h
    repeat' split at h
    all_goals cases h
  · unfold blockComment? at h
    split at h
    · obtain ⟨m, hm, heq⟩ := Option.map_eq_some_iff.mp h
      cases heq
      obtain ⟨body, after, rfl, rfl, hbody⟩ := commentLength?_eq_some hm
      have hsplit : '/' :: '*' :: (body ++ '*' :: '/' :: after) = '/' :: '*' :: (body ++ ['*', '/']) ++ after := by simp
      have hlength : body.length + 2 + 2 = ('/' :: '*' :: (body ++ ['*', '/'])).length := by simp
      rw [hsplit, hlength, List.take_left, List.drop_left]
      exact .block hbody .none
    · cases h
  · simp only [word?] at h
    split at h <;> cases h
  · simp only [space?] at h
    split at h
    · cases h
    · cases h
      rw [← List.prefix_iff_eq_take.mp (List.takeWhile_prefix isSpace)]
      exact gap_of_spaces all_run
  · rw [numberLit?_eq] at h
    split at h <;> cases h
  · unfold lineComment? at h
    split at h
    · rename_i rest
      cases h
      have hsplit : '/' :: '/' :: rest = '/' :: '/' :: (rest.takeWhile (· ≠ '\n')) ++ rest.dropWhile (· ≠ '\n') := by
        rw [List.cons_append, List.cons_append, List.takeWhile_append_dropWhile]
      have hlength : (rest.takeWhile (· ≠ '\n')).length + 2 = ('/' :: '/' :: rest.takeWhile (· ≠ '\n')).length := rfl
      rw [hsplit, hlength, List.take_left, List.drop_left, ← List.append_nil (rest.takeWhile _)]
      refine .line ?_ ?_ .none
      · intro hmem
        simpa using all_run _ hmem
      · intro c hc
        have hnewline := List.head?_dropWhile_not (· ≠ '\n') rest
        rw [List.nil_append, Option.mem_def] at hc
        rw [hc] at hnewline
        simpa using hnewline
    · cases h
  · unfold pair? at h
    split at h
    · obtain ⟨k, -, heq⟩ := Option.map_eq_some_iff.mp h
      cases heq
    · cases h
  · unfold single? at h
    split at h
    · obtain ⟨k, -, heq⟩ := Option.map_eq_some_iff.mp h
      cases heq
    · cases h

/-- Where no rule matches, no gap begins. -/
theorem eq_nil_of_gap {g rest : List Char} (hg : Gap rest g) (h : first? (g ++ rest) = none) : g = [] := by
  simp only [first?_eq_or, Option.or_eq_none_iff] at h
  obtain ⟨-, hblock, -, hspace, -, hline, -⟩ := h
  cases hg with
  | none => rfl
  | space hc _ => simp [space?, hc] at hspace
  | line _ _ _ => simp [lineComment?] at hline
  | @block body cs _ _ =>
    simp only [List.cons_append, List.append_assoc, blockComment?, Option.map_eq_none_iff] at hblock
    exact absurd hblock (commentLength?_ne_none body (cs ++ rest))

theorem nothingStarts_of_first? (h : first? cs = none) : NothingStarts cs := by
  refine ⟨fun w hw hlexeme => ?_, ?_⟩
  · obtain ⟨l, hl, -⟩ := first?_reaches hlexeme hw
    rw [h] at hl
    cases hl
  · rintro g rest rfl hg
    exact eq_nil_of_gap hg h

end Gaps
end Lexeme

section Slices

variable {source : List Char} {start middle stop : Nat}

theorem slice_append (h : start ≤ middle) (h' : middle ≤ stop) :
    slice source start middle ++ slice source middle stop = slice source start stop := by
  obtain ⟨i, rfl⟩ := Nat.exists_eq_add_of_le h
  obtain ⟨j, rfl⟩ := Nat.exists_eq_add_of_le h'
  have hboth : start + i + j - start = i + j := by omega
  rw [slice, slice, slice, Nat.add_sub_cancel_left, Nat.add_sub_cancel_left, hboth, List.take_add, List.drop_drop]

theorem slice_drop (h : start ≤ stop) : slice source start stop ++ source.drop stop = source.drop start := by
  obtain ⟨i, rfl⟩ := Nat.exists_eq_add_of_le h
  rw [slice, Nat.add_sub_cancel_left, ← List.drop_drop, List.take_append_drop]

theorem slice_self : slice source start start = [] := by simp [slice]

end Slices

namespace Covers

variable {source : List Char} {start stop : Nat} {t : Token} {ts : List Token}

theorem nil (source : List Char) : Covers source source.length [] := by
  refine ⟨.nil, by simp, by simp, by simp, ?_⟩
  simp [Token.gaps, slice_self, Gap.none]

/-- A gap before the rest. -/
theorem gap (h : Covers source stop ts) (hstart : start ≤ stop) (hstop : stop ≤ source.length)
    (hgap : Gap (source.drop stop) (slice source start stop)) : Covers source start ts := by
  have hwider {next : Nat} (hnext : stop ≤ next) (hg : Gap (source.drop next) (slice source stop next)) :
      Gap (source.drop next) (slice source start next) := by
    rw [← slice_append hstart hnext]
    exact Gap.append (by rwa [slice_drop hnext]) hg
  refine ⟨h.ordered, fun t ht => ?_, h.texts, h.longest, ?_⟩
  · obtain ⟨hfirst, hinside⟩ := h.inside t ht
    exact ⟨Nat.le_trans hstart hfirst, hinside⟩
  · have hgaps := h.gaps
    cases ts with
    | nil =>
      simp only [Token.gaps, List.map_nil, List.nil_append, List.zip_cons_cons, List.zip_nil_right, List.mem_singleton,
        forall_eq] at hgaps ⊢
      exact hwider hstop hgaps
    | cons t ts =>
      simp only [Token.gaps, List.map_cons, List.cons_append, List.zip_cons_cons, List.forall_mem_cons] at hgaps ⊢
      exact ⟨hwider (h.inside t (.head _)).1 hgaps.1, hgaps.2⟩

/-- A token before the rest. -/
theorem cons (h : Covers source t.stop ts) (hinside : t.start < t.stop ∧ t.stop ≤ source.length)
    (htext : t.text = String.ofList (slice source t.start t.stop)) (hlexical : t.Lexical)
    (hlongest : ∀ w, w <+: source.drop t.start → IsLexeme w → w.length ≤ t.stop - t.start) :
    Covers source t.start (t :: ts) := by
  refine ⟨?_, ?_, ?_, ?_, ?_⟩
  · exact List.pairwise_cons.mpr ⟨fun t' ht' => (h.inside t' ht').1, h.ordered⟩
  · refine List.forall_mem_cons.mpr ⟨⟨Nat.le_refl _, hinside⟩, fun t' ht' => ?_⟩
    obtain ⟨hfirst, hinside'⟩ := h.inside t' ht'
    exact ⟨Nat.le_trans (Nat.le_of_lt hinside.1) hfirst, hinside'⟩
  · exact List.forall_mem_cons.mpr ⟨htext, h.texts⟩
  · exact List.forall_mem_cons.mpr ⟨⟨hlexical, hlongest⟩, h.longest⟩
  · simp only [Token.gaps, List.map_cons, List.cons_append, List.zip_cons_cons, List.forall_mem_cons]
    exact ⟨by rw [slice_self]; exact .none, h.gaps⟩

end Covers

/-- From lexeme to lexeme, a scan that ends well covers what is left of the source. -/
theorem scanFrom_covers (source : List Char) (start : Nat) (hstart : start ≤ source.length)
    (h : (scanFrom start 0 (source.drop start)).error = none) :
    Covers source start (scanFrom start 0 (source.drop start)).tokens := by
  by_cases hend : source.drop start = []
  · obtain rfl : start = source.length := Nat.le_antisymm hstart (List.drop_eq_nil_iff.mp hend)
    rw [hend]
    exact .nil source
  · cases hl : Lexeme.first? (source.drop start) with
    | none =>
      obtain ⟨c, rest, hcs⟩ := List.exists_cons_of_ne_nil hend
      rw [hcs] at h hl
      simp [scanFrom, hl] at h
    | some l =>
      have hpos := Lexeme.first?_pos hl
      have hlength : l.length ≤ source.length - start := by
        rw [← List.length_drop]
        exact Lexeme.first?_length hl
      have hslice : slice source start (start + l.length) = (source.drop start).take l.length := by
        rw [slice, Nat.add_sub_cancel_left]
      rw [scanFrom_step hend hl, List.drop_drop] at h ⊢
      have hstop : start + l.length ≤ source.length := by omega
      have hrest := scanFrom_covers source (start + l.length) hstop h
      obtain ⟨_ | k, n⟩ := l
      · refine hrest.gap (Nat.le_add_right _ _) hstop ?_
        have hgap := Lexeme.gap_of_first? hl
        rwa [List.drop_drop, ← hslice] at hgap
      · refine Covers.cons (t := ⟨k, _, start, start + n⟩) hrest ⟨by simpa using hpos, hstop⟩ (by rw [hslice])
          (Lexeme.first?_proper hl k start (start + n) rfl) ?_
        intro w hw hlexeme
        obtain ⟨l', hl', hle⟩ := Lexeme.first?_reaches hlexeme hw
        rw [hl] at hl'
        cases hl'
        simpa using hle
termination_by source.length - start

/-- A scan that ends badly ends well on what comes before the place where it is stuck. -/
theorem scanFrom_stuck {start : Nat} {cs : List Char} {e : Error} (h : (scanFrom start 0 cs).error = some e) :
    ∃ front c rest, cs = front ++ c :: rest ∧ Lexeme.first? (c :: rest) = none ∧
      e = ⟨.noToken c, .ofOffsets (start + front.length : Nat) (start + front.length + 1 : Nat)⟩ ∧
      scanFrom start 0 front = ⟨(scanFrom start 0 cs).tokens, none⟩ := by
  by_cases hcs : cs = []
  · rw [hcs] at h
    cases h
  · cases hl : Lexeme.first? cs with
    | none =>
      obtain ⟨c, rest, rfl⟩ := List.exists_cons_of_ne_nil hcs
      simp only [scanFrom, hl] at h ⊢
      cases h
      exact ⟨[], c, rest, rfl, hl, rfl, rfl⟩
    | some l =>
      have hpos := Lexeme.first?_pos hl
      have hlength := Lexeme.first?_length hl
      rw [scanFrom_step hcs hl] at h ⊢
      obtain ⟨front, d, more, hsplit, hnone, he, hfront⟩ := scanFrom_stuck h
      have hall : cs = (cs.take l.length ++ front) ++ d :: more := by
        rw [List.append_assoc, ← hsplit, List.take_append_drop]
      have htake : (cs.take l.length).length = l.length := by rw [List.length_take, Nat.min_eq_left hlength]
      refine ⟨cs.take l.length ++ front, d, more, hall, hnone, ?_, ?_⟩
      · rw [he, List.length_append, htake, Nat.add_assoc]
      · have hfirst : Lexeme.first? (cs.take l.length ++ front) = some l := by
          rw [hall] at hl
          exact Lexeme.first?_of_append hl (by simp [htake])
        have hdrop : (cs.take l.length ++ front).drop l.length = front := List.drop_left' htake
        have htokens : l.tokens start (cs.take l.length ++ front) = l.tokens start cs := by
          rw [Lexeme.tokens_append (Nat.le_of_eq htake.symm), Lexeme.tokens, Lexeme.tokens, List.take_take, Nat.min_self]
        have hne : cs.take l.length ++ front ≠ [] := by
          intro hnil
          rw [hnil] at hfirst
          cases hfirst
        rw [scanFrom_step hne hfirst, hdrop, hfront, htokens]
        rfl
termination_by cs.length
decreasing_by
  rw [List.length_drop]
  omega

/-- What there is to say about the tokens of a source, or about the error in their place. -/
inductive Scanned (source : List Char) : Except Failure (List Token) → Prop where
  | covered {ts} (h : Covers source 0 ts) : Scanned source (.ok ts)
  | stuck {p c ts} (hc : source[p]? = some c) (hfront : tokenize (String.ofList (source.take p)) = .ok ts)
      (hstuck : NothingStarts (source.drop p)) :
      Scanned source (.error (.error ⟨.noToken c, .ofOffsets p (p + 1)⟩))

/-- The tokens of a source cover it, or the source has a place up to which it has tokens and where nothing starts. -/
theorem tokenize_scanned (source : String) : Scanned source.toList (tokenize source) := by
  unfold tokenize
  dsimp only
  cases he : (scan source).error with
  | none => exact .covered (scanFrom_covers source.toList 0 (Nat.zero_le _) he)
  | some e =>
    obtain ⟨front, c, rest, hsplit, hnone, rfl, hfront⟩ := scanFrom_stuck he
    rw [Nat.zero_add]
    have htake : source.toList.take front.length = front := by rw [hsplit, List.take_left]
    have hdrop : source.toList.drop front.length = c :: rest := by rw [hsplit, List.drop_left]
    have hbefore : tokenize (String.ofList (source.toList.take front.length)) = .ok (scan source).tokens := by
      rw [htake, tokenize, scan, String.toList_ofList, hfront]
      rfl
    refine .stuck ?_ hbefore ?_
    · simp [hsplit]
    · rw [hdrop]
      exact Lexeme.nothingStarts_of_first? hnone

end CheckedScript.Token
