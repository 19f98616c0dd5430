import CheckedScript.Proofs.Dividing
import CheckedScript.Proofs.Places
import CheckedScript.Text.Blank

/-! How texts end. A text that ends with its line ends between two lexemes, or inside of a quoted text or a comment that is
not closed yet, or behind a character that no token starts with. From this it follows what becomes of a line that comes next:
a comment between lexemes and a line in a comment leave no token, and behind a character that ends the scan nothing is
read. -/

namespace CheckedScript.Token

open Grammar (Opens)

/-- How a text ends. -/
inductive Ending where
  | between
  | quote
  | comment
  | stuck
deriving DecidableEq, Repr

namespace Lexeme

/-- Does a quoted text start here that has no end yet? -/
def opensQuote : List Char → Bool
  | '\'' :: rest => rest.all Literal.isSafe
  | _ => false

/-- Does a comment start here that has no end yet? -/
def opensComment : List Char → Bool
  | '/' :: '*' :: rest => (commentLength? rest).isNone
  | _ => false

end Lexeme

/-- How a text ends the first `taken` characters of which belong to a lexeme that was read before. -/
def endingFrom : (taken : Nat) → List Char → Ending
  | _, [] => .between
  | taken + 1, _ :: rest => endingFrom taken rest
  | 0, c :: rest =>
    if Lexeme.opensQuote (c :: rest) then .quote
    else if Lexeme.opensComment (c :: rest) then .comment
    else match Lexeme.first? (c :: rest) with
      | none => .stuck
      | some l => endingFrom (l.length - 1) rest

theorem endingFrom_drop (taken : Nat) (cs : List Char) : endingFrom taken cs = endingFrom 0 (cs.drop taken) := by
  induction taken generalizing cs with
  | zero => rfl
  | succ taken ih =>
    cases cs with
    | nil => rfl
    | cons c rest => exact ih rest

theorem endingFrom_step {cs : List Char} {l : Lexeme} (hcs : cs ≠ []) (hquote : Lexeme.opensQuote cs = false)
    (hcomment : Lexeme.opensComment cs = false) (h : Lexeme.first? cs = some l) :
    endingFrom 0 cs = endingFrom 0 (cs.drop l.length) := by
  obtain ⟨c, rest, rfl⟩ := List.exists_cons_of_ne_nil hcs
  obtain ⟨n, hn⟩ := Nat.exists_eq_succ_of_ne_zero (Lexeme.first?_pos h).ne'
  simp only [endingFrom, hquote, hcomment, h, Bool.false_eq_true, if_false, hn, Nat.succ_sub_one, Nat.succ_eq_add_one,
    List.drop_succ_cons]
  exact endingFrom_drop n rest

theorem endingFrom_spaces {c : Char} (hc : Lexeme.isSpace c = true) (t : List Char) :
    endingFrom 0 (c :: t) = endingFrom 0 (t.drop (t.takeWhile Lexeme.isSpace).length) := by
  have hne : c ≠ '\'' ∧ c ≠ '/' := by
    have hblank : c = ' ' ∨ c = '\t' ∨ c = '\x0c' ∨ c = '\r' ∨ c = '\n' := by simpa [Lexeme.isSpace] using hc
    rcases hblank with rfl | rfl | rfl | rfl | rfl <;> decide
  rw [endingFrom_step (List.cons_ne_nil c t) (by simp [Lexeme.opensQuote, hne.1])
    (by simp [Lexeme.opensComment, hne.2]) (Lexeme.first?_space hc t)]
  rfl

/-- White space is passed over. -/
theorem endingFrom_space {c : Char} (hc : Lexeme.isSpace c = true) (t : List Char) :
    endingFrom 0 (c :: t) = endingFrom 0 t := by
  rw [endingFrom_spaces hc]
  cases t with
  | nil => rfl
  | cons d rest =>
    cases hd : Lexeme.isSpace d with
    | false => simp [hd]
    | true =>
      rw [endingFrom_spaces hd]
      simp [hd]

/-- The text has no last line that is cut off. -/
def Lined (cs : List Char) : Prop := cs = [] ∨ ∃ u, cs = u ++ ['\n']

theorem Lined.drop {cs : List Char} (h : Lined cs) (n : Nat) : Lined (cs.drop n) := by
  rcases h with rfl | ⟨u, rfl⟩
  · exact .inl (List.drop_nil)
  · by_cases hn : n ≤ u.length
    · exact .inr ⟨u.drop n, List.drop_append_of_le_length hn⟩
    · exact .inl (List.drop_eq_nil_of_le (by simp; omega))

namespace Lexeme

/-- Only a quoted text that has no end yet can end behind the line. -/
theorem stringLit?_behind {cs : List Char} (h : opensQuote cs = false) (hcs : cs ≠ []) (t : List Char) :
    stringLit? (cs ++ t) = stringLit? cs := by
  obtain ⟨c, rest, rfl⟩ := List.exists_cons_of_ne_nil hcs
  by_cases hc : c = '\''
  · subst hc
    refine stringLit?_append (fun hnil => ?_) t
    have hall : rest.all Literal.isSafe = true := List.all_eq_true.mpr (List.dropWhile_eq_nil_iff.mp hnil)
    rw [opensQuote, hall] at h
    cases h
  · simp [stringLit?, hc]

/-- Where nothing is left open, what a rule takes before the end of a line does not depend on what comes after it. White
space is another matter: it runs on into the next line. -/
theorem first?_behind {c : Char} {tail : List Char} (h : Lined (c :: tail)) (hspace : isSpace c = false)
    (hquote : opensQuote (c :: tail) = false) (hcomment : opensComment (c :: tail) = false) (t : List Char) :
    first? (c :: tail ++ t) = first? (c :: tail) := by
  have hstring := stringLit?_behind hquote (List.cons_ne_nil c tail) t
  obtain ⟨u, hu⟩ := h.resolve_left (List.cons_ne_nil c tail)
  rw [hu] at hstring hcomment ⊢
  have hblank : ¬∀ d ∈ u, isSpace d = true := by
    intro hall
    obtain _ | ⟨d, u⟩ := u <;> cases hu
    · cases hspace
    · rw [hall c (.head _)] at hspace
      cases hspace
  have hclosed : Closed u := by
    refine Closed.of_line fun rest heq hnone => ?_
    simp [heq, opensComment, hnone] at hcomment
  have hne := ne_nil_of_not_blank hblank
  rw [List.append_assoc, List.singleton_append] at hstring ⊢
  simp only [first?, hstring, blockComment?_newline u _ hclosed, word?_newline, space?_newline u _ hblank,
    numberLit?_newline, lineComment?_newline, pair?_newline u _ hne, single?_newline u _ hne]

end Lexeme

/-- What is left of a text where its scan stops short: nothing, or the lexeme that is still open, or the character that is in
the way. -/
def Ending.Rest : Ending → List Char → Prop
  | .between, rest => rest = []
  | .quote, rest => Lexeme.opensQuote rest = true
  | .comment, rest => Lexeme.opensComment rest = true ∧ Lined rest
  | .stuck, rest => rest ≠ [] ∧ ∀ t, Lexeme.first? (rest ++ t) = none

/-- The scan of a text with something behind it, up to where the text alone leaves something open. -/
theorem exists_rest (start : Nat) {cs : List Char} (h : Lined cs) :
    ∃ rest ts offset, (endingFrom 0 cs).Rest rest ∧
      ∀ t, scanFrom start 0 (cs ++ t) = (scanFrom offset 0 (rest ++ t)).before ts := by
  -- by induction on the length, lexeme by lexeme; of white space one character at a time, since it may go on behind the text
  induction hn : cs.length using Nat.strong_induction_on generalizing start cs with
  | _ n ih =>
  subst hn
  obtain _ | ⟨c, tail⟩ := cs
  · exact ⟨[], [], start, rfl, fun t => rfl⟩
  cases hspace : Lexeme.isSpace c with
  | true =>
    have htail : Lined tail := h.drop 1
    obtain ⟨rest, ts, offset, hrest, hscan⟩ := ih _ (by simp) (start + 1) htail rfl
    rw [← endingFrom_space hspace] at hrest
    exact ⟨rest, ts, offset, hrest, fun t => by rw [List.cons_append, scanFrom_space hspace, hscan]⟩
  | false =>
    by_cases hquote : Lexeme.opensQuote (c :: tail) = true
    · exact ⟨c :: tail, [], start, by simp [endingFrom, hquote, Ending.Rest], fun t => rfl⟩
    by_cases hcomment : Lexeme.opensComment (c :: tail) = true
    · exact ⟨c :: tail, [], start, by simpa [endingFrom, hquote, hcomment, Ending.Rest] using h, fun t => rfl⟩
    rw [Bool.not_eq_true] at hquote hcomment
    have hfirst := Lexeme.first?_behind h hspace hquote hcomment
    cases hl : Lexeme.first? (c :: tail) with
    | none =>
      refine ⟨c :: tail, [], start, ?_, fun t => rfl⟩
      simp only [endingFrom, hquote, hcomment, hl, Bool.false_eq_true, if_false]
      exact ⟨List.cons_ne_nil c tail, fun t => (hfirst t).trans hl⟩
    | some l =>
      have hpos := Lexeme.first?_pos hl
      have hlength := Lexeme.first?_length hl
      have hless : (List.drop l.length (c :: tail)).length < (c :: tail).length := by
        rw [List.length_drop, List.length_cons]
        omega
      obtain ⟨rest, ts, offset, hrest, hscan⟩ := ih _ hless (start + l.length) (h.drop l.length) rfl
      rw [← endingFrom_step (List.cons_ne_nil c tail) hquote hcomment hl] at hrest
      refine ⟨rest, l.tokens start (c :: tail) ++ ts, offset, hrest, fun t => ?_⟩
      rw [scanFrom_step (by simp) ((hfirst t).trans hl), List.drop_append_of_le_length hlength, hscan,
        Lexeme.tokens_append hlength, Scan.before_before]

theorem Scan.unplaced_before (s : Scan) (ts : List Token) :
    (s.before ts).unplaced = s.unplaced.before (ts.map Token.unplaced) := by
  simp [Scan.unplaced, Scan.before]

/-- Where a text starts is of no account but for the places. -/
theorem scanFrom_unplaced (start start' taken : Nat) (cs : List Char) :
    (scanFrom start taken cs).unplaced = (scanFrom start' taken cs).unplaced := by
  induction cs generalizing start start' taken with
  | nil => rfl
  | cons c rest ih =>
    cases taken with
    | succ taken => exact ih (start + 1) (start' + 1) taken
    | zero =>
      simp only [scanFrom]
      split
      · rfl
      · exact ih _ _ _
      · rename_i kind n _
        exact congrArg (Scan.cons ⟨kind, String.ofList ((c :: rest).take n), 0, 0⟩) (ih (start + 1) (start' + 1) (n - 1))

theorem opens_unplaced (ts : List Token) : Opens (ts.map unplaced) ↔ Opens ts := by
  induction ts with
  | nil => exact Iff.rfl
  | cons t rest ih =>
    have hnext : Grammar.nextKind (rest.map unplaced) = Grammar.nextKind rest := by cases rest <;> rfl
    simp only [List.map_cons, Opens, ih, hnext, List.map_eq_nil_iff, kind_unplaced]

/-- The scans differ in places only, or in both a slash has something else than a factor behind it, so that both are
refused. -/
def Scan.ReadAlike (s s' : Scan) : Prop := s.unplaced = s'.unplaced ∨ ¬Opens s.tokens ∧ ¬Opens s'.tokens

theorem Scan.ReadAlike.trans {s s' s'' : Scan} (h : s.ReadAlike s') (h' : s'.ReadAlike s'') : s.ReadAlike s'' := by
  have hopens {s s' : Scan} (heq : s.unplaced = s'.unplaced) : Opens s.tokens ↔ Opens s'.tokens := by
    rw [← opens_unplaced s.tokens, ← opens_unplaced s'.tokens]
    exact iff_of_eq (congrArg (fun s : Scan => Opens s.tokens) heq)
  rcases h with heq | ⟨hs, hs'⟩
  · rcases h' with heq' | ⟨hs', hs''⟩
    · exact .inl (heq.trans heq')
    · exact .inr ⟨mt (hopens heq).mp hs', hs''⟩
  · rcases h' with heq' | ⟨-, hs''⟩
    · exact .inr ⟨hs, mt (hopens heq').mpr hs'⟩
    · exact .inr ⟨hs, hs''⟩

theorem Scan.ReadAlike.before {s s' : Scan} (h : s.ReadAlike s') (ts : List Token) :
    (s.before ts).ReadAlike (s'.before ts) := by
  rcases h with heq | ⟨hs, hs'⟩
  · exact .inl (by rw [Scan.unplaced_before, Scan.unplaced_before, heq])
  · exact .inr ⟨mt Grammar.opens_of_append hs, mt Grammar.opens_of_append hs'⟩

namespace Lexeme

/-- A comment that is open at the end of a line is closed where what comes next would close it. -/
theorem commentLength?_behind {cs : List Char} (hnone : commentLength? cs = none) (h : Lined cs) (t : List Char) :
    commentLength? (cs ++ t) = (commentLength? t).map (· + cs.length) := by
  induction cs with
  | nil => simp
  | cons c rest ih =>
    have hstar : ∀ after, c = '*' → rest ++ t = '/' :: after → False := by
      rintro after rfl hafter
      obtain _ | ⟨d, rest⟩ := rest
      · obtain ⟨u, hu⟩ := h.resolve_left (by simp)
        obtain _ | ⟨e, u⟩ := u <;> simp at hu
      · cases hafter
        cases hnone
    have hrest : commentLength? rest = none := by
      cases hr : commentLength? rest with
      | none => rfl
      | some n =>
        rw [commentLength?, hr] at hnone
        · cases hnone
        · intro after hc hafter
          exact hstar (after ++ t) hc (by rw [hafter]; rfl)
    rw [List.cons_append, commentLength?, ih hrest (h.drop 1), Option.map_map]
    · rfl
    · exact hstar

/-- A line comment is taken up to the end of its line. -/
theorem first?_lineComment (rest : List Char) :
    first? ('/' :: '/' :: rest) = some ⟨none, (rest.takeWhile (· ≠ '\n')).length + 2⟩ := by
  have hdigit : Text.isDigit '/' = false := by decide
  have hspace : isSpace '/' = false := by decide
  simp [first?, stringLit?, blockComment?, word?, space?, numberLit?, lineComment?, hdigit, hspace, Literal.isNameStart]

end Lexeme

/-- A comment on a line of its own leaves no token. -/
theorem scanFrom_commentLine (start : Nat) {blanks body : List Char} (hblanks : ∀ c ∈ blanks, Lexeme.isSpace c = true)
    (hbody : '\n' ∉ body) (t : List Char) :
    ∃ offset, scanFrom start 0 (blanks ++ '/' :: '/' :: (body ++ '\n' :: t)) = scanFrom offset 0 t := by
  have hrun : (body ++ '\n' :: t).takeWhile (· ≠ '\n') = body := by
    have hall : ∀ c ∈ body, (decide (c ≠ '\n')) = true := fun c hc => decide_eq_true fun heq => hbody (heq ▸ hc)
    rw [List.takeWhile_append_of_pos hall]
    simp
  have hfirst := Lexeme.first?_lineComment (body ++ '\n' :: t)
  rw [hrun] at hfirst
  rw [scanFrom_blank hblanks, scanFrom_step (List.cons_ne_nil _ _) hfirst]
  simp only [List.drop_succ_cons, List.drop_left', Lexeme.tokens, Option.toList_none, List.map_nil, Scan.before_nil]
  exact ⟨_, scanFrom_space (by decide) t⟩

/-- A comment that is never closed is read as a slash and a star. -/
theorem not_opens_of_comment (start : Nat) {rest : List Char} (h : Lexeme.commentLength? rest = none) :
    ¬Opens (scanFrom start 0 ('/' :: '*' :: rest)).tokens := by
  intro hopens
  obtain ⟨k, hk, n, hstar⟩ := first?_star rest
  rw [scanFrom_step (List.cons_ne_nil _ _) (first?_slash h), List.drop_succ_cons, List.drop_zero,
    scanFrom_step (List.cons_ne_nil _ _) hstar] at hopens
  rcases hopens.1 rfl with hnil | hnext
  · cases hnil
  · exact (by decide : ∀ k ∈ [Kind.star, .starEqual], k ∉ Parse.factorFirst) k hk hnext

theorem eq_of_opensComment {cs : List Char} (h : Lexeme.opensComment cs = true) :
    ∃ inner, cs = '/' :: '*' :: inner ∧ Lexeme.commentLength? inner = none := by
  unfold Lexeme.opensComment at h
  split at h
  · exact ⟨_, rfl, Option.isNone_iff_eq_none.mp h⟩
  · cases h

/-- A comment that is open at the end of a line is passed over up to the end that comes next. -/
theorem scanFrom_openComment (start : Nat) {inner : List Char} (hnone : Lexeme.commentLength? inner = none)
    (h : Lined inner) {t : List Char} {n : Nat} (hn : Lexeme.commentLength? t = some n) :
    ∃ offset, scanFrom start 0 ('/' :: '*' :: (inner ++ t)) = scanFrom offset 0 (t.drop n) := by
  have hlength := Lexeme.commentLength?_behind hnone h t
  have hfirst : Lexeme.first? ('/' :: '*' :: (inner ++ t)) = some ⟨none, n + inner.length + 2⟩ := by
    simp [Lexeme.first?, Lexeme.stringLit?, Lexeme.blockComment?, hlength, hn]
  rw [scanFrom_step (List.cons_ne_nil _ _) hfirst]
  have hdrop : List.drop (n + inner.length + 2) ('/' :: '*' :: (inner ++ t)) = t.drop n := by
    rw [List.drop_succ_cons, List.drop_succ_cons, Nat.add_comm n, ← List.drop_drop, List.drop_left]
  rw [hdrop]
  exact ⟨_, rfl⟩

/-- In an open comment a line that does not close it may be left out. -/
theorem readAlike_openComment (start : Nat) {inner line : List Char} (hnone : Lexeme.commentLength? inner = none)
    (hinner : Lined inner) (hline : Lexeme.commentLength? line = none) (hlined : Lined line) (t : List Char) :
    (scanFrom start 0 ('/' :: '*' :: (inner ++ (line ++ t)))).ReadAlike
      (scanFrom start 0 ('/' :: '*' :: (inner ++ t))) := by
  have hlength := Lexeme.commentLength?_behind hline hlined t
  cases hn : Lexeme.commentLength? t with
  | none =>
    rw [hn, Option.map_none] at hlength
    have hopen {x : List Char} (hx : Lexeme.commentLength? x = none) : Lexeme.commentLength? (inner ++ x) = none := by
      rw [Lexeme.commentLength?_behind hnone hinner, hx, Option.map_none]
    exact .inr ⟨not_opens_of_comment start (hopen hlength), not_opens_of_comment start (hopen hn)⟩
  | some n =>
    rw [hn, Option.map_some] at hlength
    obtain ⟨offset, h⟩ := scanFrom_openComment start hnone hinner hlength
    obtain ⟨offset', h'⟩ := scanFrom_openComment start hnone hinner hn
    rw [Nat.add_comm, ← List.drop_drop, List.drop_left] at h
    rw [h, h']
    exact .inl (scanFrom_unplaced _ _ _ _)

/-- A character that no token starts with ends the scan, whatever stands behind it. -/
theorem scanFrom_stuck_append (start : Nat) {rest : List Char} (h : Ending.stuck.Rest rest) (x y : List Char) :
    scanFrom start 0 (rest ++ x) = scanFrom start 0 (rest ++ y) := by
  obtain ⟨hne, hnone⟩ := h
  obtain ⟨c, rest, rfl⟩ := List.exists_cons_of_ne_nil hne
  have hstuck (z : List Char) : scanFrom start 0 (c :: rest ++ z) =
      ⟨[], some ⟨.noToken c, .ofOffsets start (start + 1)⟩⟩ := by
    rw [List.cons_append, scanFrom, ← List.cons_append, hnone]
  rw [hstuck, hstuck]

/-- A line that starts with two slashes, apart from blanks of any kind. -/
def CommentLine (line : List Char) : Prop :=
  ∃ body, '\n' ∉ body ∧ line = line.takeWhile Text.isBlank ++ '/' :: '/' :: (body ++ ['\n'])

theorem CommentLine.lined {line : List Char} (h : CommentLine line) : Lined line := by
  obtain ⟨body, -, heq⟩ := h
  exact .inr ⟨line.takeWhile Text.isBlank ++ '/' :: '/' :: body, by simpa using heq⟩

/-- May a comment on a line of its own be left out behind a text that ends so? -/
def Ending.allows : Ending → List Char → Bool
  | .between, line => (line.takeWhile Text.isBlank).all Lexeme.isSpace
  | .quote, _ => false
  | .comment, line => (Lexeme.commentLength? line).isNone
  | .stuck, _ => true

/-- What is allowed leaves the reading as it is. -/
theorem readAlike_drop (start : Nat) {front line : List Char} (hfront : Lined front) (hline : CommentLine line)
    (hallows : (endingFrom 0 front).allows line = true) (t : List Char) :
    (scanFrom start 0 (front ++ (line ++ t))).ReadAlike (scanFrom start 0 (front ++ t)) := by
  obtain ⟨rest, ts, offset, hrest, hscan⟩ := exists_rest start hfront
  rw [hscan, hscan]
  refine Scan.ReadAlike.before ?_ ts
  cases hending : endingFrom 0 front <;> rw [hending] at hrest hallows
  case between =>
    obtain rfl : rest = [] := hrest
    obtain ⟨body, hbody, heq⟩ := hline
    obtain ⟨offset', hscan'⟩ := scanFrom_commentLine offset (List.all_eq_true.mp hallows) hbody t
    have hsame : line ++ t = line.takeWhile Text.isBlank ++ '/' :: '/' :: (body ++ '\n' :: t) := by
      conv_lhs => rw [heq]
      simp
    rw [List.nil_append, hsame, hscan']
    exact .inl (scanFrom_unplaced _ _ _ t)
  case quote => cases hallows
  case comment =>
    obtain ⟨inner, rfl, hnone⟩ := eq_of_opensComment hrest.1
    exact readAlike_openComment offset hnone (hrest.2.drop 2) (Option.isNone_iff_eq_none.mp hallows) hline.lined t
  case stuck => exact .inl (by rw [scanFrom_stuck_append offset hrest (line ++ t) t])

end CheckedScript.Token
