import CheckedScript.Proofs.Endings
import CheckedScript.Proofs.PlacedRuns
import CheckedScript.Proofs.Replay

/-! Comments in a dialogue. A dialogue leaves out the lines that start with two slashes, before it is known whether they are
comments: such a line can stand in a quoted text, or close a comment. Where the text before it allows it, what is submitted
without the line goes on and ends as it would with it. -/

namespace CheckedScript

namespace Dialogue

/-- Does the line start with two slashes, apart from blanks? -/
def isComment (text : String) : Bool := ['/', '/'].isPrefixOf (Text.trim text.toList)

/-- Is the line empty, or does it ask for help or for the end? -/
def isRequest (text : String) : Bool :=
  let stripped := Text.trim text.toList
  stripped.isEmpty || ['-', 'q'].isPrefixOf stripped || ['-', 'h'].isPrefixOf stripped

/-- The text is one line with its end. -/
def IsLine (text : String) : Prop := text.toList.getLast? = some '\n' ∧ '\n' ∉ text.toList.dropLast

instance : DecidablePred IsLine := fun text =>
  inferInstanceAs (Decidable (text.toList.getLast? = some '\n' ∧ '\n' ∉ text.toList.dropLast))

theorem IsLine.exists_body {text : String} (h : IsLine text) : ∃ body, '\n' ∉ body ∧ text.toList = body ++ ['\n'] :=
  ⟨text.toList.dropLast, h.2, (List.dropLast_append_getLast? _ h.1).symm⟩

/-- What a dialogue keeps of a block of lines. -/
def kept (block : List String) : List String := block.filter fun text => !isComment text

/-- May every comment of the block be left out behind the text? -/
def mayDrop (front : List Char) : List String → Bool
  | [] => true
  | text :: rest =>
    (!isComment text || (Token.endingFrom 0 front).allows text.toList) && mayDrop (front ++ text.toList) rest

theorem kept_cons (text : String) (block : List String) :
    kept (text :: block) = if isComment text then kept block else text :: kept block := by
  cases h : isComment text <;> simp [kept, h]

/-- A line that is no request waits for its submission, or is left out. -/
theorem line_eq {text : String} (h : isRequest text = false) (d : Dialogue) :
    d.line text = (.more, { d with pending := d.pending ++ kept [text] }) := by
  simp only [isRequest, Bool.or_eq_false_iff] at h
  obtain ⟨⟨hempty, hquit⟩, hhelp⟩ := h
  have hline : d.line text = if isComment text then (.more, d) else (.more, { d with pending := d.pending ++ [text] }) := by
    simp only [line, hempty, hquit, hhelp, Bool.false_eq_true, if_false, if_true, Bool.not_false]
    rfl
  rw [hline, kept_cons]
  split
  · exact congrArg _ (congrArg (fun pending => { d with pending }) (List.append_nil _).symm)
  · rfl

/-- A block of lines is taken line by line, and only what is kept waits for its submission. -/
theorem lines_block {block : List String} (h : ∀ text ∈ block, isRequest text = false) (rest : List String) (d : Dialogue) :
    lines (block ++ rest) d = lines rest { d with
      pending := d.pending ++ kept block
      stdout := d.stdout ++ String.join (List.replicate block.length Console.prompt) } := by
  induction block generalizing d with
  | nil => simp [kept, String.join]
  | cons text block ih =>
    rw [List.cons_append, lines, line_eq (h text (.head _))]
    dsimp only
    rw [ih fun t ht => h t (.tail _ ht)]
    have hkept : kept (text :: block) = kept [text] ++ kept block := List.filter_append [text] block
    rw [hkept, List.length_cons, List.replicate_succ, String.join_cons, ← List.append_assoc, ← String.append_assoc]

theorem commentLine_of_isComment {text : String} (hline : IsLine text) (h : isComment text = true) :
    Token.CommentLine text.toList := by
  obtain ⟨whole, hwhole, heq⟩ := hline.exists_body
  have hprefix : ['/', '/'] <+: text.toList.dropWhile Text.isBlank := by
    refine (List.isPrefixOf_iff_prefix.mp h).trans ?_
    rw [Text.trim, ← List.reverse_suffix, List.reverse_reverse]
    exact List.dropWhile_suffix _
  obtain ⟨after, hafter⟩ := hprefix
  have hsplit : text.toList = text.toList.takeWhile Text.isBlank ++ '/' :: '/' :: after := by
    conv_lhs => rw [← List.takeWhile_append_dropWhile (p := Text.isBlank) (l := text.toList), ← hafter]
    rfl
  rcases List.eq_nil_or_concat after with rfl | ⟨body, last, rfl⟩
  · have hlast := congrArg List.getLast? (heq.symm.trans hsplit)
    simp at hlast
  · rw [List.concat_eq_append] at hsplit
    have hends : whole ++ ['\n'] = (text.toList.takeWhile Text.isBlank ++ '/' :: '/' :: body) ++ [last] := by
      rw [← heq, List.append_assoc]
      exact hsplit
    obtain ⟨rfl, hlast⟩ := List.append_inj' hends rfl
    obtain rfl : '\n' = last := by simpa using hlast
    exact ⟨body, fun hmem => hwhole (by simp [hmem]), hsplit⟩

theorem lined_of_lines {block : List String} (h : ∀ text ∈ block, IsLine text) :
    Token.Lined (block.flatMap String.toList) := by
  rcases List.eq_nil_or_concat block with rfl | ⟨front, text, rfl⟩
  · exact .inl rfl
  · rw [List.concat_eq_append] at h ⊢
    obtain ⟨body, -, hbody⟩ := (h text (by simp)).exists_body
    exact .inr ⟨front.flatMap String.toList ++ body, by simp [hbody]⟩

/-- A block is read without its comments as it is read with them. -/
theorem readAlike_kept (start : Nat) {block : List String} {front : List Char} (hlines : ∀ text ∈ block, IsLine text)
    (hfront : Token.Lined front) (h : mayDrop front block = true) :
    (Token.scanFrom start 0 (front ++ block.flatMap String.toList)).ReadAlike
      (Token.scanFrom start 0 (front ++ (kept block).flatMap String.toList)) := by
  induction block generalizing front with
  | nil => exact .inl rfl
  | cons text rest ih =>
    simp only [mayDrop, Bool.and_eq_true, Bool.or_eq_true, Bool.not_eq_true'] at h
    obtain ⟨hdrop, hrest⟩ := h
    have hline := hlines text (.head _)
    have hnext : Token.Lined (front ++ text.toList) := by
      obtain ⟨body, -, hbody⟩ := hline.exists_body
      exact .inr ⟨front ++ body, by rw [hbody, List.append_assoc]⟩
    have ih := ih (fun t ht => hlines t (.tail _ ht)) hnext hrest
    rw [List.flatMap_cons, ← List.append_assoc]
    rw [kept_cons]
    split
    · -- first the comments behind the line are left out, and then the line itself
      rename_i hcomment
      have hallows := hdrop.resolve_left (by simp [hcomment])
      refine ih.trans ?_
      rw [List.append_assoc]
      exact Token.readAlike_drop start hfront (commentLine_of_isComment hline hcomment) hallows _
    · rw [List.flatMap_cons, ← List.append_assoc]
      exact ih

end Dialogue

theorem mapError_kind {α : Type} {x y : Except Failure α} (h : x.mapError Failure.unplaced = y.mapError Failure.unplaced) :
    x.mapError Failure.kind = y.mapError Failure.kind := by
  cases x <;> cases y
  case error.error e f =>
    have hkind := congrArg Failure.kind (Except.error.inj h)
    rw [Failure.kind_unplaced, Failure.kind_unplaced] at hkind
    exact congrArg Except.error hkind
  case ok.ok a b => exact congrArg Except.ok (Except.ok.inj h)
  case error.ok e b => cases h
  case ok.error a f => cases h

/-- A source is malformed if a slash has something else than a factor behind it, also if it has a character that no token
starts with. -/
theorem Program.parse_of_not_opens {source : String} (h : ¬Grammar.Opens (Token.scan source).tokens) :
    ∃ e, parse source = .error e ∧ e.kind = .inl .malformed := by
  obtain ⟨t, expected, ht⟩ := Parse.program_refused (Token.scan_lexical source) h
  exact ⟨Problem.located (.unexpected (some t.text) expected) t.span, by rw [parse, ofScan, ht], rfl⟩

namespace Console

variable {c : Console} {piece : String}

theorem submit_fst (c : Console) (piece : String) : (c.submit piece).1 =
    Program.parse (c.extended piece) >>= fun p => ((Interpreter.new c.settings c.log.destination).run p).1 := by
  cases hp : Program.parse (c.extended piece) with
  | error e => rw [submit_refused hp]; rfl
  | ok p =>
    obtain ⟨log, hsubmit⟩ := submit_run hp rfl
    rw [hsubmit]
    rfl

/-- Pieces that are read alike fare alike. -/
theorem submit_readAlike {x y : String} (h : (Token.scan (c.extended x)).ReadAlike (Token.scan (c.extended y))) :
    (c.submit x).1.mapError Failure.kind = (c.submit y).1.mapError Failure.kind := by
  rw [submit_fst, submit_fst]
  rcases h with heq | ⟨hx, hy⟩
  · apply mapError_kind
    have hparse : ((Program.parse (c.extended x)).map Program.unplaced).mapError Failure.unplaced =
        ((Program.parse (c.extended y)).map Program.unplaced).mapError Failure.unplaced := by
      rw [Program.parse, Program.parse, ← Program.ofScan_unplaced, ← Program.ofScan_unplaced, heq]
    cases hp : Program.parse (c.extended x) <;> cases hq : Program.parse (c.extended y) <;> rw [hp, hq] at hparse
    case error.error e f => exact congrArg Except.error (Except.error.inj hparse)
    case ok.ok p q =>
      have hsame : p.unplaced = q.unplaced := Except.ok.inj hparse
      have hrun := Interpreter.run_unplaced (.new c.settings c.log.destination) p
      rw [hsame, Interpreter.run_unplaced] at hrun
      exact hrun.symm
    case error.ok e q => cases hparse
    case ok.error p f => cases hparse
  · obtain ⟨e, he, hkind⟩ := Program.parse_of_not_opens hx
    obtain ⟨f, hf, hkind'⟩ := Program.parse_of_not_opens hy
    rw [he, hf]
    exact congrArg Except.error (hkind.trans hkind'.symm)

/-- The accepted code is scanned as before, whatever is put behind it. -/
theorem Settled.exists_scan (h : c.Settled) : ∃ ts offset, ∀ piece : String, Token.Lined piece.toList →
    Token.scan (c.extended piece) = (Token.scanFrom offset 0 piece.toList).before ts := by
  have hcommitted : ∃ ts offset, ∀ rest : String,
      Token.scan (c.committed ++ rest) = (Token.scanFrom offset 0 rest.toList).before ts := by
    rcases h.code with hcode | ⟨a, p, hcode, ha⟩
    · exact ⟨[], 0, fun rest => by rw [hcode, String.empty_append]; rfl⟩
    · obtain ⟨herror, hp⟩ := (Program.parse_iff_derives a p).mp ha
      refine ⟨(Token.scan a).tokens, 0 + (a.toList.length + 1), fun rest => ?_⟩
      rw [hcode, Token.scan, String.toList_append, String.toList_append, List.append_assoc]
      exact Token.scanFrom_newline 0 a.toList rest.toList herror hp.divides
  obtain ⟨ts, offset, hscan⟩ := hcommitted
  refine ⟨ts, offset, fun piece hpiece => ?_⟩
  rcases hpiece with hnil | ⟨u, hu⟩
  · obtain ⟨rest, rfl | rfl, hrest⟩ := extended_eq c piece
    · rw [hrest, hscan]
    · rw [hrest, hscan, String.toList_append, hnil]
      exact congrArg (Token.Scan.before ts) (Token.scanFrom_space (by decide) [])
  · have hextended : c.extended piece = c.committed ++ piece := by
      simp [extended, String.toList_append, hu]
    rw [hextended, hscan]

/-- A dialogue takes a block of lines by keeping those that are no comments. If the text before each comment of the block
allows that it is left out, then the submission of what is kept ends as that of the whole block does: with the same output,
or with a failure of the same kind. -/
theorem submit_without_comments (hc : c.Reached) {block : List String} (hlines : ∀ text ∈ block, Dialogue.IsLine text)
    (hrequest : ∀ text ∈ block, Dialogue.isRequest text = false) (hdrop : Dialogue.mayDrop [] block = true) :
    (∀ rest d, Dialogue.lines (block ++ rest) d = Dialogue.lines rest { d with
      pending := d.pending ++ Dialogue.kept block
      stdout := d.stdout ++ String.join (List.replicate block.length prompt) }) ∧
    (c.submit (String.join (Dialogue.kept block))).1.mapError Failure.kind =
      (c.submit (String.join block)).1.mapError Failure.kind := by
  refine ⟨Dialogue.lines_block hrequest, ?_⟩
  obtain ⟨ts, offset, hscan⟩ := hc.settled.exists_scan
  have hkept : ∀ text ∈ Dialogue.kept block, Dialogue.IsLine text := fun text ht =>
    hlines text (List.mem_of_mem_filter ht)
  have hread := Dialogue.readAlike_kept offset hlines (.inl rfl) hdrop
  refine (submit_readAlike ?_).symm
  rw [hscan _ (by rw [String.toList_join]; exact Dialogue.lined_of_lines hlines),
    hscan _ (by rw [String.toList_join]; exact Dialogue.lined_of_lines hkept), String.toList_join, String.toList_join]
  exact hread.before ts

/-- Lines with comments between statements, in a comment and behind one. -/
def remarks : List String :=
  ["boolean y = true; /* one\n", "// two\n", "three */ print(y);\n", " \t// four\n", "print('/* // '); // five\n"]

theorem submit_without_comments_remarks : printed.Reached ∧ (∀ text ∈ remarks, Dialogue.IsLine text) ∧
    (∀ text ∈ remarks, Dialogue.isRequest text = false) ∧ Dialogue.mayDrop [] remarks = true ∧
    (printed.submit (String.join (Dialogue.kept remarks))).1.mapError Failure.kind =
      (printed.submit (String.join remarks)).1.mapError Failure.kind ∧
    (printed.submit (String.join remarks)).1 = .ok #["/* // "] := by
  have hlines : ∀ text ∈ remarks, Dialogue.IsLine text := by decide +kernel
  have hrequest : ∀ text ∈ remarks, Dialogue.isRequest text = false := by decide +kernel
  have hdrop : Dialogue.mayDrop [] remarks = true := by decide +kernel
  have hreached : printed.Reached := .submit _ (.new .standard .stream)
  exact ⟨hreached, hlines, hrequest, hdrop, (submit_without_comments hreached hlines hrequest hdrop).2,
    eq_ok_of_toOption (by decide +kernel)⟩

/-- Lines of one statement, the second of which looks like a comment and is part of a quoted text. -/
def quoted : List String := ["print('a\n", "// b\n", "c');\n"]

/-- In a quoted text the line is missing when it is left out. -/
theorem submit_without_quoted : (∀ text ∈ quoted, Dialogue.IsLine text) ∧
    (∀ text ∈ quoted, Dialogue.isRequest text = false) ∧
    ((new .standard .stream).submit (String.join quoted)).1 = .ok #["a\n// b\nc"] ∧
    ((new .standard .stream).submit (String.join (Dialogue.kept quoted))).1 = .ok #["a\nc"] :=
  ⟨by decide +kernel, by decide +kernel, eq_ok_of_toOption (by decide +kernel), eq_ok_of_toOption (by decide +kernel)⟩

end Console
end CheckedScript
