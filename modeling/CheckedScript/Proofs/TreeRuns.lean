import CheckedScript.Proofs.Agreement
import CheckedScript.Proofs.Exchange
import CheckedScript.Proofs.Paths
import CheckedScript.Proofs.Rebuilding
import CheckedScript.Proofs.WrittenTrees

/-! Running a program from its tree. The tree that is written beside a source is the one that is read again: its text has no
return in it, its data are read as they were written, they make the same tree, and the tree the same program. So to run the
tree gives the report that running the source gives. -/

namespace CheckedScript.CommandLine

theorem plainLines_of_notMem {cs : List Char} (h : '\r' ∉ cs) : plainLines cs = cs := by
  induction cs with
  | nil => rfl
  | cons c cs ih =>
    rw [List.mem_cons, not_or] at h
    rw [plainLines, ih h.2]
    · intro rest hc
      exact absurd hc.symm h.1
    · intro hc
      exact absurd hc.symm h.1

theorem decodeFile_write {d : Data} (h : d.Writable) : decodeFile d.write = d.write := by
  rw [decodeFile, Data.write, plainLines_of_notMem (h.notMem_return 0), String.ofList_toList]

/-- The path is that of a file: it is not taken for an option, and it does not end in a slash or a lone dot, as only the path
of a directory does. -/
structure NamesFile (path : String) : Prop where
  no_option : path.toList.head? ≠ some '-'
  named : baseName path.toList ≠ []
  no_directory : baseName path.toList ≠ ['.']

/-- The text of the file that a path names. -/
def textOf? (files : List (String × String)) (path : String) : Option String :=
  (files.find? fun file => normalPath file.1 = normalPath path).map fun file => decodeFile file.2

section Requests

variable {path : String}

theorem NamesFile.ne_empty (h : NamesFile path) : path ≠ "" := by
  rintro rfl
  exact h.named rfl

theorem NamesFile.append_no_option (h : NamesFile path) (ending : String) : (path ++ ending).toList.head? ≠ some '-' := by
  have hne : path.toList ≠ [] := by simpa using h.ne_empty
  rw [String.toList_append, List.head?_append_of_ne_nil _ hne]
  exact h.no_option

theorem itemOf_word (h : path.toList.head? ≠ some '-') : itemOf path = some (.word path) := by
  simp only [itemOf, h, ne_eq, not_false_eq_true, if_true]

theorem ne_dashes (h : path.toList.head? ≠ some '-') : path ≠ "--" := by
  rintro rfl
  exact h rfl

theorem items_cons {s : String} {rest : List String} {item : Item} {list : List Item} (hs : s ≠ "--")
    (hitem : itemOf s = some item) (hrest : items rest = some list) : items (s :: rest) = some (item :: list) := by
  rw [items, if_neg hs, hitem, hrest]
  rfl

theorem items_word (h : path.toList.head? ≠ some '-') : items [path] = some [.word path] :=
  items_cons (ne_dashes h) (itemOf_word h) rfl

theorem request_of_items {arguments : List String} {list : List Item} (h : items arguments = some list) :
    request arguments = gather list false false .none := by
  rw [request, h]

theorem request_program (h : path.toList.head? ≠ some '-') :
    request [path] = .perform { Arguments.none with program := some path } :=
  request_of_items (items_word h)

/-- An option about trees takes the path after it. -/
theorem request_flag {s : String} {f : Flag} {a : Arguments} (hs : s ≠ "--") (hitem : itemOf s = some (.flag f none))
    (hf : f = .emit ∨ f = .tree) (h : path.toList.head? ≠ some '-') (hset : Arguments.none.setFlag f path = some a) :
    request [s, path] = .perform a := by
  rw [request_of_items (items_cons hs hitem (items_word h))]
  rcases hf with rfl | rfl <;> exact congrArg Request.perform (Option.some.inj hset)

theorem request_emit (h : path.toList.head? ≠ some '-') :
    request ["--emit-ast", path] = .perform { Arguments.none with emit := some path } :=
  request_flag (by decide) rfl (.inl rfl) h (by simp [Arguments.setFlag, ne_dashes h, Arguments.none])

theorem request_tree (h : path.toList.head? ≠ some '-') :
    request ["--ast", path] = .perform { Arguments.none with tree := some path } :=
  request_flag (by decide) rfl (.inr rfl) h (by simp [Arguments.setFlag, ne_dashes h, Arguments.none])

end Requests

section Reports

variable {files : List (String × String)} {path text : String}

/-- The text of the file that the plan needs is what the plan works on. -/
theorem report_of_request {arguments : List String} {a : Arguments} (hrequest : request arguments = .perform a)
    (hfile : (plan a).file? = some (normalPath path)) (htext : textOf? files path = some text) (input : String) :
    ∃ content, decodeFile content = text ∧ report arguments files input = perform a (some content) input := by
  obtain ⟨file, hfind, rfl⟩ := Option.map_eq_some_iff.mp htext
  refine ⟨file.2, rfl, ?_⟩
  simp [report, hrequest, hfile, hfind]

theorem filter_named (hne : path ≠ "") : (some path).filter (fun s => decide (s ≠ "")) = some path := by
  rw [Option.filter_some, decide_eq_true hne, if_pos rfl]

theorem report_program (hoption : path.toList.head? ≠ some '-') (hne : path ≠ "") (htext : textOf? files path = some text)
    (input : String) : report [path] files input = processFile { Arguments.none with program := some path } text := by
  have hplan : plan { Arguments.none with program := some path } = .program (normalPath path) := by
    simp only [plan, Arguments.none, Option.filter_none, filter_named hne]
  obtain ⟨content, rfl, hreport⟩ := report_of_request (request_program hoption) (by rw [hplan, Plan.file?]) htext input
  rw [hreport]
  unfold perform
  rw [hplan]
  rfl

theorem report_emit (hoption : path.toList.head? ≠ some '-') (hne : path ≠ "") (htext : textOf? files path = some text)
    (input : String) : report ["--emit-ast", path] files input = emitTree (normalPath path) text := by
  have hplan : plan { Arguments.none with emit := some path } = .emit (normalPath path) := by
    simp only [plan, Arguments.none, Option.filter_none, filter_named hne]
  obtain ⟨content, rfl, hreport⟩ := report_of_request (request_emit hoption) (by rw [hplan, Plan.file?]) htext input
  rw [hreport]
  unfold perform
  rw [hplan]
  rfl

theorem report_tree (hoption : path.toList.head? ≠ some '-') (hne : path ≠ "") (htext : textOf? files path = some text)
    (input : String) : report ["--ast", path] files input = runTree { Arguments.none with tree := some path } text := by
  have hplan : plan { Arguments.none with tree := some path } = .tree (normalPath path) := by
    simp only [plan, Arguments.none, Option.filter_none, filter_named hne]
  obtain ⟨content, rfl, hreport⟩ := report_of_request (request_tree hoption) (by rw [hplan, Plan.file?]) htext input
  rw [hreport]
  unfold perform
  rw [hplan]
  rfl

end Reports

/-- A tree is run as the source of the same program is, with the same trace if one is asked for. -/
theorem runTree_eq_processFile {a b : Arguments} {content source : String} {d : Data} {n : Node} {p : Program}
    (hmode : a.mode = some .execute) (hmode' : b.mode = some .execute) (hverbosity : a.verbosity = b.verbosity)
    (hread : Data.read content = .ok d) (hdecode : Node.decode d = .ok n) (hprogram : n.toProgram = .ok p)
    (hparse : Program.parse source = .ok p) : runTree a content = processFile b source := by
  have htokens : Token.tokenize source = .ok (Token.scan source).tokens := by
    simp only [Token.tokenize, ((Program.parse_iff_derives source p).mp hparse).1]
  have hscript : decide (some Mode.execute = some Mode.console) = false := rfl
  simp only [runTree, hread, hdecode, Interpreter.walkTree, hprogram, processFile, processIn, process, htokens, hparse,
    processTree, settings, hmode, hmode', hverbosity, hscript]
  cases (Interpreter.new { Settings.standard with script := false, traceLevel := b.verbosity } .file).walk true p with
  | mk result i =>
    cases result with
    | ok _ => simp [traceFiles, Log.unlines, hverbosity]
    | error f => cases f <;> simp [traceFiles, Log.unlines, hverbosity]

/-- The ending of the file that a tree is written to. -/
theorem notMem_slash_ending : '/' ∉ ".ast.json".toList := by
  decide

section Agreement

variable {files : List (String × String)} {path source : String} {p : Program}

theorem report_emit_of_parse (hpath : NamesFile path) (hsource : textOf? files path = some source)
    (hparse : Program.parse source = .ok p) (input : String) :
    report ["--emit-ast", path] files input =
      ⟨.status 0, normalPath path ++ ".ast.json" ++ "\n", "", [(normalPath path ++ ".ast.json", p.toNode.encode.write)]⟩ := by
  rw [report_emit hpath.no_option hpath.ne_empty hsource, emitTree, hparse]

/-- What was written is found under the path of the source and the ending. -/
theorem textOf?_written (hpath : NamesFile path) (hlength : source.length < 10 ^ Data.digitLimit)
    (hparse : Program.parse source = .ok p) :
    textOf? ((normalPath path ++ ".ast.json", p.toNode.encode.write) :: files) (path ++ ".ast.json") =
      some p.toNode.encode.write := by
  have hnormal := normalPath_append hpath.named hpath.no_directory notMem_slash_ending
  have hfound : normalPath (normalPath path ++ ".ast.json") = normalPath (path ++ ".ast.json") := by
    rw [← hnormal, normalPath_normalPath]
  simp [textOf?, hfound, decodeFile_write (Program.writable_of_parse hparse hlength)]

/-- If a source can be parsed, its tree is written without an error, and to run what was written gives the report that
running the source gives: it ends in the same way, and the output and the errors are the same. The source is not so long
that an offset in it has more digits than a number in a data file may have. -/
theorem tree_run_eq_source_run (hpath : NamesFile path) (hsource : textOf? files path = some source)
    (hparse : Program.parse source = .ok p) (hlength : source.length < 10 ^ Data.digitLimit) (input input' input'' : String) :
    (report ["--emit-ast", path] files input).ending = .status 0 ∧
    report ["--ast", path ++ ".ast.json"] ((report ["--emit-ast", path] files input).files ++ files) input' =
      report [path] files input'' := by
  have hne : path ++ ".ast.json" ≠ "" := by simp
  rw [report_emit_of_parse hpath hsource hparse]
  refine ⟨rfl, ?_⟩
  rw [List.singleton_append, report_tree (hpath.append_no_option _) hne (textOf?_written hpath hlength hparse),
    report_program hpath.no_option hpath.ne_empty hsource]
  have hread := (Program.writable_of_parse hparse hlength).read_write
  exact runTree_eq_processFile rfl rfl rfl hread (Node.decode_encode p.toNode)
    (Program.toProgram_toNode (Program.plain_of_parse hparse)) hparse

end Agreement

/-- A program that fails after its first output. -/
def failsLate : String := "number x = -0.0; print(true); print('a\tb' + y);"

/-- A file with that program. -/
def lateFiles : List (String × String) := [("run/late", failsLate)]

theorem tree_run_eq_source_run_late : ∃ p, NamesFile "./run/late" ∧ textOf? lateFiles "./run/late" = some failsLate ∧
    Program.parse failsLate = .ok p ∧ failsLate.length < 10 ^ Data.digitLimit ∧
    (report ["--emit-ast", "./run/late"] lateFiles "").ending = .status 0 ∧
    report ["--ast", "./run/late.ast.json"] ((report ["--emit-ast", "./run/late"] lateFiles "").files ++ lateFiles) "" =
      report ["./run/late"] lateFiles "" ∧
    (report ["./run/late"] lateFiles "").stdout = "true\n" := by
  have hpath : NamesFile "./run/late" := ⟨by decide, by decide, by decide⟩
  have hsource : textOf? lateFiles "./run/late" = some failsLate := by
    decide +kernel
  obtain ⟨p, hparse, -⟩ := exists_of_parse failsLate rfl (fun p => p.statements.length = 3) (by decide +kernel)
  have hlength : failsLate.length < 10 ^ Data.digitLimit :=
    lt_of_lt_of_le (by decide : _ < 10 ^ 2) (Nat.pow_le_pow_right (by decide) (by decide))
  obtain ⟨hending, hreport⟩ := tree_run_eq_source_run hpath hsource hparse hlength "" "" ""
  exact ⟨p, hpath, hsource, hparse, hlength, hending, hreport, by decide +kernel⟩

end CheckedScript.CommandLine
