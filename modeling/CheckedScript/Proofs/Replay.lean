import CheckedScript.Console
import CheckedScript.Proofs.Joining
import CheckedScript.Proofs.Printed
import CheckedScript.Proofs.ScriptMode

/-! What a console prints. With every piece all of the code runs again, and only its last statement prints. That is the last
statement of the piece if the piece adds a statement. If it adds none, the last statement is an old one, and what it printed
when it was new is printed again. -/

namespace CheckedScript

namespace Walk

/-- Statements that may not print leave the output as it is. -/
theorem runAll_silent (settings : Settings) (block : List Stmt) : Prints Eq (runAll settings false block) := by
  have hsilent : OfSilentSteps (Prints Eq) := prints_steps cumulative_eq
  induction block with
  | nil => exact hsilent.pure ()
  | cons s rest ih =>
    have hrest : Prints Eq (do
        let _ ← run settings (caller settings false) false none rest.isEmpty s
        runAll settings false rest) := hsilent.bind (run_silent settings _ none rest.isEmpty s) fun _ => ih
    simp only [runAll]
    cases s.kind? with
    | none => exact hsilent.bind (hsilent.throw _) fun _ => hrest
    | some k => exact hsilent.bind (hsilent.record _ _ _) fun _ => hrest

/-- The statements `front` run without printing anything, and then the statement `last` prints the output. -/
def PrintedBy (settings : Settings) (front : List Stmt) (last : Stmt) (output : Array String) : Prop :=
  ∃ m m', runAll settings false front Interpreter.start = .ok () m ∧ m.output = #[] ∧
    runAll settings true [last] m = .ok () m' ∧ m'.output = output

end Walk

/-- What a script prints is printed by its last statement. -/
theorem Interpreter.printedBy_of_run {settings : Settings} (hs : settings.script = true) {dest : Destination} {p : Program}
    {front : List Stmt} {last : Stmt} (hp : p.statements = front ++ [last]) {output : Array String}
    (h : ((new settings dest).run p).1 = .ok output) : Walk.PrintedBy settings front last output := by
  obtain ⟨m', hm', hout⟩ := new_run_ok.mp h
  rw [hp, Walk.statements_concat, hs, Walk.bind_ok] at hm'
  obtain ⟨_, m, hfront, hlast⟩ := hm'
  exact ⟨m, m', hfront, ((Walk.runAll_silent settings front start).ok hfront).symm, hlast, hout⟩

namespace Token

theorem scanFrom_nonempty (start taken : Nat) (cs : List Char) :
    ∀ t ∈ (scanFrom start taken cs).tokens, t.start < t.stop := by
  fun_induction scanFrom start taken cs with
  | case1 => simp
  | case2 start taken c rest ih => exact ih
  | case3 => simp
  | case4 start c rest n hf ih => exact ih
  | case5 start c rest kind n hf ih =>
    intro t ht
    rcases List.mem_cons.mp ht with rfl | ht
    · exact Nat.lt_add_of_pos_right (Lexeme.first?_pos hf)
    · exact ih t ht

/-- Every token of a source starts inside it. -/
theorem scan_start_lt (source : String) : ∀ t ∈ (scan source).tokens, t.start < source.length := fun t ht =>
  Nat.lt_of_lt_of_le (scanFrom_nonempty 0 0 source.toList t ht) (scan_within source t ht).stop_le

end Token

/-- Does the statement start before an offset? -/
def Stmt.startsBefore (offset : Nat) (s : Stmt) : Bool :=
  match s.span.start with
  | .int a => a < offset
  | _ => false

namespace Grammar

variable {w : List Token} {s : Stmt}

/-- A statement starts where one of its tokens starts. -/
theorem DerivesStmt.starts_inner (h : DerivesStmt .inner w s) : ∃ t ∈ w, s.span.start = .int t.start := by
  cases h with
  | call hw _ =>
    cases hw
    exact ⟨_, .head _, rfl⟩
  | _ => exact ⟨_, .head _, rfl⟩

theorem DerivesStmt.starts_outer (h : DerivesStmt .outer w s) : ∃ t ∈ w, s.span.start = .int t.start := by
  cases h with
  | outer_inner h => exact h.starts_inner
  | outer_define h =>
    cases h
    exact ⟨_, .head _, rfl⟩

theorem DerivesStmt.starts {ss : List Stmt} (h : DerivesStmt .outers w ss) :
    ∀ s ∈ ss, ∃ t ∈ w, s.span.start = .int t.start := by
  induction ss generalizing w with
  | nil => simp
  | cons s rest ih =>
    cases h with
    | outers_more hs hrest =>
      intro x hx
      rcases List.mem_cons.mp hx with rfl | hx
      · obtain ⟨t, ht, hstart⟩ := hs.starts_outer
        exact ⟨t, List.mem_append_left _ ht, hstart⟩
      · obtain ⟨t, ht, hstart⟩ := ih hrest x hx
        exact ⟨t, List.mem_append_right _ ht, hstart⟩

theorem DerivesStmt.startsBefore {source : String} {p : Program} (h : DerivesStmt .start (Token.scan source).tokens p) :
    ∀ s ∈ p.statements, s.startsBefore source.length = true := by
  intro s hs
  cases h with
  | start h =>
    obtain ⟨t, ht, hstart⟩ := h.starts s hs
    simpa [Stmt.startsBefore, hstart] using Token.scan_start_lt source t ht

theorem DerivesStmt.startsBehind {p : Program} (h : DerivesStmt .start w p) (d : Nat) :
    ∀ s ∈ p.statements.map (Stmt.shift d), s.startsBefore d = false := by
  intro s hs
  cases h with
  | @start _ body h =>
    have hmoved : DerivesStmt .outers (w.map (Token.shift d)) (Stmt.shiftAll d body) := h.shift (by decide)
    rw [← Stmt.shiftAll_eq] at hs
    obtain ⟨t, ht, hstart⟩ := hmoved.starts s hs
    obtain ⟨t', -, rfl⟩ := List.mem_map.mp ht
    simp [Stmt.startsBefore, hstart, Token.shift]

end Grammar

namespace Console

open Grammar

/-- The consoles that submissions and resets lead to. -/
inductive Reached : Console → Prop where
  | new (settings : Settings) (destination : Destination) : Reached (new settings destination)
  | submit {c : Console} (piece : String) : Reached c → Reached (c.submit piece).2
  | reset {c : Console} : Reached c → Reached c.reset

/-- What holds of every console that is reached: its code runs as a script, and is a program that ends with its line. -/
structure Settled (c : Console) : Prop where
  script : c.settings.script = true
  code : c.committed = "" ∨ ∃ a p, c.committed = a ++ "\n" ∧ Program.parse a = .ok p

variable {c : Console} {piece : String} {output : Array String}

theorem extended_eq (c : Console) (piece : String) :
    ∃ rest, (rest = piece ∨ rest = piece ++ "\n") ∧ c.extended piece = c.committed ++ rest := by
  by_cases h : (c.committed ++ piece).toList.getLast? = some '\n'
  · exact ⟨piece, .inl rfl, by simp only [extended, h, if_true]⟩
  · exact ⟨piece ++ "\n", .inr rfl, by simp only [extended, h, if_false, String.append_assoc]⟩

theorem extended_line (c : Console) (piece : String) : ∃ a, c.extended piece = a ++ "\n" := by
  by_cases h : (c.committed ++ piece).toList.getLast? = some '\n'
  · obtain ⟨cs, hcs⟩ := List.getLast?_eq_some_iff.mp h
    refine ⟨String.ofList cs, ?_⟩
    simp only [extended, h, if_true]
    rw [← String.toList_inj, hcs, String.toList_append, String.toList_ofList]
    rfl
  · exact ⟨c.committed ++ piece, by simp only [extended, h, if_false]⟩

theorem submit_refused {e : Failure} (hp : Program.parse (c.extended piece) = .error e) : c.submit piece = (.error e, c) := by
  unfold submit
  extract_lets code
  have hp : Program.parse code = .error e := hp
  rw [hp]

theorem submit_run {p : Program} {result : Except Failure (Array String)} {i : Interpreter}
    (hp : Program.parse (c.extended piece) = .ok p)
    (hr : (Interpreter.new c.settings c.log.destination).run p = (result, i)) :
    ∃ log, c.submit piece = (result, ⟨c.settings, if result.isOk then c.extended piece else c.committed, log⟩) := by
  unfold submit
  extract_lets code
  have hp : Program.parse code = .ok p := hp
  rw [hp]
  dsimp only
  rw [hr]
  cases result with
  | ok output => exact ⟨_, rfl⟩
  | error e => exact ⟨_, rfl⟩

/-- A submission either goes well, and then its code is accepted, or leaves the code as it was. -/
theorem submit_cases (c : Console) (piece : String) :
    (∃ p output log, Program.parse (c.extended piece) = .ok p ∧
      ((Interpreter.new c.settings c.log.destination).run p).1 = .ok output ∧
      c.submit piece = (.ok output, ⟨c.settings, c.extended piece, log⟩)) ∨
    ∃ e log, c.submit piece = (.error e, ⟨c.settings, c.committed, log⟩) := by
  cases hp : Program.parse (c.extended piece) with
  | error e => exact .inr ⟨e, c.log, submit_refused hp⟩
  | ok p =>
    obtain ⟨result, i, hr⟩ : ∃ result i, (Interpreter.new c.settings c.log.destination).run p = (result, i) := ⟨_, _, rfl⟩
    obtain ⟨log, hsubmit⟩ := submit_run hp hr
    cases result with
    | ok output => exact .inl ⟨p, output, log, rfl, by rw [hr], hsubmit⟩
    | error e => exact .inr ⟨e, log, hsubmit⟩

theorem submit_ok (h : (c.submit piece).1 = .ok output) : ∃ p, Program.parse (c.extended piece) = .ok p ∧
    (c.submit piece).2.committed = c.extended piece ∧
    ((Interpreter.new c.settings c.log.destination).run p).1 = .ok output := by
  rcases submit_cases c piece with ⟨p, output', log, hp, hrun, hsubmit⟩ | ⟨e, log, hsubmit⟩
  · rw [hsubmit] at h ⊢
    cases h
    exact ⟨p, hp, rfl, hrun⟩
  · rw [hsubmit] at h
    cases h

theorem Settled.submit (h : c.Settled) (piece : String) : (c.submit piece).2.Settled := by
  rcases submit_cases c piece with ⟨p, output, log, hp, -, hsubmit⟩ | ⟨e, log, hsubmit⟩
  · obtain ⟨a, ha⟩ := extended_line c piece
    rw [ha, Program.parse_newline] at hp
    rw [hsubmit]
    exact ⟨h.script, .inr ⟨a, p, ha, hp⟩⟩
  · rw [hsubmit]
    exact ⟨h.script, h.code⟩

theorem Reached.settled (h : c.Reached) : c.Settled := by
  induction h with
  | new settings destination => exact ⟨rfl, .inl rfl⟩
  | submit piece _ ih => exact ih.submit piece
  | reset _ ih => exact ⟨ih.script, .inl rfl⟩

/-- The accepted code is scanned as before, whatever is put behind it. -/
theorem Settled.scan (h : c.Settled) (rest : String) :
    (Token.scan (c.committed ++ rest)).tokens =
      (Token.scan c.committed).tokens ++ (Token.scan rest).tokens.map (Token.shift c.committed.length) ∧
    ((Token.scan (c.committed ++ rest)).error = none ↔ (Token.scan rest).error = none) := by
  rcases h.code with hcode | ⟨a, p, hcode, ha⟩
  · rw [hcode, String.empty_append]
    exact ⟨(List.map_id _).symm, Iff.rfl⟩
  · obtain ⟨herror, hp⟩ := (Program.parse_iff_derives a p).mp ha
    have hline := (Token.scan_newline herror hp.divides "").1
    rw [String.append_empty] at hline
    have hlength : (a ++ "\n").length = a.length + 1 := String.length_append a "\n"
    obtain ⟨htokens, hnone⟩ := Token.scan_newline herror hp.divides rest
    rw [hcode, hlength, hline, htokens]
    exact ⟨by simp [Token.scan, Token.scanFrom], hnone⟩

theorem Settled.parse (h : c.Settled) : ∃ p, Program.parse c.committed = .ok p := by
  rcases h.code with hcode | ⟨a, p, hcode, ha⟩
  · rw [hcode]
    exact ⟨⟨Token.extent [], []⟩, (Program.parse_iff_derives _ _).mpr ⟨rfl, .start .outers_none⟩⟩
  · rw [hcode]
    exact ⟨p, (Program.parse_newline a p).mpr ha⟩

/-- A piece that is a program by itself stands behind the accepted code in the tree of both. -/
theorem Settled.parse_extended (h : c.Settled) {old q p : Program} (hold : Program.parse c.committed = .ok old)
    (hq : Program.parse piece = .ok q) (hp : Program.parse (c.extended piece) = .ok p) :
    p.statements = old.statements ++ q.statements.map (Stmt.shift c.committed.length) := by
  obtain ⟨rest, hrest, hcode⟩ := extended_eq c piece
  have hq : Program.parse rest = .ok q := by
    rcases hrest with rfl | rfl
    · exact hq
    · exact (Program.parse_newline piece q).mpr hq
  obtain ⟨-, hold⟩ := (Program.parse_iff_derives _ old).mp hold
  obtain ⟨herror, hq⟩ := (Program.parse_iff_derives rest q).mp hq
  obtain ⟨htokens, hnone⟩ := h.scan rest
  obtain ⟨span, hjoined⟩ := Program.derives_joined hold hq c.committed.length
  rw [← htokens] at hjoined
  have hboth := (Program.parse_iff_derives _ _).mpr ⟨hnone.mpr herror, hjoined⟩
  rw [← hcode, hp] at hboth
  exact congrArg Program.statements (Except.ok.inj hboth)

/-- The statements of the code that a piece adds: those from the first one on that starts behind the accepted code. -/
def added (c : Console) (p : Program) : List Stmt := p.statements.dropWhile (Stmt.startsBefore c.committed.length)

theorem exists_added (c : Console) (p : Program) : ∃ old, p.statements = old ++ c.added p :=
  ⟨_, List.takeWhile_append_dropWhile.symm⟩

/-- What is added by a piece that is a program by itself is all of that program. -/
theorem added_joined {old q p : Program} (hold : Program.parse c.committed = .ok old) (hq : Program.parse piece = .ok q)
    (hp : p.statements = old.statements ++ q.statements.map (Stmt.shift c.committed.length)) :
    c.added p = q.statements.map (Stmt.shift c.committed.length) := by
  obtain ⟨-, hold⟩ := (Program.parse_iff_derives _ old).mp hold
  obtain ⟨-, hq⟩ := (Program.parse_iff_derives piece q).mp hq
  rw [added, hp, List.dropWhile_append_of_pos hold.startsBefore]
  cases hmoved : q.statements.map (Stmt.shift c.committed.length) with
  | nil => rfl
  | cons s rest =>
    have hs : s.startsBefore c.committed.length = false := hq.startsBehind _ s (by rw [hmoved]; exact .head _)
    exact List.dropWhile_cons_of_neg (by simp [hs])

/-- What a submission prints, on any console that is reached. If the piece adds a statement, only the last one that it adds
prints. If it adds none, the last statement of the code prints, though it is not new; for a piece without statements, white
space and comments, that is what the accepted code prints when it runs again. -/
theorem submit_output (hc : c.Reached) (h : (c.submit piece).1 = .ok output) :
    ∃ p, Program.parse (c.submit piece).2.committed = .ok p ∧
      (∀ last ∈ (c.added p).getLast?, ∃ front, p.statements = front ++ [last] ∧
        Walk.PrintedBy c.settings front last output) ∧
      (c.added p = [] → p.statements = [] ∧ output = #[] ∨
        ∃ front last, p.statements = front ++ [last] ∧ Walk.PrintedBy c.settings front last output) ∧
      ∀ q, Program.parse piece = .ok q → c.added p = q.statements.map (Stmt.shift c.committed.length) ∧
        (q.statements = [] → runProgram c.settings c.committed = .ok output) := by
  have hsettled := hc.settled
  obtain ⟨p, hp, hcode, hrun⟩ := submit_ok h
  rw [hcode]
  have hlast {front last} (hsplit : p.statements = front ++ [last]) : Walk.PrintedBy c.settings front last output :=
    Interpreter.printedBy_of_run hsettled.script hsplit hrun
  refine ⟨p, hp, ?_, ?_, ?_⟩
  · intro last hmem
    obtain ⟨before, hbefore⟩ := List.getLast?_eq_some_iff.mp hmem
    obtain ⟨old, hold⟩ := exists_added c p
    have hsplit : p.statements = old ++ before ++ [last] := by rw [hold, hbefore, List.append_assoc]
    exact ⟨old ++ before, hsplit, hlast hsplit⟩
  · intro _
    rcases List.eq_nil_or_concat' p.statements with hnil | ⟨front, last, hsplit⟩
    · obtain ⟨m, hm, rfl⟩ := Interpreter.new_run_ok.mp hrun
      rw [hnil] at hm
      cases hm
      exact .inl ⟨hnil, rfl⟩
    · exact .inr ⟨front, last, hsplit, hlast hsplit⟩
  · intro q hq
    obtain ⟨old, hold⟩ := hsettled.parse
    have hjoined := hsettled.parse_extended hold hq hp
    refine ⟨added_joined hold hq hjoined, ?_⟩
    intro hnone
    have hsame : p.statements = old.statements := by rw [hjoined, hnone, List.map_nil, List.append_nil]
    have hrun' := Interpreter.new_run_ok.mp hrun
    rw [hsame] at hrun'
    rw [runProgram, hold]
    exact Interpreter.new_run_ok.mpr hrun'

/-- A console with code that was accepted after a reset and after a piece that was dropped. -/
def declared : Console :=
  let failed := ((new .standard .stream).submit "boolean x = true; print(y);").2
  ((failed.submit "print(false);").2.reset.submit "boolean x = true; print(x);").2

theorem reached_declared : declared.Reached :=
  .submit _ (.reset (.submit _ (.submit _ (.new .standard .stream))))

/-- A piece of three statements; all of them but the last are silent. -/
def negates : String := "print(x); x = !x; print(x); // new"

theorem submit_output_declared : declared.Reached ∧ (declared.submit negates).1 = .ok #["false"] ∧
    ∃ p, Program.parse (declared.submit negates).2.committed = .ok p ∧ (declared.added p).length = 3 ∧
      ∀ last ∈ (declared.added p).getLast?, ∃ front, p.statements = front ++ [last] ∧
        Walk.PrintedBy declared.settings front last #["false"] := by
  have h : (declared.submit negates).1 = .ok #["false"] := eq_ok_of_toOption (by decide +kernel)
  obtain ⟨q, hq, hlength⟩ := exists_of_parse negates rfl (fun q => q.statements.length = 3) (by decide +kernel)
  obtain ⟨p, hp, hlast, -, hadded⟩ := submit_output reached_declared h
  refine ⟨reached_declared, h, p, hp, ?_, hlast⟩
  rw [(hadded q hq).1, List.length_map, hlength]

/-- A console whose code is one print. -/
def printed : Console := ((new .standard .stream).submit "print(true);").2

/-- A piece that is a comment adds no statement, and what was printed before is printed again. -/
theorem submit_comment_printed : printed.Reached ∧
    (∃ q, Program.parse "// nothing new" = .ok q ∧ q.statements = []) ∧
    (printed.submit "// nothing new").1 = .ok #["true"] := by
  obtain ⟨q, hq, hlength⟩ := exists_of_parse "// nothing new" rfl (fun q => q.statements.length = 0) (by decide +kernel)
  exact ⟨.submit _ (.new .standard .stream), ⟨q, hq, List.length_eq_zero_iff.mp hlength⟩,
    eq_ok_of_toOption (by decide +kernel)⟩

end Console
end CheckedScript
