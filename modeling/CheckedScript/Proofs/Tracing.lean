import CheckedScript.Proofs.Lockstep

/-! Tracing is transparent. Every line of the trace has a level, which its first word tells: the statements at the outermost
level come first, then declarations, assignments and definitions, then conditions, iterations and calls. Runs of a program at
two levels keep step, and the trace of the lower level is the trace of the higher one without the lines above its level. -/

namespace CheckedScript

/-- The level of a line of the trace. -/
def traceLevelOf (line : String) : Int :=
  let word := line.toList.takeWhile (· ≠ ' ')
  if word = "statement".toList then 1
  else if word = "declare".toList ∨ word = "assign".toList ∨ word = "define".toList then 2
  else 3

/-- What follows the first blank does not matter. -/
theorem traceLevelOf_append {first : String} (h : ' ' ∈ first.toList) (rest : String) :
    traceLevelOf (first ++ rest) = traceLevelOf first := by
  have hstops : (first.toList.takeWhile (· ≠ ' ')).length ≠ first.toList.length := by
    intro hlength
    have hall := List.all_takeWhile (l := first.toList) (p := (· ≠ ' '))
    rw [(List.takeWhile_prefix _).eq_of_length hlength] at hall
    exact of_decide_eq_true (List.all_eq_true.mp hall ' ' h) rfl
  rw [traceLevelOf, String.toList_append, List.takeWhile_append, if_neg hstops, traceLevelOf]

/-- A line of the trace is recorded at the level that its first word tells. -/
theorem TraceLine.level_eq {r : Relocation} {l : Int} {line line' : String} (h : TraceLine r l line line') :
    traceLevelOf line = l := by
  cases h
  case broken => rfl
  all_goals
    simp (disch := decide) only [toString, String.append_assoc, traceLevelOf_append]
    rfl

theorem TraceLine.eq_of_still {l : Int} {line line' : String} (h : TraceLine .still l line line') : line' = line := by
  cases h with
  | declared name type v => rw [Ty.relocate_of_type _ rfl]
  | _ => rfl

theorem Failure.Relocated.eq_of_still {e f : Failure} (h : e.Relocated .still f) : f = e := by
  cases h with
  | escape e => rfl
  | error hp hs =>
    rw [hp.congr (fun p => p) (Problem.relocate_of_type _ rfl _), hs.congr (fun s => s) rfl]

/-- A line that is recorded at the higher level is one of the lower level, or it is left out there. -/
theorem filter_record {j k l : Int} (hjk : j ≤ k) {line : String} (hline : traceLevelOf line = l) (t : Array String) :
    (if l ≤ k then t.push line else t).filter (traceLevelOf · ≤ j) =
      if l ≤ j then (t.filter (traceLevelOf · ≤ j)).push line else t.filter (traceLevelOf · ≤ j) := by
  by_cases hk : l ≤ k
  · rw [if_pos hk]
    simp only [Array.filter_push, hline, decide_eq_true_eq]
  · rw [if_neg hk, if_neg fun hj => hk (Int.le_trans hj hjk)]

/-- A run beside the run at a lower level. -/
def Pairing.lowered (settings : Settings) {j k : Int} (hjk : j ≤ k) : Pairing where
  settings := settings.atLevel k
  level := j
  relocation := .still
  traces t t' := t' = t.filter (traceLevelOf · ≤ j)
  record h ht := by
    rw [h.eq_of_still, ht]
    exact (filter_record hjk h.level_eq _).symm

namespace Interpreter

/-- The interpreter with another level of tracing. -/
def atLevel (i : Interpreter) (level : Int) : Interpreter := { i with settings := i.settings.atLevel level }

/-- Walks at two levels of tracing end alike. -/
theorem walk_atLevel (i : Interpreter) (execute : Bool) (p : Program) {j k : Int} (hjk : j ≤ k) :
    ((i.atLevel j).walk execute p).1 = ((i.atLevel k).walk execute p).1 ∧
      ∃ m n : Machine, ((i.atLevel k).walk execute p).2 = (i.atLevel k).after m ∧
        ((i.atLevel j).walk execute p).2 = (i.atLevel j).after n ∧
        n.output = m.output ∧ n.trace = m.trace.filter (traceLevelOf · ≤ j) := by
  have hstart : (i.atLevel k).machine.Paired (.lowered i.settings hjk) (i.atLevel j).machine :=
    ⟨(Scopes.relocate_of_type rfl rfl).symm, rfl, rfl, rfl⟩
  obtain ⟨hend, m, n, hmn, hhigh, hlow⟩ := walk_inStep rfl rfl hstart execute p
  rw [show p.relocate (Pairing.lowered i.settings hjk).relocation = p from p.relocate_still] at hend hlow
  refine ⟨?_, m, n, hhigh, hlow, hmn.output, hmn.trace⟩
  generalize ((i.atLevel j).walk execute p).1 = x, ((i.atLevel k).walk execute p).1 = y at hend ⊢
  cases hend with
  | ok u => rfl
  | error he => rw [he.eq_of_still]

/-- Tracing is transparent: the runs of a program at two levels end alike and with the same output, and the lines of the lower
level are those of the higher one that are not above the lower level, in the same order. -/
theorem run_at_lower_level (settings : Settings) (p : Program) {j k : Int} (hjk : j ≤ k) :
    ((new (settings.atLevel j) .stream).run p).1 = ((new (settings.atLevel k) .stream).run p).1 ∧
      ((new (settings.atLevel j) .stream).run p).2.output = ((new (settings.atLevel k) .stream).run p).2.output ∧
      ((new (settings.atLevel j) .stream).run p).2.log.written.toList =
        ((new (settings.atLevel k) .stream).run p).2.log.written.toList.filter (traceLevelOf · ≤ j) ∧
      ((new (settings.atLevel j) .stream).run p).2.log.errors = #[] := by
  obtain ⟨houtcome, m, n, hhigh, hlow, houtput, htrace⟩ := (new settings .stream).walk_atLevel true p hjk
  have hwritten (l : Int) (m : Machine) : (((new settings .stream).atLevel l).after m).log.written = m.trace :=
    Array.empty_append
  have hrun (l : Int) : (new (settings.atLevel l) .stream).run p =
      ((((new settings .stream).atLevel l).walk true p).1.map fun _ => (((new settings .stream).atLevel l).walk true p).2.output,
        (((new settings .stream).atLevel l).walk true p).2) := rfl
  rw [hrun, hrun, houtcome, hlow, hhigh]
  refine ⟨congrArg (fun out => Except.map (fun _ => out) _) houtput, houtput, ?_, rfl⟩
  rw [hwritten, hwritten, htrace, Array.toList_filter]

/-- A loop that is left by a break, when a function has negated its argument. -/
def negating : Program :=
  ⟨.zero, [.define .zero .boolean (.text "f") [.param .zero .boolean (.text "b")]
      (some [.assign .zero (.text "b") .set (.unary .condition .zero .not (.identifier .zero (.text "b")))])
      (.identifier .zero (.text "b")),
    .loop .zero (.literal .zero (.boolean true))
      (some [.branch .zero (.call .zero (.text "f") [.literal .zero (.boolean true)]) [.print .zero none]
        (some [.breakOut .zero])])]⟩

theorem negating_at_lower_level : (2 : Int) ≤ 3 ∧
    ((new (Settings.standard.atLevel 3) .stream).run negating).2.log.written.toList =
      ["statement FunctionDef at [0, 0]", "define function f/1", "statement WhileStmt at [0, 0]", "while iteration 1",
        "call f(true)", "assign b = false", "if condition -> false", "while loop left by break"] ∧
    ((new (Settings.standard.atLevel 2) .stream).run negating).2.log.written.toList =
      ["statement FunctionDef at [0, 0]", "define function f/1", "statement WhileStmt at [0, 0]", "assign b = false"] := by
  have hhigh : ((new (Settings.standard.atLevel 3) .stream).run negating).2.log.written.toList =
      ["statement FunctionDef at [0, 0]", "define function f/1", "statement WhileStmt at [0, 0]", "while iteration 1",
        "call f(true)", "assign b = false", "if condition -> false", "while loop left by break"] := by
    decide +kernel
  refine ⟨by decide, hhigh, ?_⟩
  rw [(run_at_lower_level .standard negating (j := 2) (k := 3) (by decide)).2.2.1, hhigh]
  rfl

end Interpreter

end CheckedScript
