import CheckedScript.Proofs.Reach
import CheckedScript.Proofs.Replay
import CheckedScript.Proofs.Termination

/-! The statements of the outermost level, one after the other. Without script mode a program that is followed by another
program runs as it runs alone: if it fails, what follows is never begun, and if it succeeds, what follows is run in the state
that it has left, where its output can only grow. A script takes the leave to print from all its statements but the last. A
statement without that leave prints nothing, however deep the calls, branches and loops are that it goes through and however
it ends, and so a script has no output before its last statement is begun. -/

namespace CheckedScript

namespace Walk

end Walk

namespace Interpreter

variable {i : Interpreter} {p : Program} {m : Machine} {f : Failure}

/-- The state in which the first statement of a program is begun. -/
def begun (i : Interpreter) : Machine := { i.machine with scopes := i.machine.scopes.enter }

/-- The run of a program ends as its statements do, in a frame less. -/
theorem run_eq_statements (i : Interpreter) (p : Program) :
    i.run p = i.answer (Walk.inScope (fun _ => Walk.statements i.settings true p.statements i.begun) i.machine) := by
  rw [run_eq_answer]
  rfl

theorem run_of_error (h : Walk.statements i.settings true p.statements i.begun = .error f m) :
    i.run p = (.error f, i.after { m with scopes := m.scopes.leave }) := by
  rw [run_eq_statements, h]
  rfl

theorem run_of_ok {u : Unit} (h : Walk.statements i.settings true p.statements i.begun = .ok u m) :
    i.run p = (.ok m.output, i.after { m with scopes := m.scopes.leave }) := by
  rw [run_eq_statements, h]
  rfl

theorem exists_statements_error (h : (i.run p).1 = .error f) :
    ∃ m, Walk.statements i.settings true p.statements i.begun = .error f m := by
  cases hs : Walk.statements i.settings true p.statements i.begun with
  | ok u m =>
    rw [run_of_ok hs] at h
    cases h
  | error e m =>
    rw [run_of_error hs] at h
    cases h
    exact ⟨m, rfl⟩

/-- A loop that goes on for ever, printing. -/
def chatter : List Stmt :=
  [.loop .zero (.literal .zero (.boolean true)) (some [.print .zero (some (.literal .zero (.text "again")))])]

def farewell : List Stmt := [.print .zero (some (.literal .zero (.text "bye")))]

end Interpreter

namespace Walk

/-- The last of the statements is never begun. -/
def StopsEarly (settings : Settings) (block : List Stmt) (m : Machine) : Prop :=
  ∀ last n, ¬Reaches settings (.statements block) m (.statements [last]) n

variable {settings : Settings} {m m' : Machine} {f : Failure}

/-- When all statements before the last one have ended well, the last one is begun. -/
theorem reaches_last {init : List Stmt} (last : Stmt) (h : runAll settings (!settings.script) init m = .ok () m') :
    Reaches settings (.statements (init ++ [last])) m (.statements [last]) m' := by
  induction init generalizing m with
  | nil =>
    cases h
    exact .here
  | cons s rest ih =>
    rw [List.cons_append]
    rw [runAll] at h
    cases hk : s.kind? with
    | none =>
      simp only [hk] at h
      cases h
    | some k =>
      simp only [hk] at h
      obtain ⟨_, m₁, hr, h⟩ := bind_ok.mp h
      obtain ⟨l, m₂, hs, h⟩ := bind_ok.mp h
      have hlast : (!settings.script || (rest ++ [last]).isEmpty) = !settings.script := by simp
      refine .step (.next hk hr (l := l) ?_) (ih h)
      rw [hlast, run_isLast settings _ _ _ rest.isEmpty s]
      exact hs

/-- A script that fails before its last statement is begun has printed nothing. -/
theorem StopsEarly.output_eq (hscript : settings.script = true) {block : List Stmt} (h : StopsEarly settings block m)
    (hf : statements settings true block m = .error f m') : m'.output = m.output := by
  rcases block.eq_nil_or_concat with rfl | ⟨init, last, rfl⟩
  · cases hf
  · rw [List.concat_eq_append] at h hf
    rw [statements_concat] at hf
    rcases bind_error.mp hf with hinit | ⟨u, m₁, hinit, -⟩
    · rw [hscript] at hinit
      exact ((runAll_silent settings init m).error hinit).symm
    · exact absurd (reaches_last last hinit) (h last m₁)

/-- Only from statements of the outermost level a run comes to such statements. -/
theorem Reaches.from_statements {t : Task} {list : List Stmt} (h : Reaches settings t m (.statements list) m') :
    ∃ block, t = .statements block := by
  generalize ht : Task.statements list = t' at h
  induction h with
  | here => exact ⟨list, ht.symm⟩
  | step hl _ ih =>
    obtain ⟨block, rfl⟩ := ih ht
    cases hl with
    | next => exact ⟨_, rfl⟩

/-- If a statement before the last one fails, the last one is never begun. -/
theorem stopsEarly_of_error {init : List Stmt} (last : Stmt)
    (h : runAll settings (!settings.script) init m = .error f m') : StopsEarly settings (init ++ [last]) m := by
  intro x n hreach
  induction init generalizing m with
  | nil => cases h
  | cons s rest ih =>
    rw [List.cons_append] at hreach
    generalize hx : Task.statements [x] = t at hreach
    cases hreach with
    | here =>
      injection hx with hx
      injection hx with _ hrest
      simp at hrest
    | step hl hr =>
      subst hx
      cases hl with
      | first =>
        obtain ⟨block, hblock⟩ := hr.from_statements
        cases hblock
      | next hk hrec hs =>
        have hlast : (!settings.script || (rest ++ [last]).isEmpty) = !settings.script := by simp
        rw [hlast, run_isLast settings _ _ _ rest.isEmpty s] at hs
        rw [runAll] at h
        simp only [hk] at h
        rw [bind_of_ok hrec, bind_of_ok hs] at h
        exact ih h hr

end Walk

namespace Interpreter

/-- Statements and expressions without the leave to print leave the output as it is, in whatever state they are run, with
whatever calls, branches and loops inside of them, and also if they fail. So a script that fails before its last statement is
begun has no output. -/
theorem silenced_without_output (i : Interpreter) :
    (∀ left loop isLast s,
      Walk.Prints Eq (Walk.run i.settings (Walk.callWith i.settings false left) false loop isLast s)) ∧
    (∀ left e, Walk.Prints Eq (Walk.evaluate (Walk.callWith i.settings false left) e)) ∧
    (i.settings.script = true → ∀ p f, (i.run p).1 = .error f → Walk.StopsEarly i.settings p.statements i.begun →
      (i.run p).2.output = #[]) := by
  refine ⟨Walk.run_silent i.settings, Walk.evaluate_silent i.settings, ?_⟩
  intro hscript p f hf hearly
  obtain ⟨m, hm⟩ := exists_statements_error hf
  rw [run_of_error hm]
  exact hearly.output_eq hscript hm

/-- A script, with one pass for each loop. -/
def hurriedScript : Interpreter := new { Settings.standard with script := true, maxIterations := 1 } .stream

theorem chatter_without_output : hurriedScript.settings.script = true ∧
    (hurriedScript.run ⟨.zero, farewell ++ chatter ++ farewell⟩).1 = .error (.error ⟨.tooManyIterations 1, .zero⟩) ∧
    Walk.StopsEarly hurriedScript.settings (farewell ++ chatter ++ farewell) hurriedScript.begun ∧
    (hurriedScript.run ⟨.zero, farewell ++ chatter ++ farewell⟩).2.output = #[] := by
  have hf : (hurriedScript.run ⟨.zero, farewell ++ chatter ++ farewell⟩).1 =
    .error (.error ⟨.tooManyIterations 1, .zero⟩) := rfl
  have hearly : Walk.StopsEarly hurriedScript.settings (farewell ++ chatter ++ farewell) hurriedScript.begun :=
    Walk.stopsEarly_of_error _ rfl
  exact ⟨rfl, hf, hearly, (silenced_without_output hurriedScript).2.2 rfl _ _ hf hearly⟩

end Interpreter

end CheckedScript
