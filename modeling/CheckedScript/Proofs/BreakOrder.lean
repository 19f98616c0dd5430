import CheckedScript.Proofs.TypeSafety

/-! Which breaks a run refuses. The check of a program settles the place of every break but for one thing, the order of the
branches: a program that was accepted is ended by a break if it comes to an `if` whose second branch takes the budget of the
loop from the breaks of the first, and by no other break. -/

namespace CheckedScript

/-- The category of the error of the language that something ends in, if it does. -/
def categoryOf? {α : Type} : Except Failure α → Option Category
  | .error (.error e) => some e.problem.category
  | _ => none

theorem Failure.IsFault.category_ne {f : Failure} (h : f.IsFault) {α : Type} :
    categoryOf? (.error f : Except Failure α) ≠ some .grammar := by
  cases f with
  | error e =>
    rcases h with h | h <;>
    · simp only [categoryOf?, h]
      decide
  | escape e => simp [categoryOf?]

theorem Failure.IsBreak.category {f : Failure} (h : f.IsBreak) {α : Type} :
    categoryOf? (.error f : Except Failure α) = some .grammar := by
  obtain ⟨⟨problem, span⟩⟩ | e := f
  · cases problem <;> first | rfl | exact h.elim
  · exact h.elim

/-- A program that was accepted is ended by the rules of grammar exactly if its run comes to an `if` in a loop with budget left
whose condition holds, whose first branch has a break and whose second branch has an `if` that ends in a break on both
sides, unless arithmetic or a limit ends the run in that first branch before its break. -/
theorem run_grammar_iff_crosses {source : String} {p : Program} (hp : Program.parse source = .ok p) {checker : Settings}
    {dest : Destination} (hv : ((Interpreter.new checker dest).validate p).1 = .ok ()) (runner : Settings)
    (dest' : Destination) :
    categoryOf? ((Interpreter.new runner dest').run p).1 = some .grammar ↔
      Walk.Crosses runner (.statements p.statements) Interpreter.start ∧
        ¬∃ f, ((Interpreter.new runner dest').run p).1 = .error f ∧ f.IsFault := by
  have hplain := Program.plain_of_parse hp
  constructor
  · intro hf
    cases hr : ((Interpreter.new runner dest').run p).1 with
    | ok output => simp [hr, categoryOf?] at hf
    | error f =>
      rw [hr] at hf
      rcases Interpreter.permitted_of_validate hplain hv hr with hfault | ⟨-, hc⟩
      · exact absurd hf hfault.category_ne
      · refine ⟨hc, ?_⟩
        rintro ⟨f', hr', hfault⟩
        obtain rfl := Except.error.inj hr'
        exact hfault.category_ne hf
  · rintro ⟨hc, hnone⟩
    obtain ⟨f, hf⟩ := hc.fails
    obtain ⟨m, hm⟩ := Walk.Fails.inScope (m := (Interpreter.new runner dest').machine) hf
    have hr : ((Interpreter.new runner dest').run p).1 = .error f := Interpreter.run_error.mpr ⟨m, hm⟩
    rcases Interpreter.permitted_of_validate hplain hv hr with hfault | ⟨hbreak, -⟩
    · exact absurd ⟨f, hr, hfault⟩ hnone
    · rw [hr]
      exact hbreak.category

/-- An `if` that breaks in its first branch, and on both sides of an `if` in its second. -/
def breaksThrice : String :=
  "while (true) \x7b if (true) \x7b break; \x7d else \x7b if (true) \x7b break; \x7d else \x7b break; \x7d \x7d \x7d"

/-- It is accepted, and its run is refused. -/
theorem breaksThrice_refused : ∃ p, Program.parse breaksThrice = .ok p ∧
    ((Interpreter.new .standard .stream).validate p).1.toOption = some () ∧
    categoryOf? ((Interpreter.new .standard .stream).run p).1 = some .grammar :=
  exists_of_parse breaksThrice rfl
    (fun p => ((Interpreter.new .standard .stream).validate p).1.toOption = some () ∧
      categoryOf? ((Interpreter.new .standard .stream).run p).1 = some .grammar) (by decide +kernel)

theorem run_grammar_iff_crosses_breaksThrice : ∃ p, Program.parse breaksThrice = .ok p ∧
    ((Interpreter.new .standard .stream).validate p).1 = .ok () ∧
    Walk.Crosses .standard (.statements p.statements) Interpreter.start := by
  obtain ⟨p, hp, hv, hf⟩ := breaksThrice_refused
  have hv := eq_ok_of_toOption hv
  exact ⟨p, hp, hv, ((run_grammar_iff_crosses hp hv .standard .stream).mp hf).1⟩

/-- The check of a program does not settle its breaks for good. -/
theorem run_grammar_of_validate_breaksThrice : ∃ p, Program.parse breaksThrice = .ok p ∧
    ((Interpreter.new .standard .stream).validate p).1 = .ok () ∧
    categoryOf? ((Interpreter.new .standard .stream).run p).1 = some .grammar := by
  obtain ⟨p, hp, hv, hf⟩ := breaksThrice_refused
  exact ⟨p, hp, eq_ok_of_toOption hv, hf⟩

end CheckedScript
