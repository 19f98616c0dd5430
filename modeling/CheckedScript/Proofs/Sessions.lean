import CheckedScript.Session
import CheckedScript.Proofs.Rules

/-! The steps of a session. A step that succeeds makes one of a few changes: it opens or closes a frame, declares a variable,
changes the value of one, adds a function to the table, or only answers. A step that fails changes no scopes. So what all
of these changes keep is kept by every sequence of steps, whichever of them fail. -/

namespace CheckedScript

/-- What no assignment changes in a declaration: its name, its type and its initial value. -/
def Declaration.imprint (d : Declaration) : Data × Ty × Value := (d.name, d.type, d.initial)

theorem Scopes.declareFunction_ok {s s' : Scopes} {f : Function} {span : Span} : s.declareFunction f span = .ok s' ↔
    s.function? f.signature.name f.signature.params.length = none ∧ s' = { s with functions := s.functions ++ [f] } := by
  unfold declareFunction
  cases s.function? f.signature.name f.signature.params.length with
  | none => simp [eq_comm]
  | some existing =>
    simp only [reduceCtorEq, false_and, iff_false]
    split <;> simp

namespace Session

/-- The session after some steps, each of which may have failed. -/
def after (s : Session) (steps : List Step) : Session := steps.foldl (fun s step => (s.step step).2) s

@[simp] theorem after_nil (s : Session) : s.after [] = s := rfl

@[simp] theorem after_cons (s : Session) (step : Step) (rest : List Step) :
    s.after (step :: rest) = (s.step step).2.after rest := rfl

@[simp] theorem after_append (s : Session) (a b : List Step) : s.after (a ++ b) = (s.after a).after b :=
  List.foldl_append

/-- The step neither opens nor closes a frame, nor does it declare a variable. -/
def Step.Steady : Step → Prop
  | openFrame | closeFrame | enter _ | leave | declare _ _ _ _ _ => False
  | _ => True

/-- What a step that succeeds can answer and do. -/
inductive Moves (s : Session) : Step → Answer → Session → Prop where
  | opened {a : Answer} : Moves s .openFrame a { s with scopes := s.scopes.enter }
  | closed {a : Answer} {t : Scopes} (h : s.scopes.leave? = some t) : Moves s .closeFrame a { s with scopes := t }
  | entered {a : Answer} :
      Moves s (.enter .scope) a { s with scopes := s.scopes.enter, brackets := .scope :: s.brackets }
  | called {a : Answer} :
      Moves s (.enter .call) a { s with scopes := s.scopes.enterCall, brackets := .call :: s.brackets }
  | left {a : Answer} {t : Scopes} {brackets : List Bracket} (hb : s.brackets = .scope :: brackets)
      (h : s.scopes.leave? = some t) : Moves s .leave a { s with scopes := t, brackets }
  | returned {a : Answer} {brackets : List Bracket} (hb : s.brackets = .call :: brackets) :
      Moves s .leave a { s with scopes := s.scopes.leaveCall, brackets }
  | declared {name : Data} {type : Ty} {value initial : Option Value} {span : Span} {d : Declaration} :
      Moves s (.declare name type value initial span) (.declaration d) { s with scopes := s.scopes.extend [d] }
  | changed {step : Step} {a : Answer} (h : step.Steady) {change : Declaration → Declaration}
      (hc : ∀ d, (change d).imprint = d.imprint) (name : Data) :
      Moves s step a { s with scopes := s.scopes.update name change }
  | defined {step : Step} {a : Answer} (h : step.Steady) {f : Function}
      (hf : s.scopes.function? f.signature.name f.signature.params.length = none) :
      Moves s step a { s with scopes := { s.scopes with functions := s.scopes.functions ++ [f] } }
  | answered {step : Step} {a : Answer} (h : step.Steady) (loop : Option Loop) :
      Moves s step a { s with loop }

section Steps

variable {s s' : Session} {step : Step} {a : Answer} {e : Failure}

theorem closed_ok {t : Scopes} : s.closed = .ok t ↔ s.scopes.leave? = some t := by
  unfold Session.closed
  cases s.scopes.leave? <;> simp

/-- Of the rules only the one that adds a definition changes the session. -/
theorem ask_moves {rule : Rule} {n : Node} (h : s.ask rule n = .ok (a, s')) : s.Moves (.ask rule n) a s' := by
  have same : s' = s → s.Moves (.ask rule n) a s' := by
    rintro rfl
    exact .answered (by trivial) s'.loop
  cases rule with
  | infer | condition | assignment | call | breakOut isLast =>
    simp only [ask, except_bind_ok, except_pure_ok, Prod.mk.injEq] at h
    obtain ⟨_, _, _, rfl⟩ := h
    exact same rfl
  | result =>
    simp only [ask, except_bind_ok, except_pure_ok, Prod.mk.injEq] at h
    obtain ⟨_, _, _, _, _, rfl⟩ := h
    exact same rfl
  | declaration =>
    cases n with
    | variableDecl span t name init =>
      simp only [ask, except_bind_ok, except_pure_ok, Prod.mk.injEq] at h
      obtain ⟨_, _, _, rfl⟩ := h
      exact same rfl
    | _ => cases h
  | print =>
    cases n with
    | print span e =>
      simp only [ask, except_bind_ok, except_pure_ok, Prod.mk.injEq] at h
      obtain ⟨_, _, _, rfl⟩ := h
      exact same rfl
    | _ => cases h
  | register =>
    simp only [ask, except_bind_ok, except_pure_ok, Prod.mk.injEq] at h
    obtain ⟨d, _, t, ht, _, rfl⟩ := h
    unfold Scopes.register at ht
    cases hs : d.signature? with
    | none =>
      rw [hs] at ht
      cases ht
    | some f =>
      rw [hs] at ht
      obtain ⟨hf, rfl⟩ := Scopes.declareFunction_ok.mp ht
      exact .defined (by trivial) hf

/-- One case for each kind of step. -/
theorem perform_moves (h : s.perform step = .ok (a, s')) : s.Moves step a s' := by
  cases step with
  | openFrame =>
    cases h
    exact .opened
  | closeFrame =>
    simp only [perform, except_bind_ok, except_pure_ok, closed_ok, Prod.mk.injEq] at h
    obtain ⟨t, ht, -, rfl⟩ := h
    exact .closed ht
  | enter b =>
    cases b with
    | scope =>
      cases h
      exact .entered
    | call =>
      cases h
      exact .called
  | leave =>
    unfold perform at h
    cases hb : s.brackets with
    | nil =>
      simp only [hb] at h
      cases h
    | cons b brackets =>
      cases b with
      | scope =>
        simp only [hb, except_bind_ok, except_pure_ok, closed_ok, Prod.mk.injEq] at h
        obtain ⟨t, ht, -, rfl⟩ := h
        exact .left hb ht
      | call =>
        simp only [hb, Except.ok.injEq, Prod.mk.injEq] at h
        obtain ⟨-, rfl⟩ := h
        exact .returned hb
  | declare name type value initial span =>
    simp only [perform, except_bind_ok, except_pure_ok, Prod.mk.injEq] at h
    obtain ⟨d, -, t, ht, rfl, rfl⟩ := h
    obtain ⟨-, rfl⟩ := Scopes.declare_ok ht
    exact .declared
  | ensureUndeclared name span | lookup name span | resolve name arity span =>
    simp only [perform, except_bind_ok, except_pure_ok, Prod.mk.injEq] at h
    obtain ⟨_, _, _, rfl⟩ := h
    exact .answered (by trivial) s.loop
  | set name value span =>
    simp only [perform, except_bind_ok, except_pure_ok, Prod.mk.injEq] at h
    obtain ⟨_, _, _, rfl⟩ := h
    have keeps (d : Declaration) : ({ d with value := value } : Declaration).imprint = d.imprint := rfl
    exact .changed (by trivial) keeps name
  | reset name span =>
    simp only [perform, except_bind_ok, except_pure_ok, Prod.mk.injEq] at h
    obtain ⟨_, _, _, rfl⟩ := h
    have keeps (d : Declaration) : d.reset.imprint = d.imprint := rfl
    exact .changed (by trivial) keeps name
  | declareFunction f span =>
    simp only [perform, except_bind_ok, except_pure_ok, Prod.mk.injEq] at h
    obtain ⟨t, ht, -, rfl⟩ := h
    obtain ⟨hf, rfl⟩ := Scopes.declareFunction_ok.mp ht
    exact .defined (by trivial) hf
  | ask rule node => exact ask_moves h
  | setLoop loop =>
    cases h
    exact .answered (by trivial) loop
  | consumeBreak =>
    cases h
    exact .answered (by trivial) _

theorem step_of_ok (h : s.perform step = .ok (a, s')) : s.step step = (.ok a, s') := by
  unfold Session.step
  rw [h]

/-- A step that fails changes no scopes. Something that could not be left still counts as left. -/
theorem step_of_error (h : s.perform step = .error e) : ∃ brackets, s.step step = (.error e, { s with brackets }) ∧
    (step ≠ .leave → brackets = s.brackets) := by
  unfold Session.step
  rw [h]
  cases step with
  | leave => exact ⟨s.brackets.drop 1, rfl, fun hl => absurd rfl hl⟩
  | _ => exact ⟨s.brackets, rfl, fun _ => rfl⟩

/-- A step either moves the session and answers, or fails. -/
theorem step_cases (s : Session) (step : Step) :
    (∃ a s', s.step step = (.ok a, s') ∧ s.Moves step a s') ∨
      ∃ e brackets, s.step step = (.error e, { s with brackets }) ∧ (step ≠ .leave → brackets = s.brackets) := by
  cases h : s.perform step with
  | ok r => exact .inl ⟨r.1, r.2, step_of_ok h, perform_moves h⟩
  | error e => exact .inr ⟨e, step_of_error h⟩

theorem step_fails (h : (s.step step).1 = .error e) :
    (s.step step).2.scopes = s.scopes ∧ (step ≠ .leave → (s.step step).2 = s) := by
  obtain ⟨a, s', hs, -⟩ | ⟨e', brackets, hs, hb⟩ := s.step_cases step
  · rw [hs] at h
    cases h
  · rw [hs]
    exact ⟨rfl, fun hl => by rw [hb hl]⟩

end Steps

end Session
end CheckedScript
