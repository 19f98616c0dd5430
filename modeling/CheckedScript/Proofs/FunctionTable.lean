import CheckedScript.Proofs.Limits
import CheckedScript.Proofs.Sessions

/-! The table of functions only grows, at its end, and never by a function that shares its name and its number of parameters
with one that is there. One relation between scopes says both; every step of a session has it and so has every step of a run.
Hence a call that was resolved once is resolved to the same function ever after: when the body of a function is run, its calls
go where they went when it was checked. -/

namespace CheckedScript

open Walk (judge record)

/-- The two share their name and their number of parameters: a call of the second would be taken for one of the first. -/
def Function.Rivals (f g : Function) : Prop :=
  f.signature.name.equal g.signature.name = true ∧ f.signature.params.length = g.signature.params.length

namespace Scopes

variable {s s' s'' : Scopes}

/-- No function of the table rivals a later one. -/
def Unrivalled (s : Scopes) : Prop := s.functions.Pairwise fun f g => ¬ f.Rivals g

theorem function?_none_iff {g : Function} :
    s.function? g.signature.name g.signature.params.length = none ↔ ∀ f ∈ s.functions, ¬ f.Rivals g := by
  simp only [function?, Function.Rivals, List.find?_eq_none, Bool.and_eq_true, beq_iff_eq, Int.natCast_inj]

/-- Functions were added, at the end of the table and without rivals. -/
structure TableGrows (s s' : Scopes) : Prop where
  table : s.functions <+: s'.functions
  unrivalled : s.Unrivalled → s'.Unrivalled

theorem TableGrows.same (h : s'.functions = s.functions) : s.TableGrows s' :=
  ⟨h ▸ List.prefix_refl _, fun hs => by rwa [Unrivalled, h]⟩

theorem TableGrows.refl (s : Scopes) : s.TableGrows s := .same rfl

theorem TableGrows.trans (h : s.TableGrows s') (h' : s'.TableGrows s'') : s.TableGrows s'' :=
  ⟨h.table.trans h'.table, fun hs => h'.unrivalled (h.unrivalled hs)⟩

theorem TableGrows.add {f : Function} (h : s.function? f.signature.name f.signature.params.length = none)
    (hs : s'.functions = s.functions ++ [f]) : s.TableGrows s' := by
  refine ⟨hs ▸ List.prefix_append _ _, fun hu => ?_⟩
  rw [Unrivalled, hs, List.pairwise_append]
  refine ⟨hu, List.pairwise_singleton _ _, fun g hg f' hf' => ?_⟩
  obtain rfl := List.mem_singleton.mp hf'
  exact function?_none_iff.mp h g hg

/-- What is found in a table is found in it when it has grown. -/
theorem TableGrows.resolve (h : s.TableGrows s') {name : Data} {arity : Int} {span : Span} {f : Function}
    (hf : s.resolve name arity span = .ok f) (span' : Span) : s'.resolve name arity span' = .ok f :=
  resolve_ok.mpr (h.table.find?_eq_some (resolve_ok.mp hf))

/-- Without rivals every function is the one that its name and its number of parameters lead to. The name must be equal to
itself, as every text is. -/
theorem Unrivalled.resolve (h : s.Unrivalled) {g : Function} (hg : g ∈ s.functions)
    (hn : g.signature.name.equal g.signature.name = true) (span : Span) :
    s.resolve g.signature.name g.signature.params.length span = .ok g := by
  obtain ⟨before, after, hs⟩ := List.append_of_mem hg
  rw [Unrivalled, hs, List.pairwise_append] at h
  have hbefore : ∀ f ∈ before, ¬ f.Rivals g := fun f hf => h.2.2 f hf g List.mem_cons_self
  refine resolve_ok.mpr (List.find?_eq_some_iff_append.mpr ⟨by simp [hn], before, after, hs, ?_⟩)
  intro f hf
  have hnot := hbefore f hf
  grind [Function.Rivals]

theorem functions_leave? (h : s.leave? = some s') : s'.functions = s.functions := by
  have hl := functions_leave s
  rwa [leave, h] at hl

@[simp] theorem functions_leaveCall (s : Scopes) : s.leaveCall.functions = s.functions := by
  unfold leaveCall
  split <;> rfl

end Scopes

namespace Session

variable {s s' : Session} {step : Step} {a : Answer}

theorem Moves.grows (h : s.Moves step a s') : s.scopes.TableGrows s'.scopes := by
  cases h with
  | opened | entered => exact .same (Scopes.functions_enter _)
  | closed h | left hb h => exact .same (Scopes.functions_leave? h)
  | called => exact .same (Scopes.functions_enterCall _)
  | returned hb => exact .same (Scopes.functions_leaveCall _)
  | declared | changed h hc name | answered h loop => exact .same rfl
  | defined h hf => exact .add hf rfl

theorem grows_step (s : Session) (step : Step) : s.scopes.TableGrows (s.step step).2.scopes := by
  obtain ⟨a, s', hs, hm⟩ | ⟨e, brackets, hs, -⟩ := s.step_cases step
  · rw [hs]
    exact hm.grows
  · rw [hs]
    exact .refl _

theorem grows_after (s : Session) (steps : List Step) : s.scopes.TableGrows (s.after steps).scopes := by
  induction steps generalizing s with
  | nil => exact .refl _
  | cons step rest ih => exact (s.grows_step step).trans (ih _)

/-- A function is added exactly if it has no rival, and nothing else is done. -/
theorem step_declareFunction (s : Session) (f : Signature) (span : Span) :
    ((∃ a, (s.step (.declareFunction f span)).1 = .ok a) ↔ ∀ g ∈ s.scopes.functions, ¬ g.Rivals ⟨f, none⟩) ∧
    ((∀ g ∈ s.scopes.functions, ¬ g.Rivals ⟨f, none⟩) →
      (s.step (.declareFunction f span)).2 =
        { s with scopes := { s.scopes with functions := s.scopes.functions ++ [⟨f, none⟩] } }) := by
  rw [← Scopes.function?_none_iff]
  cases h : s.scopes.declareFunction ⟨f, none⟩ span with
  | ok t =>
    obtain ⟨hnone, rfl⟩ := Scopes.declareFunction_ok.mp h
    have hp : s.perform (.declareFunction f span) = .ok (.signature f,
        { s with scopes := { s.scopes with functions := s.scopes.functions ++ [⟨f, none⟩] } }) := by
      simp only [perform, h]
      rfl
    rw [step_of_ok hp]
    exact ⟨iff_of_true ⟨_, rfl⟩ hnone, fun _ => rfl⟩
  | error e =>
    have hsome : s.scopes.function? f.name f.params.length ≠ none := by
      intro hnone
      rw [Scopes.declareFunction_ok.mpr ⟨hnone, rfl⟩] at h
      cases h
    have hp : s.perform (.declareFunction f span) = .error e := by
      simp only [perform, h]
      rfl
    obtain ⟨brackets, hs, -⟩ := step_of_error hp
    rw [hs]
    exact ⟨iff_of_false (by rintro ⟨a, ha⟩; cases ha) hsome, fun hnone => absurd hnone hsome⟩

end Session

namespace Walk

variable {α β : Type} {w : Walk α} {k : α → Walk β}

/-- However the walk ends, the table has only grown. -/
def Grows (w : Walk α) : Prop :=
  ∀ m : Machine, Ends w m (fun _ m' => m.scopes.TableGrows m'.scopes) (fun _ m' => m.scopes.TableGrows m'.scopes)

theorem Grows.bind (h : Grows w) (hk : ∀ a, Grows (k a)) : Grows (w >>= k) := by
  intro m
  rw [ends_bind]
  refine (h m).imp (fun a m₁ h₁ => ?_) fun _ _ hb => hb
  exact (hk a m₁).imp (fun _ _ h₂ => h₁.trans h₂) fun _ _ h₂ => h₁.trans h₂

theorem grows_judge (rule : Scopes → Except Failure α) : Grows (judge rule) :=
  fun _ => ends_judge.mpr ⟨fun _ _ => .refl _, fun _ _ => .refl _⟩

theorem grows_change {f : Scopes → Except Failure Scopes} (h : Change f) : Grows (change f) := by
  intro m
  refine ends_change.mpr ⟨fun s hs => ?_, fun _ _ => .refl _⟩
  cases h with
  | declare d span =>
    obtain ⟨-, rfl⟩ := Scopes.declare_ok hs
    exact .same rfl
  | assign name v =>
    obtain rfl := Except.ok.inj hs
    exact .same rfl
  | register d =>
    obtain ⟨f, -, hf, rfl⟩ := Scopes.register_ok.mp hs
    exact .add (f := ⟨f, some d⟩) hf rfl

/-- Changes around a walk that leave the table alone do not matter. -/
theorem grows_bracket {before after : Machine → Machine} (hb : ∀ m, (before m).scopes.functions = m.scopes.functions)
    (ha : ∀ m, (after m).scopes.functions = m.scopes.functions) (h : Grows w) : Grows (bracket before after w) := by
  intro m
  have back {m₁ : Machine} (h₁ : (before m).scopes.TableGrows m₁.scopes) : m.scopes.TableGrows (after m₁).scopes :=
    (Scopes.TableGrows.same (hb m)).trans (h₁.trans (.same (ha m₁)))
  exact ends_bracket.mpr ((h (before m)).imp (fun _ _ h₁ => back h₁) fun _ _ h₁ => back h₁)

theorem grows_inBody (h : Grows w) : Grows (inBody w) := grows_bracket (by simp) (by simp) h

theorem grows_steps : OfSteps Grows where
  pure _ := fun _ => .refl _
  throw _ := fun _ => .refl _
  bind := Grows.bind
  judge {_ rule} _ := grows_judge rule
  change := grows_change
  record _ _ _ := fun _ => ends_record fun _ => .refl _
  print _ := fun _ => ends_print.mpr (.refl _)
  inScope := grows_bracket (by simp) (by simp)
  inBody := grows_inBody
  inCall h := grows_bracket (by simp) (by simp) (grows_inBody h)

end Walk

namespace Plan

variable {settings : Settings} {α β : Type} {c : Plan α} {k : α → Plan β} {m n n' : Machine}
  {r : EStateM.Result Failure Machine α}

/-- The steps of the plan make the table grow at most, and what stands around them leaves it alone. -/
def Grows {α : Type} : Plan α → Prop
  | .step w => w.Grows
  | .perform _ => True
  | .bind c k => c.Grows ∧ ∀ a, (k a).Grows
  | .bracket before after c => (∀ m, (before m).scopes.functions = m.scopes.functions) ∧
      (∀ m, (after m).scopes.functions = m.scopes.functions) ∧ c.Grows

theorem grows_bind (h : c.Grows) (hk : ∀ a, (k a).Grows) : (c >>= k).Grows := ⟨h, hk⟩

theorem grows_pure (a : α) : (pure a : Plan α).Grows := Walk.grows_steps.pure a

theorem grows_fail (e : Failure) : (fail e : Plan α).Grows := Walk.grows_steps.throw e

theorem grows_inScope (h : c.Grows) : (inScope c).Grows := ⟨by simp, by simp, h⟩

theorem grows_inBody (h : c.Grows) : (inBody c).Grows := ⟨by simp, by simp, h⟩

theorem grows_needed {c : List Stmt → Plan (Option Loop)} (block : Option (List Stmt)) (h : ∀ b, (c b).Grows) :
    (needed block c).Grows := by
  cases block with
  | none => exact grows_fail _
  | some b => exact h b

theorem grows_second {c : List Stmt → Plan (Option Loop)} (loop : Option Loop) (block : Option (List Stmt))
    (h : ∀ b, (c b).Grows) : (second loop block c).Grows := by
  cases block with
  | none => exact grows_pure loop
  | some b => exact grows_inScope (h b)

theorem grows_define (d : Definition) {params body : Plan (Option Loop)} (hp : params.Grows) (hb : body.Grows) :
    (define settings d params body).Grows := by
  refine grows_bind (Walk.grows_change (.register d)) fun _ => grows_bind (grows_inBody ?_) fun _ => ?_
  · exact grows_bind hp fun _ => grows_bind hb fun _ => Walk.grows_judge _
  · exact Walk.grows_steps.record _ _ _

theorem grows_check (loop : Option Loop) (isLast : Bool) (s : Stmt) : (check settings loop isLast s).Grows := by
  cases s with
  | declare span type name init =>
    refine grows_bind (Walk.grows_judge _) fun _ => grows_bind (Walk.grows_judge _) fun _ => ?_
    exact grows_bind (Walk.grows_steps.declare span type name none) fun _ => grows_pure loop
  | param span type name => exact grows_bind (Walk.grows_steps.declare span type name none) fun _ => grows_pure loop
  | assign | call | print | breakOut => exact grows_bind (Walk.grows_judge _) fun _ => grows_pure loop
  | define span result name params body value =>
    exact grows_bind (grows_define _ trivial (grows_needed body fun _ => trivial)) fun _ => grows_pure loop
  | branch span condition thenBlock elseBlock =>
    refine grows_bind (Walk.grows_judge _) fun _ => grows_bind (grows_inScope trivial) fun l => ?_
    exact grows_bind (grows_second l elseBlock fun _ => trivial) fun _ => grows_pure _
  | loop span condition body =>
    refine grows_bind (Walk.grows_judge _) fun _ => ?_
    exact grows_bind (grows_inScope (grows_needed body fun _ => trivial)) fun _ => grows_pure loop
  | misfit what => exact grows_fail _

theorem grows_run (printing : Bool) (loop : Option Loop) (isLast : Bool) (s : Stmt) :
    (run settings printing loop isLast s).Grows := by
  have hjudge {γ : Type} (rule : Scopes → Except Failure γ) : (step (judge rule)).Grows := Walk.grows_judge rule
  have hrecord (level : Int) (line : String) : (step (record settings level line)).Grows :=
    Walk.grows_steps.record settings level line
  cases s with
  | declare span type name init =>
    have hrest (value : Option Value) : (do
        let d ← step (Walk.declare span type name value)
        step (record settings 2 s!"declare {name.shown}: {type.text} = {d.value.shown}")
        return loop : Plan (Option Loop)).Grows := by
      refine grows_bind (Walk.grows_steps.declare span type name value) fun d => ?_
      exact grows_bind (hrecord _ _) fun _ => grows_pure loop
    refine grows_bind (hjudge _) fun _ => grows_bind (hjudge _) fun _ => ?_
    cases init with
    | none => exact grows_bind (grows_pure none) hrest
    | some e => exact grows_bind trivial fun v => grows_bind (grows_pure (some v)) hrest
  | param | misfit => exact trivial
  | assign span name op e =>
    refine grows_bind (hjudge _) fun _ => grows_bind trivial fun v => grows_bind (hjudge _) fun d => ?_
    refine grows_bind (Walk.grows_steps.compute span _) fun new => ?_
    refine grows_bind (Walk.grows_change (.assign name new)) fun _ => ?_
    exact grows_bind (hrecord _ _) fun _ => grows_pure loop
  | call span name args => exact grows_bind (hjudge _) fun _ => grows_bind trivial fun _ => grows_pure loop
  | define span result name params body value =>
    exact grows_bind (grows_define _ trivial (grows_needed body fun _ => trivial)) fun _ => grows_pure loop
  | print span operand =>
    refine grows_bind (hjudge _) fun _ => ?_
    cases printing with
    | false => exact grows_pure loop
    | true =>
      cases operand with
      | none => exact grows_bind (Walk.grows_steps.print "") fun _ => grows_pure loop
      | some e =>
        refine grows_bind trivial fun v => ?_
        exact grows_bind (Walk.grows_steps.print v.shown) fun _ => grows_pure loop
  | branch span condition thenBlock elseBlock =>
    simp only [run]
    refine grows_bind (hjudge _) fun _ => grows_bind trivial fun taken => grows_bind (hrecord _ _) fun _ => ?_
    split
    · refine grows_bind (grows_second loop elseBlock fun _ => trivial) fun l => ?_
      exact grows_bind (grows_inScope trivial) fun _ => grows_pure _
    · refine grows_bind (grows_inScope trivial) fun l => ?_
      exact grows_bind (grows_second l elseBlock fun _ => trivial) fun _ => grows_pure _
  | loop span condition body =>
    refine grows_bind (hjudge _) fun _ => ?_
    refine grows_bind (grows_inScope (grows_needed body fun _ => trivial)) fun _ => ?_
    exact grows_bind trivial fun _ => grows_pure loop
  | breakOut span => exact grows_bind (hjudge _) fun _ => grows_pure _

theorem grows_passes (printing : Bool) (span : Span) (condition : Expr) (body : Option (List Stmt)) (done : Nat)
    (loop : Option Loop) : (passes settings printing span condition body done loop).Grows := by
  have hrecord (level : Int) (line : String) : (step (record settings level line)).Grows :=
    Walk.grows_steps.record settings level line
  unfold passes
  refine grows_bind (grows_bind trivial fun v => grows_pure v.holds) fun holds => ?_
  split
  · split
    · exact hrecord _ _
    · split
      · exact grows_fail _
      · refine grows_bind (hrecord _ _) fun _ => ?_
        exact grows_bind (grows_inScope (grows_needed body fun _ => trivial)) fun _ => trivial
  · exact grows_pure ()

theorem grows_evaluate (printing : Bool) (e : Expr) : (evaluate printing e).Grows := by
  cases e with
  | literal span v => exact grows_pure v
  | untyped | missing | misfit => exact grows_fail _
  | identifier span name => exact grows_bind (Walk.grows_judge _) fun d => grows_pure d.value
  | binary form span op left right =>
    exact grows_bind trivial fun _ => grows_bind trivial fun _ => Walk.grows_steps.compute span _
  | unary form span op operand => exact grows_bind trivial fun _ => Walk.grows_steps.compute span _
  | call span name args =>
    exact grows_bind (Walk.grows_judge _) fun _ => grows_bind trivial fun _ => trivial

theorem grows_call (printing : Bool) (span : Span) (name : Data) (f : Function) (values : List Value) :
    (call settings printing span name f values).Grows := by
  have hread : Walk.Grows (modifyGet fun m => (m.callDepth, m)) := fun _ => .refl _
  have hcalled : (called printing f values).Grows := by
    unfold called
    cases f.definition with
    | none => exact grows_fail _
    | some d =>
      refine grows_bind (Walk.grows_steps.bindParams d.params values) fun _ => ?_
      refine grows_bind (grows_needed d.body fun _ => trivial) fun _ => ?_
      exact grows_bind (Walk.grows_judge _) fun _ => trivial
  refine grows_bind hread fun underWay => ?_
  split
  · exact grows_fail _
  · refine grows_bind (Walk.grows_steps.record settings _ _) fun _ => ?_
    exact ⟨by simp, by simp, grows_inBody hcalled⟩

theorem grows_statement (s : Stmt) (rest : List Stmt) : (statement settings s rest).Grows := by
  unfold statement
  cases s.kind? with
  | none => exact grows_bind (grows_fail _) fun _ => grows_bind trivial fun _ => trivial
  | some k => exact grows_bind (Walk.grows_steps.record settings _ _) fun _ => grows_bind trivial fun _ => trivial

/-- Whatever is performed, none of its steps takes a function from the table or puts one before another. -/
theorem grows_plan (t : Activity α) : (t.plan settings).Grows := by
  cases t with
  | check loop isLast s => exact grows_check loop isLast s
  | checkBlock loop block | runBlock printing loop block =>
    cases block with
    | nil => exact grows_pure loop
    | cons s rest => exact grows_bind trivial fun _ => trivial
  | run printing loop isLast s => exact grows_run printing loop isLast s
  | passes printing span condition body done loop => exact grows_passes printing span condition body done loop
  | evaluate printing e => exact grows_evaluate printing e
  | evaluateAll printing args =>
    cases args with
    | nil => exact grows_pure []
    | cons e rest => exact grows_bind trivial fun v => grows_bind trivial fun values => grows_pure (v :: values)
  | call printing span name f values => exact grows_call printing span name f values
  | statements block =>
    cases block with
    | nil => exact grows_pure ()
    | cons s rest => exact grows_statement s rest

/-- On its way from the state `m`, the plan takes a step in the state `n`. -/
inductive Meets (settings : Settings) : {α : Type} → Plan α → Machine → Machine → Prop where
  | step {α : Type} {w : Walk α} {m} : Meets settings (.step w) m m
  | perform {α : Type} {t : Activity α} {m n} (h : Meets settings (t.plan settings) m n) :
      Meets settings (.perform t) m n
  | first {α β : Type} {c : Plan α} {k : α → Plan β} {m n} (h : Meets settings c m n) : Meets settings (.bind c k) m n
  | next {α β : Type} {c : Plan α} {k : α → Plan β} {m a m₁ n} (hc : EndsIn settings c m (.ok a m₁))
      (h : Meets settings (k a) m₁ n) : Meets settings (.bind c k) m n
  | bracket {α : Type} {before after : Machine → Machine} {c : Plan α} {m n} (h : Meets settings c (before m) n) :
      Meets settings (.bracket before after c) m n

/-- On its way from the state `m`, the plan takes a step in the state `n` and this or a later one in `n'`. -/
inductive InTurn (settings : Settings) : {α : Type} → Plan α → Machine → Machine → Machine → Prop where
  | step {α : Type} {w : Walk α} {m} : InTurn settings (.step w) m m m
  | perform {α : Type} {t : Activity α} {m n n'} (h : InTurn settings (t.plan settings) m n n') :
      InTurn settings (.perform t) m n n'
  | first {α β : Type} {c : Plan α} {k : α → Plan β} {m n n'} (h : InTurn settings c m n n') :
      InTurn settings (.bind c k) m n n'
  | next {α β : Type} {c : Plan α} {k : α → Plan β} {m a m₁ n n'} (hc : EndsIn settings c m (.ok a m₁))
      (h : InTurn settings (k a) m₁ n n') : InTurn settings (.bind c k) m n n'
  | across {α β : Type} {c : Plan α} {k : α → Plan β} {m a m₁ n n'} (h : Meets settings c m n)
      (hc : EndsIn settings c m (.ok a m₁)) (h' : Meets settings (k a) m₁ n') : InTurn settings (.bind c k) m n n'
  | bracket {α : Type} {before after : Machine → Machine} {c : Plan α} {m n n'}
      (h : InTurn settings c (before m) n n') : InTurn settings (.bracket before after c) m n n'

/-- Of two steps of a plan, one comes first. -/
theorem Meets.inTurn (h : Meets settings c m n) (h' : Meets settings c m n') :
    InTurn settings c m n n' ∨ InTurn settings c m n' n := by
  induction h with
  | step =>
    cases h'
    exact .inl .step
  | perform h ih =>
    cases h' with
    | perform h' => exact (ih h').imp .perform .perform
  | first h ih =>
    cases h' with
    | first h' => exact (ih h').imp .first .first
    | next hc h' => exact .inl (.across h hc h')
  | next hc h ih =>
    cases h' with
    | first h' => exact .inr (.across h' hc h)
    | next hc' h' =>
      injection hc.unique hc' with ha hm
      subst ha hm
      exact (ih h').imp (.next hc) (.next hc)
  | bracket h ih =>
    cases h' with
    | bracket h' => exact (ih h').imp .bracket .bracket

theorem EndsIn.functions_grow (h : EndsIn settings c m r) (hc : c.Grows) : m.scopes.TableGrows (finalState r).scopes := by
  induction h with
  | step w m =>
    have hw : Walk.Grows w := hc
    cases hm : w m with
    | ok a m₁ => exact (hw m).ok hm
    | error e m₁ => exact (hw m).error hm
  | perform h ih => exact ih (grows_plan _)
  | next h hk ih ihk => exact (ih hc.1).trans (ihk (hc.2 _))
  | stop h ih => exact ih hc.1
  | bracket h ih =>
    rw [finalState_close]
    exact (Scopes.TableGrows.same (hc.1 _)).trans ((ih hc.2.2).trans (.same (hc.2.1 _)))

theorem Meets.functions_grow (h : Meets settings c m n) (hc : c.Grows) : m.scopes.TableGrows n.scopes := by
  induction h with
  | step => exact .refl _
  | perform h ih => exact ih (grows_plan _)
  | first h ih => exact ih hc.1
  | next he h ih => exact (he.functions_grow hc.1).trans (ih (hc.2 _))
  | bracket h ih => exact (Scopes.TableGrows.same (hc.1 _)).trans (ih hc.2.2)

/-- From any step of a plan on to its end the table only grows. -/
theorem Meets.grow_to_end (h : Meets settings c m n) (hr : EndsIn settings c m r) (hc : c.Grows) :
    n.scopes.TableGrows (finalState r).scopes := by
  induction h with
  | step => exact hr.functions_grow hc
  | perform h ih =>
    cases hr with
    | perform hr => exact ih hr (grows_plan _)
  | first h ih =>
    cases hr with
    | next hr hk => exact (ih hr hc.1).trans (hk.functions_grow (hc.2 _))
    | stop hr => exact ih hr hc.1
  | next he h ih =>
    cases hr with
    | next hr hk =>
      injection he.unique hr with ha hm
      subst ha hm
      exact ih hk (hc.2 _)
    | stop hr => exact nomatch he.unique hr
  | bracket h ih =>
    cases hr with
    | bracket hr =>
      rw [finalState_close]
      exact (ih hr hc.2.2).trans (.same (hc.2.1 _))

theorem InTurn.functions_grow (h : InTurn settings c m n n') (hc : c.Grows) : n.scopes.TableGrows n'.scopes := by
  induction h with
  | step => exact .refl _
  | perform h ih => exact ih (grows_plan _)
  | first h ih => exact ih hc.1
  | next he h ih => exact ih (hc.2 _)
  | across h he h' => exact (h.grow_to_end he hc.1).trans (h'.functions_grow (hc.2 _))
  | bracket h ih => exact ih hc.2.2

end Plan

/-- Functions are bound for good. Whatever is done to a table that was empty, no two of its entries share their name and their
number of parameters; a function is added exactly if it has no rival, at the end, and otherwise nothing changes; and an entry
is what its name and its number of parameters are resolved to, whatever is done afterwards. In the run of a program, which
comes to the end that its plan comes to, every table is such a table, of two steps one comes first, and what is resolved
at one step is resolved to the same function at every later one: a call goes where it went when the body with it was checked. -/
theorem Session.functions_bound_for_good (s₀ : Session) (h₀ : s₀.scopes.functions = []) (steps : List Step) :
    (s₀.after steps).scopes.Unrivalled ∧
    (∀ f span,
      ((∃ a, ((s₀.after steps).step (.declareFunction f span)).1 = .ok a) ↔
        ∀ g ∈ (s₀.after steps).scopes.functions, ¬ g.Rivals ⟨f, none⟩) ∧
      (∀ a, ((s₀.after steps).step (.declareFunction f span)).1 = .ok a →
        ((s₀.after steps).step (.declareFunction f span)).2.scopes.functions =
          (s₀.after steps).scopes.functions ++ [⟨f, none⟩]) ∧
      (∀ e, ((s₀.after steps).step (.declareFunction f span)).1 = .error e →
        ((s₀.after steps).step (.declareFunction f span)).2 = s₀.after steps)) ∧
    (∀ g ∈ (s₀.after steps).scopes.functions, g.signature.name.equal g.signature.name = true → ∀ more span,
      ((s₀.after steps).after more).scopes.resolve g.signature.name g.signature.params.length span = .ok g) ∧
    (∀ (i : Interpreter) (p : Program),
      (∃ r, Plan.EndsIn i.settings (.program p) i.machine r ∧ i.run p = i.answer r) ∧
      (∀ n n', Plan.Meets i.settings (.program p) i.machine n → Plan.Meets i.settings (.program p) i.machine n' →
        n.scopes.Unrivalled ∧
        (Plan.InTurn i.settings (.program p) i.machine n n' ∨ Plan.InTurn i.settings (.program p) i.machine n' n)) ∧
      ∀ n n', Plan.InTurn i.settings (.program p) i.machine n n' → ∀ name arity span span' f,
        n.scopes.resolve name arity span = .ok f → n'.scopes.resolve name arity span' = .ok f) := by
  have hs : (s₀.after steps).scopes.Unrivalled :=
    (s₀.grows_after steps).unrivalled (by rw [Scopes.Unrivalled, h₀]; exact .nil)
  refine ⟨hs, fun f span => ?_, fun g hg hn more span => ?_, fun i p => ?_⟩
  · obtain ⟨hiff, hadd⟩ := (s₀.after steps).step_declareFunction f span
    refine ⟨hiff, fun a ha => ?_, fun e he => ?_⟩
    · rw [hadd (hiff.mp ⟨a, ha⟩)]
    · exact (step_fails he).2 (by simp)
  · exact ((s₀.after steps).grows_after more).resolve (hs.resolve hg hn span) span
  · have hp : (Plan.program p).Grows := Plan.grows_inScope trivial
    have hstart : i.machine.scopes.Unrivalled := .nil
    refine ⟨⟨_, i.endsIn_program p, i.run_eq_answer p⟩, fun n n' hn hn' => ?_, fun n n' hnn name arity span span' f hf => ?_⟩
    · exact ⟨(hn.functions_grow hp).unrivalled hstart, hn.inTurn hn'⟩
    · exact (hnn.functions_grow hp).resolve hf span'

/-- A function `f` that calls itself. -/
def selfCalling : Definition :=
  ⟨.zero, .boolean, .text "f", [], some [.call .zero (.text "f") []], .literal .zero (.boolean true)⟩

/-- The function is defined and then called. -/
def recalled : Program :=
  ⟨.zero, [.define .zero .boolean (.text "f") [] selfCalling.body selfCalling.value, .call .zero (.text "f") []]⟩

/-- A state in the body of the function, while so many calls are under way. -/
def inSelfCalling (calls : Nat) : Machine :=
  ⟨⟨some ⟨[], [[]]⟩, [.sharing []], [⟨⟨.boolean, .text "f", []⟩, some selfCalling⟩]⟩, #[], calls, #[]⟩

namespace Plan

/-- The body is checked when the function is defined and run when it is called. -/
theorem inTurn_recalled :
    InTurn .standard (.program recalled) (Interpreter.new .standard .stream).machine (inSelfCalling 0) (inSelfCalling 1) := by
  have hbody : EndsIn .standard (.perform (.checkBlock none [.call .zero (.text "f") []])) (inSelfCalling 0)
      (.ok none (inSelfCalling 0)) :=
    .perform (.next (.perform (.next (.step _ _) (.step _ _))) (.perform (.step _ _)))
  have hdefined : EndsIn .standard (.perform (.run true none false (.define .zero .boolean (.text "f") []
      selfCalling.body selfCalling.value))) Interpreter.start
      (.ok none { inSelfCalling 0 with scopes := (inSelfCalling 0).scopes.leaveCall }) :=
    .perform (.next (.next (.step _ _) (.next (.bracket (r := .ok () (inSelfCalling 0)) (.next (.perform (.step _ _))
      (.next hbody (.step _ _)))) (.step _ _))) (.step _ _))
  refine .bracket (.perform (.next (.step _ _) (.across ?_ hdefined ?_)))
  · exact .perform (.first (.next (.step _ _) (.first (.bracket (.next (.perform (.step _ _))
      (.first (.perform (.first (.perform (.first .step))))))))))
  · exact .perform (.next (.step _ _) (.first (.perform (.next (.step _ _) (.first (.perform (.next (.step _ _)
      (.next (.perform (.step _ _)) (.perform (.next (.step _ _) (.next (.step _ _) (.bracket (.bracket
        (.next (.step _ _) (.first (.perform (.first (.perform (.first .step)))))))))))))))))))

end Plan

/-- Of three functions named `f`, the second has the number of parameters of the first and is refused. -/
def namesakes : List Session.Step :=
  [.declareFunction ⟨.boolean, .text "f", []⟩ .zero, .declareFunction ⟨.number, .text "f", []⟩ .zero,
    .declareFunction ⟨.boolean, .text "f", [.number]⟩ .zero]

/-- Both others are found later, and the call in the body of a function goes where it went when the body was checked. -/
theorem Session.functions_bound_for_good_recalled :
    (Session.start.after namesakes).scopes.functions =
      [⟨⟨.boolean, .text "f", []⟩, none⟩, ⟨⟨.boolean, .text "f", [.number]⟩, none⟩] ∧
    ((Session.start.after namesakes).after namesakes).scopes.resolve (.text "f") 1 .zero =
      .ok ⟨⟨.boolean, .text "f", [.number]⟩, none⟩ ∧
    (inSelfCalling 0).scopes.resolve (.text "f") 0 .zero = .ok ⟨⟨.boolean, .text "f", []⟩, some selfCalling⟩ ∧
    (inSelfCalling 1).scopes.resolve (.text "f") 0 .zero = .ok ⟨⟨.boolean, .text "f", []⟩, some selfCalling⟩ := by
  obtain ⟨-, -, hfound, hruns⟩ := functions_bound_for_good Session.start rfl namesakes
  have hchecked : (inSelfCalling 0).scopes.resolve (.text "f") 0 .zero =
      .ok ⟨⟨.boolean, .text "f", []⟩, some selfCalling⟩ := rfl
  refine ⟨rfl, ?_, hchecked, ?_⟩
  · exact hfound ⟨⟨.boolean, .text "f", [.number]⟩, none⟩ (.tail _ (.head _)) rfl namesakes .zero
  · exact (hruns (.new .standard .stream) recalled).2.2 _ _ Plan.inTurn_recalled _ _ _ _ _ hchecked

end CheckedScript
