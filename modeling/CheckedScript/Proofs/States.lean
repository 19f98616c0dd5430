import CheckedScript.Proofs.Preservation

/-! The states of a run. A run goes through the states in which its tasks begin and end, and through those in between: a function
has entered the table, some parameters of a call have their values, a block is looked at and not run. Between any two of
them only the trace and the output change. In all of them every variable has a value of its type, in the frames that are
open and in those of suspended callers, and what the static rules accept there has a value of the type that they say. -/

namespace CheckedScript

/-- The first parameters declare the first of what all of them declare. -/
theorem Stmt.declares_take {params : List Stmt} (hp : ∀ p ∈ params, p.IsParam) (k : Nat) :
    (params.take k).flatMap Stmt.declares = (params.flatMap Stmt.declares).take k := by
  induction params generalizing k with
  | nil => simp
  | cons p params ih =>
    cases p with
    | param span type name =>
      cases k with
      | zero => rfl
      | succ k => simp [Stmt.declares, ih fun q hq => hp q (.tail _ hq)]
    | _ => exact (hp _ (.head _)).elim

theorem Value.Fit.take {values : List Value} {types : List Ty} (h : Value.Fit values types) (k : Nat) :
    Value.Fit (values.take k) (types.take k) := by
  induction values generalizing types k with
  | nil =>
    cases types with
    | nil => simpa using h
    | cons t types => exact h.elim
  | cons v values ih =>
    cases types with
    | nil => exact h.elim
    | cons t types =>
      cases k with
      | zero => trivial
      | succ k => exact ⟨h.1, ih h.2 k⟩

namespace Walk

open Machine (Keeps Healthy)

/-- What is looked at and not run: a statement, a block, or a block in a frame of its own. -/
inductive Inspection where
  | statement (loop : Option Loop) (isLast : Bool) (s : Stmt)
  | block (loop : Option Loop) (list : List Stmt)
  | framed (loop : Option Loop) (list : List Stmt)

namespace Inspection

def walk (settings : Settings) : Inspection → Walk (Option Loop)
  | statement loop isLast s => check settings loop isLast s
  | block loop list => checkBlock settings loop list
  | framed loop list => inScope (checkBlock settings loop list)

def Plain : Inspection → Prop
  | statement _ _ s => s.Plain
  | block _ list | framed _ list => Stmt.PlainBlock list

theorem healthy {i : Inspection} (hp : i.Plain) {settings : Settings} {m : Machine} (hm : m.Healthy) :
    Ends (i.walk settings) m (fun _ m' => m'.Healthy) (fun _ m' => m'.Healthy) := by
  cases i with
  | statement loop isLast s => exact (check_preserves settings loop isLast s hp hm).healthy
  | block loop list => exact (checkBlock_preserves settings loop list hp hm).healthy
  | framed loop list => exact (checkScope_preserves settings loop hp hm).healthy

end Inspection

/-- The states that a look goes through. What is looked at in a run is plain and defines no function. -/
inductive Inspects (settings : Settings) : Inspection → Machine → Machine → Prop where
  | begun {i m} : Inspects settings i m m
  | ended {i m l n} (h : i.walk settings m = .ok l n) : Inspects settings i m n
  | failed {i m f n} (h : i.walk settings m = .error f n) : Inspects settings i m n
  | inside {loop list m n} (hn : Inspects settings (.block loop list) { m with scopes := m.scopes.enter } n) :
      Inspects settings (.framed loop list) m n
  | head {loop s rest m n} (hn : Inspects settings (.statement loop rest.isEmpty s) m n) :
      Inspects settings (.block loop (s :: rest)) m n
  | tail {loop s rest m l m₁ n} (hs : check settings loop rest.isEmpty s m = .ok l m₁)
      (hn : Inspects settings (.block l rest) m₁ n) : Inspects settings (.block loop (s :: rest)) m n
  | thenBranch {loop isLast span condition thenBlock elseBlock m n} (hc : m.scopes.checkCondition condition = .ok ())
      (hn : Inspects settings (.framed loop thenBlock) m n) :
      Inspects settings (.statement loop isLast (.branch span condition thenBlock elseBlock)) m n
  | elseBranch {loop isLast span condition thenBlock elseBlock m l m₁ n} (hc : m.scopes.checkCondition condition = .ok ())
      (ht : inScope (checkBlock settings loop thenBlock) m = .ok l m₁) (hn : Inspects settings (.framed l elseBlock) m₁ n) :
      Inspects settings (.statement loop isLast (.branch span condition thenBlock (some elseBlock))) m n
  | body {loop isLast span condition body m n} (hc : m.scopes.checkCondition condition = .ok ())
      (hn : Inspects settings (.framed (some .fresh) body) m n) :
      Inspects settings (.statement loop isLast (.loop span condition (some body))) m n

theorem Inspects.healthy {settings : Settings} {i : Inspection} {m n : Machine} (h : Inspects settings i m n) (hp : i.Plain)
    (hm : m.Healthy) : n.Healthy := by
  induction h with
  | begun => exact hm
  | ended h => exact (Inspection.healthy hp hm).ok h
  | failed h => exact (Inspection.healthy hp hm).error h
  | inside _ ih => exact ih hp hm.enter
  | head _ ih => exact ih hp.1 hm
  | tail hs _ ih => exact ih hp.2 ((check_preserves settings _ _ _ hp.1 hm).healthy.ok hs)
  | thenBranch _ _ ih => exact ih hp.2.1 hm
  | elseBranch _ ht _ ih => exact ih hp.2.2 ((checkScope_preserves settings _ hp.2.1 hm).healthy.ok ht)
  | body _ _ ih => exact ih hp.2 hm

/-- The states that a task goes through when it is begun in a state. -/
inductive Visits (settings : Settings) : Task → Machine → Machine → Prop where
  | begun {t m} : Visits settings t m m
  | ended {t m u n} (h : t.walk settings m = .ok u n) : Visits settings t m n
  | failed {t m f n} (h : t.walk settings m = .error f n) : Visits settings t m n
  | within {t m t' m' n} (h : Leads settings t m t' m') (hn : Visits settings t' m' n) : Visits settings t m n
  -- the branch of an `if` that is not taken
  | elseBranch {printing left loop isLast span condition thenBlock elseBlock m v m₁ m₂ n}
      (hc : m.scopes.checkCondition condition = .ok ())
      (hv : evaluate (callWith settings printing left) condition m = .ok v m₁) (ht : v.holds = true)
      (hr : record settings 3 s!"if condition -> {v.shown}" m₁ = .ok () m₂)
      (hn : Inspects settings (.framed loop elseBlock) m₂ n) :
      Visits settings (.run printing left loop isLast (.branch span condition thenBlock (some elseBlock))) m n
  | thenBranch {printing left loop isLast span condition thenBlock elseBlock m v m₁ m₂ n}
      (hc : m.scopes.checkCondition condition = .ok ())
      (hv : evaluate (callWith settings printing left) condition m = .ok v m₁) (ht : v.holds = false)
      (hr : record settings 3 s!"if condition -> {v.shown}" m₁ = .ok () m₂)
      (hn : Inspects settings (.framed loop thenBlock) m₂ n) :
      Visits settings (.run printing left loop isLast (.branch span condition thenBlock elseBlock)) m n
  -- the body of a loop, before its first pass
  | loopBody {printing left loop isLast span condition body m n} (hc : m.scopes.checkCondition condition = .ok ())
      (hn : Inspects settings (.framed (some .fresh) body) m n) :
      Visits settings (.run printing left loop isLast (.loop span condition (some body))) m n
  -- a definition: its function is known, and then its body is looked at
  | registered {printing left loop isLast span result name params body value m s}
      (hs : m.scopes.register ⟨span, result, name, params, body, value⟩ = .ok s) :
      Visits settings (.run printing left loop isLast (.define span result name params body value)) m { m with scopes := s }
  | definition {printing left loop isLast span result name params body value m s l m₁ n}
      (hs : m.scopes.register ⟨span, result, name, params, some body, value⟩ = .ok s)
      (hp : runBlock settings (callWith settings printing left) printing loop params { m with scopes := s.enterCall } =
        .ok l m₁)
      (hn : Inspects settings (.block none body) m₁ n) :
      Visits settings (.run printing left loop isLast (.define span result name params (some body) value)) m n
  -- a call whose first parameters have their values
  | bound {printing left span name f values m d m₁ k n} (hd : f.definition = some d)
      (hr : record settings 3 (callLine name values) m = .ok () m₁)
      (hp : bindParams (d.params.take k) (values.take k) (called m₁) = .ok () n) :
      Visits settings (.call printing (left + 1) span name f values) m n

/-- The task may be begun in the state: its trees are plain, and the static rules accept what it evaluates. -/
def Task.Admitted (m : Machine) : Task → Prop
  | statements list => ∀ s ∈ list, s.PlainTop
  | run _ _ _ _ s => s.PlainTop
  | block _ _ _ list => Stmt.PlainBlock list
  | passes _ _ _ condition body _ _ _ => condition.Plain ∧ (∃ t, m.scopes.infer condition = .ok t) ∧ Stmt.PlainBlock body
  | evaluate _ _ e => e.Plain ∧ ∃ t, m.scopes.infer e = .ok t
  | evaluateAll _ _ args => Expr.PlainAll args ∧
      ∃ f span types, args.length = types.length ∧ m.scopes.checkArguments f span args types = .ok ()
  | call _ _ _ _ f values => f.Plain ∧ Value.Fit values f.signature.params

section Tasks

variable {settings : Settings} {t t' : Task} {m m' n : Machine}

/-- However a task ends that may be begun, it leaves a healthy state. -/
theorem Task.healthy (ha : t.Admitted m) (hm : m.Healthy) :
    Ends (t.walk settings) m (fun _ m' => m'.Healthy) (fun _ m' => m'.Healthy) := by
  cases t with
  | statements list => exact statements_healthy ha hm
  | run printing left loop isLast s =>
    simp only [Task.walk, ends_bind, ends_pure]
    exact runTop_healthy (callWith_preserves printing left) loop isLast ha hm
  | block printing left loop list =>
    simp only [Task.walk, ends_bind, ends_pure]
    exact (runBlock_preserves (callWith_preserves printing left) loop list ha hm).healthy
  | passes printing left span condition body more done loop =>
    obtain ⟨he, ⟨t, ht⟩, hb⟩ := ha
    refine (preserves_iterate hm (fun m₁ hm₁ hk₁ => ?_) fun inner m₁ hm₁ _ => ?_).healthy
    · exact test_preserves (callWith_preserves printing left) he hm₁ ((hk₁.wider hm.isOpen).infer condition ht)
    · exact preserves_inScope (runBlock_preserves (callWith_preserves printing left) inner body hb hm₁.enter) hm₁
  | evaluate printing left e =>
    obtain ⟨he, t, ht⟩ := ha
    simp only [Task.walk, ends_bind, ends_pure]
    exact (evaluate_preserves (callWith_preserves printing left) e he hm ht).healthy
  | evaluateAll printing left args =>
    obtain ⟨he, f, span, types, hl, ht⟩ := ha
    simp only [Task.walk, ends_bind, ends_pure]
    exact (evaluateAll_preserves (callWith_preserves printing left) f span args he hm types hl ht).healthy
  | call printing left span name f values =>
    simp only [Task.walk, ends_bind, ends_pure]
    exact (callWith_preserves printing left span name f values m hm ha.1 ha.2).healthy

/-- The state in which the branches of an `if` are come to. -/
theorem healthy_at_branch {printing : Bool} {left : Nat} {condition : Expr} (he : condition.Plain) (hm : m.Healthy)
    (hc : m.scopes.checkCondition condition = .ok ()) {v : Value} {m₁ m₂ : Machine} {line : String}
    (hv : evaluate (callWith settings printing left) condition m = .ok v m₁)
    (hr : record settings 3 line m₁ = .ok () m₂) : m₂.Healthy := by
  obtain ⟨t, ht, -⟩ := Scopes.checkCondition_ok.mp hc
  have hm₁ := (evaluate_preserves (callWith_preserves printing left) condition he hm ht).healthy.ok hv
  exact (preserves_record hm₁).healthy.ok hr

/-- The state in which a pass over the body of a loop begins: the condition is accepted there too. -/
theorem healthy_at_pass {printing : Bool} {left : Nat} {condition : Expr} (he : condition.Plain) (hm : m.Healthy) {t : Ty}
    (ht : m.scopes.infer condition = .ok t) {b : Bool} {m₁ m₂ : Machine} {line : String}
    (hv : test (callWith settings printing left) condition m = .ok b m₁)
    (hr : record settings 3 line m₁ = .ok () m₂) : m₂.Healthy ∧ Keeps [] m m₂ := by
  obtain ⟨-, hm₁, hk₁⟩ := (test_preserves (callWith_preserves printing left) he hm ht).ok hv
  obtain ⟨-, hm₂, hk₂⟩ := (preserves_record hm₁).ok hr
  exact ⟨hm₂, hk₁.trans hk₂⟩

/-- The state in which the body of a called function begins. -/
theorem healthy_at_body {d : Definition} {f : Function} {values : List Value} {m₁ m₂ : Machine} {line : String}
    (hf : f.Plain) (hd : f.definition = some d) (hv : Value.Fit values f.signature.params) (hm : m.Healthy)
    (hr : record settings 3 line m = .ok () m₁) (hp : bindParams d.params values (called m₁) = .ok () m₂) :
    d.Plain ∧ m₂.Healthy := by
  obtain ⟨d', hd', hplain, hs⟩ := hf
  obtain rfl : d = d' := Option.some.inj (hd.symm.trans hd')
  rw [← Option.some.inj (hplain.signature.symm.trans hs)] at hv
  have hm₁ := (preserves_record hm).healthy.ok hr
  exact ⟨hplain, (bindParams_preserves hplain.params hm₁.enterCall hv).healthy.ok hp⟩

/-- A task that may be begun hands a healthy state over only to tasks that may be begun in it. -/
theorem Leads.admitted (h : Leads settings t m t' m') (ha : t.Admitted m) (hm : m.Healthy) :
    t'.Admitted m' ∧ m'.Healthy := by
  cases h with
  | first hk hr => exact ⟨ha _ (.head _), (preserves_record hm).healthy.ok hr⟩
  | next hk hr hs =>
    have hm₁ := (preserves_record hm).healthy.ok hr
    exact ⟨fun s h => ha s (.tail _ h), (runTop_healthy (callWith_preserves _ _) none _ (ha _ (.head _)) hm₁).ok hs⟩
  | head => exact ⟨ha.1.top, hm⟩
  | tail hs => exact ⟨ha.2, (run_preserves (callWith_preserves _ _) _ _ _ ha.1 hm).healthy.ok hs⟩
  | initial hd hu =>
    obtain ⟨t, ht, -⟩ := Scopes.checkDeclaration_ok.mp hd _ rfl
    exact ⟨⟨ha.2.2, t, ht⟩, hm⟩
  | assigned hd =>
    obtain ⟨-, t, ht, -⟩ := Scopes.checkAssignment_ok.mp hd
    exact ⟨⟨ha.2.2, t, ht⟩, hm⟩
  | called hf => exact ⟨⟨ha, _, Scopes.infer_call_ok.mpr ⟨_, hf, rfl⟩⟩, hm⟩
  | printed he =>
    obtain ⟨t, ht⟩ := Scopes.checkPrint_ok.mp he _ rfl
    exact ⟨⟨ha, t, ht⟩, hm⟩
  | params hs =>
    obtain ⟨f, hf, -, rfl⟩ := Scopes.register_ok.mp hs
    exact ⟨Definition.Plain.plainParams ha, hm.defining ⟨_, rfl, ha, hf⟩⟩
  | condition hc =>
    obtain ⟨t, ht, -⟩ := Scopes.checkCondition_ok.mp hc
    exact ⟨⟨ha.1, t, ht⟩, hm⟩
  | thenBranch hc hv ht hr he =>
    have hm₂ := healthy_at_branch ha.1 hm hc hv hr
    exact ⟨ha.2.1, ((checkElse_preserves settings _ _ ha.2.2 hm₂).healthy.ok he).enter⟩
  | elseBranch hc hv ht hr he =>
    have hm₂ := healthy_at_branch ha.1 hm hc hv hr
    exact ⟨ha.2.2, ((checkScope_preserves settings _ ha.2.1 hm₂).healthy.ok he).enter⟩
  | loop hc hb =>
    obtain ⟨t, ht, -⟩ := Scopes.checkCondition_ok.mp hc
    obtain ⟨-, hm₁, hk₁⟩ := (checkScope_preserves settings _ ha.2 hm).ok hb
    exact ⟨⟨ha.1, ⟨t, (hk₁.wider hm.isOpen).infer _ ht⟩, ha.2⟩, hm₁⟩
  | test => exact ⟨⟨ha.1, ha.2.1⟩, hm⟩
  | pass ht hp hr =>
    obtain ⟨he, ⟨t, hinfer⟩, hb⟩ := ha
    exact ⟨hb, (healthy_at_pass he hm hinfer ht hr).1.enter⟩
  | again ht hp hr hb =>
    obtain ⟨he, ⟨t, hinfer⟩, hblock⟩ := ha
    obtain ⟨hm₂, hk₂⟩ := healthy_at_pass he hm hinfer ht hr
    obtain ⟨-, hm₃, hk₃⟩ :=
      (preserves_inScope (runBlock_preserves (callWith_preserves _ _) _ _ hblock hm₂.enter) hm₂).ok hb
    exact ⟨⟨he, ⟨t, ((hk₂.trans hk₃).wider hm.isOpen).infer _ hinfer⟩, hblock⟩, hm₃⟩
  | left =>
    obtain ⟨he, t, ht⟩ := ha
    obtain ⟨s₁, h₁, -⟩ := Scopes.infer_binary_ok.mp ht
    exact ⟨⟨he.2.1, s₁, h₁⟩, hm⟩
  | right hv =>
    obtain ⟨he, t, ht⟩ := ha
    obtain ⟨s₁, h₁, s₂, h₂, -⟩ := Scopes.infer_binary_ok.mp ht
    obtain ⟨-, hm₁, hk₁⟩ := (evaluate_preserves (callWith_preserves _ _) _ he.2.1 hm h₁).ok hv
    exact ⟨⟨he.2.2, s₂, (hk₁.wider hm.isOpen).infer _ h₂⟩, hm₁⟩
  | operand =>
    obtain ⟨he, t, ht⟩ := ha
    obtain ⟨s₁, h₁, -⟩ := Scopes.infer_unary_ok.mp ht
    exact ⟨⟨he.2, s₁, h₁⟩, hm⟩
  | arguments hf =>
    obtain ⟨he, t, ht⟩ := ha
    obtain ⟨f, hcall, -⟩ := Scopes.infer_call_ok.mp ht
    obtain ⟨hr, hargs⟩ := Scopes.checkCall_ok.mp hcall
    exact ⟨⟨he, _, _, _, Scopes.resolve_length hr, hargs⟩, hm⟩
  | call hf hv =>
    obtain ⟨he, t, ht⟩ := ha
    obtain ⟨f, hcall, -⟩ := Scopes.infer_call_ok.mp ht
    obtain ⟨hr, hargs⟩ := Scopes.checkCall_ok.mp hcall
    obtain rfl := Except.ok.inj (hf.symm.trans hr)
    have hplain := hm.functions _ (List.mem_of_find?_eq_some (Scopes.resolve_ok.mp hr))
    obtain ⟨hfit, hm₁, -⟩ :=
      (evaluateAll_preserves (callWith_preserves _ _) _ _ _ he hm _ (Scopes.resolve_length hr) hargs).ok hv
    exact ⟨⟨hplain, hfit⟩, hm₁⟩
  | argument =>
    obtain ⟨he, f, span, _ | ⟨t, types⟩, hl, hargs⟩ := ha
    · cases hl
    obtain ⟨⟨s, hs, -⟩, -⟩ := Scopes.checkArguments_cons_ok.mp hargs
    exact ⟨⟨he.1, s, hs⟩, hm⟩
  | otherArguments hv =>
    obtain ⟨he, f, span, _ | ⟨t, types⟩, hl, hargs⟩ := ha
    · cases hl
    obtain ⟨⟨s, hs, -⟩, hrest⟩ := Scopes.checkArguments_cons_ok.mp hargs
    obtain ⟨-, hm₁, hk₁⟩ := (evaluate_preserves (callWith_preserves _ _) _ he.1 hm hs).ok hv
    exact ⟨⟨he.2, f, span, types, Nat.succ.inj hl, (hk₁.wider hm.isOpen).checkArguments f span _ types hrest⟩, hm₁⟩
  | body hd hb hr hp =>
    obtain ⟨hplain, hm₂⟩ := healthy_at_body ha.1 hd ha.2 hm hr hp
    have hbody := hplain.body
    rw [hb] at hbody
    exact ⟨hbody, hm₂⟩
  | result hd hb hr hp hs hc =>
    obtain ⟨hplain, hm₂⟩ := healthy_at_body ha.1 hd ha.2 hm hr hp
    have hbody := hplain.body
    rw [hb] at hbody
    obtain ⟨t, ht, -⟩ := Scopes.checkReturn_ok.mp hc
    exact ⟨⟨hplain.value, t, ht⟩, (runBlock_preserves (callWith_preserves _ _) _ _ hbody hm₂).healthy.ok hs⟩

/-- Every state that a task goes through is healthy, if it may be begun in a healthy one. -/
theorem Visits.healthy (h : Visits settings t m n) (ha : t.Admitted m) (hm : m.Healthy) : n.Healthy := by
  induction h with
  | begun => exact hm
  | ended h => exact (Task.healthy ha hm).ok h
  | failed h => exact (Task.healthy ha hm).error h
  | within h _ ih =>
    obtain ⟨ha', hm'⟩ := h.admitted ha hm
    exact ih ha' hm'
  | elseBranch hc hv ht hr hn => exact hn.healthy ha.2.2 (healthy_at_branch ha.1 hm hc hv hr)
  | thenBranch hc hv ht hr hn => exact hn.healthy ha.2.1 (healthy_at_branch ha.1 hm hc hv hr)
  | loopBody hc hn => exact hn.healthy ha.2 hm
  | registered hs =>
    obtain ⟨f, hf, -, rfl⟩ := Scopes.register_ok.mp hs
    exact hm.defined ⟨_, rfl, ha, hf⟩ _
  | definition hs hp hn =>
    obtain ⟨f, hf, -, rfl⟩ := Scopes.register_ok.mp hs
    have hm₁ := hm.defining (f := ⟨f, some _⟩) ⟨_, rfl, ha, hf⟩
    have hparams := Definition.Plain.plainParams ha
    exact hn.healthy ha.body ((runBlock_preserves (callWith_preserves _ _) _ _ hparams hm₁).healthy.ok hp)
  | bound hd hr hp =>
    obtain ⟨⟨d, hd', hplain, hs⟩, hv⟩ := ha
    obtain rfl := Option.some.inj (hd.symm.trans hd')
    rw [← Option.some.inj (hplain.signature.symm.trans hs)] at hv
    have hm₁ := (preserves_record hm).healthy.ok hr
    refine (bindParams_preserves (fun p hp => hplain.params p (List.mem_of_mem_take hp)) hm₁.enterCall ?_).healthy.ok hp
    rw [Stmt.declares_take hplain.params, List.map_take]
    exact hv.take _

end Tasks

end Walk

theorem Value.typeOf_ok {v : Value} {t : Ty} : v.typeOf = .ok t ↔ v.type? = some t := by
  unfold Value.typeOf
  cases v.type? <;> simp

namespace Interpreter

theorem healthy_start : start.Healthy :=
  ⟨⟨⟨[], []⟩, rfl, Frame.sound_nil, by simp⟩, by simp [start, Scopes.empty, Scopes.enter],
    by simp [start, Scopes.empty, Scopes.enter]⟩

/-- Types are preserved. In every state that the run of a program goes through, whether or not the program was accepted and
however the run ends, each variable of each frame, of a suspended caller too, has a value of the type that it was declared with.
Where the static rules give a type to an expression that a source can say, of this program or not, each value that its
evaluation has there is of that type, whatever number of calls may still be made. -/
theorem states_typed {source : String} {p : Program} (hp : Program.parse source = .ok p) (settings : Settings) {n : Machine}
    (hn : Walk.Visits settings (.statements p.statements) start n) :
    (∀ f ∈ n.scopes.allFrames, ∀ d ∈ f, d.value.typeOf = .ok d.type) ∧
      ∀ (printing : Bool) (left : Nat) (e : Expr) (t : Ty) (v : Value) (n' : Machine), e.Plain →
        n.scopes.infer e = .ok t → Walk.evaluate (Walk.callWith settings printing left) e n = .ok v n' →
        v.typeOf = .ok t := by
  have healthy : n.Healthy := hn.healthy (Program.plain_of_parse hp) healthy_start
  refine ⟨fun f hf d hd => Value.typeOf_ok.mpr (healthy.typed f hf d hd), ?_⟩
  intro printing left e t v n' he ht hv
  obtain ⟨htyped, -⟩ := (Walk.evaluate_preserves (Walk.callWith_preserves printing left) e he healthy ht).ok hv
  exact Value.typeOf_ok.mpr htyped

theorem states_typed_recursive : ∃ p n, Program.parse recursive = .ok p ∧
    Walk.Visits .standard (.statements p.statements) start n ∧
    ∀ f ∈ n.scopes.allFrames, ∀ d ∈ f, d.value.typeOf = .ok d.type := by
  obtain ⟨p, hp, hrun⟩ := exists_of_parse recursive rfl
    (fun p => ((Interpreter.new .standard .stream).run p).1.toOption = some #[]) (by decide +kernel)
  obtain ⟨n, hn, -⟩ := new_run_ok.mp (eq_ok_of_toOption hrun)
  have hvisits : Walk.Visits .standard (.statements p.statements) start n := .ended hn
  exact ⟨p, n, hp, hvisits, (states_typed hp .standard hvisits).1⟩

end Interpreter
end CheckedScript
