import CheckedScript.Proofs.Outcome

/-! What a run comes to. A run goes through tasks: statements, blocks, passes over the body of a loop, expressions and calls.
One task leads to another when it hands its state over to it, after all that comes first has ended well; a run reaches
what it is led to in any number of such steps. A task that ends badly ends every task that led to it in the same way. -/

namespace CheckedScript.Walk

/-- Something that a run does; `left` is the number of calls that may be under way inside of it. -/
inductive Task where
  | statements (list : List Stmt)
  | run (printing : Bool) (left : Nat) (loop : Option Loop) (isLast : Bool) (s : Stmt)
  | block (printing : Bool) (left : Nat) (loop : Option Loop) (list : List Stmt)
  | passes (printing : Bool) (left : Nat) (span : Span) (condition : Expr) (body : List Stmt) (more done : Nat)
      (loop : Option Loop)
  | evaluate (printing : Bool) (left : Nat) (e : Expr)
  | evaluateAll (printing : Bool) (left : Nat) (args : List Expr)
  | call (printing : Bool) (left : Nat) (span : Span) (name : Data) (f : Function) (values : List Value)

/-- The test of a loop. -/
def test (call : Caller) (condition : Expr) : Walk Bool := do
  let v ← evaluate call condition
  return v.holds

/-- The passes of a loop, of which `more` are left. -/
def passes (settings : Settings) (call : Caller) (printing : Bool) (span : Span) (condition : Expr) (body : List Stmt)
    (more done : Nat) (loop : Option Loop) : Walk Unit :=
  iterate settings span (test call condition) (fun inner => inScope (runBlock settings call printing inner body)) more done
    loop

/-- The walk of a task, without its result. -/
def Task.walk (settings : Settings) : Task → Walk Unit
  | statements list => Walk.statements settings true list
  | run printing left loop isLast s => do
    let _ ← Walk.run settings (callWith settings printing left) printing loop isLast s
  | block printing left loop list => do
    let _ ← runBlock settings (callWith settings printing left) printing loop list
  | passes printing left span condition body more done loop =>
    Walk.passes settings (callWith settings printing left) printing span condition body more done loop
  | evaluate printing left e => do
    let _ ← Walk.evaluate (callWith settings printing left) e
  | evaluateAll printing left args => do
    let _ ← Walk.evaluateAll (callWith settings printing left) args
  | call printing left span name f values => do
    let _ ← callWith settings printing left span name f values

/-- The state in which the body of a called function is run, before its parameters are bound. -/
def called (m : Machine) : Machine := { m with scopes := m.scopes.enterCall, callDepth := m.callDepth + 1 }

/-- The line of the trace that a call leaves. -/
def callLine (name : Data) (values : List Value) : String :=
  s!"call {name.shown}(" ++ ", ".intercalate (values.map Value.shown) ++ ")"

/-- One task, begun in a state, hands a state over to another. -/
inductive Leads (settings : Settings) : Task → Machine → Task → Machine → Prop where
  | first {s rest k m m₁} (hk : s.kind? = some k)
      (hr : record settings 1 s!"statement {k.label} at {s.span.text}" m = .ok () m₁) :
      Leads settings (.statements (s :: rest)) m
        (.run (!settings.script || rest.isEmpty) settings.maxCallDepth.toNat none rest.isEmpty s) m₁
  | next {s rest k m m₁ l m₂} (hk : s.kind? = some k)
      (hr : record settings 1 s!"statement {k.label} at {s.span.text}" m = .ok () m₁)
      (hs : run settings (caller settings (!settings.script || rest.isEmpty)) (!settings.script || rest.isEmpty) none
        rest.isEmpty s m₁ = .ok l m₂) :
      Leads settings (.statements (s :: rest)) m (.statements rest) m₂
  | head {printing left loop s rest m} :
      Leads settings (.block printing left loop (s :: rest)) m (.run printing left loop rest.isEmpty s) m
  | tail {printing left loop s rest m l m₁}
      (hs : run settings (callWith settings printing left) printing loop rest.isEmpty s m = .ok l m₁) :
      Leads settings (.block printing left loop (s :: rest)) m (.block printing left l rest) m₁
  | initial {printing left loop isLast span type name e m}
      (hd : m.scopes.checkDeclaration span type name (some e) = .ok ())
      (hu : m.scopes.ensureUndeclared name span = .ok ()) :
      Leads settings (.run printing left loop isLast (.declare span type name (some e))) m (.evaluate printing left e) m
  | assigned {printing left loop isLast span name op e m d} (hd : m.scopes.checkAssignment span name op e = .ok d) :
      Leads settings (.run printing left loop isLast (.assign span name op e)) m (.evaluate printing left e) m
  | called {printing left loop isLast span name args m f} (hf : m.scopes.checkCall span name args = .ok f) :
      Leads settings (.run printing left loop isLast (.call span name args)) m
        (.evaluate printing left (.call span name args)) m
  | printed {left loop isLast span e m} (he : m.scopes.checkPrint (some e) = .ok ()) :
      Leads settings (.run true left loop isLast (.print span (some e))) m (.evaluate true left e) m
  | params {printing left loop isLast span result name params body value m s}
      (hs : m.scopes.register ⟨span, result, name, params, body, value⟩ = .ok s) :
      Leads settings (.run printing left loop isLast (.define span result name params body value)) m
        (.block printing left loop params) { m with scopes := s.enterCall }
  | condition {printing left loop isLast span condition thenBlock elseBlock m}
      (hc : m.scopes.checkCondition condition = .ok ()) :
      Leads settings (.run printing left loop isLast (.branch span condition thenBlock elseBlock)) m
        (.evaluate printing left condition) m
  | thenBranch {printing left loop isLast span condition thenBlock elseBlock m v m₁ m₂ l m₃}
      (hc : m.scopes.checkCondition condition = .ok ())
      (hv : evaluate (callWith settings printing left) condition m = .ok v m₁) (ht : v.holds = true)
      (hr : record settings 3 s!"if condition -> {v.shown}" m₁ = .ok () m₂)
      (he : checkElse settings loop elseBlock m₂ = .ok l m₃) :
      Leads settings (.run printing left loop isLast (.branch span condition thenBlock elseBlock)) m
        (.block printing left l thenBlock) { m₃ with scopes := m₃.scopes.enter }
  | elseBranch {printing left loop isLast span condition thenBlock elseBlock m v m₁ m₂ l m₃}
      (hc : m.scopes.checkCondition condition = .ok ())
      (hv : evaluate (callWith settings printing left) condition m = .ok v m₁) (ht : v.holds = false)
      (hr : record settings 3 s!"if condition -> {v.shown}" m₁ = .ok () m₂)
      (he : inScope (checkBlock settings loop thenBlock) m₂ = .ok l m₃) :
      Leads settings (.run printing left loop isLast (.branch span condition thenBlock (some elseBlock))) m
        (.block printing left l elseBlock) { m₃ with scopes := m₃.scopes.enter }
  | loop {printing left loop isLast span condition body m l m₁} (hc : m.scopes.checkCondition condition = .ok ())
      (hb : inScope (checkBlock settings (some .fresh) body) m = .ok l m₁) :
      Leads settings (.run printing left loop isLast (.loop span condition (some body))) m
        (.passes printing left span condition body settings.maxIterations.toNat 0 (some .fresh)) m₁
  | test {printing left span condition body more done loop m} :
      Leads settings (.passes printing left span condition body more done loop) m (.evaluate printing left condition) m
  | pass {printing left span condition body more done loop m m₁ m₂}
      (ht : test (callWith settings printing left) condition m = .ok true m₁)
      (hp : loop.any (0 < ·.pending) = false)
      (hr : record settings 3 s!"while iteration {done + 1}" m₁ = .ok () m₂) :
      Leads settings (.passes printing left span condition body (more + 1) done loop) m
        (.block printing left (loop.map ({ · with budget := 1 })) body) { m₂ with scopes := m₂.scopes.enter }
  | again {printing left span condition body more done loop m m₁ m₂ l m₃}
      (ht : test (callWith settings printing left) condition m = .ok true m₁)
      (hp : loop.any (0 < ·.pending) = false)
      (hr : record settings 3 s!"while iteration {done + 1}" m₁ = .ok () m₂)
      (hb : inScope (runBlock settings (callWith settings printing left) printing (loop.map ({ · with budget := 1 })) body)
        m₂ = .ok l m₃) :
      Leads settings (.passes printing left span condition body (more + 1) done loop) m
        (.passes printing left span condition body more (done + 1) l) m₃
  | left {printing left form span op e₁ e₂ m} :
      Leads settings (.evaluate printing left (.binary form span op e₁ e₂)) m (.evaluate printing left e₁) m
  | right {printing left form span op e₁ e₂ m v m₁}
      (hv : evaluate (callWith settings printing left) e₁ m = .ok v m₁) :
      Leads settings (.evaluate printing left (.binary form span op e₁ e₂)) m (.evaluate printing left e₂) m₁
  | operand {printing left form span op e m} :
      Leads settings (.evaluate printing left (.unary form span op e)) m (.evaluate printing left e) m
  | arguments {printing left span name args m f} (hf : m.scopes.resolve name args.length span = .ok f) :
      Leads settings (.evaluate printing left (.call span name args)) m (.evaluateAll printing left args) m
  | call {printing left span name args m f values m₁} (hf : m.scopes.resolve name args.length span = .ok f)
      (hv : evaluateAll (callWith settings printing left) args m = .ok values m₁) :
      Leads settings (.evaluate printing left (.call span name args)) m (.call printing left span name f values) m₁
  | argument {printing left e args m} :
      Leads settings (.evaluateAll printing left (e :: args)) m (.evaluate printing left e) m
  | otherArguments {printing left e args m v m₁} (hv : evaluate (callWith settings printing left) e m = .ok v m₁) :
      Leads settings (.evaluateAll printing left (e :: args)) m (.evaluateAll printing left args) m₁
  | body {printing left span name f values m d body m₁ m₂} (hd : f.definition = some d) (hb : d.body = some body)
      (hr : record settings 3 (callLine name values) m = .ok () m₁)
      (hp : bindParams d.params values (Walk.called m₁) = .ok () m₂) :
      Leads settings (.call printing (left + 1) span name f values) m (.block printing left none body) m₂
  | result {printing left span name f values m d body m₁ m₂ l m₃} (hd : f.definition = some d) (hb : d.body = some body)
      (hr : record settings 3 (callLine name values) m = .ok () m₁)
      (hp : bindParams d.params values (Walk.called m₁) = .ok () m₂)
      (hs : runBlock settings (callWith settings printing left) printing none body m₂ = .ok l m₃)
      (hc : m₃.scopes.checkReturn d = .ok ()) :
      Leads settings (.call printing (left + 1) span name f values) m (.evaluate printing left d.value) m₃

/-- The second task is met on the way of the first, or is the first itself. -/
inductive Reaches (settings : Settings) : Task → Machine → Task → Machine → Prop where
  | here {t m} : Reaches settings t m t m
  | step {t m t₁ m₁ t₂ m₂} (h : Leads settings t m t₁ m₁) (hr : Reaches settings t₁ m₁ t₂ m₂) : Reaches settings t m t₂ m₂

section Fails

variable {α β : Type} {w : Walk α} {k : α → Walk β} {m m' : Machine} {f : Failure}

/-- The walk from the state ends in the failure. -/
def Fails (w : Walk α) (m : Machine) (f : Failure) : Prop := ∃ m', w m = .error f m'

theorem Fails.bind (h : Fails w m f) : Fails (w >>= k) m f := by
  obtain ⟨m', hm'⟩ := h
  exact ⟨m', bind_error.mpr (Or.inl hm')⟩

theorem fails_after {a : α} (hw : w m = .ok a m') (h : Fails (k a) m' f) : Fails (w >>= k) m f := by
  obtain ⟨m'', hm''⟩ := h
  exact ⟨m'', bind_error.mpr (Or.inr ⟨a, m', hw, hm''⟩)⟩

/-- A result that is thrown away does not matter. -/
theorem fails_forget {b : β} : Fails (w >>= fun _ => pure b) m f ↔ Fails w m f := by
  constructor
  · rintro ⟨m', hm'⟩
    rcases bind_error.mp hm' with h | ⟨a, m₁, -, h⟩
    · exact ⟨m', h⟩
    · cases h
  · exact Fails.bind

theorem Fails.bracket {before after : Machine → Machine} (h : Fails w (before m) f) : Fails (bracket before after w) m f := by
  obtain ⟨m', hm'⟩ := h
  exact ⟨after m', by simp only [Walk.bracket, hm']⟩

theorem Fails.inScope (h : Fails w { m with scopes := m.scopes.enter } f) : Fails (inScope w) m f := h.bracket

theorem Fails.inBody (h : Fails w { m with scopes := m.scopes.enterCall } f) : Fails (inBody w) m f := h.bracket

theorem Fails.inCall (h : Fails w (called m) f) : Fails (inCall w) m f := Fails.bracket (Fails.inBody h)

end Fails

variable {settings : Settings} {t t' : Task} {m m' : Machine} {f : Failure}

theorem judge_eq {α : Type} {rule : Scopes → Except Failure α} {a : α} (h : rule m.scopes = .ok a) :
    judge rule m = .ok a m :=
  judge_ok.mpr ⟨h, rfl⟩

/-- What ends a task ends every task that led to it. -/
theorem Leads.fails (h : Leads settings t m t' m') (hf : Fails (t'.walk settings) m' f) : Fails (t.walk settings) m f := by
  cases h with
  | first hk hr =>
    simp only [Task.walk, fails_forget, Walk.statements, hk, if_true] at hf ⊢
    exact fails_after hr (Fails.bind hf)
  | next hk hr hs =>
    simp only [Task.walk, Walk.statements, hk, if_true] at hf ⊢
    exact fails_after hr (fails_after hs hf)
  | head =>
    simp only [Task.walk, fails_forget, runBlock] at hf ⊢
    exact hf.bind
  | tail hs =>
    simp only [Task.walk, fails_forget, runBlock] at hf ⊢
    exact fails_after hs hf
  | initial hd hu =>
    simp only [Task.walk, fails_forget] at hf ⊢
    exact fails_after (judge_eq hd) (fails_after (judge_eq hu) hf.bind)
  | assigned hd =>
    simp only [Task.walk, fails_forget] at hf ⊢
    exact fails_after (judge_eq hd) hf.bind
  | called hf' =>
    simp only [Task.walk, fails_forget] at hf ⊢
    exact fails_after (judge_eq hf') hf.bind
  | printed he =>
    simp only [Task.walk, fails_forget] at hf ⊢
    exact fails_after (judge_eq he) hf.bind
  | params hs =>
    simp only [Task.walk, fails_forget] at hf ⊢
    exact (fails_after (a := ()) (change_ok.mpr ⟨_, hs, rfl⟩) (Fails.inBody hf.bind).bind).bind
  | condition hc =>
    simp only [Task.walk, fails_forget] at hf ⊢
    exact fails_after (judge_eq hc) hf.bind
  | thenBranch hc hv ht hr he =>
    simp only [Task.walk, fails_forget, run] at hf ⊢
    refine fails_after (judge_eq hc) (fails_after hv (fails_after hr ?_))
    rw [if_pos ht]
    exact fails_after he hf.inScope.bind
  | elseBranch hc hv ht hr he =>
    simp only [Task.walk, fails_forget, run] at hf ⊢
    refine fails_after (judge_eq hc) (fails_after hv (fails_after hr ?_))
    rw [if_neg (by simp [ht])]
    exact fails_after he hf.inScope.bind
  | loop hc hb =>
    simp only [Task.walk, fails_forget] at hf ⊢
    exact fails_after (judge_eq hc) (fails_after hb hf.bind)
  | test =>
    simp only [Task.walk, fails_forget, passes] at hf ⊢
    rename_i more _ _
    cases more with
    | zero =>
      rw [iterate_zero]
      exact hf.bind.bind
    | succ more =>
      rw [iterate_succ]
      exact hf.bind.bind
  | pass ht hp hr =>
    simp only [Task.walk, fails_forget, passes] at hf ⊢
    rw [iterate_succ]
    refine fails_after ht ?_
    simp only [hp, if_true, Bool.false_eq_true, if_false]
    exact fails_after hr hf.inScope.bind
  | again ht hp hr hb =>
    simp only [Task.walk, passes] at hf ⊢
    rw [iterate_succ]
    refine fails_after ht ?_
    simp only [hp, if_true, Bool.false_eq_true, if_false]
    exact fails_after hr (fails_after hb hf)
  | left =>
    simp only [Task.walk, fails_forget] at hf ⊢
    exact hf.bind
  | right hv =>
    simp only [Task.walk, fails_forget] at hf ⊢
    exact fails_after hv hf.bind
  | operand =>
    simp only [Task.walk, fails_forget] at hf ⊢
    exact hf.bind
  | arguments hf' =>
    simp only [Task.walk, fails_forget] at hf ⊢
    exact fails_after (judge_eq hf') hf.bind
  | call hf' hv =>
    simp only [Task.walk, fails_forget] at hf ⊢
    exact fails_after (judge_eq hf') (fails_after hv hf)
  | argument =>
    simp only [Task.walk, fails_forget] at hf ⊢
    exact hf.bind
  | otherArguments hv =>
    simp only [Task.walk, fails_forget] at hf ⊢
    exact fails_after hv hf.bind
  | body hd hb hr hp =>
    simp only [Task.walk, fails_forget, callWith, hd] at hf ⊢
    refine fails_after hr (Fails.inCall (fails_after hp ?_))
    rw [hb]
    exact hf.bind
  | result hd hb hr hp hs hc =>
    simp only [Task.walk, fails_forget, callWith, hd] at hf ⊢
    refine fails_after hr (Fails.inCall (fails_after hp ?_))
    rw [hb]
    exact fails_after hs (fails_after (judge_eq hc) hf)

/-- What ends a task that is met ends the whole. -/
theorem Reaches.fails (h : Reaches settings t m t' m') (hf : Fails (t'.walk settings) m' f) :
    Fails (t.walk settings) m f := by
  induction h with
  | here => exact hf
  | step hl _ ih => exact hl.fails (ih hf)

end CheckedScript.Walk
