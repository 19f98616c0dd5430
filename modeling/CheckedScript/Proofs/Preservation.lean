import CheckedScript.Proofs.TypeSafety

/-! Type preservation. Whether or not the program was ever accepted, a run over plain trees leaves every variable with a value
of its type, in the frames that are open and in those that are set aside, and it does so also where it ends badly. Nothing
has to be known beforehand, since each statement is checked in the state in which it runs. What is evaluated has the
type that the static rules gave it. -/

namespace CheckedScript

/-- The frames that a suspended caller does not share with the call. -/
def Suspended.frames : Suspended → List Frame
  | sharing locals => locals
  | apart stack => (stack.map Stack.frames).getD []

/-- The frames that are open and those that are set aside. -/
def Scopes.allFrames (s : Scopes) : List Frame := s.frames ++ s.suspended.flatMap Suspended.frames

theorem Scopes.Sound.frames {s : Scopes} (h : s.Sound) : ∀ f ∈ s.frames, f.Sound := by
  obtain ⟨k, hk, hs⟩ := h
  simp only [Scopes.frames, hk, Option.map_some, Option.getD_some, Stack.frames, List.mem_cons, List.mem_reverse]
  rintro f (rfl | hf)
  · exact hs.globals
  · exact hs.locals f hf

/-- A function is found by the number of its parameters. -/
theorem Scopes.resolve_length {s : Scopes} {name : Data} {n : Nat} {span : Span} {f : Function}
    (h : s.resolve name n span = .ok f) : n = f.signature.params.length := by
  have hfind := List.find?_some (Scopes.resolve_ok.mp h)
  simp only [Bool.and_eq_true, beq_iff_eq] at hfind
  omega

/-- All frames are sound, and all functions were made for plain definitions. -/
structure Machine.Healthy (m : Machine) : Prop where
  scopes : m.scopes.Sound
  suspended : ∀ s ∈ m.scopes.suspended, ∀ f ∈ s.frames, f.Sound
  functions : ∀ f ∈ m.scopes.functions, f.Plain

namespace Machine.Healthy

variable {m m' : Machine} {a : List (Data × Ty)} {f : Function}

theorem isOpen (h : m.Healthy) : m.scopes.outline ≠ [] := h.scopes.isOpen

theorem typed (h : m.Healthy) : ∀ f ∈ m.scopes.allFrames, f.Typed := by
  intro f hf
  rcases List.mem_append.mp hf with hf | hf
  · exact (h.scopes.frames f hf).typed
  · obtain ⟨s, hs, hf⟩ := List.mem_flatMap.mp hf
    exact (h.suspended s hs f hf).typed

theorem keeps (h : m.Healthy) (hk : Keeps a m m') (hs : m'.scopes.Sound) : m'.Healthy := by
  refine ⟨hs, ?_, ?_⟩
  · rw [hk.suspended]
    exact h.suspended
  · rw [hk.functions]
    exact h.functions

theorem enter (h : m.Healthy) : Healthy { m with scopes := m.scopes.enter } :=
  ⟨h.scopes.enter, by simpa using h.suspended, by simpa using h.functions⟩

theorem enterCall (h : m.Healthy) {n : Nat} : Healthy { m with scopes := m.scopes.enterCall, callDepth := n } := by
  refine ⟨h.scopes.enterCall, ?_, by simpa using h.functions⟩
  obtain ⟨k, hk, hs⟩ := h.scopes
  simp only [Scopes.enterCall, hk, List.mem_cons]
  rintro s (rfl | hmem)
  · exact hs.locals
  · exact h.suspended s hmem

theorem defined (h : m.Healthy) (hf : f.Plain) (trace : Array String) : (Walk.defined m f trace).Healthy := by
  refine ⟨h.scopes, h.suspended, fun g hg => ?_⟩
  rcases List.mem_append.mp hg with hg | hg
  · exact h.functions g hg
  · obtain rfl := List.mem_singleton.mp hg
    exact hf

theorem defining (h : m.Healthy) (hf : f.Plain) : (Walk.defining m f).Healthy := (h.defined hf m.trace).enterCall

end Machine.Healthy

namespace Walk

open Machine (Adds Keeps Healthy)

section Rules

variable {α β : Type} {settings : Settings} {m : Machine} {a b : List (Data × Ty)} {w : Walk α} {k : α → Walk β}
  {P : α → Prop} {Q : β → Prop}

/-- However the walk ends, it leaves a healthy state and keeps all but values and what it adds; if it ends well it adds the
variables `a`, and its result has `P`. -/
def Preserves (a : List (Data × Ty)) (w : Walk α) (m : Machine) (P : α → Prop) : Prop :=
  Ends w m (fun x m' => P x ∧ m'.Healthy ∧ Keeps a m m') (fun _ m' => m'.Healthy ∧ ∃ b, Keeps b m m')

theorem Preserves.healthy (h : Preserves a w m P) : Ends w m (fun _ m' => m'.Healthy) (fun _ m' => m'.Healthy) :=
  Ends.imp h (fun _ _ hg => hg.2.1) fun _ _ hb => hb.1

theorem Preserves.imp {P' : α → Prop} (h : Preserves a w m P) (hP : ∀ x, P x → P' x) : Preserves a w m P' :=
  Ends.imp h (fun x _ hg => ⟨hP x hg.1, hg.2⟩) fun _ _ hb => hb

theorem Preserves.after {m' : Machine} (h : Preserves b w m' P) (hm : Keeps a m m') :
    Ends w m' (fun x m'' => P x ∧ m''.Healthy ∧ Keeps (a ++ b) m m'') (fun _ m'' => m''.Healthy ∧ ∃ c, Keeps c m m'') := by
  refine Ends.imp h ?_ ?_
  · rintro x m'' ⟨hx, hm'', hkeep⟩
    exact ⟨hx, hm'', hm.trans hkeep⟩
  · rintro _ m'' ⟨hm'', c, hkeep⟩
    exact ⟨hm'', a ++ c, hm.trans hkeep⟩

/-- What comes next may use where the walk has got to. -/
theorem Preserves.bind (h : Preserves a w m P)
    (hk : ∀ x m', P x → m'.Healthy → Keeps a m m' → Preserves b (k x) m' Q) : Preserves (a ++ b) (w >>= k) m Q := by
  refine ends_bind.mpr (Ends.imp h ?_ fun _ _ hb => hb)
  rintro x m' ⟨hx, hm', hkeep⟩
  exact (hk x m' hx hm' hkeep).after hkeep

/-- After a walk that adds nothing. -/
theorem Preserves.seq (h : Preserves [] w m P)
    (hk : ∀ x m', P x → m'.Healthy → Keeps [] m m' → Preserves b (k x) m' Q) : Preserves b (w >>= k) m Q :=
  h.bind hk

/-- What a walk keeps is known; it remains to see that the frames which are open are sound. -/
theorem Preserves.of_keeping (hk : Keeping a w m) (hm : m.Healthy)
    (h : Ends w m (fun x m' => P x ∧ m'.scopes.Sound) (fun _ m' => m'.scopes.Sound)) : Preserves a w m P := by
  refine (h.and hk).imp ?_ ?_
  · rintro x m' ⟨⟨hx, hs⟩, hkeep⟩
    exact ⟨hx, hm.keeps hkeep hs, hkeep⟩
  · rintro _ m' ⟨hs, c, hkeep⟩
    exact ⟨hm.keeps hkeep hs, c, hkeep⟩

theorem preserves_pure {x : α} (h : P x) (hm : m.Healthy) : Preserves [] (pure x) m P := ⟨h, hm, Keeps.refl m⟩

theorem preserves_throw {e : Failure} (hm : m.Healthy) : Preserves a (throw e) m P := ⟨hm, [], Keeps.refl m⟩

/-- What comes after a rule may use what the rule said. -/
theorem preserves_judge {rule : Scopes → Except Failure α} (hm : m.Healthy)
    (hk : ∀ x, rule m.scopes = .ok x → Preserves b (k x) m Q) : Preserves b (judge rule >>= k) m Q :=
  ends_bind.mpr (ends_judge.mpr ⟨hk, fun _ _ => ⟨hm, [], Keeps.refl m⟩⟩)

theorem preserves_compute {span : Span} {r : Except Failure Value} {t : Ty} (h : Operates r t) (hm : m.Healthy) :
    Preserves [] (compute span r) m (fun v => v.type? = some t) := by
  refine .of_keeping keeping_compute hm (ends_compute.mpr ⟨fun v hv => ?_, fun _ _ => hm.scopes⟩)
  subst hv
  exact ⟨h, hm.scopes⟩

theorem preserves_record {level : Int} {line : String} (hm : m.Healthy) :
    Preserves [] (record settings level line) m fun _ => True :=
  .of_keeping keeping_record hm (ends_record fun _ => ⟨trivial, hm.scopes⟩)

theorem preserves_print {line : String} (hm : m.Healthy) : Preserves [] (print line) m fun _ => True :=
  .of_keeping keeping_print hm (ends_print.mpr ⟨trivial, hm.scopes⟩)

theorem preserves_declare {span : Span} {type : Ty} {name : Data} {value : Option Value} (hn : name.IsText)
    (hv : ∀ v, value = some v → v.type? = some type) (hm : m.Healthy) :
    Preserves [(name, type)] (declare span type name value) m fun _ => True := by
  refine .of_keeping keeping_declare hm (ends_declare (fun d hd hu => ⟨trivial, ?_⟩) fun _ => hm.scopes)
  obtain ⟨first, hf, rfl⟩ := Declaration.make_ok.mp hd
  refine hm.scopes.add hn hu ?_
  cases value with
  | none => exact Ty.default?_type hf
  | some v => exact hv v rfl

theorem preserves_assign {name : Data} {d : Declaration} {v : Value} (hd : m.scopes.get? name = some d)
    (hv : v.type? = some d.type) (hm : m.Healthy) :
    Preserves [] (change fun s => .ok (s.assign name v)) m fun _ => True := by
  refine .of_keeping keeping_assign hm (ends_change.mpr ⟨fun s hs => ?_, fun _ he => nomatch he⟩)
  cases hs
  exact ⟨trivial, hm.scopes.assign hd hv⟩

theorem preserves_inScope (h : Preserves a w { m with scopes := m.scopes.enter } P) (hm : m.Healthy) :
    Preserves [] (inScope w) m P := by
  have left {c : List (Data × Ty)} {m' : Machine} (hk : Keeps c { m with scopes := m.scopes.enter } m') (hm' : m'.Healthy) :
      Scopes.Sound m'.scopes.leave := by
    refine hm'.scopes.leave ?_
    rw [hk.outline]
    simpa using hm.isOpen
  refine ends_inScope.mpr (Ends.imp h ?_ ?_)
  · rintro x m' ⟨hx, hm', hk⟩
    exact ⟨hx, hm.keeps (hk.leave hm.isOpen) (left hk hm'), hk.leave hm.isOpen⟩
  · rintro _ m' ⟨hm', c, hk⟩
    exact ⟨hm.keeps (hk.leave hm.isOpen) (left hk hm'), [], hk.leave hm.isOpen⟩

/-- A call leaves sound globals, and the other frames of the caller as they were. -/
theorem preserves_inCall (h : Preserves a w (called m) P) (hm : m.Healthy) : Preserves [] (inCall w) m P := by
  have left {c : List (Data × Ty)} {m' : Machine} (hk : Keeps c (called m) m') (hm' : m'.Healthy) :
      Scopes.Sound m'.scopes.leaveCall := by
    obtain ⟨⟨g, locals⟩, hstack, hsound⟩ := hm.scopes
    obtain ⟨k, hstack', hsound'⟩ := hm'.scopes
    obtain ⟨k₁, hk₁, -, hscopes⟩ := hk.leaveCall_scopes hstack
    obtain rfl : k = k₁ := Option.some.inj (hstack'.symm.trans hk₁)
    exact ⟨⟨k.globals, locals⟩, by rw [hscopes], hsound'.globals, hsound.locals⟩
  refine ends_inCall.mpr (Ends.imp h ?_ ?_)
  · rintro x m' ⟨hx, hm', hk⟩
    exact ⟨hx, hm.keeps (hk.leaveCall hm.isOpen) (left hk hm'), hk.leaveCall hm.isOpen⟩
  · rintro _ m' ⟨hm', c, hk⟩
    exact ⟨hm.keeps (hk.leaveCall hm.isOpen) (left hk hm'), [], hk.leaveCall hm.isOpen⟩

theorem preserves_iterate {span : Span} {test : Walk Bool} {pass : Option Loop → Walk (Option Loop)} {left done : Nat}
    {loop : Option Loop} (hm : m.Healthy)
    (htest : ∀ m', m'.Healthy → Keeps [] m m' → Preserves [] test m' fun _ => True)
    (hpass : ∀ inner m', m'.Healthy → Keeps [] m m' → Preserves [] (pass inner) m' fun _ => True) :
    Preserves [] (iterate settings span test pass left done loop) m fun _ => True := by
  refine (ends_iterate (I := fun _ m' => m'.Healthy ∧ Keeps [] m m') ?_ ?_ ?_ ?_ ⟨hm, Keeps.refl m⟩).imp ?_ fun _ _ hb => hb
  · rintro _ m' _ ⟨hm', hk⟩
    exact ⟨hm'.keeps Keeps.of_scopes hm'.scopes, hk.trans .of_scopes⟩
  · rintro _ m' ⟨hm', hk⟩
    exact ((htest m' hm' hk).after hk).imp (fun _ _ hg => hg.2) fun _ _ hb => hb
  · rintro _ m' ⟨hm', hk⟩
    exact ((hpass _ m' hm' hk).after hk).imp (fun _ _ hg => hg.2) fun _ _ hb => hb
  · rintro _ m' ⟨hm', hk⟩
    exact ⟨hm', [], hk⟩
  · rintro _ m' ⟨_, hg⟩
    exact ⟨trivial, hg⟩

end Rules

section Check

variable {settings : Settings} {m : Machine}

mutual

theorem check_preserves (settings : Settings) (loop : Option Loop) (isLast : Bool) (s : Stmt) (hp : s.Plain) {m : Machine}
    (hm : m.Healthy) : Preserves s.declares (check settings loop isLast s) m fun _ => True := by
  cases s with
  | declare span type name init =>
    refine preserves_judge hm fun _ _ => preserves_judge hm fun _ _ => ?_
    exact (preserves_declare hp.2.1 (by simp) hm).bind fun _ _ _ hm₁ _ => preserves_pure trivial hm₁
  | param span type name =>
    exact (preserves_declare hp.2 (by simp) hm).bind fun _ _ _ hm₁ _ => preserves_pure trivial hm₁
  | assign span name op e => exact preserves_judge hm fun _ _ => preserves_pure trivial hm
  | call span name args => exact preserves_judge hm fun _ _ => preserves_pure trivial hm
  | define span result name params body value => exact hp.elim
  | print span operand => exact preserves_judge hm fun _ _ => preserves_pure trivial hm
  | branch span condition thenBlock elseBlock =>
    refine preserves_judge hm fun _ _ => ?_
    refine (preserves_inScope (checkBlock_preserves settings loop thenBlock hp.2.1 hm.enter) hm).seq fun l m₁ _ hm₁ _ => ?_
    refine (checkElse_preserves settings l elseBlock hp.2.2 hm₁).seq fun _ _ _ hm₂ _ => ?_
    exact preserves_pure trivial hm₂
  | loop span condition body =>
    cases body with
    | none => exact hp.2.elim
    | some block =>
      refine preserves_judge hm fun _ _ => ?_
      refine (preserves_inScope (checkBlock_preserves settings _ block hp.2 hm.enter) hm).seq fun _ _ _ hm₁ _ => ?_
      exact preserves_pure trivial hm₁
  | breakOut span => exact preserves_judge hm fun _ _ => preserves_pure trivial hm
  | misfit what => exact hp.elim
termination_by structural s

theorem checkBlock_preserves (settings : Settings) (loop : Option Loop) (block : List Stmt) (hp : Stmt.PlainBlock block)
    {m : Machine} (hm : m.Healthy) :
    Preserves (block.flatMap Stmt.declares) (checkBlock settings loop block) m fun _ => True := by
  cases block with
  | nil => exact preserves_pure trivial hm
  | cons s rest =>
    rw [List.flatMap_cons]
    refine (check_preserves settings loop rest.isEmpty s hp.1 hm).bind fun l m₁ _ hm₁ _ => ?_
    exact checkBlock_preserves settings l rest hp.2 hm₁
termination_by structural block

theorem checkElse_preserves (settings : Settings) (loop : Option Loop) (block : Option (List Stmt))
    (hp : Stmt.PlainElse block) {m : Machine} (hm : m.Healthy) :
    Preserves [] (checkElse settings loop block) m fun _ => True := by
  cases block with
  | none => exact preserves_pure trivial hm
  | some block => exact preserves_inScope (checkBlock_preserves settings loop block hp hm.enter) hm
termination_by structural block

end

theorem checkScope_preserves (settings : Settings) (loop : Option Loop) {block : List Stmt} (hp : Stmt.PlainBlock block)
    (hm : m.Healthy) : Preserves [] (inScope (checkBlock settings loop block)) m fun _ => True :=
  preserves_inScope (checkBlock_preserves settings loop block hp hm.enter) hm

/-- A definition leaves its function in the table also where its body is refused. -/
theorem define_healthy {loop : Option Loop} {d : Definition} (hd : d.Plain) (hm : m.Healthy) :
    Ends (define settings d (checkBlock settings loop d.params) (checkBody settings none d.body)) m
      (fun _ m' => m'.Healthy) (fun _ m' => m'.Healthy) := by
  simp only [define, ends_bind]
  refine ends_change.mpr ⟨fun s hs => ?_, fun _ _ => hm⟩
  obtain ⟨f, hf, -, rfl⟩ := Scopes.register_ok.mp hs
  have hplain : Function.Plain ⟨f, some d⟩ := ⟨d, rfl, hd, hf⟩
  have left {a : List (Data × Ty)} {m' : Machine} (h : Adds a (defining m ⟨f, some d⟩) m') :
      Healthy { m' with scopes := m'.scopes.leaveCall } := by
    rw [leaveCall_defining hm.isOpen h]
    exact hm.defined hplain m.trace
  refine ends_inBody.mpr (ends_bind.mpr ?_)
  have ho : (defining m ⟨f, some d⟩).scopes.outline ≠ [] := by simp [defining]
  refine (checkBlock_adds settings loop d.params hd.plainParams _ ho).imp (fun _ m₁ h₁ => ?_) ?_
  · refine ends_bind.mpr ((checkBody_adds settings none hd.body (h₁.isOpen ho)).imp ?_ ?_)
    · rintro _ m₂ ⟨a, h₂⟩
      have hleft := left (h₁.trans h₂)
      exact ends_judge.mpr ⟨fun _ _ => ends_record fun _ => hleft.keeps Keeps.of_scopes hleft.scopes, fun _ _ => hleft⟩
    · rintro _ m₂ ⟨a, h₂⟩
      exact left (h₁.trans h₂)
  · rintro _ m₁ ⟨a, h₁⟩
    exact left h₁

end Check

/-- Calls with values that fit preserve types and give values of the result type. -/
def CallPreserves (call : Caller) : Prop :=
  ∀ span name f values m, m.Healthy → f.Plain → Value.Fit values f.signature.params →
    Preserves [] (call span name f values) m fun v => v.type? = some f.signature.result

section Run

variable {settings : Settings} {call : Caller} {printing : Bool}

mutual

theorem evaluate_preserves (hc : CallPreserves call) (e : Expr) (he : e.Plain) {m : Machine} (hm : m.Healthy) {t : Ty}
    (ht : m.scopes.infer e = .ok t) : Preserves [] (evaluate call e) m fun v => v.type? = some t := by
  cases e with
  | literal span v =>
    refine preserves_pure ?_ hm
    simp only [Scopes.infer, Value.typeOf] at ht
    split at ht <;> cases ht
    assumption
  | untyped span what => exact he.elim
  | identifier span name =>
    refine preserves_judge hm fun d hd => preserves_pure ?_ hm
    obtain ⟨d', hd', rfl⟩ := Scopes.infer_identifier_ok.mp ht
    obtain rfl : d = d' := Except.ok.inj (hd.symm.trans hd')
    exact hm.scopes.get?_typed (Scopes.lookup_ok.mp hd).2
  | binary form span op e₁ e₂ =>
    obtain ⟨s₁, h₁, s₂, h₂, hop⟩ := Scopes.infer_binary_ok.mp ht
    refine (evaluate_preserves hc e₁ he.2.1 hm h₁).seq fun a m₁ ha hm₁ hk₁ => ?_
    have h₂' := (hk₁.wider hm.isOpen).infer e₂ h₂
    refine (evaluate_preserves hc e₂ he.2.2 hm₁ h₂').seq fun b m₂ hb hm₂ _ => ?_
    exact preserves_compute (BinaryOp.apply_operates he.1 ha hb hop) hm₂
  | unary form span op operand =>
    obtain ⟨s₁, h₁, hop⟩ := Scopes.infer_unary_ok.mp ht
    refine (evaluate_preserves hc operand he.2 hm h₁).seq fun a m₁ ha hm₁ _ => ?_
    exact preserves_compute (UnaryOp.apply_operates he.1 ha hop) hm₁
  | call span name args =>
    obtain ⟨f, hf, rfl⟩ := Scopes.infer_call_ok.mp ht
    obtain ⟨hr, hargs⟩ := Scopes.checkCall_ok.mp hf
    refine preserves_judge hm fun f' hr' => ?_
    obtain rfl : f = f' := Except.ok.inj (hr.symm.trans hr')
    have hplain := hm.functions f (List.mem_of_find?_eq_some (Scopes.resolve_ok.mp hr))
    refine (evaluateAll_preserves hc _ span args he hm _ (Scopes.resolve_length hr) hargs).seq fun values m₁ hv hm₁ _ => ?_
    exact hc span name f values m₁ hm₁ hplain hv
  | missing => exact he.elim
  | misfit what => exact he.elim
termination_by structural e

theorem evaluateAll_preserves (hc : CallPreserves call) (f : Signature) (span : Span) (args : List Expr)
    (he : Expr.PlainAll args) {m : Machine} (hm : m.Healthy) (types : List Ty) (hl : args.length = types.length)
    (ht : m.scopes.checkArguments f span args types = .ok ()) :
    Preserves [] (evaluateAll call args) m fun values => Value.Fit values types := by
  cases args with
  | nil =>
    cases types with
    | nil => exact preserves_pure trivial hm
    | cons t types => cases hl
  | cons e rest =>
    cases types with
    | nil => cases hl
    | cons t types =>
      obtain ⟨⟨s, hs, hsame⟩, hrest⟩ := Scopes.checkArguments_cons_ok.mp ht
      refine (evaluate_preserves hc e he.1 hm hs).seq fun v m₁ hv hm₁ hk₁ => ?_
      have hrest' := (hk₁.wider hm.isOpen).checkArguments f span rest types hrest
      refine (evaluateAll_preserves hc f span rest he.2 hm₁ types (Nat.succ.inj hl) hrest').seq fun values m₂ hvs hm₂ _ => ?_
      obtain rfl := Ty.eq_of_same (Value.simple_type hv) hsame
      exact preserves_pure ⟨hv, hvs⟩ hm₂
termination_by structural args

end

theorem test_preserves (hc : CallPreserves call) {condition : Expr} (he : condition.Plain) {m : Machine} (hm : m.Healthy)
    {t : Ty} (ht : m.scopes.infer condition = .ok t) : Preserves [] (test call condition) m fun _ => True :=
  (evaluate_preserves hc condition he hm ht).seq fun _ _ _ hm₁ _ => preserves_pure trivial hm₁

mutual

/-- Running a plain statement preserves types. -/
theorem run_preserves (hc : CallPreserves call) (loop : Option Loop) (isLast : Bool) (s : Stmt) (hp : s.Plain) {m : Machine}
    (hm : m.Healthy) : Preserves s.declares (run settings call printing loop isLast s) m fun _ => True := by
  cases s with
  | declare span type name init =>
    refine preserves_judge hm fun _ hd => preserves_judge hm fun _ _ => ?_
    have finish : ∀ value m₁, m₁.Healthy → (∀ v, value = some v → v.type? = some type) →
        Preserves [(name, type)] (do
          let d ← declare span type name value
          record settings 2 s!"declare {name.shown}: {type.text} = {d.value.shown}"
          return loop) m₁ fun _ => True := by
      intro value m₁ hm₁ hv
      refine (preserves_declare hp.2.1 hv hm₁).bind fun _ m₂ _ hm₂ _ => ?_
      exact (preserves_record hm₂).seq fun _ _ _ hm₃ _ => preserves_pure trivial hm₃
    cases init with
    | none => exact finish none m hm (by simp)
    | some e =>
      obtain ⟨t, ht, hsame⟩ := Scopes.checkDeclaration_ok.mp hd e rfl
      refine (evaluate_preserves hc e hp.2.2 hm ht).seq fun v m₁ hv hm₁ _ => ?_
      obtain rfl := Ty.eq_of_same (Value.simple_type hv) hsame
      exact finish (some v) m₁ hm₁ (by rintro _ ⟨⟩; exact hv)
  | param span type name => exact check_preserves settings loop isLast (.param span type name) hp hm
  | assign span name op e =>
    refine preserves_judge hm fun d hd => ?_
    obtain ⟨hlook, t, ht, htakes⟩ := Scopes.checkAssignment_ok.mp hd
    refine (evaluate_preserves hc e hp.2.2 hm ht).seq fun v m₁ hv hm₁ hk₁ => preserves_judge hm₁ fun d₁ hd₁ => ?_
    -- the variable is still there, with the type that it had before the value was found
    obtain ⟨d', hd', htype⟩ := (hk₁.wider hm.isOpen).lookup hlook
    obtain rfl : d₁ = d' := Except.ok.inj (hd₁.symm.trans hd')
    have hget := (Scopes.lookup_ok.mp hd₁).2
    have hop : Operates (op.apply d₁.value v) d₁.type :=
      AssignOp.apply_operates hp.2.1 (hm₁.scopes.get?_typed hget) hv (by rwa [htype])
    refine (preserves_compute hop hm₁).seq fun new m₂ hnew hm₂ hk₂ => ?_
    obtain ⟨d₂, hd₂, htype₂⟩ := (hk₂.wider hm₁.isOpen).lookup hd₁
    refine (preserves_assign (Scopes.lookup_ok.mp hd₂).2 (by rw [htype₂]; exact hnew) hm₂).seq fun _ m₃ _ hm₃ _ => ?_
    exact (preserves_record hm₃).seq fun _ _ _ hm₄ _ => preserves_pure trivial hm₄
  | call span name args =>
    refine preserves_judge hm fun f hf => ?_
    have ht := Scopes.infer_call_ok.mpr ⟨f, hf, rfl⟩
    exact (evaluate_preserves hc (.call span name args) hp hm ht).seq fun _ _ _ hm₁ _ => preserves_pure trivial hm₁
  | define span result name params body value => exact hp.elim
  | print span operand =>
    refine preserves_judge hm fun _ he => ?_
    cases printing with
    | false => exact preserves_pure trivial hm
    | true =>
      cases operand with
      | none => exact (preserves_print hm).seq fun _ _ _ hm₁ _ => preserves_pure trivial hm₁
      | some e =>
        obtain ⟨t, ht⟩ := Scopes.checkPrint_ok.mp he e rfl
        refine (evaluate_preserves hc e hp hm ht).seq fun _ m₁ _ hm₁ _ => ?_
        exact (preserves_print hm₁).seq fun _ _ _ hm₂ _ => preserves_pure trivial hm₂
  | branch span condition thenBlock elseBlock =>
    refine preserves_judge hm fun _ hf => ?_
    obtain ⟨t, ht, -⟩ := Scopes.checkCondition_ok.mp hf
    refine (evaluate_preserves hc condition hp.1 hm ht).seq fun v m₁ _ hm₁ _ => ?_
    refine (preserves_record hm₁).seq fun _ m₂ _ hm₂ _ => ?_
    dsimp only
    split
    · refine (checkElse_preserves settings loop elseBlock hp.2.2 hm₂).seq fun l m₃ _ hm₃ _ => ?_
      have hb := runBlock_preserves hc l thenBlock hp.2.1 hm₃.enter
      exact (preserves_inScope hb hm₃).seq fun _ _ _ hm₄ _ => preserves_pure trivial hm₄
    · refine (checkScope_preserves settings loop hp.2.1 hm₂).seq fun l m₃ _ hm₃ _ => ?_
      exact (runElse_preserves hc l elseBlock hp.2.2 hm₃).seq fun _ _ _ hm₄ _ => preserves_pure trivial hm₄
  | loop span condition body =>
    cases body with
    | none => exact hp.2.elim
    | some block =>
      refine preserves_judge hm fun _ hf => (checkScope_preserves settings _ hp.2 hm).seq fun _ m₁ _ hm₁ hk₁ => ?_
      obtain ⟨t, ht, -⟩ := Scopes.checkCondition_ok.mp hf
      refine (preserves_iterate hm₁ (fun m₂ hm₂ hk₂ => ?_) fun inner m₂ hm₂ _ => ?_).seq
        fun _ _ _ hm₂ _ => preserves_pure trivial hm₂
      · exact test_preserves hc hp.1 hm₂ (((hk₁.trans hk₂).wider hm.isOpen).infer condition ht)
      · exact preserves_inScope (runBlock_preserves hc inner block hp.2 hm₂.enter) hm₂
  | breakOut span => exact preserves_judge hm fun _ _ => preserves_pure trivial hm
  | misfit what => exact hp.elim
termination_by structural s

theorem runBlock_preserves (hc : CallPreserves call) (loop : Option Loop) (block : List Stmt) (hp : Stmt.PlainBlock block)
    {m : Machine} (hm : m.Healthy) :
    Preserves (block.flatMap Stmt.declares) (runBlock settings call printing loop block) m fun _ => True := by
  cases block with
  | nil => exact preserves_pure trivial hm
  | cons s rest =>
    rw [List.flatMap_cons]
    refine (run_preserves hc loop rest.isEmpty s hp.1 hm).bind fun l m₁ _ hm₁ _ => ?_
    exact runBlock_preserves hc l rest hp.2 hm₁
termination_by structural block

theorem runElse_preserves (hc : CallPreserves call) (loop : Option Loop) (block : Option (List Stmt))
    (hp : Stmt.PlainElse block) {m : Machine} (hm : m.Healthy) :
    Preserves [] (runElse settings call printing loop block) m fun _ => True := by
  cases block with
  | none => exact preserves_pure trivial hm
  | some block => exact preserves_inScope (runBlock_preserves hc loop block hp hm.enter) hm
termination_by structural block

end

/-- The parameters take the values, each of which is of the type that its parameter declares. -/
theorem bindParams_preserves {params : List Stmt} (hp : ∀ p ∈ params, p.IsParam) {values : List Value} {m : Machine}
    (hm : m.Healthy) (hv : Value.Fit values ((params.flatMap Stmt.declares).map Prod.snd)) :
    Preserves (params.flatMap Stmt.declares) (bindParams params values) m fun _ => True := by
  induction params generalizing values m with
  | nil =>
    cases values with
    | nil => exact preserves_pure trivial hm
    | cons v values => exact hv.elim
  | cons p params ih =>
    cases p with
    | param span type name =>
      cases values with
      | nil => exact hv.elim
      | cons v values =>
        have hplain : (Stmt.param span type name).IsParam := hp _ (.head _)
        have hfirst : ∀ u, some v = some u → u.type? = some type := by
          rintro _ ⟨⟩
          exact hv.1
        refine (preserves_declare hplain.2 hfirst hm).bind fun _ m₁ _ hm₁ _ => ?_
        exact ih (fun q hq => hp q (.tail _ hq)) hm₁ hv.2
    | _ => exact (hp _ (.head _)).elim

/-- Calls preserve types, whatever number of calls may still be made. -/
theorem callWith_preserves (printing : Bool) (left : Nat) : CallPreserves (callWith settings printing left) := by
  induction left with
  | zero => exact fun _ _ _ _ _ hm _ _ => preserves_throw hm
  | succ left ih =>
    rintro span name f values m hm ⟨⟨span', result, name', params, _ | body, value⟩, hd, hp, hs⟩ hv
    · exact hp.body.elim
    refine (preserves_record hm).seq fun _ m₁ _ hm₁ _ => ?_
    simp only [hd]
    rw [← Option.some.inj (hp.signature.symm.trans hs)] at hv ⊢
    refine preserves_inCall ((bindParams_preserves hp.params hm₁.enterCall hv).bind (b := body.flatMap Stmt.declares ++ [])
      fun _ m₂ _ hm₂ _ => ?_) hm₁
    refine (runBlock_preserves ih none body hp.body hm₂).bind fun _ m₃ _ hm₃ _ => ?_
    refine preserves_judge hm₃ fun _ hreturn => ?_
    obtain ⟨t, ht, hsame⟩ := Scopes.checkReturn_ok.mp hreturn
    refine (evaluate_preserves ih value hp.value hm₃ ht).imp fun v hvt => ?_
    obtain rfl := Ty.eq_of_same (Value.simple_type hvt) hsame
    exact hvt

/-- A statement of the outermost level leaves a healthy state. -/
theorem runTop_healthy (hc : CallPreserves call) (loop : Option Loop) (isLast : Bool) {s : Stmt} (hp : s.PlainTop)
    {m : Machine} (hm : m.Healthy) :
    Ends (run settings call printing loop isLast s) m (fun _ m' => m'.Healthy) (fun _ m' => m'.Healthy) := by
  cases s with
  | define span result name params body value =>
    simp only [run, runBlock_params hp.params, ends_bind, ends_pure]
    exact define_healthy hp hm
  | _ => exact (run_preserves hc loop isLast _ hp hm).healthy

theorem statements_healthy {list : List Stmt} (hp : ∀ s ∈ list, s.PlainTop) {m : Machine} (hm : m.Healthy) :
    Ends (statements settings true list) m (fun _ m' => m'.Healthy) (fun _ m' => m'.Healthy) := by
  induction list generalizing m with
  | nil => exact hm
  | cons s rest ih =>
    cases hkind : s.kind? with
    | none =>
      simp only [statements, hkind, ends_bind, ends_throw]
      exact hm
    | some k =>
      simp only [statements, hkind, if_true, ends_bind]
      refine (preserves_record hm).healthy.imp (fun _ m₁ hm₁ => ?_) fun _ _ hb => hb
      refine (runTop_healthy (callWith_preserves _ _) none _ (hp s (.head _)) hm₁).imp (fun _ m₂ hm₂ => ?_) fun _ _ hb => hb
      exact ih (fun q hq => hp q (.tail _ hq)) hm₂

end Run

end Walk
end CheckedScript
