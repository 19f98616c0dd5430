import CheckedScript.Proofs.History

/-! Calls are lexical. A walk sees the frames that are open and the functions, and never the frames that were set aside for its
callers nor what was printed before it. So it does the same on top of any callers: `onto` puts a state on top of them, and
a walk may be taken before or after that. A call begins by setting all frames of its caller aside except the globals; hence
what it answers, prints and leaves in the globals is the same whatever else the caller has declared, and the caller finds its
own frames as it left them. -/

namespace CheckedScript

/-- What lies beneath a walk: the frames of the callers, and the lines that were printed and traced before. -/
structure Base where
  suspended : List Suspended
  output : Array String
  trace : Array String

namespace Scopes

variable {s : Scopes} {below : List Suspended}

/-- The scopes on top of the frames of more callers. -/
def onto (s : Scopes) (below : List Suspended) : Scopes := { s with suspended := s.suspended ++ below }

theorem outline_onto : (s.onto below).outline = s.outline := rfl

theorem enter_onto : (s.onto below).enter = s.enter.onto below := by
  obtain ⟨_ | k, suspended, functions⟩ := s <;> rfl

/-- Closing a frame does not reach the callers as long as another one is open. -/
theorem leave_onto (h : s.outline.tail ≠ []) : (s.onto below).leave = s.leave.onto below := by
  obtain ⟨_ | ⟨g, _ | ⟨f, rest⟩⟩, suspended, functions⟩ := s
  · exact absurd rfl h
  · exact absurd rfl h
  · rfl

theorem enterCall_onto : (s.onto below).enterCall = s.enterCall.onto below := by
  obtain ⟨_ | k, suspended, functions⟩ := s <;> rfl

theorem leaveCall_onto (h : s.suspended ≠ []) : (s.onto below).leaveCall = s.leaveCall.onto below := by
  obtain ⟨stack, _ | ⟨first, others⟩, functions⟩ := s
  · exact absurd rfl h
  · cases first <;> cases stack <;> rfl

theorem resolve_onto {name : Data} {arity : Int} {span : Span} :
    (s.onto below).resolve name arity span = s.resolve name arity span := rfl

mutual

theorem infer_onto (e : Expr) : (s.onto below).infer e = s.infer e := by
  cases e with
  | binary form span op left right => simp only [infer, infer_onto left, infer_onto right]
  | unary form span op operand => simp only [infer, infer_onto operand]
  | call span name args =>
    have hargs := fun (f : Signature) (types : List Ty) => checkArguments_onto f span args types
    simp only [infer, resolve_onto, hargs]
  | _ => rfl
termination_by structural e

theorem checkArguments_onto (f : Signature) (span : Span) (args : List Expr) (types : List Ty) :
    (s.onto below).checkArguments f span args types = s.checkArguments f span args types := by
  cases args with
  | nil => cases types <;> rfl
  | cons e rest =>
    cases types with
    | nil => rfl
    | cons t types => simp only [checkArguments, infer_onto e, checkArguments_onto f span rest types]
termination_by structural args

end

theorem checkDeclaration_onto (span : Span) (type : Ty) (name : Data) (init : Option Expr) :
    (s.onto below).checkDeclaration span type name init = s.checkDeclaration span type name init := by
  cases init with
  | none => rfl
  | some e => simp only [checkDeclaration, infer_onto]

theorem lookup_onto (name : Data) (span : Span) : (s.onto below).lookup name span = s.lookup name span := rfl

theorem checkAssignment_onto (span : Span) (name : Data) (op : AssignOp) (e : Expr) :
    (s.onto below).checkAssignment span name op e = s.checkAssignment span name op e := by
  simp only [checkAssignment, infer_onto, lookup_onto]

theorem checkCall_onto (span : Span) (name : Data) (args : List Expr) :
    (s.onto below).checkCall span name args = s.checkCall span name args := by
  simp only [checkCall, resolve_onto, checkArguments_onto]

theorem checkPrint_onto (operand : Option Expr) : (s.onto below).checkPrint operand = s.checkPrint operand := by
  cases operand with
  | none => rfl
  | some e => simp only [checkPrint, infer_onto]

theorem checkCondition_onto (e : Expr) : (s.onto below).checkCondition e = s.checkCondition e := by
  simp only [checkCondition, infer_onto]

theorem checkReturn_onto (d : Definition) : (s.onto below).checkReturn d = s.checkReturn d := by
  simp only [checkReturn, infer_onto]

theorem declare_onto (d : Declaration) (span : Span) :
    (s.onto below).declare d span = (s.declare d span).map (onto · below) := by
  have hu : (s.onto below).ensureUndeclared d.name span = s.ensureUndeclared d.name span := rfl
  simp only [declare, hu]
  cases s.ensureUndeclared d.name span with
  | error e => rfl
  | ok _ =>
    obtain ⟨_ | k, suspended, functions⟩ := s <;> rfl

theorem register_onto (d : Definition) : (s.onto below).register d = (s.register d).map (onto · below) := by
  unfold register
  cases d.signature? with
  | none => rfl
  | some f =>
    have hf : (s.onto below).function? f.name f.params.length = s.function? f.name f.params.length := rfl
    simp only [declareFunction, hf]
    cases s.function? f.name f.params.length with
    | none => rfl
    | some existing =>
      dsimp only
      split <;> rfl

end Scopes

/-- The state on top of what lies beneath. -/
def Machine.onto (m : Machine) (b : Base) : Machine :=
  { m with scopes := m.scopes.onto b.suspended, output := b.output ++ m.output, trace := b.trace ++ m.trace }

namespace Walk

open Machine (Level)

variable {α β : Type}

/-- The end of a walk on top of what lies beneath. -/
def endOnto (b : Base) : EStateM.Result Failure Machine α → EStateM.Result Failure Machine α
  | .ok a m => .ok a (m.onto b)
  | .error e m => .error e (m.onto b)

/-- The walk closes what it opens, and does the same whatever lies beneath. -/
structure Portable (w : Walk α) : Prop where
  balanced : Balanced w
  onto : ∀ (b : Base) (m : Machine), m.scopes.outline ≠ [] → w (m.onto b) = endOnto b (w m)

section Rules

variable {w : Walk α} {k : α → Walk β}

theorem portable_pure {a : α} : Portable (pure a : Walk α) := ⟨balanced_pure, fun _ _ _ => rfl⟩

theorem portable_throw {e : Failure} : Portable (throw e : Walk α) := ⟨balanced_throw, fun _ _ _ => rfl⟩

theorem Portable.bind (h : Portable w) (hk : ∀ a, Portable (k a)) : Portable (w >>= k) := by
  refine ⟨h.balanced.bind fun a => (hk a).balanced, ?_⟩
  intro b m ho
  have hlevel := h.balanced m ho
  simp only [Bind.bind, EStateM.bind, h.onto b m ho]
  cases hw : w m with
  | error e m₁ => rfl
  | ok a m₁ => exact (hk a).onto b m₁ (hlevel.ok hw).still_open

/-- No rule looks at the frames of the callers. -/
theorem Rule.onto {rule : Scopes → Except Failure α} (h : Rule rule) (s : Scopes) (below : List Suspended) :
    rule (s.onto below) = rule s := by
  cases h with
  | make name type value => rfl
  | declaration span type name init => exact Scopes.checkDeclaration_onto span type name init
  | undeclared name span => rfl
  | assignment span name op e => exact Scopes.checkAssignment_onto span name op e
  | call span name args => exact Scopes.checkCall_onto span name args
  | print operand => exact Scopes.checkPrint_onto operand
  | condition e => exact Scopes.checkCondition_onto e
  | result d => exact Scopes.checkReturn_onto d
  | breakOut loop isLast span => rfl
  | lookup name span => exact Scopes.lookup_onto name span
  | resolve name arity span => exact Scopes.resolve_onto

/-- No change reaches the frames of the callers. -/
theorem Change.onto {f : Scopes → Except Failure Scopes} (h : Change f) (s : Scopes) (below : List Suspended) :
    f (s.onto below) = (f s).map (Scopes.onto · below) := by
  cases h with
  | declare d span => exact Scopes.declare_onto d span
  | assign name v => rfl
  | register d => exact Scopes.register_onto d

theorem portable_judge {rule : Scopes → Except Failure α} (h : Rule rule) : Portable (judge rule) := by
  refine ⟨balanced_judge, ?_⟩
  intro b m _
  have hrule : rule (m.onto b).scopes = rule m.scopes := h.onto m.scopes b.suspended
  simp only [judge, hrule]
  cases rule m.scopes <;> rfl

/-- The lines that are added to the trace do not depend on those that are there. -/
theorem record_append (settings : Settings) (level : Int) (line : String) :
    ∃ lines, ∀ m, record settings level line m = .ok () { m with trace := m.trace ++ lines } := by
  have hrecord (m : Machine) : record settings level line m =
      .ok () (if level ≤ settings.traceLevel then { m with trace := m.trace.push line } else m) := rfl
  by_cases hl : level ≤ settings.traceLevel
  · exact ⟨#[line], fun m => by simp [hrecord, hl]⟩
  · exact ⟨#[], fun m => by simp [hrecord, hl]⟩

theorem portable_record {settings : Settings} {level : Int} {line : String} : Portable (record settings level line) := by
  refine ⟨balanced_record, ?_⟩
  intro b m _
  obtain ⟨lines, hrecord⟩ := record_append settings level line
  simp only [hrecord, endOnto, Machine.onto, Array.append_assoc]

theorem portable_print {line : String} : Portable (print line) := by
  refine ⟨balanced_print, ?_⟩
  intro b m _
  have hprint (m : Machine) : print line m = .ok () { m with output := m.output.push line } := rfl
  simp only [hprint, endOnto, Machine.onto, Array.append_push]

theorem portable_change {f : Scopes → Except Failure Scopes} (h : Change f) : Portable (change f) := by
  refine ⟨balanced_change h, ?_⟩
  intro b m _
  have hf : f (m.onto b).scopes = (f m.scopes).map (Scopes.onto · b.suspended) := h.onto m.scopes b.suspended
  simp only [change, hf]
  cases f m.scopes <;> rfl

/-- A bracket moves if its ends do; the second one is met in a state on the level of the first. -/
theorem portable_bracket {before after : Machine → Machine} (hb : Balanced (bracket before after w)) (h : Portable w)
    (hopen : ∀ m, m.scopes.outline ≠ [] → (before m).scopes.outline ≠ []) (hbefore : ∀ b m, before (m.onto b) = (before m).onto b)
    (hafter : ∀ b m m₁, m.scopes.outline ≠ [] → Level (before m) m₁ → after (m₁.onto b) = (after m₁).onto b) :
    Portable (bracket before after w) := by
  refine ⟨hb, ?_⟩
  intro b m ho
  have hlevel := h.balanced (before m) (hopen m ho)
  simp only [bracket, hbefore, h.onto b (before m) (hopen m ho)]
  cases hw : w (before m) with
  | ok a m₁ => simp only [endOnto, hafter b m m₁ ho (hlevel.ok hw)]
  | error e m₁ => simp only [endOnto, hafter b m m₁ ho (hlevel.error hw)]

theorem portable_inScope (h : Portable w) : Portable (inScope w) := by
  refine portable_bracket (balanced_inScope h.balanced) h (by simp) ?_ ?_
  · intro b m
    simp only [Machine.onto, Scopes.enter_onto]
  · intro b m m₁ ho hl
    have hdepth : m₁.scopes.outline.length = m.scopes.outline.length + 1 := by simpa using hl.depth
    have hpos := List.length_pos_iff.mpr ho
    have htail : m₁.scopes.outline.tail ≠ [] := by
      apply List.ne_nil_of_length_pos
      rw [List.length_tail]
      omega
    simp only [Machine.onto, Scopes.leave_onto htail]

theorem portable_inBody (h : Portable w) : Portable (inBody w) := by
  refine portable_bracket (balanced_inBody h.balanced) h (by simp) ?_ ?_
  · intro b m
    simp only [Machine.onto, Scopes.enterCall_onto]
  · intro b m m₁ ho hl
    obtain ⟨k, hk⟩ := Scopes.exists_stack ho
    have hs : m₁.scopes.suspended ≠ [] := by simp [hl.suspended, Scopes.enterCall, hk]
    simp only [Machine.onto, Scopes.leaveCall_onto hs]

theorem portable_inCall (h : Portable w) : Portable (inCall w) :=
  portable_bracket (balanced_inCall h.balanced) (portable_inBody h) (fun _ ho => ho) (fun _ _ => rfl)
    fun _ _ _ _ _ => rfl

/-- So every walk does the same whatever lies beneath. -/
theorem portable_steps : OfSteps Portable where
  pure _ := portable_pure
  throw _ := portable_throw
  bind := Portable.bind
  judge := portable_judge
  change := portable_change
  record _ _ _ := portable_record
  print _ := portable_print
  inScope := portable_inScope
  inBody := portable_inBody
  inCall := portable_inCall

end Rules

/-- What a call comes to: its value or its error, the globals and functions that it leaves, and the lines that it adds. -/
structure Answer where
  result : Except Failure Value
  globals : Frame
  functions : List Function
  printed : Array String
  traced : Array String

namespace Answer

/-- The state that the call leaves to a caller with the given frames beside the globals. -/
def leaves (a : Answer) (m : Machine) (locals : List Frame) : Machine where
  scopes := ⟨some ⟨a.globals, locals⟩, m.scopes.suspended, a.functions⟩
  output := m.output ++ a.printed
  callDepth := m.callDepth
  trace := m.trace ++ a.traced

/-- How the call ends for a caller with the given frames beside the globals. -/
def givenTo (a : Answer) (m : Machine) (locals : List Frame) : EStateM.Result Failure Machine Value :=
  match a.result with
  | .ok v => .ok v (a.leaves m locals)
  | .error e => .error e (a.leaves m locals)

/-- The answer of a body that ended in the state `m`. -/
def ofBody (result : Except Failure Value) (m : Machine) : Answer :=
  ⟨result, (m.scopes.stack.map Stack.globals).getD [], m.scopes.functions, m.output, m.trace⟩

/-- The answer with lines in the trace before its own. -/
def after (a : Answer) (lines : Array String) : Answer := { a with traced := lines ++ a.traced }

theorem givenTo_after (a : Answer) (lines : Array String) (m : Machine) (locals : List Frame) :
    (a.after lines).givenTo m locals = a.givenTo { m with trace := m.trace ++ lines } locals := by
  simp only [givenTo, after, leaves, Array.append_assoc]

end Answer

/-- The state in which a body starts that has no callers. -/
def bodyState (globals : Frame) (functions : List Function) (depth : Nat) : Machine :=
  ⟨⟨some ⟨globals, [[]]⟩, [], functions⟩, #[], depth + 1, #[]⟩

/-- What lies beneath the body of a call. -/
def baseOf (m : Machine) (locals : List Frame) : Base := ⟨.sharing locals :: m.scopes.suspended, m.output, m.trace⟩

section Calls

variable {m m₁ : Machine} {g : Frame} {locals : List Frame}

theorem enterCall_eq_onto (hm : m.scopes.stack = some ⟨g, locals⟩) :
    { m with callDepth := m.callDepth + 1, scopes := m.scopes.enterCall } =
      (bodyState g m.scopes.functions m.callDepth).onto (baseOf m locals) := by
  simp [Scopes.enterCall, hm, bodyState, Machine.onto, Scopes.onto, baseOf]

/-- The caller finds its own frames, beside the globals that the body left. -/
theorem leaveCall_onto_eq_leaves (hl : Level (bodyState g m.scopes.functions m.callDepth) m₁)
    (r : Except Failure Value) :
    { m₁.onto (baseOf m locals) with
        scopes := (m₁.onto (baseOf m locals)).scopes.leaveCall, callDepth := (m₁.onto (baseOf m locals)).callDepth - 1 } =
      (Answer.ofBody r m₁).leaves m locals := by
  obtain ⟨k, hk⟩ := Scopes.exists_stack hl.still_open
  have hs : m₁.scopes.suspended = [] := hl.suspended
  have hd : m₁.callDepth = m.callDepth + 1 := hl.callDepth
  simp [Machine.onto, Scopes.onto, baseOf, Scopes.leaveCall, hs, hk, hd, Answer.leaves, Answer.ofBody]

/-- A body is left with an answer that is not about the caller. -/
theorem inCall_answer {w : Walk Value} (h : Portable w) (g : Frame) (functions : List Function) (depth : Nat) :
    ∃ a : Answer, ∀ m locals, m.scopes.stack = some ⟨g, locals⟩ → m.scopes.functions = functions →
      m.callDepth = depth → inCall w m = a.givenTo m locals := by
  have hopen : (bodyState g functions depth).scopes.outline ≠ [] := by simp [bodyState, Scopes.outline]
  have hlevel := h.balanced _ hopen
  cases hw : w (bodyState g functions depth) with
  | ok v m₁ =>
    refine ⟨.ofBody (.ok v) m₁, ?_⟩
    rintro m locals hm rfl rfl
    have hend := h.onto (baseOf m locals) _ hopen
    rw [hw, ← enterCall_eq_onto hm] at hend
    simp only [inCall, inBody, bracket, hend, endOnto]
    exact congrArg _ (leaveCall_onto_eq_leaves (hlevel.ok hw) (.ok v))
  | error e m₁ =>
    refine ⟨.ofBody (.error e) m₁, ?_⟩
    rintro m locals hm rfl rfl
    have hend := h.onto (baseOf m locals) _ hopen
    rw [hw, ← enterCall_eq_onto hm] at hend
    simp only [inCall, inBody, bracket, hend, endOnto]
    exact congrArg _ (leaveCall_onto_eq_leaves (hlevel.error hw) (.error e))

/-- The answer of a call is not about the caller, whether the call may be made or not. -/
theorem callWith_answer (settings : Settings) (printing : Bool) (left : Nat) (span : Span) (name : Data) (f : Function)
    (values : List Value) (g : Frame) (functions : List Function) (depth : Nat) :
    ∃ a : Answer, ∀ m locals, m.scopes.stack = some ⟨g, locals⟩ → m.scopes.functions = functions →
      m.callDepth = depth → callWith settings printing left span name f values m = a.givenTo m locals := by
  cases left with
  | zero =>
    refine ⟨⟨.error (Problem.located (.tooManyCalls settings.maxCallDepth name) span), g, functions, #[], #[]⟩, ?_⟩
    rintro ⟨⟨_, suspended, _⟩, output, _, trace⟩ locals rfl rfl rfl
    simp only [Answer.givenTo, Answer.leaves, Array.append_empty]
    exact rfl
  | succ left =>
    have hcalls := portable_steps.callWith settings printing left
    have hbody : Portable (callBody settings (callWith settings printing left) printing f values) :=
      portable_steps.callBody hcalls printing f values
    obtain ⟨a, ha⟩ := inCall_answer hbody g functions depth
    obtain ⟨lines, hrecord⟩ := record_append settings 3
      (s!"call {name.shown}(" ++ ", ".intercalate (values.map Value.shown) ++ ")")
    refine ⟨a.after lines, ?_⟩
    intro m locals hm hf hd
    have hend := ha { m with trace := m.trace ++ lines } locals hm hf hd
    rw [callWith_succ, Answer.givenTo_after, ← hend]
    simp only [bind, EStateM.bind, hrecord]

end Calls

/-- A call sees of its caller the globals and nothing else. Take two states with the same globals, functions and number of calls
under way, and whatever else in the other frames, in those of the callers, in the output and in the trace: a call of the same
function with the same values comes to the same answer in both. So it ends with the same value or the same error, adds
the same lines and leaves the same globals; and either caller finds all its other frames, its callers and the count of
calls as they were. -/
theorem callWith_lexical (settings : Settings) (printing : Bool) (left : Nat) (span : Span) (name : Data) (f : Function)
    (values : List Value) {m n : Machine} {g : Frame} {locals locals' : List Frame}
    (hm : m.scopes.stack = some ⟨g, locals⟩) (hn : n.scopes.stack = some ⟨g, locals'⟩)
    (hf : n.scopes.functions = m.scopes.functions) (hd : n.callDepth = m.callDepth) :
    ∃ a : Answer, callWith settings printing left span name f values m = a.givenTo m locals ∧
      callWith settings printing left span name f values n = a.givenTo n locals' := by
  obtain ⟨a, ha⟩ := callWith_answer settings printing left span name f values g m.scopes.functions m.callDepth
  exact ⟨a, ha m locals hm rfl rfl, ha n locals' hn hf hd⟩

/-- A function that prints the variable `x`, changes it and returns it. -/
def flipper : Function where
  signature := ⟨.boolean, .text "flip", []⟩
  definition := some {
    span := .zero
    result := .boolean
    name := .text "flip"
    params := []
    body := some [.print .zero (some (.identifier .zero (.text "x"))),
      .assign .zero (.text "x") .set (.literal .zero (.boolean true))]
    value := .identifier .zero (.text "x") }

/-- A state where the function is known, with a global `x` and the given frames beside the globals. -/
def beforeFlip (locals : List Frame) (output : Array String) : Machine :=
  ⟨⟨some ⟨[⟨.text "x", .boolean, .boolean false, .boolean false⟩], locals⟩, [], [flipper]⟩, output, 1, #[]⟩

/-- The second caller has a text `x` of its own and has printed it. -/
theorem callWith_lexical_shadowed :
    let own : Frame := [⟨.text "x", .string, .text "mine", .text ""⟩]
    ∃ a : Answer, callWith .standard true 127 .zero (.text "flip") flipper [] (beforeFlip [] #[]) =
        a.givenTo (beforeFlip [] #[]) [] ∧
      callWith .standard true 127 .zero (.text "flip") flipper [] (beforeFlip [own] #["mine"]) =
        a.givenTo (beforeFlip [own] #["mine"]) [own] := by
  intro own
  apply callWith_lexical
  · exact rfl
  · exact rfl
  · exact rfl
  · exact rfl

end Walk
end CheckedScript
