import CheckedScript.Node.Program
import CheckedScript.Typing

/-! A session works on scopes by single steps: frames are opened and closed, variables and functions declared and looked up,
and the static rules asked about nodes, in any order. A step that fails leaves the scopes as they were. -/

namespace CheckedScript

/-- What was entered and is to be left again. -/
inductive Bracket where
  | scope
  | call
deriving DecidableEq, Repr, Inhabited

structure Session where
  scopes : Scopes
  loop : Option Loop
  brackets : List Bracket
deriving Inhabited

namespace Session

/-- What a static rule can be asked about a node. -/
inductive Rule where
  | infer | condition | declaration | assignment | call | print | result | register | breakOut (isLast : Bool)
deriving DecidableEq, Repr, Inhabited

inductive Step where
  | openFrame
  | closeFrame
  | enter (b : Bracket)
  | leave
  | declare (name : Data) (type : Ty) (value initial : Option Value) (span : Span)
  | ensureUndeclared (name : Data) (span : Span)
  | lookup (name : Data) (span : Span)
  | set (name : Data) (value : Value) (span : Span)
  | reset (name : Data) (span : Span)
  | declareFunction (f : Signature) (span : Span)
  | resolve (name : Data) (arity : Int) (span : Span)
  | ask (rule : Rule) (node : Node)
  | setLoop (loop : Option Loop)
  | consumeBreak
deriving Inhabited

inductive Answer where
  | none
  | frame (f : Frame)
  | declaration (d : Declaration)
  | signature (f : Signature)
  | resolved (f : Signature)
  | type (t : Ty)
deriving Inhabited

def start : Session := ⟨.empty, none, []⟩

/-- The innermost frame. -/
def innermost (s : Session) : Frame := (s.scopes.stack.map Stack.innermost).getD []

/-- The scopes after the innermost frame was closed. -/
def closed (s : Session) : Except Failure Scopes :=
  match s.scopes.leave? with
  | some scopes => .ok scopes
  | none => .error (.escape .noFrame)

/-- The name and the range of a node that has a name. -/
def named? : Node → Option (Data × Span)
  | .variableDecl span _ name _ | .paramDecl span _ name | .assignment span name _ _ | .call span name _
  | .definition span _ name _ _ _ | .identifier span name => some (name, span)
  | _ => none

/-- The variable that an assignment changes. Of another node with a name, the name is looked up before the node is
refused. -/
def checkAssignment (s : Scopes) (n : Node) : Except Failure Declaration := do
  match n with
  | .assignment span name op e => s.checkAssignment span name (.ofData op) e.toExpr
  | n =>
    if let some (name, span) := named? n then
      let _ ← s.lookup name span
    throw (.escape .notANode)

/-- The function that a call means. Of a definition, the function is looked for before the node is refused. -/
def checkCall (s : Scopes) (n : Node) : Except Failure Signature := do
  match n with
  | .call span name args => return (← s.checkCall span name (Node.toExprs args)).signature
  | .definition span _ name params _ _ =>
    let _ ← s.resolve name params.length span
    throw (.escape .notANode)
  | _ => throw (.escape .notANode)

/-- The definition that a node is. -/
def definition (n : Node) : Except Failure Definition :=
  match n.toDefinition? with
  | some d => .ok d
  | none => .error (.escape .notANode)

/-- A break that is allowed is not looked at; one that is not needs a range for its error. -/
def checkBreak (loop : Option Loop) (isLast : Bool) (n : Node) : Except Failure Unit :=
  match n.head? with
  | some (_, span) => Loop.checkBreak loop isLast span
  | none => (Loop.checkBreak loop isLast .zero).mapError fun _ => .escape .notANode

/-- The answer of a rule about a node, and the session after it. -/
def ask (s : Session) (rule : Rule) (n : Node) : Except Failure (Answer × Session) := do
  match rule with
  | .infer => return (.type (← s.scopes.infer n.toExpr), s)
  | .condition =>
    s.scopes.checkCondition n.toExpr
    return (.none, s)
  | .declaration =>
    match n with
    | .variableDecl span t name init =>
      s.scopes.checkDeclaration span (.ofNode t) name init.toOptionalExpr
      return (.none, s)
    | _ => throw (.escape .notANode)
  | .assignment => return (.declaration (← checkAssignment s.scopes n), s)
  | .call => return (.signature (← checkCall s.scopes n), s)
  | .print =>
    match n with
    | .print _ e =>
      s.scopes.checkPrint e.toOptionalExpr
      return (.none, s)
    | _ => throw (.escape .notANode)
  | .result =>
    s.scopes.checkReturn (← definition n)
    return (.none, s)
  | .register =>
    let d ← definition n
    let scopes ← s.scopes.register d
    return (.signature (d.signature?.getD default), { s with scopes })
  | .breakOut isLast =>
    checkBreak s.loop isLast n
    return (.none, s)

/-- The answer to a step that is allowed, and the session after it. -/
def perform (s : Session) : Step → Except Failure (Answer × Session)
  | .openFrame => .ok (.none, { s with scopes := s.scopes.enter })
  | .closeFrame => do
    let scopes ← s.closed
    return (.none, { s with scopes })
  | .enter .scope =>
    let s := { s with scopes := s.scopes.enter, brackets := .scope :: s.brackets }
    .ok (.frame s.innermost, s)
  | .enter .call =>
    let s := { s with scopes := s.scopes.enterCall, brackets := .call :: s.brackets }
    .ok (.frame s.innermost, s)
  | .leave =>
    match s.brackets with
    | .scope :: brackets => do
      let scopes ← s.closed
      return (.none, { s with scopes, brackets })
    | .call :: brackets => .ok (.none, { s with scopes := s.scopes.leaveCall, brackets })
    | [] => .error (.escape .noFrame)
  | .declare name type value initial span => do
    let d ← Declaration.make name type value initial
    let scopes ← s.scopes.declare d span
    return (.declaration d, { s with scopes })
  | .ensureUndeclared name span => do
    s.scopes.ensureUndeclared name span
    return (.none, s)
  | .lookup name span => do
    let d ← s.scopes.lookup name span
    return (.declaration d, s)
  | .set name value span => do
    let _ ← s.scopes.lookup name span
    return (.none, { s with scopes := s.scopes.assign name value })
  | .reset name span => do
    let _ ← s.scopes.lookup name span
    return (.none, { s with scopes := s.scopes.update name Declaration.reset })
  | .declareFunction f span => do
    let scopes ← s.scopes.declareFunction ⟨f, none⟩ span
    return (.signature f, { s with scopes })
  | .resolve name arity span => do
    let f ← s.scopes.resolve name arity span
    return (.resolved f.signature, s)
  | .ask rule node => s.ask rule node
  | .setLoop loop => .ok (.none, { s with loop })
  | .consumeBreak => .ok (.none, { s with loop := s.loop.map Loop.consume })

/-- A step; what was entered last counts as left even if its frame could not be closed. -/
def step (s : Session) (step : Step) : Except Failure Answer × Session :=
  match s.perform step with
  | .ok (answer, s) => (.ok answer, s)
  | .error e =>
    match step with
    | .leave => (.error e, { s with brackets := s.brackets.drop 1 })
    | _ => (.error e, s)

end Session
end CheckedScript
