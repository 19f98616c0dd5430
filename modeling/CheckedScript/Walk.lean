import CheckedScript.Typing

/-! The walk over a program: what it changes, and the steps that it is made of. An error ends the walk and keeps the state it
had reached, with all frames closed that were opened since. -/

namespace CheckedScript

/-- How a program is to be walked. Of a script only the last statement prints. -/
structure Settings where
  script : Bool
  maxIterations : Int
  maxCallDepth : Int
  traceLevel : Int
deriving DecidableEq, Repr

def Settings.standard : Settings := ⟨false, 10000, 128, 0⟩

instance : Inhabited Settings := ⟨.standard⟩

/-- What a walk changes: the scopes, the printed lines, the number of calls under way and the lines of the trace. -/
structure Machine where
  scopes : Scopes
  output : Array String
  callDepth : Nat
  trace : Array String
deriving Inhabited

abbrev Walk := EStateM Failure Machine

namespace Walk

/-- Adds a line to the trace, if it is kept at the level. -/
def record (settings : Settings) (level : Int) (line : String) : Walk Unit :=
  modify fun m => if level ≤ settings.traceLevel then { m with trace := m.trace.push line } else m

def print (line : String) : Walk Unit :=
  modify fun m => { m with output := m.output.push line }

/-- What a rule says about the scopes. -/
def judge {α : Type} (rule : Scopes → Except Failure α) : Walk α := fun m =>
  match rule m.scopes with
  | .ok a => .ok a m
  | .error e => .error e m

/-- Changes the scopes, if this is allowed. -/
def change (f : Scopes → Except Failure Scopes) : Walk Unit := fun m =>
  match f m.scopes with
  | .ok s => .ok () { m with scopes := s }
  | .error e => .error e m

/-- What an operation gives, found at a place. -/
def compute (span : Span) (result : Except Failure Value) : Walk Value :=
  match result with
  | .ok v => pure v
  | .error e => throw (e.orAt span)

/-- Changes the machine, walks, and changes it again however the walk ends. -/
def bracket {α : Type} (before after : Machine → Machine) (walk : Walk α) : Walk α := fun m =>
  match walk (before m) with
  | .ok a m => .ok a (after m)
  | .error e m => .error e (after m)

/-- Walks in a frame of its own. -/
def inScope {α : Type} (walk : Walk α) : Walk α :=
  bracket (fun m => { m with scopes := m.scopes.enter }) (fun m => { m with scopes := m.scopes.leave }) walk

/-- Walks on the globals and a fresh frame. -/
def inBody {α : Type} (walk : Walk α) : Walk α :=
  bracket (fun m => { m with scopes := m.scopes.enterCall }) (fun m => { m with scopes := m.scopes.leaveCall }) walk

/-- Walks in a body as one more call. -/
def inCall {α : Type} (walk : Walk α) : Walk α :=
  bracket (fun m => { m with callDepth := m.callDepth + 1 }) (fun m => { m with callDepth := m.callDepth - 1 })
    (inBody walk)

/-- Declares a variable in the innermost frame. -/
def declare (span : Span) (type : Ty) (name : Data) (value : Option Value) : Walk Declaration := do
  let d ← judge fun _ => Declaration.make name type value none
  change fun s => s.declare d span
  return d

/-- Defines a function: it is known before its parameters and its body are walked, and its result is looked at last. -/
def define (settings : Settings) (d : Definition) (params body : Walk (Option Loop)) : Walk Unit := do
  change fun s => s.register d
  inBody do
    let _ ← params
    let _ ← body
    judge fun s => s.checkReturn d
  record settings 2 s!"define function {d.name.shown}/{d.params.length}"

end Walk
end CheckedScript
