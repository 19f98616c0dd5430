import CheckedScript.Literal
import CheckedScript.Tree

/-! Scopes: the frames of declared variables and the table of functions. The outermost frame holds the globals. A call runs on
the globals and a fresh frame, while the frames of its caller are set aside; both share the globals, so what the call
does to them lasts. -/

namespace CheckedScript

/-- A declared variable or parameter. -/
structure Declaration where
  name : Data
  type : Ty
  value : Value
  initial : Value
deriving Repr, Inhabited

namespace Declaration

/-- A new declaration. Without an initial value it gets that of its type, and without a value its initial one. -/
def make (name : Data) (type : Ty) (value initial : Option Value) : Except Failure Declaration := do
  let first ← match initial with
    | some v => pure v
    | none => Literal.defaultFor type
  return ⟨name, type, value.getD first, first⟩

def reset (d : Declaration) : Declaration := { d with value := d.initial }

end Declaration

/-- The declarations of a frame, in order. -/
abbrev Frame := List Declaration

namespace Frame

def get? (f : Frame) (name : Data) : Option Declaration := f.find? (·.name.equal name)

def update (f : Frame) (name : Data) (change : Declaration → Declaration) : Frame :=
  f.map fun d => if d.name.equal name then change d else d

end Frame

/-- The frames that are open: the globals, and the others with the innermost first. -/
structure Stack where
  globals : Frame
  locals : List Frame
deriving Repr, Inhabited

namespace Stack

/-- The innermost frame. -/
def innermost (s : Stack) : Frame := s.locals.head?.getD s.globals

/-- The innermost declaration of a name. -/
def get? (s : Stack) (name : Data) : Option Declaration :=
  match s.locals.findSome? (Frame.get? · name) with
  | some d => some d
  | none => s.globals.get? name

/-- Changes the first frame that declares the name, if there is one. -/
def updateFirst (name : Data) (change : Declaration → Declaration) : List Frame → Option (List Frame)
  | [] => none
  | f :: rest =>
    if (f.get? name).isSome then some (f.update name change :: rest)
    else (updateFirst name change rest).map (f :: ·)

/-- Changes the innermost declaration of a name. -/
def update (s : Stack) (name : Data) (change : Declaration → Declaration) : Stack :=
  match updateFirst name change s.locals with
  | some locals => { s with locals }
  | none => { s with globals := s.globals.update name change }

/-- Adds a declaration to the innermost frame. -/
def declare (s : Stack) (d : Declaration) : Stack :=
  match s.locals with
  | f :: rest => { s with locals := (f ++ [d]) :: rest }
  | [] => { s with globals := s.globals ++ [d] }

def frames (s : Stack) : List Frame := s.globals :: s.locals.reverse

end Stack

/-- The frames of a caller while a call runs. They share their globals with the call as long as these are open there. -/
inductive Suspended where
  | sharing (locals : List Frame)
  | apart (stack : Option Stack)
deriving Repr, Inhabited

/-- An entry of the table of functions. -/
structure Function where
  signature : Signature
  definition : Option Definition
deriving Repr, Inhabited

structure Scopes where
  stack : Option Stack
  suspended : List Suspended
  functions : List Function
deriving Repr, Inhabited

namespace Scopes

def empty : Scopes := ⟨none, [], []⟩

/-- The frames that are open, the outermost first. -/
def frames (s : Scopes) : List Frame := (s.stack.map Stack.frames).getD []

def depth (s : Scopes) : Nat := s.frames.length

/-- Opens a frame. -/
def enter (s : Scopes) : Scopes :=
  match s.stack with
  | none => { s with stack := some ⟨[], []⟩ }
  | some k => { s with stack := some { k with locals := [] :: k.locals } }

/-- Closes the innermost frame. If a call closes the globals, they stay with its caller. -/
def leave? (s : Scopes) : Option Scopes :=
  match s.stack, s.suspended with
  | none, _ => none
  | some ⟨g, _ :: rest⟩, _ => some { s with stack := some ⟨g, rest⟩ }
  | some ⟨g, []⟩, .sharing locals :: others =>
    some { s with stack := none, suspended := .apart (some ⟨g, locals⟩) :: others }
  | some ⟨_, []⟩, _ => some { s with stack := none }

def leave (s : Scopes) : Scopes := s.leave?.getD s

/-- Sets the frames of the caller aside and opens a fresh one on the globals. -/
def enterCall (s : Scopes) : Scopes :=
  match s.stack with
  | none => { s with stack := some ⟨[], []⟩, suspended := .apart none :: s.suspended }
  | some ⟨g, locals⟩ => { s with stack := some ⟨g, [[]]⟩, suspended := .sharing locals :: s.suspended }

/-- Goes back to the frames of the caller. -/
def leaveCall (s : Scopes) : Scopes :=
  match s.suspended, s.stack with
  | .sharing locals :: rest, some ⟨g, _⟩ => { s with stack := some ⟨g, locals⟩, suspended := rest }
  | .sharing _ :: rest, none => { s with suspended := rest }
  | .apart stack :: rest, _ => { s with stack, suspended := rest }
  | [], _ => s

def get? (s : Scopes) (name : Data) : Option Declaration := s.stack.bind (Stack.get? · name)

/-- Only a name that can be a key is looked for in a frame. -/
def ensureKey (s : Scopes) (name : Data) : Except Failure Unit :=
  if s.stack.isSome && !name.isKey then .error (.escape (.notAKey name.kindName)) else .ok ()

/-- The innermost declaration of a name. -/
def lookup (s : Scopes) (name : Data) (span : Span) : Except Failure Declaration := do
  s.ensureKey name
  match s.get? name with
  | some d => return d
  | none => throw (Problem.located (.undeclared name) span)

/-- The innermost frame does not declare the name yet. -/
def ensureUndeclared (s : Scopes) (name : Data) (span : Span) : Except Failure Unit := do
  s.ensureKey name
  match s.stack.bind fun k => k.innermost.get? name with
  | some _ => throw (Problem.located (.redeclared name) span)
  | none => return ()

def declare (s : Scopes) (d : Declaration) (span : Span) : Except Failure Scopes := do
  s.ensureUndeclared d.name span
  match s.stack with
  | some k => return { s with stack := some (k.declare d) }
  | none => throw (.escape .noFrame)

def update (s : Scopes) (name : Data) (change : Declaration → Declaration) : Scopes :=
  { s with stack := s.stack.map (Stack.update · name change) }

/-- Gives the innermost variable of a name a value. -/
def assign (s : Scopes) (name : Data) (v : Value) : Scopes := s.update name fun d => { d with value := v }

/-- The first function of a name with a number of parameters. -/
def function? (s : Scopes) (name : Data) (arity : Int) : Option Function :=
  s.functions.find? fun f => f.signature.name.equal name && (f.signature.params.length : Int) == arity

def resolve (s : Scopes) (name : Data) (arity : Int) (span : Span) : Except Failure Function :=
  match s.function? name arity with
  | some f => .ok f
  | none => .error (Problem.located (.undefined name arity) span)

/-- Adds a function; no other may have its name and its number of parameters. -/
def declareFunction (s : Scopes) (f : Function) (span : Span) : Except Failure Scopes :=
  match s.function? f.signature.name f.signature.params.length with
  | some existing =>
    if existing.signature.same f.signature then .error (Problem.located (.redefined f.signature) span)
    else .error (Problem.located (.conflicting f.signature existing.signature) span)
  | none => .ok { s with functions := s.functions ++ [f] }

end Scopes
end CheckedScript
