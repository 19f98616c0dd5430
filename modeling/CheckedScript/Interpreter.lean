import CheckedScript.Node.Program
import CheckedScript.Parse
import CheckedScript.Run

/-! An interpreter walks programs one after the other. Each walk starts without functions, without output and without calls,
and leaves no frame open. The trace goes to where the interpreter was told; a file of its own is closed after the first
walk, and what would go there later goes to the error stream. -/

namespace CheckedScript

/-- Where the trace goes. -/
inductive Destination where
  | stream
  | file
  | errorStream
deriving DecidableEq, Repr, Inhabited

/-- The lines of the trace that were written, and those that went to the error stream. -/
structure Log where
  destination : Destination
  written : Array String
  errors : Array String
deriving Repr, Inhabited

namespace Log

def start (destination : Destination) : Log := ⟨destination, #[], #[]⟩

def add (log : Log) (lines : Array String) : Log :=
  match log.destination with
  | .errorStream => { log with errors := log.errors ++ lines }
  | _ => { log with written := log.written ++ lines }

/-- Closes a file. -/
def close (log : Log) : Log :=
  if log.destination = .file then { log with destination := .errorStream } else log

/-- Lines as text, with an end to each. -/
def unlines (lines : Array String) : String := String.join (lines.toList.map (· ++ "\n"))

end Log

namespace Walk

/-- Walks the statements at the outermost level, running them or only checking them. -/
def statements (settings : Settings) (execute : Bool) : List Stmt → Walk Unit
  | [] => return ()
  | stmt :: rest => do
    let isLast := rest.isEmpty
    let printing := !settings.script || isLast
    match stmt.kind? with
    | none => throw (.escape .notANode)
    | some k => record settings 1 s!"statement {k.label} at {stmt.span.text}"
    let _ ← if execute then run settings (caller settings printing) printing none isLast stmt
      else check settings none isLast stmt
    statements settings execute rest

/-- Walks a program in a frame of its own. -/
def program (settings : Settings) (execute : Bool) (p : Program) : Walk Unit :=
  inScope (statements settings execute p.statements)

end Walk

structure Interpreter where
  settings : Settings
  scopes : Scopes
  output : Array String
  callDepth : Nat
  log : Log
deriving Inhabited

namespace Interpreter

def new (settings : Settings) (destination : Destination) : Interpreter :=
  ⟨settings, .empty, #[], 0, .start destination⟩

/-- The state in which a walk starts. -/
def machine (i : Interpreter) : Machine :=
  { scopes := { i.scopes with functions := [] }, output := #[], callDepth := 0, trace := #[] }

/-- The interpreter after a walk that ended in the state `m`. -/
def after (i : Interpreter) (m : Machine) : Interpreter :=
  { i with scopes := m.scopes, output := m.output, callDepth := m.callDepth, log := (i.log.add m.trace).close }

/-- Walks a program, and says how this ended. -/
def walk (i : Interpreter) (execute : Bool) (p : Program) : Except Failure Unit × Interpreter :=
  match Walk.program i.settings execute p i.machine with
  | .ok _ m => (.ok (), i.after m)
  | .error e m => (.error e, i.after m)

/-- Runs a program. -/
def run (i : Interpreter) (p : Program) : Except Failure (Array String) × Interpreter :=
  let (result, i) := i.walk true p
  (result.map fun _ => i.output, i)

/-- Checks a program without running any of it. -/
def validate (i : Interpreter) (p : Program) : Except Failure Unit × Interpreter := i.walk false p

/-- Walks the program that a tree of data is. A tree that is none starts no walk, but the last output is gone. -/
def walkTree (i : Interpreter) (execute : Bool) (n : Node) : Except Failure Unit × Interpreter :=
  match n.toProgram with
  | .ok p => i.walk execute p
  | .error e => (.error (.escape e), i.after i.machine)

end Interpreter

/-- The output of a program. -/
def runProgram (settings : Settings) (source : String) : Except Failure (Array String) := do
  let p ← Program.parse source
  ((Interpreter.new settings .stream).run p).1

/-- Checks a program. -/
def validateProgram (source : String) : Except Failure Unit := do
  let p ← Program.parse source
  ((Interpreter.new .standard .stream).validate p).1

end CheckedScript
