import CheckedScript.Interpreter

/-! Processing a source in phases: scanning, parsing, checking and running. A mode says how far to go. The first error ends
the processing; the phase that it belongs to and all later ones have failed. -/

namespace CheckedScript

inductive Mode where
  | scan | parse | validate | execute | console
deriving DecidableEq, Repr, Inhabited

namespace Mode

def label : Mode → String
  | scan => "scan"
  | parse => "parse"
  | validate => "validate"
  | execute => "execute"
  | console => "console"

def all : List Mode := [scan, parse, validate, execute, console]

def ofLabel? (s : String) : Option Mode := all.find? (·.label = s)

/-- What is wrong with something that is no mode, as it is shown. -/
def unknown (shown : String) : Escape := .unknownMode shown (all.map label)

/-- The mode of a name, or what is wrong with it. -/
def named (s : String) : Except Escape Mode :=
  match ofLabel? s with
  | some m => .ok m
  | none => .error (unknown (Text.quoted s))

end Mode

/-- What processing gave: the tokens, the tree and the output as far as they were reached, what went wrong, and the trace
if the program was walked. -/
structure Processed where
  tokens : List Token
  tree : Option Program
  output : Array String
  failure : Option Failure
  log : Option Log
deriving Inhabited

namespace Processed

/-- The error that ended the processing. -/
def error? (r : Processed) : Option Error :=
  match r.failure with
  | some (.error e) => some e
  | _ => none

/-- The phase of the error. -/
def failed? (r : Processed) : Option Phase := r.error?.map (·.problem.category.phase)

def scanned (r : Processed) : Bool := r.failed? ≠ some .scanning

def parsed (r : Processed) : Bool := r.scanned && r.failed? ≠ some .parsing

def checked (r : Processed) : Bool := r.parsed && r.failed? ≠ some .checking

def ran (r : Processed) : Bool := r.checked && r.failed? ≠ some .running

/-- The outcome of the scan and the parse alone. -/
def unwalked (tokens : List Token) (tree : Option Program) (failure : Option Failure) : Processed :=
  ⟨tokens, tree, #[], failure, none⟩

end Processed

/-- Walks a parsed program in a mode. -/
def processTree (tokens : List Token) (p : Program) (mode : Mode) (settings : Settings) (destination : Destination) :
    Processed :=
  let walked := match mode with
    | .validate => (Interpreter.new settings destination).walk false p
    | .console => (Interpreter.new { settings with script := true } destination).walk true p
    | _ => (Interpreter.new { settings with script := false } destination).walk true p
  let failure := match walked.1 with
    | .ok _ => none
    | .error e => some e
  ⟨tokens, some p, walked.2.output, failure, some walked.2.log⟩

/-- Processes a source as far as the mode says. All of it is scanned before it is parsed. -/
def process (source : String) (mode : Mode) (settings : Settings) (destination : Destination) : Processed :=
  match Token.tokenize source with
  | .error e => .unwalked [] none (some e)
  | .ok tokens =>
    if mode = .scan then .unwalked tokens none none
    else
      match Program.parse source with
      | .error e => .unwalked tokens none (some e)
      | .ok p =>
        if mode = .parse then .unwalked tokens (some p) none
        else processTree tokens p mode settings destination

end CheckedScript
