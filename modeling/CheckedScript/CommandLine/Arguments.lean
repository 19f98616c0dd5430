import CheckedScript.Process
import CheckedScript.Text.Digit

/-! The arguments of the command line. Options and the file may come in any order. A long option may be cut short as long as
it is the only one with that beginning, its value may follow after `=` or as the next argument, and the letters of short
options may be joined, also after `=`. After `--` there are no options any more. An argument that has no place is noted and
the rest is still read, so that help may be asked for after it. -/

namespace CheckedScript.CommandLine

inductive Flag where
  | help | verbose | mode | emit | tree
deriving DecidableEq, Repr, Inhabited

/-- The options by name. -/
def flagNames : List (String × Flag) :=
  [("-h", .help), ("--help", .help), ("-v", .verbose), ("--mode", .mode), ("--emit-ast", .emit), ("--ast", .tree)]

/-- An argument by itself: an option, with a value after `=` or with letters joined to it, or a word. -/
inductive Item where
  | flag (f : Flag) (value : Option String)
  | joined (f : Flag) (letters : List Char)
  | word (s : String)
  | endOfFlags
  | unknown
deriving Repr

/-- A minus and a number, as a word may start with; a line end may follow. -/
def isNegativeNumber : List Char → Bool
  | '-' :: cs =>
    let cs := if cs.getLast? = some '\n' then cs.dropLast else cs
    let whole := cs.takeWhile Text.isDigit
    match cs.dropWhile Text.isDigit with
    | [] => !whole.isEmpty
    | '.' :: fraction => !fraction.isEmpty && fraction.all Text.isDigit
    | _ => false
  | _ => false

/-- What stands after the first `=`, if there is one. -/
def afterEqual (cs : List Char) : Option String :=
  match cs.dropWhile (· ≠ '=') with
  | _ :: rest => some (String.ofList rest)
  | [] => none

/-- A single minus with a letter, as short options start. -/
def isShort : List Char → Bool
  | '-' :: c :: _ => c != '-'
  | _ => false

/-- The options that an argument may mean: long ones with its beginning, or a short one with something joined to it. -/
def candidates (cs : List Char) : List Item :=
  match cs with
  | '-' :: '-' :: _ =>
    let start := cs.takeWhile (· ≠ '=')
    (flagNames.filter fun (name, _) => start.isPrefixOf name.toList).map fun (_, f) => .flag f (afterEqual cs)
  | '-' :: c :: rest =>
    (flagNames.filter fun (name, _) => name.toList == ['-', c]).map fun (_, f) => .joined f rest
  | _ => []

/-- An argument by itself; none if it may mean several options. -/
def itemOf (s : String) : Option Item :=
  let cs := s.toList
  if cs.head? ≠ some '-' then some (.word s)
  else
    match flagNames.lookup s with
    | some f => some (.flag f none)
    | none =>
      if cs.length = 1 then some (.word s)
      else
        match flagNames.lookup (String.ofList (cs.takeWhile (· ≠ '='))), afterEqual cs with
        | some f, some value => some (if isShort cs && value ≠ "" then .joined f value.toList else .flag f (some value))
        | _, _ =>
          match candidates cs with
          | [item] => some item
          | [] => some (if isNegativeNumber cs || cs.contains ' ' then .word s else .unknown)
          | _ => none

/-- All arguments; after `--` there are words only. -/
def items : List String → Option (List Item)
  | [] => some []
  | s :: rest =>
    if s = "--" then some (.endOfFlags :: rest.map .word)
    else do
      let item ← itemOf s
      return item :: (← items rest)

/-- What the arguments ask for. The mode is missing if its option was left without one. -/
structure Arguments where
  verbosity : Nat
  mode : Option Mode
  emit : Option String
  tree : Option String
  program : Option String
deriving Repr, Inhabited

namespace Arguments

def none : Arguments := ⟨0, some .execute, .none, .none, .none⟩

/-- Gives an option its value. Only one of the two options about trees may be there. The value `--` is dropped, which leaves
the option without one; an option about trees then has an empty name. -/
def setFlag (a : Arguments) (f : Flag) (value : String) : Option Arguments :=
  let dropped := value = "--"
  let file := if dropped then "" else value
  match f with
  | .mode =>
    if dropped then some { a with mode := .none }
    else (Mode.ofLabel? value).map fun mode => { a with mode := some mode }
  | .emit => if a.tree.isSome then .none else some { a with emit := some file }
  | .tree => if a.emit.isSome then .none else some { a with tree := some file }
  | _ => .none

end Arguments

/-- What a command line means. -/
inductive Request where
  | perform (a : Arguments)
  | help
  | misuse
deriving Repr, Inhabited

/-- Takes the arguments one after the other; `taken` says whether the file has been met, and `stray` whether there was an
argument without a place. -/
def gather : List Item → (taken stray : Bool) → Arguments → Request
  | [], _, stray, a => if stray then .misuse else .perform a
  | .flag .help .none :: _, _, _, _ => .help
  | .flag .verbose .none :: rest, taken, stray, a =>
    gather rest taken stray { a with verbosity := a.verbosity + 1 }
  | .joined f letters :: rest, taken, stray, a =>
    if !letters.all fun c => c == 'v' || c == 'h' then .misuse
    else if f = .help ∨ 'h' ∈ letters then .help
    else gather rest taken stray { a with verbosity := a.verbosity + 1 + letters.length }
  | .flag f (some value) :: rest, taken, stray, a =>
    match a.setFlag f value with
    | some a => gather rest taken stray a
    | .none => .misuse
  | .flag f .none :: .word value :: rest, taken, stray, a =>
    match a.setFlag f value with
    | some a => gather rest taken stray a
    | .none => .misuse
  | .flag _ .none :: _, _, _, _ => .misuse
  | .word s :: .endOfFlags :: rest, false, stray, a => gather rest true stray { a with program := some s }
  | .word s :: rest, false, stray, a => gather rest true stray { a with program := some s }
  | .endOfFlags :: .word s :: rest, false, stray, a => gather rest true stray { a with program := some s }
  | .endOfFlags :: rest, false, stray, a => gather rest true stray a
  | .word _ :: rest, true, _, a => gather rest true true a
  | .endOfFlags :: rest, true, _, a => gather rest true true a
  | .unknown :: rest, taken, _, a => gather rest taken true a

/-- What a list of arguments asks for. -/
def request (arguments : List String) : Request :=
  match items arguments with
  | some list => gather list false false .none
  | .none => .misuse

end CheckedScript.CommandLine
