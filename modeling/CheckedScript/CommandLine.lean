import CheckedScript.CommandLine.Arguments
import CheckedScript.Console
import CheckedScript.Data.Reader
import CheckedScript.Data.Writer
import CheckedScript.Node.Decode
import CheckedScript.Node.Encode

/-! The command line: a program file is processed in a mode, its tree is written to a data file, or a tree is read from one
and run; without a file the console is started. With `-v` the trace goes to a file. -/

namespace CheckedScript.CommandLine

/-- How the command ended. -/
inductive Ending where
  | status (code : Nat)
  | escaped (e : Escape)
  | refusedData (e : DataError)
  | unreadData (e : Data.ReadError)
deriving Repr, Inhabited

/-- What the command wrote, and the files that it left. -/
structure Report where
  ending : Ending
  stdout : String
  stderr : String
  files : List (String × String)
deriving Inhabited

/-- The name of the file for the trace. -/
def traceFile : String := "debug.txt"

/-- The parts of a path between its slashes, without those that mean nothing. -/
def pathParts (cs : List Char) : List (List Char) :=
  (cs.splitOn '/').filter fun part => part ≠ [] ∧ part ≠ ['.']

/-- A path without needless parts. -/
def normalPath (path : String) : String :=
  let cs := path.toList
  let slashes := (cs.takeWhile (· = '/')).length
  let root := if slashes = 2 then "//" else if slashes = 0 then "" else "/"
  let parts := pathParts cs
  if parts.isEmpty then (if slashes = 0 then "." else root)
  else root ++ "/".intercalate (parts.map String.ofList)

/-- Every kind of line end becomes the plain one. -/
def plainLines : List Char → List Char
  | '\r' :: '\n' :: rest => '\n' :: plainLines rest
  | '\r' :: rest => '\n' :: plainLines rest
  | c :: rest => c :: plainLines rest
  | [] => []

/-- The text of a file with plain line ends. -/
def decodeFile (content : String) : String := String.ofList (plainLines content.toList)

/-- What is done, once the arguments are known: a file is needed, or none is. -/
inductive Plan where
  | emit (file : String)
  | tree (file : String)
  | program (file : String)
  | console
deriving Repr, Inhabited

/-- The plan of the arguments; an empty name counts as none. -/
def plan (a : Arguments) : Plan :=
  match a.emit.filter (· ≠ ""), a.tree.filter (· ≠ ""), a.program.filter (· ≠ "") with
  | some file, _, _ => .emit (normalPath file)
  | _, some file, _ => .tree (normalPath file)
  | _, _, some file => .program (normalPath file)
  | _, _, _ => .console

/-- The file that a plan reads. -/
def Plan.file? : Plan → Option String
  | emit file | tree file | program file => some file
  | console => none

/-- The settings of a walk. -/
def settings (a : Arguments) : Settings := { Settings.standard with traceLevel := a.verbosity }

/-- The trace file, if there is a trace. -/
def traceFiles (a : Arguments) (log : Option Log) : List (String × String) :=
  match log with
  | some log => if 0 < a.verbosity then [(traceFile, Log.unlines log.written)] else []
  | none => []

def missingFile (file : String) : Report := ⟨.status 1, "", s!"Error: file {file} not found\n", []⟩

/-- Writes the tree of a program to a data file beside it. -/
def emitTree (file source : String) : Report :=
  match Program.parse source with
  | .ok p =>
    let target := file ++ ".ast.json"
    ⟨.status 0, target ++ "\n", "", [(target, p.toNode.encode.write)]⟩
  | .error (.error e) => ⟨.status 1, "", e.text ++ "\n", []⟩
  | .error (.escape e) => ⟨.escaped e, "", "", []⟩

/-- Runs a program whose tree is in a data file. -/
def runTree (a : Arguments) (content : String) : Report :=
  match Data.read content with
  | .error e => ⟨.unreadData e, "", "", []⟩
  | .ok data =>
    match Node.decode data with
    | .error e => ⟨.refusedData e, "", "", []⟩
    | .ok node =>
      let i := Interpreter.new { settings a with script := a.mode = some .console } .file
      let (result, i) := i.walkTree true node
      let files := traceFiles a (some i.log)
      match result with
      | .ok _ => ⟨.status 0, Log.unlines i.output, "", files⟩
      | .error (.error e) => ⟨.status 1, Log.unlines i.output, e.text ++ "\n", files⟩
      | .error (.escape e) => ⟨.escaped e, "", "", files⟩

/-- A token as a line. -/
def tokenLine (t : Token) : String := s!"{t.kind.label} {Text.quoted t.text} {t.span.text}"

/-- Processes a program in a mode. -/
def processIn (a : Arguments) (mode : Mode) (source : String) : Report :=
  let r := process source mode (settings a) .file
  let files := traceFiles a r.log
  let scanned := if mode = .scan then (r.tokens.map tokenLine).toArray else #[]
  let stdout := Log.unlines scanned ++ Log.unlines r.output
  match r.failure with
  | none => ⟨.status 0, stdout, "", files⟩
  | some (.error e) => ⟨.status 1, stdout, e.text ++ "\n", files⟩
  | some (.escape e) => ⟨.escaped e, "", "", files⟩

/-- Processes a program; a missing mode is shown as an empty list. -/
def processFile (a : Arguments) (source : String) : Report :=
  match a.mode with
  | some mode => processIn a mode source
  | none => ⟨.escaped (Mode.unknown "[]"), "", "", []⟩

/-- The console that the arguments ask for. -/
def console (a : Arguments) : Console := .new (settings a) .file

/-- What a dialogue that ended comes to. -/
def reportDialogue (a : Arguments) (next : Dialogue.Next) (d : Dialogue) : Report :=
  let ending := match next with
    | .escaped e => .escaped e
    | _ => .status 0
  ⟨ending, d.stdout, d.stderr, traceFiles a (some d.console.log)⟩

/-- Does what the arguments ask for; `content` is that of the file of the plan, if there is such a file. -/
def perform (a : Arguments) (content : Option String) (input : String) : Report :=
  let plan := plan a
  match plan.file?, content with
  | some file, none => missingFile file
  | _, _ =>
    let text := decodeFile (content.getD "")
    match plan with
    | .emit file => emitTree file text
    | .tree _ => runTree a text
    | .program _ => processFile a text
    | .console =>
      let (next, d, _) := (console a).converse input
      reportDialogue a next d

/-- How the command is used. -/
def usage : String :=
  Log.unlines #[
    "usage: checkedscript [-h] [-v] [--mode \x7bscan,parse,validate,execute,console\x7d]",
    "                     [--emit-ast PROGRAM_FILE | --ast AST_JSON_FILE]",
    "                     [program]"]

/-- What the command is for, and its options one by one. -/
def helpText : String :=
  usage ++ Log.unlines #[
    "",
    "playlang language interpreter",
    "",
    "positional arguments:",
    "  program               program file to process",
    "",
    "options:",
    "  -h, --help            show this help message and exit",
    "  -v                    increase debug verbosity (can be repeated)",
    "  --mode \x7bscan,parse,validate,execute,console\x7d",
    "                        processing phases to run",
    "  --emit-ast PROGRAM_FILE",
    "                        emit AST JSON for the given program file",
    "  --ast AST_JSON_FILE   execute AST from a JSON file"]

/-- The whole command on files that are given by name. -/
def report (arguments : List String) (files : List (String × String)) (input : String) : Report :=
  match request arguments with
  | .help => ⟨.status 0, helpText, "", []⟩
  | .misuse => ⟨.status 2, "", usage, []⟩
  | .perform a =>
    let content := (plan a).file?.bind fun file => (files.find? fun (name, _) => normalPath name = file).map Prod.snd
    perform a content input

end CheckedScript.CommandLine
