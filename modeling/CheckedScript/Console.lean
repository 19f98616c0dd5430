import CheckedScript.Interpreter
import CheckedScript.Text.Blank

/-! The console. Code is submitted piece by piece; each piece is appended to the code that was accepted so far, and all of
it runs again as a script, so that only the last statement of the new code prints. A piece that fails is dropped. In a
dialogue lines are gathered until an empty one submits them. -/

namespace CheckedScript

structure Console where
  settings : Settings
  committed : String
  log : Log
deriving Inhabited

namespace Console

/-- A console; a trace file stays open for all submissions. -/
def new (settings : Settings) (destination : Destination) : Console :=
  ⟨{ settings with script := true }, "", .start (if destination = .file then .stream else destination)⟩

def reset (c : Console) : Console := { c with committed := "" }

/-- The accepted code with a piece after it; the whole ends in a line end. -/
def extended (c : Console) (piece : String) : String :=
  let code := c.committed ++ piece
  if code.toList.getLast? = some '\n' then code else code ++ "\n"

/-- Runs the accepted code with a piece after it, and accepts the piece if this goes well. -/
def submit (c : Console) (piece : String) : Except Failure (Array String) × Console :=
  let code := c.extended piece
  match Program.parse code with
  | .error e => (.error e, c)
  | .ok p =>
    let (result, i) := (Interpreter.new c.settings c.log.destination).run p
    let log := { c.log with written := c.log.written ++ i.log.written, errors := c.log.errors ++ i.log.errors }
    match result with
    | .ok output => (.ok output, { c with committed := code, log })
    | .error e => (.error e, { c with log })

def prompt : String := ">  "

def banner : String := "(type -h for help or -q to quit)\n"

def help : String :=
  "Type playlang statements and submit them with an empty line.\n  -h    show this help\n  -q    quit the console\n"

end Console

/-- A dialogue with a console: the lines that wait for submission, and what was written. -/
structure Dialogue where
  console : Console
  pending : List String
  stdout : String
  stderr : String
deriving Inhabited

namespace Dialogue

def start (c : Console) : Dialogue := ⟨c, [], Console.banner ++ Console.prompt, ""⟩

/-- How a dialogue goes on after a line. -/
inductive Next where
  | more
  | quit
  | escaped (e : Escape)
deriving Repr, Inhabited

/-- Submits the lines that wait. -/
def submit (d : Dialogue) : Next × Dialogue :=
  let (result, console) := d.console.submit (String.join d.pending)
  let traced := Log.unlines (console.log.errors.extract d.console.log.errors.size console.log.errors.size)
  let d := { d with console, pending := [], stderr := d.stderr ++ traced }
  match result with
  | .ok output => (.more, { d with stdout := d.stdout ++ Log.unlines output })
  | .error (.error e) => (.more, { d with stderr := d.stderr ++ e.text ++ "\n" })
  | .error (.escape e) => (.escaped e, d)

/-- Takes a line. A line that starts with `-q` ends the dialogue, one with `-h` shows the help, a comment is left out, and an
empty one submits. -/
def line (d : Dialogue) (text : String) : Next × Dialogue :=
  let stripped := Text.trim text.toList
  if ['-', 'q'].isPrefixOf stripped then (.quit, d)
  else if ['-', 'h'].isPrefixOf stripped then (.more, { d with stdout := d.stdout ++ Console.help })
  else if !stripped.isEmpty then
    if ['/', '/'].isPrefixOf stripped then (.more, d) else (.more, { d with pending := d.pending ++ [text] })
  else if d.pending.isEmpty then (.more, d)
  else d.submit

/-- Takes lines until the dialogue ends; gives the lines that were not taken. -/
def lines : List String → Dialogue → Next × Dialogue × List String
  | [], d => (.quit, d, [])
  | text :: rest, d =>
    match d.line text with
    | (.more, d) => lines rest { d with stdout := d.stdout ++ Console.prompt }
    | (next, d) => (next, d, rest)

end Dialogue

/-- The lines of a text, each with its line end. -/
def splitLines : List Char → List (List Char)
  | [] => []
  | '\n' :: rest => ['\n'] :: splitLines rest
  | c :: rest =>
    match splitLines rest with
    | [] => [[c]]
    | first :: others => (c :: first) :: others

/-- A whole dialogue over an input. -/
def Console.converse (c : Console) (input : String) : Dialogue.Next × Dialogue × List String :=
  Dialogue.lines ((splitLines input.toList).map String.ofList) (.start c)

end CheckedScript
