import CheckedScript.CommandLine

/-! The command. It reads what the plan of its arguments names, and writes what the report holds; a dialogue is held line by
line. -/

namespace CheckedScript.CommandLine

/-- The content of a file, if it can be read. -/
def readFile? (path : String) : IO (Option String) := do
  try
    return some (← IO.FS.readFile path)
  catch _ => return none

def writeReport (r : Report) : IO UInt32 := do
  for (name, content) in r.files do
    IO.FS.writeFile name content
  IO.print r.stdout
  IO.eprint r.stderr
  match r.ending with
  | .status code => return UInt32.ofNat code
  | .escaped e =>
    IO.eprintln (e.message?.getD "invalid request")
    return 1
  | .refusedData e =>
    IO.eprintln e.message
    return 1
  | .unreadData e =>
    IO.eprintln e.message
    return 1

/-- Holds a dialogue on the standard streams; what was written before is not written again. -/
partial def hold (a : Arguments) (d : Dialogue) : IO UInt32 := do
  IO.print d.stdout
  IO.eprint d.stderr
  (← IO.getStdout).flush
  let d := { d with stdout := "", stderr := "" }
  let text ← (← IO.getStdin).getLine
  if text.isEmpty then writeReport (reportDialogue a .quit d)
  else
    match d.line text with
    | (.more, d) => hold a { d with stdout := d.stdout ++ Console.prompt }
    | (next, d) => writeReport (reportDialogue a next d)

end CheckedScript.CommandLine

open CheckedScript CommandLine in
def main (arguments : List String) : IO UInt32 := do
  match request arguments with
  | .help =>
    IO.print helpText
    return 0
  | .misuse =>
    IO.eprint usage
    return 2
  | .perform a =>
    match (plan a).file? with
    | none => hold a (.start (console a))
    | some file => writeReport (perform a (← readFile? file) "")
