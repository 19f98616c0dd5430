import CheckedScript.Data

/-! Data as text: each item and each field on a line of its own, indented by two blanks for each level; an empty list or
object takes no lines. Quotes, backslashes and control characters in a text are escaped, and all else is kept. -/

namespace CheckedScript.Data

/-- A character inside a quoted text. -/
def escapedChar (c : Char) : String :=
  if c = '"' then "\\\""
  else if c = '\\' then "\\\\"
  else if c = '\n' then "\\n"
  else if c = '\r' then "\\r"
  else if c = '\t' then "\\t"
  else if c = '\x0c' then "\\f"
  else if c = '\x08' then "\\b"
  else if c.toNat < 0x20 then "\\u" ++ Text.hex 4 c.toNat
  else c.toString

def writeText (s : String) : String := "\"" ++ String.join (s.toList.map escapedChar) ++ "\""

/-- A line end and the blanks of a level. -/
def newline (level : Nat) : String := "\n" ++ String.ofList (List.replicate (2 * level) ' ')

/-- Parts between two brackets, one on each line of the next level. -/
def enclose (first last : String) (level : Nat) (parts : List String) : String :=
  if parts.isEmpty then first ++ last
  else first ++ newline (level + 1) ++ ("," ++ newline (level + 1)).intercalate parts ++ newline level ++ last

mutual

/-- The text of data that start at a level. -/
def writeAt (level : Nat) : Data → String
  | null => "null"
  | bool b => if b then "true" else "false"
  | int i => toString i
  | float x => Decimal.render .data x
  | text s => writeText s
  | list items => enclose "[" "]" level (writeItems (level + 1) items)
  | object fields => enclose "\x7b" "\x7d" level (writeFields (level + 1) fields)

def writeItems (level : Nat) : List Data → List String
  | [] => []
  | d :: rest => writeAt level d :: writeItems level rest

def writeFields (level : Nat) : List (String × Data) → List String
  | [] => []
  | (k, d) :: rest => (writeText k ++ ": " ++ writeAt level d) :: writeFields level rest

end

def write (d : Data) : String := writeAt 0 d

end CheckedScript.Data
