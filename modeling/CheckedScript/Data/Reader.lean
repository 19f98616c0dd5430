import CheckedScript.Data

/-! Data from text. Infinities and `NaN` count as numbers, a number without a point and an exponent is a whole one, and of
two fields of one name the last gives the value. Each reader returns the characters after what it read. A whole number may
have no more than 4300 digits. -/

namespace CheckedScript.Data

/-- Why a text could not be read: it holds no data, or a whole number with too many digits. -/
inductive ReadError where
  | notData
  | longNumber (digits : Nat)
deriving DecidableEq, Repr, Inhabited

/-- The most digits that a whole number may have. -/
def digitLimit : Nat := 4300

def ReadError.message : ReadError → String
  | notData => "the text holds no data"
  | longNumber digits =>
    s!"Exceeds the limit ({digitLimit} digits) for integer string conversion: value has {digits} digits; " ++
      "use sys.set_int_max_str_digits() to increase the limit"

abbrev Read := Except ReadError

def isSpace (c : Char) : Bool := c == ' ' || c == '\t' || c == '\n' || c == '\r'

def skipSpace (cs : List Char) : List Char := cs.dropWhile isSpace

def hexDigit? (c : Char) : Option Nat :=
  if c.isDigit then some (c.toNat - '0'.toNat)
  else if 'a' ≤ c ∧ c ≤ 'f' then some (c.toNat - 'a'.toNat + 10)
  else if 'A' ≤ c ∧ c ≤ 'F' then some (c.toNat - 'A'.toNat + 10)
  else none

/-- The number that four hexadecimal digits stand for. -/
def hexNumber? (a b c d : Char) : Option Nat := do
  return 4096 * (← hexDigit? a) + 256 * (← hexDigit? b) + 16 * (← hexDigit? c) + (← hexDigit? d)

def isHighHalf (n : Nat) : Bool := 0xd800 ≤ n && n < 0xdc00

def isLowHalf (n : Nat) : Bool := 0xdc00 ≤ n && n < 0xe000

/-- Stands for half of a pair without the other half. -/
def lone : Char := '\ufffd'

/-- The characters read so far, the last one first, with one more code; `high` is a first half that waits for its second
one. -/
def addCode (high : Option Nat) (n : Nat) (read : List Char) : List Char :=
  match high with
  | some m =>
    if isLowHalf n then Char.ofNat (0x10000 + 1024 * (m - 0xd800) + (n - 0xdc00)) :: read
    else Char.ofNat n :: lone :: read
  | none => (if isLowHalf n then lone else Char.ofNat n) :: read

/-- The characters read so far, after a first half whose second one is missing. -/
def settle (high : Option Nat) (read : List Char) : List Char :=
  if high.isSome then lone :: read else read

def escapedLetter? : Char → Option Char
  | '"' => some '"'
  | '\\' => some '\\'
  | '/' => some '/'
  | 'b' => some '\x08'
  | 'f' => some '\x0c'
  | 'n' => some '\n'
  | 'r' => some '\r'
  | 't' => some '\t'
  | _ => none

/-- The rest of a text up to its closing quote; `read` holds the characters before, the last one first, and `high` a first
half that waits for its second one. -/
def readText : (high : Option Nat) → (read : List Char) → List Char → Read (String × List Char)
  | high, read, '"' :: rest => .ok (String.ofList (settle high read).reverse, rest)
  | high, read, '\\' :: 'u' :: a :: b :: c :: d :: rest =>
    match hexNumber? a b c d with
    | some n =>
      if isHighHalf n then readText (some n) (settle high read) rest
      else readText none (addCode high n read) rest
    | none => .error .notData
  | high, read, '\\' :: c :: rest =>
    match escapedLetter? c with
    | some e => readText none (e :: settle high read) rest
    | none => .error .notData
  | high, read, c :: rest =>
    if c.toNat < 0x20 then .error .notData else readText none (c :: settle high read) rest
  | _, _, [] => .error .notData

def digitsNumber (cs : List Char) : Nat := cs.foldl (fun n c => 10 * n + (c.toNat - '0'.toNat)) 0

/-- The digits after a point, if there is one with digits after it. -/
def readFraction : List Char → Option (List Char × List Char)
  | '.' :: rest =>
    let digits := rest.takeWhile Char.isDigit
    if digits.isEmpty then none else some (digits, rest.dropWhile Char.isDigit)
  | _ => none

/-- The exponent after its mark, if there is one with digits. -/
def readExponent : List Char → Option (Int × List Char)
  | c :: rest =>
    if c = 'e' ∨ c = 'E' then
      let (negative, rest) := match rest with
        | '-' :: more => (true, more)
        | '+' :: more => (false, more)
        | _ => (false, rest)
      let digits := rest.takeWhile Char.isDigit
      let n : Int := digitsNumber digits
      if digits.isEmpty then none else some (if negative then -n else n, rest.dropWhile Char.isDigit)
    else none
  | [] => none

/-- A number without its sign. -/
def readNumber (negative : Bool) (cs : List Char) : Read (Data × List Char) :=
  let digits := match cs with
    | '0' :: _ => ['0']
    | _ => cs.takeWhile Char.isDigit
  if digits.isEmpty then .error .notData else
    let rest := cs.drop digits.length
    let fraction := readFraction rest
    let rest := (fraction.map Prod.snd).getD rest
    let exponent := readExponent rest
    let rest := (exponent.map Prod.snd).getD rest
    if fraction.isNone && exponent.isNone then
      let n : Int := digitsNumber digits
      if digitLimit < digits.length then .error (.longNumber digits.length)
      else .ok (.int (if negative then -n else n), rest)
    else
      let places := (fraction.map Prod.fst).getD []
      let e := (exponent.map Prod.fst).getD 0 - places.length
      .ok (.float (Decimal.ofDecimal negative (digitsNumber (digits ++ places)) e), rest)

/-- The characters after a word, if they start with it. -/
def after? : (word : List Char) → List Char → Option (List Char)
  | [], cs => some cs
  | w :: word, c :: cs => if w = c then after? word cs else none
  | _ :: _, [] => none

/-- The words that stand for data. -/
def words : List (String × Data) :=
  [("null", null), ("true", bool true), ("false", bool false), ("NaN", float (0.0 / 0.0)),
   ("Infinity", float (1.0 / 0.0)), ("-Infinity", float (-1.0 / 0.0))]

/-- What is neither a text nor a list nor an object. -/
def readScalar (cs : List Char) : Read (Data × List Char) :=
  match words.findSome? fun (word, d) => (after? word.toList cs).map (d, ·) with
  | some found => .ok found
  | none =>
    match cs with
    | '-' :: rest => readNumber true rest
    | _ => readNumber false cs

mutual

/-- Reads data that start at the first character; one count of `fuel` is lost in each call. -/
def readWith : (fuel : Nat) → List Char → Read (Data × List Char)
  | 0, _ => .error .notData
  | fuel + 1, cs =>
    match cs with
    | '"' :: rest => (readText none [] rest).map fun (s, rest) => (text s, rest)
    | '[' :: rest =>
      match skipSpace rest with
      | ']' :: rest => .ok (list [], rest)
      | rest => (readItems fuel rest).map fun (items, rest) => (list items, rest)
    | '\x7b' :: rest =>
      match skipSpace rest with
      | '\x7d' :: rest => .ok (object [], rest)
      | rest => (readFields fuel [] rest).map fun (fields, rest) => (object fields, rest)
    | _ => readScalar cs

/-- The items of a list up to its end. -/
def readItems : (fuel : Nat) → List Char → Read (List Data × List Char)
  | 0, _ => .error .notData
  | fuel + 1, cs => do
    let (d, rest) ← readWith fuel cs
    match skipSpace rest with
    | ',' :: rest =>
      let (items, rest) ← readItems fuel (skipSpace rest)
      return (d :: items, rest)
    | ']' :: rest => return ([d], rest)
    | _ => throw .notData

/-- The fields of an object up to its end, after those `before`. -/
def readFields : (fuel : Nat) → (before : List (String × Data)) → List Char → Read (List (String × Data) × List Char)
  | 0, _, _ => .error .notData
  | fuel + 1, before, cs =>
    match cs with
    | '"' :: rest => do
      let (key, rest) ← readText none [] rest
      match skipSpace rest with
      | ':' :: rest =>
        let (d, rest) ← readWith fuel (skipSpace rest)
        let fields := setField key d before
        match skipSpace rest with
        | ',' :: rest => readFields fuel fields (skipSpace rest)
        | '\x7d' :: rest => return (fields, rest)
        | _ => throw .notData
      | _ => throw .notData
    | _ => .error .notData

end

/-- The data that a whole text stands for. -/
def read (s : String) : Except ReadError Data := do
  let (d, rest) ← readWith (s.length + 1) (skipSpace s.toList)
  if (skipSpace rest).isEmpty then return d else throw .notData

end CheckedScript.Data
