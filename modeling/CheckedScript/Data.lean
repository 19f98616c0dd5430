import CheckedScript.Decimal.Layout
import CheckedScript.Text.Quoted

/-! Plain data: what a data file holds. Objects keep their fields in the order in which they were written. -/

namespace CheckedScript

inductive Data where
  | null
  | bool (b : Bool)
  | int (i : Int)
  | float (x : Float)
  | text (s : String)
  | list (items : List Data)
  | object (fields : List (String × Data))
deriving Repr, Inhabited

namespace Data

/-- The value of the first field of that name. -/
def field? (key : String) : List (String × Data) → Option Data
  | [] => none
  | (k, d) :: rest => if k = key then some d else field? key rest

/-- The fields with one more; a field of the same name gets the new value and keeps its place. -/
def setField (key : String) (value : Data) : List (String × Data) → List (String × Data)
  | [] => [(key, value)]
  | (k, d) :: rest => if k = key then (k, value) :: rest else (k, d) :: setField key value rest

/-- The name of the kind of data in messages. -/
def kindName : Data → String
  | null => "NoneType"
  | bool _ => "bool"
  | int _ => "int"
  | float _ => "float"
  | text _ => "str"
  | list _ => "list"
  | object _ => "dict"

/-- Can the data be the name of a declaration in a frame? A list or an object cannot. -/
def isKey : Data → Bool
  | list _ | object _ => false
  | _ => true

mutual

/-- Data inside a message; texts are quoted. -/
def quoted : Data → String
  | null => "None"
  | bool b => if b then "True" else "False"
  | int i => toString i
  | float x => Decimal.render .plain x
  | text s => Text.quoted s
  | list items => "[" ++ ", ".intercalate (quotedItems items) ++ "]"
  | object fields => "\x7b" ++ ", ".intercalate (quotedFields fields) ++ "\x7d"

def quotedItems : List Data → List String
  | [] => []
  | d :: rest => quoted d :: quotedItems rest

def quotedFields : List (String × Data) → List String
  | [] => []
  | (k, d) :: rest => (Text.quoted k ++ ": " ++ quoted d) :: quotedFields rest

end

/-- Data as the subject of a message; a text stands for itself. -/
def shown : Data → String
  | text s => s
  | d => d.quoted

/-- The number that data are equal to, as a quotient of whole numbers, or an infinity. -/
def asNumber? : Data → Option (Int × Nat ⊕ Bool)
  | bool b => some (.inl (if b then 1 else 0, 1))
  | int i => some (.inl (i, 1))
  | float x =>
    let b := Decimal.Binary.ofFloat x
    if x.isNaN then none
    else if x.isInf then some (.inr b.negative)
    else some (.inl (if b.negative then -(b.num : Int) else b.num, b.den))
  | _ => none

/-- Are the two numbers equal? -/
def equalNumbers : Int × Nat ⊕ Bool → Int × Nat ⊕ Bool → Bool
  | .inl (m, d), .inl (n, e) => m * e == n * d
  | .inr a, .inr b => a == b
  | _, _ => false

mutual

/-- Equality of data: numbers of every kind compare by size, truth values count as one and zero, and the order of the
fields of an object is of no account. -/
def equal : Data → Data → Bool
  | null, null => true
  | text s, text t => s == t
  | list a, list b => equalItems a b
  | object a, object b => a.length == b.length && equalFields a b
  | a, b => match a.asNumber?, b.asNumber? with
    | some x, some y => equalNumbers x y
    | _, _ => false

def equalItems : List Data → List Data → Bool
  | [], [] => true
  | a :: as, b :: bs => equal a b && equalItems as bs
  | _, _ => false

/-- Has the second list an equal field for each of the first? -/
def equalFields : List (String × Data) → List (String × Data) → Bool
  | [], _ => true
  | (k, d) :: rest, b => (match field? k b with
    | some e => equal d e
    | none => false) && equalFields rest b

end
end Data
end CheckedScript
