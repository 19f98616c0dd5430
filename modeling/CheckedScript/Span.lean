import CheckedScript.Data

/-! Half-open ranges of source. Where a source was parsed, the two marks are offsets that count characters from its start. A
tree that is read from data keeps whatever marks stood there. The range `[0, 0]` stands for "no place in the source". -/

namespace CheckedScript

structure Span where
  start : Data
  stop : Data
deriving Repr

namespace Span

/-- The range between two offsets. -/
def ofOffsets (start stop : Int) : Span := ⟨.int start, .int stop⟩

/-- No place in the source. -/
def zero : Span := ofOffsets 0 0

instance : Inhabited Span := ⟨zero⟩

/-- From the start of the first range to the end of the second. -/
def join (a b : Span) : Span := ⟨a.start, b.stop⟩

/-- Do the marks say that there is no place? -/
def isZero (s : Span) : Bool := s.start.equal (.int 0) && s.stop.equal (.int 0)

/-- The two offsets, if the marks are offsets. -/
def offsets? : Span → Option (Int × Int)
  | ⟨.int a, .int b⟩ => some (a, b)
  | _ => none

/-- The marks as data. -/
def toData (s : Span) : Data := .list [s.start, s.stop]

/-- The text `[start, stop]`. -/
def text (s : Span) : String := s.toData.quoted

end Span
end CheckedScript
