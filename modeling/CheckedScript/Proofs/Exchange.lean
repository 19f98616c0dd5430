import CheckedScript.Node.Decode
import CheckedScript.Node.Encode

/-! Trees that are exchanged as data come back as they were. Every kind of node writes its fields under names of its own and
reads each of them back under the same name, so nothing is lost: a block that is absent is not taken for an empty one, and
the two marks of every range are kept, whatever data they are. -/

namespace CheckedScript

theorem NodeKind.ofLabel?_label (k : NodeKind) : ofLabel? k.label = some k := by
  cases k <;> rfl

theorem Span.decode_toData (s : Span) : Span.decode s.toData = .ok s := rfl

namespace Node

section Readings

variable {α β : Type} {key k : String} {r : Reading} {rest : List (String × Reading)}

@[simp] theorem ok_bind (a : α) (next : α → Except DataError β) : (Except.ok a >>= next) = next a := rfl

@[simp] theorem map_ok (f : α → β) (a : α) : (f <$> Except.ok a : Except DataError β) = .ok (f a) := rfl

/-- What is read from a field. -/
def reading (d : Data) : Reading := ⟨d, decode d, decodeItems d⟩

@[simp] theorem raw_reading (d : Data) : (reading d).raw = d := rfl

@[simp] theorem node_reading (d : Data) : (reading d).node = decode d := rfl

@[simp] theorem items_reading (items : List Data) : (reading (.list items)).items = decodeList items := rfl

@[simp] theorem readFields_nil : readFields [] = [] := rfl

@[simp] theorem readFields_cons (key : String) (d : Data) (fields : List (String × Data)) :
    readFields ((key, d) :: fields) = (key, reading d) :: readFields fields := rfl

theorem lookup_cons : List.lookup key ((k, r) :: rest) = if key = k then some r else rest.lookup key := by
  by_cases h : key = k
  · rw [if_pos h, h, List.lookup_cons_self]
  · rw [if_neg h, List.lookup_cons, beq_eq_false_iff_ne.mpr h]

@[simp] theorem need_cons : need key ((k, r) :: rest) = if key = k then .ok r else need key rest := by
  by_cases h : key = k <;> simp only [need, lookup_cons, h, if_true, if_false]

@[simp] theorem optionalNode_cons :
    optionalNode key ((k, r) :: rest) = if key = k then r.node else optionalNode key rest := by
  by_cases h : key = k <;> simp only [optionalNode, lookup_cons, h, if_true, if_false]

@[simp] theorem optionalBlock_cons :
    optionalBlock key ((k, r) :: rest) = if key = k then r.block else optionalBlock key rest := by
  by_cases h : key = k <;> simp only [optionalBlock, lookup_cons, h, if_true, if_false]

end Readings

/-- The object of a node is taken for a node of its kind with its range, built from what is read from its fields. -/
theorem decode_encodeAs (kind : NodeKind) (span : Span) {fields : List (String × Data)}
    (h : Data.field? "__type__" fields = none) :
    decode (encodeAs kind span fields) =
      build kind span (("type", reading (.text kind.label)) :: ("span", reading span.toData) :: readFields fields) := by
  have htag : Data.field? "__type__" (("type", .text kind.label) :: ("span", span.toData) :: fields) = none := by
    simpa [Data.field?] using h
  simp only [encodeAs, decode, ofObject, htag]
  simp [Data.field?, Span.decode_toData, NodeKind.ofLabel?_label, bind, Except.bind]

mutual

theorem decode_encode (n : Node) : decode (encode n) = .ok n := by
  cases n with
  | value v => cases v <;> rfl
  | typeTag k => rfl
  | program m b =>
    rw [encode, decode_encodeAs _ _ rfl]
    simp [build, block_encodeBlock b]
  | variableDecl m t n i =>
    rw [encode, decode_encodeAs _ _ rfl]
    simp [build, decode_encode t, decode_encode i]
  | paramDecl m t n =>
    rw [encode, decode_encodeAs _ _ rfl]
    simp [build, decode_encode t]
  | assignment m n o v =>
    rw [encode, decode_encodeAs _ _ rfl]
    simp [build, decode_encode v]
  | call m n args =>
    rw [encode, decode_encodeAs _ _ rfl]
    simp [build, decodeList_encodeList args]
  | definition m t n ps b v =>
    rw [encode, decode_encodeAs _ _ rfl]
    simp [build, decode_encode t, decodeList_encodeList ps, block_encodeBlock b, decode_encode v]
  | print m e =>
    rw [encode, decode_encodeAs _ _ rfl]
    simp [build, decode_encode e]
  | branch m c a b =>
    rw [encode, decode_encodeAs _ _ rfl]
    simp [build, decode_encode c, block_encodeBlock a, block_encodeBlock b]
  | loop m c b =>
    rw [encode, decode_encodeAs _ _ rfl]
    simp [build, decode_encode c, block_encodeBlock b]
  | breakOut m =>
    rw [encode, decode_encodeAs _ _ rfl]
    rfl
  | binary form m o a b =>
    have ha := decode_encode a
    have hb := decode_encode b
    cases form <;> rw [encode, decode_encodeAs _ _ rfl] <;> simp [binaryKind, build, build.binaryOf, ha, hb]
  | unary form m o a =>
    have ha := decode_encode a
    cases form <;> rw [encode, decode_encodeAs _ _ rfl] <;> simp [unaryKind, build, build.unaryOf, ha]
  | literal m v =>
    rw [encode, decode_encodeAs _ _ rfl]
    simp [build, decode_encode v]
  | identifier m n =>
    rw [encode, decode_encodeAs _ _ rfl]
    simp [build]
termination_by structural n

theorem decodeList_encodeList (ns : List Node) : decodeList (encodeList ns) = .ok ns := by
  cases ns with
  | nil => rfl
  | cons n rest =>
    simp [encodeList, decodeList, decode_encode n, decodeList_encodeList rest]
termination_by structural ns

theorem block_encodeBlock (b : Option (List Node)) : (reading (encodeBlock b)).block = .ok b := by
  cases b with
  | none => rfl
  | some ns =>
    have hns : (decodeList (encodeList ns)).map some = .ok (some ns) := by
      rw [decodeList_encodeList ns]
      rfl
    exact hns
termination_by structural b

end

/-- A tree that is written as data and read again is the same tree, with all its ranges, and with its absent blocks absent and
its empty ones empty. So no two trees have the same data. -/
theorem exchange_lossless (t : Node) : decode (encode t) = .ok t ∧ ∀ u, encode u = encode t → u = t := by
  refine ⟨decode_encode t, ?_⟩
  intro u hu
  have h : (.ok u : Except DataError Node) = .ok t := by rw [← decode_encode u, hu, decode_encode t]
  exact Except.ok.inj h

end Node
end CheckedScript
