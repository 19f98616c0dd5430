import CheckedScript.Proofs.Exchange
import Mathlib.Data.List.Forall2

/-! The normal form of data that describe a tree. Reading data is lenient: fields and marks may be missing, fields may be
unknown, whole numbers stand for numbers, and texts and objects are taken for lists. Writing the tree again gives the data in
their normal form. What normal data are is said here kind by kind, and a datum is normal exactly if it is its own normal form. -/

namespace CheckedScript

/-- What stands in a field: any data, a node, a list of nodes, or a block that may be absent. -/
inductive Slot where
  | raw | node | nodes | block
deriving DecidableEq

/-- The fields of a kind of node in their order. -/
def NodeKind.slots : NodeKind → List (String × Slot)
  | program => [("statements", .block)]
  | variableDecl => [("type_spec", .node), ("name", .raw), ("init", .node)]
  | paramDecl => [("type_spec", .node), ("name", .raw)]
  | assignment => [("name", .raw), ("op", .raw), ("value", .node)]
  | call => [("name", .raw), ("args", .nodes)]
  | definition =>
    [("return_type", .node), ("name", .raw), ("params", .nodes), ("body", .block), ("return_expr", .node)]
  | print => [("expr", .node)]
  | branch => [("condition", .node), ("then_block", .block), ("else_block", .block)]
  | loop => [("condition", .node), ("body", .block)]
  | breakOut => []
  | binaryExpr | binaryCond => [("op", .raw), ("left", .node), ("right", .node)]
  | unaryExpr | unaryCond => [("op", .raw), ("operand", .node)]
  | literal => [("value", .node)]
  | identifier => [("name", .raw)]

namespace Data

/-- The data are what normal data have in the place: an object has its kind, its two marks and all fields of its kind, in
this order and no others; numbers are no whole numbers. -/
inductive Fills : Slot → Data → Prop
  | raw (d : Data) : Fills .raw d
  | null : Fills .node .null
  | bool (b : Bool) : Fills .node (.bool b)
  | float (x : Float) : Fills .node (.float x)
  | text (s : String) : Fills .node (.text s)
  | typeTag (kind : Data) : Fills .node (.object [("__type__", .text "TypeSpec"), ("value", .object [("kind", kind)])])
  | object (kind : NodeKind) (start stop : Data) (values : List Data) (hlength : values.length = kind.slots.length)
      (h : ∀ f ∈ kind.slots.zip values, Fills f.1.2 f.2) :
      Fills .node (.object (("type", .text kind.label) :: ("span", .list [start, stop]) ::
        kind.slots.zipWith (fun slot d => (slot.1, d)) values))
  | nodes {items : List Data} (h : ∀ d ∈ items, Fills .node d) : Fills .nodes (.list items)
  | absent : Fills .block .null
  | block {items : List Data} (h : ∀ d ∈ items, Fills .node d) : Fills .block (.list items)

/-- The data describe a tree in the one way in which it is written. -/
def Canonical (d : Data) : Prop := Fills .node d

/-- The first field of normal data that are an object says what they are. -/
theorem Canonical.head_key {fields : List (String × Data)} (h : Canonical (.object fields)) :
    fields.head?.map Prod.fst ∈ [some "type", some "__type__"] := by
  cases h <;> simp

end Data

namespace Node

open Data (Fills Canonical)

/-- The data of the tree that the data describe. -/
def normalize (d : Data) : Except DataError Data := (decode d).map encode

mutual

theorem fills_encode (n : Node) : Fills .node (encode n) := by
  cases n with
  | value v =>
    cases v with
    | number x => exact .float x
    | boolean b => exact .bool b
    | text s => exact .text s
    | nothing => exact .null
  | typeTag k => exact .typeTag k
  | program m b =>
    exact .object .program m.start m.stop [_] rfl (List.forall_mem_singleton.mpr (fills_encodeBlock b))
  | variableDecl m t n i =>
    refine .object .variableDecl m.start m.stop [_, _, _] rfl ?_
    simpa [NodeKind.slots, Fills.raw] using ⟨fills_encode t, fills_encode i⟩
  | paramDecl m t n =>
    refine .object .paramDecl m.start m.stop [_, _] rfl ?_
    simpa [NodeKind.slots, Fills.raw] using fills_encode t
  | assignment m n o v =>
    refine .object .assignment m.start m.stop [_, _, _] rfl ?_
    simpa [NodeKind.slots, Fills.raw] using fills_encode v
  | call m n args =>
    refine .object .call m.start m.stop [_, _] rfl ?_
    simpa [NodeKind.slots, Fills.raw] using Fills.nodes (fills_encodeList args)
  | definition m t n ps b v =>
    refine .object .definition m.start m.stop [_, _, _, _, _] rfl ?_
    simpa [NodeKind.slots, Fills.raw] using
      ⟨fills_encode t, Fills.nodes (fills_encodeList ps), fills_encodeBlock b, fills_encode v⟩
  | print m e =>
    exact .object .print m.start m.stop [_] rfl (List.forall_mem_singleton.mpr (fills_encode e))
  | branch m c a b =>
    refine .object .branch m.start m.stop [_, _, _] rfl ?_
    simpa [NodeKind.slots] using ⟨fills_encode c, fills_encodeBlock a, fills_encodeBlock b⟩
  | loop m c b =>
    refine .object .loop m.start m.stop [_, _] rfl ?_
    simpa [NodeKind.slots] using ⟨fills_encode c, fills_encodeBlock b⟩
  | breakOut m => exact .object .breakOut m.start m.stop [] rfl (List.forall_mem_nil _)
  | binary form m o a b =>
    have h := And.intro (fills_encode a) (fills_encode b)
    cases form with
    | expression =>
      refine .object .binaryExpr m.start m.stop [_, _, _] rfl ?_
      simpa [NodeKind.slots, Fills.raw] using h
    | condition =>
      refine .object .binaryCond m.start m.stop [_, _, _] rfl ?_
      simpa [NodeKind.slots, Fills.raw] using h
  | unary form m o a =>
    have h := fills_encode a
    cases form with
    | expression =>
      refine .object .unaryExpr m.start m.stop [_, _] rfl ?_
      simpa [NodeKind.slots, Fills.raw] using h
    | condition =>
      refine .object .unaryCond m.start m.stop [_, _] rfl ?_
      simpa [NodeKind.slots, Fills.raw] using h
  | literal m v =>
    exact .object .literal m.start m.stop [_] rfl (List.forall_mem_singleton.mpr (fills_encode v))
  | identifier m n =>
    exact .object .identifier m.start m.stop [_] rfl (List.forall_mem_singleton.mpr (.raw n))
termination_by structural n

theorem fills_encodeList (ns : List Node) : ∀ d ∈ encodeList ns, Fills .node d := by
  cases ns with
  | nil => exact List.forall_mem_nil _
  | cons n rest => exact List.forall_mem_cons.mpr ⟨fills_encode n, fills_encodeList rest⟩
termination_by structural ns

theorem fills_encodeBlock (b : Option (List Node)) : Fills .block (encodeBlock b) := by
  cases b with
  | none => exact .absent
  | some ns => exact .block (fills_encodeList ns)
termination_by structural b

end

/-- What is written in the place gives the data. -/
def Holds : Slot → Data → Prop
  | .raw, _ => True
  | .node, d => ∃ n, encode n = d
  | .nodes, d => ∃ ns, .list (encodeList ns) = d
  | .block, d => ∃ b, encodeBlock b = d

theorem exists_encodeList {items : List Data} (h : ∀ d ∈ items, ∃ n, encode n = d) : ∃ ns, encodeList ns = items := by
  induction items with
  | nil => exact ⟨[], rfl⟩
  | cons d rest ih =>
    obtain ⟨⟨n, rfl⟩, hrest⟩ := List.forall_mem_cons.mp h
    obtain ⟨ns, rfl⟩ := ih hrest
    exact ⟨n :: ns, rfl⟩

/-- Each kind of node is written with all its fields, whatever they hold. -/
theorem exists_encodeAs {kind : NodeKind} (m : Span) {values : List Data}
    (h : List.Forall₂ (fun slot d => Holds slot.2 d) kind.slots values) :
    ∃ n, encode n = encodeAs kind m (kind.slots.zipWith (fun slot d => (slot.1, d)) values) := by
  cases kind <;> simp only [NodeKind.slots, List.forall₂_cons_left_iff, List.forall₂_nil_left_iff] at h
  case program =>
    obtain ⟨_, _, ⟨b, rfl⟩, rfl, rfl⟩ := h
    exact ⟨.program m b, rfl⟩
  case variableDecl =>
    obtain ⟨_, _, ⟨t, rfl⟩, ⟨n, _, -, ⟨_, _, ⟨i, rfl⟩, rfl, rfl⟩, rfl⟩, rfl⟩ := h
    exact ⟨.variableDecl m t n i, rfl⟩
  case paramDecl =>
    obtain ⟨_, _, ⟨t, rfl⟩, ⟨n, _, -, rfl, rfl⟩, rfl⟩ := h
    exact ⟨.paramDecl m t n, rfl⟩
  case assignment =>
    obtain ⟨n, _, -, ⟨o, _, -, ⟨_, _, ⟨v, rfl⟩, rfl, rfl⟩, rfl⟩, rfl⟩ := h
    exact ⟨.assignment m n o v, rfl⟩
  case call =>
    obtain ⟨n, _, -, ⟨_, _, ⟨args, rfl⟩, rfl, rfl⟩, rfl⟩ := h
    exact ⟨.call m n args, rfl⟩
  case definition =>
    obtain ⟨_, _, ⟨t, rfl⟩, ⟨n, _, -, hrest, rfl⟩, rfl⟩ := h
    obtain ⟨_, _, ⟨ps, rfl⟩, ⟨_, _, ⟨b, rfl⟩, ⟨_, _, ⟨v, rfl⟩, rfl, rfl⟩, rfl⟩, rfl⟩ := hrest
    exact ⟨.definition m t n ps b v, rfl⟩
  case print =>
    obtain ⟨_, _, ⟨e, rfl⟩, rfl, rfl⟩ := h
    exact ⟨.print m e, rfl⟩
  case branch =>
    obtain ⟨_, _, ⟨c, rfl⟩, ⟨_, _, ⟨a, rfl⟩, ⟨_, _, ⟨b, rfl⟩, rfl, rfl⟩, rfl⟩, rfl⟩ := h
    exact ⟨.branch m c a b, rfl⟩
  case loop =>
    obtain ⟨_, _, ⟨c, rfl⟩, ⟨_, _, ⟨b, rfl⟩, rfl, rfl⟩, rfl⟩ := h
    exact ⟨.loop m c b, rfl⟩
  case breakOut =>
    obtain rfl := h
    exact ⟨.breakOut m, rfl⟩
  case binaryExpr =>
    obtain ⟨o, _, -, ⟨_, _, ⟨a, rfl⟩, ⟨_, _, ⟨b, rfl⟩, rfl, rfl⟩, rfl⟩, rfl⟩ := h
    exact ⟨.binary .expression m o a b, rfl⟩
  case binaryCond =>
    obtain ⟨o, _, -, ⟨_, _, ⟨a, rfl⟩, ⟨_, _, ⟨b, rfl⟩, rfl, rfl⟩, rfl⟩, rfl⟩ := h
    exact ⟨.binary .condition m o a b, rfl⟩
  case unaryExpr =>
    obtain ⟨o, _, -, ⟨_, _, ⟨a, rfl⟩, rfl, rfl⟩, rfl⟩ := h
    exact ⟨.unary .expression m o a, rfl⟩
  case unaryCond =>
    obtain ⟨o, _, -, ⟨_, _, ⟨a, rfl⟩, rfl, rfl⟩, rfl⟩ := h
    exact ⟨.unary .condition m o a, rfl⟩
  case literal =>
    obtain ⟨_, _, ⟨v, rfl⟩, rfl, rfl⟩ := h
    exact ⟨.literal m v, rfl⟩
  case identifier =>
    obtain ⟨n, _, -, rfl, rfl⟩ := h
    exact ⟨.identifier m n, rfl⟩

theorem holds_of_fills {slot : Slot} {d : Data} (h : Fills slot d) : Holds slot d := by
  induction h with
  | raw => trivial
  | null => exact ⟨nothing, rfl⟩
  | bool b => exact ⟨.value (.boolean b), rfl⟩
  | float x => exact ⟨.value (.number x), rfl⟩
  | text s => exact ⟨.value (.text s), rfl⟩
  | typeTag kind => exact ⟨.typeTag kind, rfl⟩
  | object kind start stop values hlength _ ih =>
    exact exists_encodeAs ⟨start, stop⟩ (List.forall₂_iff_zip.mpr ⟨hlength.symm, fun hf => ih _ hf⟩)
  | nodes _ ih =>
    obtain ⟨ns, rfl⟩ := exists_encodeList ih
    exact ⟨ns, rfl⟩
  | absent => exact ⟨none, rfl⟩
  | block _ ih =>
    obtain ⟨ns, rfl⟩ := exists_encodeList ih
    exact ⟨some ns, rfl⟩

theorem canonical_iff {d : Data} : Canonical d ↔ ∃ n, encode n = d := by
  refine ⟨holds_of_fills, ?_⟩
  rintro ⟨n, rfl⟩
  exact fills_encode n

theorem normalize_of_decode {d : Data} {n : Node} (h : decode d = .ok n) : normalize d = .ok (encode n) := by
  rw [normalize, h]
  rfl

theorem normalize_eq_ok_iff {d r : Data} : normalize d = .ok r ↔ ∃ n, decode d = .ok n ∧ encode n = r := by
  constructor
  · intro h
    cases hn : decode d with
    | error e =>
      rw [normalize, hn] at h
      cases h
    | ok n =>
      rw [normalize_of_decode hn] at h
      exact ⟨n, rfl, Except.ok.inj h⟩
  · rintro ⟨n, hn, rfl⟩
    exact normalize_of_decode hn

/-- Normal data are those that are their own normal form. -/
theorem normalize_eq_self_iff {d : Data} : normalize d = .ok d ↔ Canonical d := by
  rw [normalize_eq_ok_iff, canonical_iff]
  constructor
  · rintro ⟨n, -, hn⟩
    exact ⟨n, hn⟩
  · rintro ⟨n, rfl⟩
    exact ⟨n, decode_encode n, rfl⟩

/-- Data that describe a tree have a normal form, which describes the same tree and is its own normal form. Other data have
this normal form exactly if they describe this tree. -/
theorem decode_normalizes {d : Data} {n : Node} (h : decode d = .ok n) :
    ∃ r, normalize d = .ok r ∧ Canonical r ∧ decode r = decode d ∧ normalize r = .ok r ∧
      ∀ d', normalize d' = .ok r ↔ decode d' = decode d := by
  have hcanonical : Canonical (encode n) := fills_encode n
  refine ⟨encode n, normalize_of_decode h, hcanonical, ?_, normalize_eq_self_iff.mpr hcanonical, fun d' => ?_⟩
  · rw [decode_encode, h]
  · rw [normalize_eq_ok_iff, h]
    constructor
    · rintro ⟨n', hn', heq⟩
      have hsame : (.ok n' : Except DataError Node) = .ok n := by rw [← decode_encode n', heq, decode_encode n]
      rw [hn', hsame]
    · exact fun hd => ⟨n, hd, rfl⟩

/-- Data with a field that no program has, without marks, with a text and an object in the place of lists, with a whole number
and without the second block of a branch. -/
def lenient : Data := .object [("note", .null), ("type", .text "Program"), ("statements", .list [
  .object [("type", .text "FunctionCall"), ("args", .text "ab"), ("name", .text "f"), ("span", .text "01")],
  .object [("type", .text "IfStmt"), ("then_block", .object [("x", .null)]),
    ("condition", .object [("type", .text "Literal"), ("value", .int 1)])]])]

theorem decode_normalizes_lenient : ∃ n r, decode lenient = .ok n ∧ normalize lenient = .ok r ∧ ¬ Canonical lenient ∧
    Canonical r ∧ decode r = decode lenient ∧ normalize r = .ok r ∧
      ∀ d', normalize d' = .ok r ↔ decode d' = decode lenient := by
  obtain ⟨n, hn⟩ : ∃ n, decode lenient = .ok n := by
    have hsome : (decode lenient).toOption.isSome = true := by decide +kernel
    cases hn : decode lenient with
    | error e =>
      rw [hn] at hsome
      cases hsome
    | ok n => exact ⟨n, rfl⟩
  obtain ⟨r, hr, hrest⟩ := decode_normalizes hn
  refine ⟨n, r, hn, hr, fun h => ?_, hrest⟩
  exact absurd h.head_key (by decide)

end Node
end CheckedScript
