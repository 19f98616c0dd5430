import CheckedScript.Proofs.Operators

/-! Assignments with an operator. To write `x += e` is to write `x = x + e`, and so for every operator of arithmetic: the static
rules accept the one if they accept the other, and both give the variable the same value or fail alike. The two are
ruled by different definitions, each with an exception of its own for texts, which take a value of any type at their end. -/

namespace CheckedScript

/-- A variable of one of the types that values have takes a value by an operator if it can hold what the operator makes of
its own value and that one. -/
theorem AssignOp.takes_compound_iff {target t : Ty} (ht : target.Simple) (op : ArithOp) (span : Span) :
    (compound op).Takes target t ↔
      ∃ result, (BinaryOp.arith op).type .expression span target t = .ok result ∧ result.same target := by
  cases target with
  | other tag => exact ht.elim
  | string =>
    -- a text on the left decides the matter whatever stands on the right
    by_cases hop : op = .add
    · subst hop
      exact ⟨fun _ => ⟨.string, rfl, rfl⟩, fun _ => .inl ⟨rfl, rfl⟩⟩
    · simp [Takes, BinaryOp.type, Ty.same, hop]
  | number =>
    cases t with
    | number => exact ⟨fun _ => ⟨.number, rfl, rfl⟩, fun _ => .inr ⟨rfl, rfl⟩⟩
    | string => by_cases hop : op = .add <;> simp [Takes, BinaryOp.type, Ty.same, hop]
    | _ => simp [Takes, BinaryOp.type, Ty.same]
  | boolean =>
    cases t with
    | string => by_cases hop : op = .add <;> simp [Takes, BinaryOp.type, Ty.same, hop]
    | _ => simp [Takes, BinaryOp.type, Ty.same]

namespace Scopes

variable {s : Scopes} {name : Data} {x : Declaration}

/-- Where a name is looked up from makes no difference to what it means. -/
theorem lookup_ok_of_lookup_ok {span span' : Span} (h : s.lookup name span = .ok x) : s.lookup name span' = .ok x :=
  lookup_ok.mpr (lookup_ok.mp h)

/-- The type of an operation on a variable and an expression. -/
theorem infer_operation_ok {op : BinaryOp} {e : Expr} {span span' : Span} {result : Ty}
    (hx : s.lookup name span' = .ok x) : s.infer (.binary .expression span op (.identifier span' name) e) = .ok result ↔
      ∃ t, s.infer e = .ok t ∧ op.type .expression span x.type t = .ok result := by
  have hname : s.infer (.identifier span' name) = .ok x.type := infer_identifier_ok.mpr ⟨x, hx, rfl⟩
  rw [infer_binary_ok, hname]
  simp

end Scopes

/-- An assignment with an operator agrees with the assignment that it stands for. For a variable of a type that values have, the
static rules accept both or neither, with whatever expression; and with whatever values the two operators give the same
value or the same failure. -/
theorem ArithOp.assignment_agrees_with_expansion (op : ArithOp) :
    (∀ (s : Scopes) (name : Data) (e : Expr) (span span₁ span₂ : Span) (x : Declaration),
      s.lookup name span = .ok x → x.type.Simple → ∀ d,
      (s.checkAssignment span name (.ofText (op.text ++ "=")) e = .ok d ↔
        s.checkAssignment span name (.ofText "=")
          (.binary .expression span₁ (.ofText op.text) (.identifier span₂ name) e) = .ok d)) ∧
    ∀ current v : Value,
      (AssignOp.ofText (op.text ++ "=")).apply current v = (BinaryOp.ofText op.text).apply current v := by
  have hcompound : AssignOp.ofText (op.text ++ "=") = .compound op := by cases op <;> rfl
  have harith : BinaryOp.ofText op.text = .arith op := by cases op <;> rfl
  have hset : AssignOp.ofText "=" = .set := rfl
  rw [hcompound, harith, hset]
  refine ⟨fun s name e span span₁ span₂ x hx ht d => ?_, AssignOp.apply_compound op⟩
  have hinner : s.lookup name span₂ = .ok x := Scopes.lookup_ok_of_lookup_ok hx
  rw [Scopes.checkAssignment_ok, Scopes.checkAssignment_ok]
  constructor
  · rintro ⟨hd, t, he, htakes⟩
    obtain rfl : x = d := Except.ok.inj (hx.symm.trans hd)
    obtain ⟨result, hresult, hsame⟩ := (AssignOp.takes_compound_iff ht op span₁).mp htakes
    exact ⟨hd, result, (Scopes.infer_operation_ok hinner).mpr ⟨t, he, hresult⟩, hsame⟩
  · rintro ⟨hd, result, he, hsame⟩
    obtain rfl : x = d := Except.ok.inj (hx.symm.trans hd)
    obtain ⟨t, he, hresult⟩ := (Scopes.infer_operation_ok hinner).mp he
    exact ⟨hd, t, he, (AssignOp.takes_compound_iff ht op span₁).mpr ⟨result, hresult, hsame⟩⟩

/-- Scopes with a global text. -/
def Scopes.remark : Scopes := ⟨some ⟨[⟨.text "x", .string, .text "", .text ""⟩], []⟩, [], []⟩

/-- A text takes a truth value at its end by `+`, written either way, and by no other operator. -/
theorem ArithOp.assignment_agrees_with_expansion_remark :
    (∃ d, Scopes.remark.checkAssignment .zero (.text "x") (.ofText "=")
      (.binary .expression .zero (.ofText "+") (.identifier .zero (.text "x")) (.literal .zero (.boolean true))) = .ok d) ∧
    ¬∃ d, Scopes.remark.checkAssignment .zero (.text "x") (.ofText "=")
      (.binary .expression .zero (.ofText "-") (.identifier .zero (.text "x")) (.literal .zero (.boolean true))) = .ok d := by
  have agrees (op : ArithOp) := (op.assignment_agrees_with_expansion.1 Scopes.remark (.text "x") (.literal .zero (.boolean true))
    .zero .zero .zero _ rfl trivial)
  refine ⟨⟨_, (agrees .add _).mp rfl⟩, ?_⟩
  rintro ⟨d, hd⟩
  cases (agrees .sub d).mpr hd

end CheckedScript
