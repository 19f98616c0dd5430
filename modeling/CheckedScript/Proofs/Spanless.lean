import CheckedScript.Proofs.Defining
import CheckedScript.Proofs.Parsing
import CheckedScript.Proofs.PlacedRuns

/-! Spans do not influence walks. Two programs that differ in nothing but their spans are each walked in step with the program
that has none, hence with each other: they print the same, and they end alike. If they fail, they fail with the same kind of
error and for the same reason. Only what a message shows of a type can tell them apart: a node can stand in the place of a
type, and it is shown with its span then. No source says such a program. -/

namespace CheckedScript

/-- Takes out every span, those of nodes in the place of a type as well. -/
def Relocation.spanless : Relocation := ⟨fun _ => .zero, fun _ => .zero⟩

/-- The program without any span. -/
def Program.spanless (p : Program) : Program := p.relocate .spanless

section Tagged

open Relocation

/-- No node stands for the type but a tag, which has no span. -/
def Ty.Tagged : Ty → Prop
  | other (.typeTag _) => True
  | other _ => False
  | _ => True

theorem Ty.Tagged.relocate_eq {t : Ty} (h : t.Tagged) (r : Relocation) : t.relocate r = t := by
  cases t with
  | other n =>
    cases n with
    | typeTag d => rfl
    | _ => exact h.elim
  | _ => rfl

theorem Ty.Simple.tagged {t : Ty} (h : t.Simple) : t.Tagged := by
  cases t with
  | other n => exact h.elim
  | _ => exact trivial

namespace Stmt

mutual

/-- All types in the statement are tags. -/
def Tagged : Stmt → Prop
  | declare _ type _ _ | param _ type _ => type.Tagged
  | define _ result _ params body _ => result.Tagged ∧ TaggedAll params ∧ TaggedBody body
  | branch _ _ thenBlock elseBlock => TaggedAll thenBlock ∧ TaggedBody elseBlock
  | loop _ _ body => TaggedBody body
  | assign _ _ _ _ | call _ _ _ | print _ _ | breakOut _ | misfit _ => True

def TaggedAll : List Stmt → Prop
  | [] => True
  | s :: rest => s.Tagged ∧ TaggedAll rest

def TaggedBody : Option (List Stmt) → Prop
  | none => True
  | some block => TaggedAll block

end

mutual

/-- Where all types are tags, the spans of a statement are those of its own nodes. -/
theorem Tagged.spanless_eq {s : Stmt} (h : s.Tagged) : s.relocate spanless = s.unplaced := by
  have hexpr : Expr.relocate spanless = Expr.unplaced := funext (Expr.relocate_eq_unplaced rfl)
  have hargs := Expr.relocateAll_eq_unplacedAll (r := spanless) rfl
  have hmisfit := Misfit.relocate_eq_unplaced (r := spanless) rfl
  cases s with
  | declare span type name init =>
    simp only [relocate, unplaced, Ty.Tagged.relocate_eq h, hexpr]
    rfl
  | param span type name =>
    simp only [relocate, unplaced, Ty.Tagged.relocate_eq h]
    rfl
  | define span result name params body value =>
    simp only [relocate, unplaced, h.1.relocate_eq, TaggedAll.spanless_eq h.2.1, TaggedBody.spanless_eq h.2.2, hexpr]
    rfl
  | branch span condition thenBlock elseBlock =>
    simp only [relocate, unplaced, hexpr, TaggedAll.spanless_eq h.1, TaggedBody.spanless_eq h.2]
    rfl
  | loop span condition body =>
    simp only [relocate, unplaced, hexpr, TaggedBody.spanless_eq h]
    rfl
  | misfit what => simp only [relocate, unplaced, hmisfit]
  | _ =>
    simp only [relocate, unplaced, hexpr, hargs]
    rfl
termination_by structural s

theorem TaggedAll.spanless_eq {block : List Stmt} (h : TaggedAll block) :
    relocateAll spanless block = unplacedAll block := by
  cases block with
  | nil => rfl
  | cons s rest => rw [relocateAll, unplacedAll, Tagged.spanless_eq h.1, TaggedAll.spanless_eq h.2]
termination_by structural block

theorem TaggedBody.spanless_eq {body : Option (List Stmt)} (h : TaggedBody body) :
    relocateBody spanless body = unplacedBody body := by
  cases body with
  | none => rfl
  | some block => exact congrArg some (TaggedAll.spanless_eq h)
termination_by structural body

end

mutual

theorem Plain.tagged {s : Stmt} (h : s.Plain) : s.Tagged := by
  cases s with
  | declare | param => exact h.1.tagged
  | branch => exact ⟨PlainBlock.tagged h.2.1, PlainElse.tagged h.2.2⟩
  | loop => exact PlainBody.tagged h.2
  | define | misfit => exact h.elim
  | _ => exact trivial
termination_by structural s

theorem PlainBlock.tagged {block : List Stmt} (h : PlainBlock block) : TaggedAll block := by
  cases block with
  | nil => exact trivial
  | cons s rest => exact ⟨Plain.tagged h.1, PlainBlock.tagged h.2⟩
termination_by structural block

theorem PlainBody.tagged {body : Option (List Stmt)} (h : PlainBody body) : TaggedBody body := by
  cases body with
  | none => exact h.elim
  | some block => exact PlainBlock.tagged h
termination_by structural body

theorem PlainElse.tagged {block : Option (List Stmt)} (h : PlainElse block) : TaggedBody block := by
  cases block with
  | none => exact trivial
  | some block => exact PlainBlock.tagged h
termination_by structural block

end

theorem PlainTop.tagged {s : Stmt} (h : s.PlainTop) : s.Tagged := by
  cases s with
  | define span result name params body value =>
    have hd : Definition.Plain ⟨span, result, name, params, body, value⟩ := h
    exact ⟨hd.result.tagged, PlainBlock.tagged hd.plainParams, PlainBody.tagged hd.body⟩
  | _ => exact Plain.tagged h

end Stmt

namespace Program

/-- All types in the program are tags. -/
def Tagged (p : Program) : Prop := Stmt.TaggedAll p.statements

theorem Tagged.spanless_eq {p : Program} (h : p.Tagged) : p.spanless = p.unplaced := by
  rw [spanless, relocate, Stmt.TaggedAll.spanless_eq h]
  rfl

/-- So are those of every program that a source is read as. -/
theorem tagged_of_parse {source : String} {p : Program} (h : parse source = .ok p) : p.Tagged := by
  have hall (block : List Stmt) (hblock : ∀ s ∈ block, s.PlainTop) : Stmt.TaggedAll block := by
    induction block with
    | nil => exact trivial
    | cons s rest ih =>
      exact ⟨(hblock s List.mem_cons_self).tagged, ih fun t ht => hblock t (List.mem_cons_of_mem s ht)⟩
  exact hall p.statements (plain_of_parse h)

end Program

end Tagged

namespace Failure

/-- The failure without any span: its location, and those of the types that it is about. -/
def spanless : Failure → Failure
  | error e => error ⟨e.problem.relocate .spanless, .zero⟩
  | escape e => escape e

/-- The message of a failure, if it has one. -/
def message? : Failure → Option String
  | error e => some e.problem.message
  | escape e => e.message?

/-- What is said of a failure apart from its place: its kind and its message. -/
def report (f : Failure) : (Category ⊕ Escape) × Option String := (f.kind, f.message?)

/-- The kind of a failure, and its message without the spans that it shows. -/
def spanlessReport (f : Failure) : (Category ⊕ Escape) × Option String := (f.kind, f.spanless.message?)

theorem report_unplaced (f : Failure) : f.unplaced.report = f.report := by
  cases f <;> rfl

theorem report_spanless (f : Failure) : f.spanless.report = f.spanlessReport := by
  cases f with
  | error e => simp only [report, spanlessReport, spanless, kind, Problem.category_relocate]
  | escape e => rfl

theorem Relocated.spanless_eq (e f : Failure) (h : e.Relocated .spanless f) : f.spanless = e.spanless := by
  cases h with
  | escape e => rfl
  | error hp hs =>
    refine hp.congr (fun p => Failure.error ⟨p.relocate .spanless, .zero⟩) ?_
    rw [Problem.relocate_relocate]
    rfl

end Failure

namespace Interpreter

/-- A program is walked as it is walked without spans, from scopes without spans. -/
theorem walk_spanless (i : Interpreter) (execute : Bool) (p : Program) :
    Alike Failure.spanless ({ i with scopes := i.scopes.relocate .spanless }.walk execute p.spanless)
      (i.walk execute p) := by
  refine walk_alike ?_ ?_ Failure.Relocated.spanless_eq execute p <;> rfl

/-- Two programs without spans being one, they are walked alike. -/
theorem walk_alike_of_spanless (i : Interpreter) (execute : Bool) {p q : Program} (h : p.spanless = q.spanless) :
    Alike Failure.spanlessReport (i.walk execute p) (i.walk execute q) := by
  have hp := i.walk_spanless execute p
  rw [h] at hp
  exact (hp.symm.trans (i.walk_spanless execute q)).coarsen Failure.report Failure.report_spanless

/-- If the types agree in their spans as well, nothing is told apart but the place of the error. -/
theorem walk_alike_of_unplaced (i : Interpreter) (execute : Bool) {p q : Program} (h : p.unplaced = q.unplaced) :
    Alike Failure.report (i.walk execute p) (i.walk execute q) := by
  have hp := i.walk_unplaced p execute
  rw [h] at hp
  exact (hp.symm.trans (i.walk_unplaced q execute)).coarsen Failure.report Failure.report_unplaced

/-- Spans do not influence walks: programs that are the same without their spans have the same output and fail with the same
kind of error. Their messages are the same once the spans are taken out that are shown of nodes in the place of a type. They
are the same altogether if these nodes agree in their spans, or if all types are tags. -/
theorem walks_independent_of_spans (i : Interpreter) (p q : Program) (h : p.spanless = q.spanless) :
    Alike Failure.spanlessReport (i.run p) (i.run q) ∧ Alike Failure.spanlessReport (i.validate p) (i.validate q) ∧
      (p.unplaced = q.unplaced ∨ p.Tagged ∧ q.Tagged →
        Alike Failure.report (i.run p) (i.run q) ∧ Alike Failure.report (i.validate p) (i.validate q)) := by
  refine ⟨(i.walk_alike_of_spanless true h).run, i.walk_alike_of_spanless false h, fun htypes => ?_⟩
  have hunplaced : p.unplaced = q.unplaced := by
    rcases htypes with hunplaced | ⟨hp, hq⟩
    · exact hunplaced
    · rw [← hp.spanless_eq, ← hq.spanless_eq, h]
  exact ⟨(i.walk_alike_of_unplaced true hunplaced).run, i.walk_alike_of_unplaced false hunplaced⟩

/-- A line is printed, and then a name is assigned that nobody declared. -/
def unmet (first second : Span) : Program :=
  ⟨first, [.print second (some (.literal first (.text "seen"))), .assign second (.text "x") .set (.literal first (.text ""))]⟩

theorem unmet_independent_of_spans :
    (unmet ⟨.int 0, .int 5⟩ ⟨.int 5, .int 9⟩).spanless = (unmet .zero ⟨.int 1, .int 2⟩).spanless ∧
      (unmet ⟨.int 0, .int 5⟩ ⟨.int 5, .int 9⟩).Tagged ∧ (unmet .zero ⟨.int 1, .int 2⟩).Tagged ∧
      ((new .standard .stream).run (unmet ⟨.int 0, .int 5⟩ ⟨.int 5, .int 9⟩)).1 =
        .error (.error ⟨.undeclared (.text "x"), ⟨.int 5, .int 9⟩⟩) ∧
      Alike Failure.report ((new .standard .stream).run (unmet ⟨.int 0, .int 5⟩ ⟨.int 5, .int 9⟩))
        ((new .standard .stream).run (unmet .zero ⟨.int 1, .int 2⟩)) := by
  have htagged (first second : Span) : (unmet first second).Tagged := ⟨trivial, trivial, trivial⟩
  have hspans := walks_independent_of_spans (.new .standard .stream) (unmet ⟨.int 0, .int 5⟩ ⟨.int 5, .int 9⟩)
    (unmet .zero ⟨.int 1, .int 2⟩) rfl
  exact ⟨rfl, htagged _ _, htagged _ _, rfl, (hspans.2.2 (.inr ⟨htagged _ _, htagged _ _⟩)).1⟩

section NodesForTypes

/-- A name stands in the place of the type of a variable. -/
def namedType (s : Span) : Ty := .other (.identifier s (.text "x"))

theorem defaultFor_namedType (s : Span) :
    Literal.defaultFor (namedType s) = .error (.error ⟨.noDefault (namedType s), .zero⟩) := by
  have hshown : (namedType s).unshown? = none := by rw [namedType, Ty.unshown?, Node.quoted]
  simp only [namedType] at hshown ⊢
  simp only [Literal.defaultFor, Ty.default?, Problem.located, Problem.unshown?, Problem.types, List.findSome?, hshown,
    Option.map]

def declaresNamed (s : Span) : Program := ⟨.zero, [.declare .zero (namedType s) (.text "x") none]⟩

theorem run_declaresNamed (s : Span) :
    ((new .standard .stream).run (declaresNamed s)).1 = .error (.error ⟨.noDefault (namedType s), .zero⟩) := by
  have hmake : ((new .standard .stream).run (declaresNamed s)).1 =
      (Declaration.make (.text "x") (namedType s) none none).map fun _ => #[] := rfl
  rw [hmake, Declaration.make, defaultFor_namedType]
  rfl

theorem message_namedType (s : Span) : (Problem.noDefault (namedType s)).message =
    "type <" ++ Node.display .identifier s [("name", (Data.text "x").quoted)] ++ "> has no default value" := by
  have hsubject : (namedType s).subject = Node.display .identifier s [("name", (Data.text "x").quoted)] := by
    simp only [namedType, Ty.subject, Ty.text, Ty.toNode, Node.quoted, Except.toOption, Option.getD_some]
  rw [← hsubject]
  rfl

/-- The message of an error shows the span of a node that stands in the place of a type. -/
theorem message_depends_on_span : ¬∀ (i : Interpreter) (p q : Program), p.spanless = q.spanless →
    Alike Failure.report (i.run p) (i.run q) := by
  intro h
  have houtcome := (h (.new .standard .stream) (declaresNamed ⟨.int 1, .int 2⟩) (declaresNamed .zero) rfl).outcome
  rw [run_declaresNamed, run_declaresNamed] at houtcome
  have hmessage := congrArg Prod.snd (Except.error.inj houtcome)
  simp only [Failure.report, Failure.message?, message_namedType, Option.some.injEq] at hmessage
  revert hmessage
  decide +kernel

end NodesForTypes

end Interpreter

end CheckedScript
