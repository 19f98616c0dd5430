import CheckedScript.Interpreter

/-! Trees whose places are changed. A node carries the range of source that it was read from, and so does a node that stands in
the place of a type. A relocation gives both other ranges. Types, signatures, frames and the table of functions are relocated
with the trees that they come from, and so are the types that a problem is about; everything that is asked of them has the
answer that it had, at another place. -/

namespace CheckedScript

/-- A change of places: of the nodes of a tree, and of the nodes that stand in the place of a type. -/
structure Relocation where
  node : Span → Span
  type : Span → Span

/-- The one change of places after the other. -/
def Relocation.trans (r q : Relocation) : Relocation := ⟨fun s => q.node (r.node s), fun s => q.type (r.type s)⟩

/-- Leaves every place as it is. -/
def Relocation.still : Relocation := ⟨fun s => s, fun s => s⟩

/-- The second is the first as it was, or moved by `f`. -/
def Moved {α : Type} (f : α → α) (a a' : α) : Prop := a' = a ∨ a' = f a

theorem Moved.refl {α : Type} {f : α → α} (a : α) : Moved f a a := .inl rfl

theorem Moved.self {α : Type} {f : α → α} (a : α) : Moved f a (f a) := .inr rfl

/-- What looks the same before and after a move. -/
theorem Moved.congr {α β : Type} {f : α → α} {a a' : α} (h : Moved f a a') (view : α → β) (hf : view (f a) = view a) :
    view a' = view a := by
  rcases h with rfl | rfl
  · rfl
  · exact hf

namespace Node

mutual

/-- The tree with every range changed. -/
def relocate (f : Span → Span) : Node → Node
  | value v => value v
  | typeTag k => typeTag k
  | program s block => program (f s) (relocateBlock f block)
  | variableDecl s t name init => variableDecl (f s) (relocate f t) name (relocate f init)
  | paramDecl s t name => paramDecl (f s) (relocate f t) name
  | assignment s name op v => assignment (f s) name op (relocate f v)
  | call s name args => call (f s) name (relocateAll f args)
  | definition s t name params body v =>
    definition (f s) (relocate f t) name (relocateAll f params) (relocateBlock f body) (relocate f v)
  | print s operand => print (f s) (relocate f operand)
  | branch s c thenBlock elseBlock => branch (f s) (relocate f c) (relocateBlock f thenBlock) (relocateBlock f elseBlock)
  | loop s c body => loop (f s) (relocate f c) (relocateBlock f body)
  | breakOut s => breakOut (f s)
  | binary form s op left right => binary form (f s) op (relocate f left) (relocate f right)
  | unary form s op operand => unary form (f s) op (relocate f operand)
  | literal s v => literal (f s) (relocate f v)
  | identifier s name => identifier (f s) name

def relocateAll (f : Span → Span) : List Node → List Node
  | [] => []
  | n :: rest => relocate f n :: relocateAll f rest

def relocateBlock (f : Span → Span) : Option (List Node) → Option (List Node)
  | none => none
  | some block => some (relocateAll f block)

end

mutual

/-- Ranges are of no account when trees are compared. -/
theorem equal_relocate (f : Span → Span) (a b : Node) : (a.relocate f).equal (b.relocate f) = a.equal b := by
  cases a with
  | program s block =>
    cases b with
    | program s' block' => exact equalBlocks_relocate f block block'
    | _ => rfl
  | variableDecl s t name init =>
    cases b with
    | variableDecl s' t' name' init' => simp only [relocate, equal, equal_relocate f t, equal_relocate f init]
    | _ => rfl
  | paramDecl s t name =>
    cases b with
    | paramDecl s' t' name' => simp only [relocate, equal, equal_relocate f t]
    | _ => rfl
  | assignment s name op v =>
    cases b with
    | assignment s' name' op' v' => simp only [relocate, equal, equal_relocate f v]
    | _ => rfl
  | call s name args =>
    cases b with
    | call s' name' args' => simp only [relocate, equal, equalLists_relocate f args]
    | _ => rfl
  | definition s t name params body v =>
    cases b with
    | definition s' t' name' params' body' v' =>
      simp only [relocate, equal, equal_relocate f t, equalLists_relocate f params, equalBlocks_relocate f body,
        equal_relocate f v]
    | _ => rfl
  | print s operand =>
    cases b with
    | print s' operand' => exact equal_relocate f operand operand'
    | _ => rfl
  | branch s c thenBlock elseBlock =>
    cases b with
    | branch s' c' thenBlock' elseBlock' =>
      simp only [relocate, equal, equal_relocate f c, equalBlocks_relocate f thenBlock, equalBlocks_relocate f elseBlock]
    | _ => rfl
  | loop s c body =>
    cases b with
    | loop s' c' body' => simp only [relocate, equal, equal_relocate f c, equalBlocks_relocate f body]
    | _ => rfl
  | binary form s op left right =>
    cases b with
    | binary form' s' op' left' right' => simp only [relocate, equal, equal_relocate f left, equal_relocate f right]
    | _ => rfl
  | unary form s op operand =>
    cases b with
    | unary form' s' op' operand' => simp only [relocate, equal, equal_relocate f operand]
    | _ => rfl
  | literal s v =>
    cases b with
    | literal s' v' => exact equal_relocate f v v'
    | _ => rfl
  | _ => cases b <;> rfl
termination_by structural a

theorem equalLists_relocate (f : Span → Span) (as bs : List Node) :
    equalLists (relocateAll f as) (relocateAll f bs) = equalLists as bs := by
  cases as <;> cases bs <;> simp only [relocateAll, equalLists, equal_relocate, equalLists_relocate]
termination_by structural as

theorem equalBlocks_relocate (f : Span → Span) (a b : Option (List Node)) :
    equalBlocks (relocateBlock f a) (relocateBlock f b) = equalBlocks a b := by
  cases a <;> cases b <;> simp only [relocateBlock, equalBlocks, equalLists_relocate]
termination_by structural a

end

section Texts

variable {α β : Type} {x x' : Except String α} {k k' : α → Except String β}

/-- Both have a text, or neither has one for the same reason. -/
def AlikeShown (x x' : Except String α) : Prop := x'.map (fun _ => ()) = x.map fun _ => ()

theorem alikeShown_ok (a a' : α) : AlikeShown (.ok a) (.ok a') := rfl

theorem AlikeShown.bind (hx : AlikeShown x x') (hk : ∀ a a', AlikeShown (k a) (k' a')) :
    AlikeShown (x >>= k) (x' >>= k') := by
  cases x with
  | ok a =>
    cases x' with
    | ok a' => exact hk a a'
    | error e => cases hx
  | error e =>
    cases x' with
    | ok a' => cases hx
    | error e' =>
      cases hx
      rfl

theorem AlikeShown.list {items items' : List Node} (h : AlikeShown (quotedItems items) (quotedItems items')) :
    AlikeShown (quotedList items) (quotedList items') := by
  rw [quotedList, quotedList]
  exact h.bind fun _ _ => alikeShown_ok _ _

end Texts

mutual

/-- Whether a tree can be shown does not depend on its ranges. -/
theorem quoted_relocate (f : Span → Span) (n : Node) : AlikeShown n.quoted (n.relocate f).quoted := by
  cases n with
  | value v => rfl
  | typeTag k => rfl
  | program s block =>
    rw [relocate, quoted, quoted]
    exact (quotedBlock_relocate f block).bind fun _ _ => alikeShown_ok _ _
  | variableDecl s t name init =>
    rw [relocate, quoted, quoted]
    exact (quoted_relocate f t).bind fun _ _ => (quoted_relocate f init).bind fun _ _ => alikeShown_ok _ _
  | paramDecl s t name =>
    rw [relocate, quoted, quoted]
    exact (quoted_relocate f t).bind fun _ _ => alikeShown_ok _ _
  | assignment s name op v =>
    rw [relocate, quoted, quoted]
    exact (quoted_relocate f v).bind fun _ _ => alikeShown_ok _ _
  | call s name args =>
    rw [relocate, quoted, quoted]
    exact (quotedItems_relocate f args).list.bind fun _ _ => alikeShown_ok _ _
  | definition s t name params body v =>
    rw [relocate, quoted, quoted]
    refine (quoted_relocate f t).bind fun _ _ => (quotedItems_relocate f params).list.bind fun _ _ => ?_
    exact (quotedBlock_relocate f body).bind fun _ _ => (quoted_relocate f v).bind fun _ _ => alikeShown_ok _ _
  | print s operand =>
    rw [relocate, quoted, quoted]
    exact (quoted_relocate f operand).bind fun _ _ => alikeShown_ok _ _
  | branch s c thenBlock elseBlock =>
    rw [relocate, quoted, quoted]
    refine (quoted_relocate f c).bind fun _ _ => (quotedBlock_relocate f thenBlock).bind fun _ _ => ?_
    exact (quotedBlock_relocate f elseBlock).bind fun _ _ => alikeShown_ok _ _
  | loop s c body =>
    rw [relocate, quoted, quoted]
    exact (quoted_relocate f c).bind fun _ _ => (quotedBlock_relocate f body).bind fun _ _ => alikeShown_ok _ _
  | breakOut s =>
    rw [relocate, quoted, quoted]
    exact alikeShown_ok _ _
  | binary form s op left right =>
    rw [relocate, quoted, quoted]
    exact (quoted_relocate f left).bind fun _ _ => (quoted_relocate f right).bind fun _ _ => alikeShown_ok _ _
  | unary form s op operand =>
    rw [relocate, quoted, quoted]
    exact (quoted_relocate f operand).bind fun _ _ => alikeShown_ok _ _
  | literal s v =>
    rw [relocate, quoted, quoted]
    exact (quoted_relocate f v).bind fun _ _ => alikeShown_ok _ _
  | identifier s name =>
    rw [relocate, quoted, quoted]
    exact alikeShown_ok _ _
termination_by structural n

theorem quotedItems_relocate (f : Span → Span) (items : List Node) :
    AlikeShown (quotedItems items) (quotedItems (relocateAll f items)) := by
  cases items with
  | nil => rfl
  | cons n rest =>
    rw [relocateAll, quotedItems, quotedItems]
    exact (quoted_relocate f n).bind fun _ _ => (quotedItems_relocate f rest).bind fun _ _ => alikeShown_ok _ _
termination_by structural items

theorem quotedBlock_relocate (f : Span → Span) (block : Option (List Node)) :
    AlikeShown (quotedBlock block) (quotedBlock (relocateBlock f block)) := by
  cases block with
  | none => rfl
  | some items =>
    rw [relocateBlock, quotedBlock, quotedBlock]
    exact (quotedItems_relocate f items).list
termination_by structural block

end

mutual

theorem relocate_id (n : Node) : n.relocate (fun s => s) = n := by
  cases n <;> simp only [relocate, relocate_id, relocateAll_id, relocateBlock_id]
termination_by structural n

theorem relocateAll_id (ns : List Node) : relocateAll (fun s => s) ns = ns := by
  cases ns <;> simp only [relocateAll, relocate_id, relocateAll_id]
termination_by structural ns

theorem relocateBlock_id (block : Option (List Node)) : relocateBlock (fun s => s) block = block := by
  cases block <;> simp only [relocateBlock, relocateAll_id]
termination_by structural block

end

mutual

theorem relocate_relocate (f g : Span → Span) (n : Node) : (n.relocate f).relocate g = n.relocate fun s => g (f s) := by
  cases n <;> simp only [relocate, relocate_relocate, relocateAll_relocateAll, relocateBlock_relocateBlock]
termination_by structural n

theorem relocateAll_relocateAll (f g : Span → Span) (ns : List Node) :
    relocateAll g (relocateAll f ns) = relocateAll (fun s => g (f s)) ns := by
  cases ns <;> simp only [relocateAll, relocate_relocate, relocateAll_relocateAll]
termination_by structural ns

theorem relocateBlock_relocateBlock (f g : Span → Span) (block : Option (List Node)) :
    relocateBlock g (relocateBlock f block) = relocateBlock (fun s => g (f s)) block := by
  cases block <;> simp only [relocateBlock, relocateAll_relocateAll]
termination_by structural block

end
end Node

variable (r : Relocation)

namespace Ty

def relocate : Ty → Ty
  | other n => other (n.relocate r.type)
  | t => t

@[simp] theorem same_relocate (a b : Ty) : (a.relocate r).same (b.relocate r) = a.same b := by
  cases a with
  | other n =>
    cases b with
    | other n' => exact n.equal_relocate r.type n'
    | _ => rfl
  | _ => cases b <;> rfl

@[simp] theorem same_number_relocate (t : Ty) : (t.relocate r).same .number = t.same .number := same_relocate r t .number

@[simp] theorem same_boolean_relocate (t : Ty) : (t.relocate r).same .boolean = t.same .boolean := same_relocate r t .boolean

@[simp] theorem same_string_relocate (t : Ty) : (t.relocate r).same .string = t.same .string := same_relocate r t .string

@[simp] theorem default?_relocate (t : Ty) : (t.relocate r).default? = t.default? := by
  cases t <;> rfl

theorem unshown?_relocate (t : Ty) : (t.relocate r).unshown? = t.unshown? := by
  cases t with
  | other n =>
    have hn := n.quoted_relocate r.type
    rw [relocate, unshown?, unshown?]
    generalize n.quoted = x, (n.relocate r.type).quoted = x' at hn ⊢
    cases x with
    | ok a =>
      cases x' with
      | ok a' => rfl
      | error e' => cases hn
    | error e =>
      cases x' with
      | ok a' => cases hn
      | error e' =>
        cases hn
        rfl
  | _ => rfl

/-- Types stay as they are if the nodes that stand for them stay where they are. -/
theorem relocate_of_type (h : r.type = fun s => s) (t : Ty) : t.relocate r = t := by
  cases t with
  | other n => rw [relocate, h, Node.relocate_id]
  | _ => rfl

theorem relocate_relocate (q : Relocation) (t : Ty) : (t.relocate r).relocate q = t.relocate (r.trans q) := by
  cases t with
  | other n => rw [relocate, relocate, relocate, Node.relocate_relocate, Relocation.trans]
  | _ => rfl

end Ty

namespace Signature

def relocate (f : Signature) : Signature := ⟨f.result.relocate r, f.name, f.params.map (Ty.relocate r)⟩

theorem sameTypes_relocate (as bs : List Ty) :
    sameTypes (as.map (Ty.relocate r)) (bs.map (Ty.relocate r)) = sameTypes as bs := by
  induction as generalizing bs with
  | nil => cases bs <;> rfl
  | cons a as ih =>
    cases bs with
    | nil => rfl
    | cons b bs => simp only [List.map_cons, sameTypes, Ty.same_relocate, ih]

@[simp] theorem same_relocate (f g : Signature) : (f.relocate r).same (g.relocate r) = f.same g := by
  simp only [same, relocate, Ty.same_relocate, sameTypes_relocate]

theorem types_relocate (f : Signature) : (f.relocate r).types = f.types.map (Ty.relocate r) := by
  simp only [types, relocate, List.map_append, List.map_cons, List.map_nil]

end Signature

namespace Problem

/-- The problem with the types that it is about relocated. -/
def relocate : Problem → Problem
  | noDefault t => noDefault (t.relocate r)
  | redefined f => redefined (f.relocate r)
  | conflicting f existing => conflicting (f.relocate r) (existing.relocate r)
  | unaryOperand op t => unaryOperand op (t.relocate r)
  | negatedOperand op t => negatedOperand op (t.relocate r)
  | expressionTypes a b => expressionTypes (a.relocate r) (b.relocate r)
  | conditionTypes a b => conditionTypes (a.relocate r) (b.relocate r)
  | conditionType t => conditionType (t.relocate r)
  | initialValue name declared effective => initialValue name (declared.relocate r) (effective.relocate r)
  | assignedValue name declared effective => assignedValue name (declared.relocate r) (effective.relocate r)
  | compoundValue name op t => compoundValue name op (t.relocate r)
  | arguments f => arguments (f.relocate r)
  | returnedValue effective name declared => returnedValue (effective.relocate r) name (declared.relocate r)
  | p => p

@[simp] theorem category_relocate (p : Problem) : (p.relocate r).category = p.category := by
  cases p <;> rfl

theorem types_relocate (p : Problem) : (p.relocate r).types = p.types.map (Ty.relocate r) := by
  cases p with
  | redefined f | arguments f => exact f.types_relocate r
  | conflicting f existing => simp only [relocate, types, Signature.types_relocate, List.map_append]
  | _ => rfl

/-- A problem has a message wherever its types stand. -/
theorem unshown?_relocate (p : Problem) : (p.relocate r).unshown? = p.unshown? := by
  have hshown : ((p.relocate r).types.findSome? Ty.unshown?).map Escape.unshownType =
      (p.types.findSome? Ty.unshown?).map .unshownType := by
    have hcomp : Ty.unshown? ∘ Ty.relocate r = Ty.unshown? := funext fun t => t.unshown?_relocate r
    rw [types_relocate, List.findSome?_map, hcomp]
  cases p with
  | noDefault t =>
    cases t with
    | other n =>
      cases n with
      | typeTag k => rfl
      | _ => exact hshown
    | _ => rfl
  | _ => exact hshown

theorem relocate_of_type (h : r.type = fun s => s) (p : Problem) : p.relocate r = p := by
  have htypes : ∀ ts : List Ty, ts.map (Ty.relocate r) = ts := fun ts => by
    rw [funext (Ty.relocate_of_type r h), List.map_id']
  cases p <;> simp only [relocate, Signature.relocate, Ty.relocate_of_type r h, htypes]

theorem relocate_relocate (q : Relocation) (p : Problem) : (p.relocate r).relocate q = p.relocate (r.trans q) := by
  have htypes : Ty.relocate q ∘ Ty.relocate r = Ty.relocate (r.trans q) := funext (Ty.relocate_relocate r q)
  cases p <;> simp only [relocate, Signature.relocate, Ty.relocate_relocate, List.map_map, htypes]

end Problem

/-- The second failure is the first with its place and the types of its problem where they were, or relocated. -/
inductive Failure.Relocated : Failure → Failure → Prop where
  | error {p p' : Problem} {s s' : Span} (hp : Moved (Problem.relocate r) p p') (hs : Moved r.node s s') :
      Relocated (.error ⟨p, s⟩) (.error ⟨p', s'⟩)
  | escape (e : Escape) : Relocated (.escape e) (.escape e)

namespace Failure.Relocated

variable {r}

theorem refl (f : Failure) : Relocated r f f := by
  cases f with
  | error e => exact .error (.refl _) (.refl _)
  | escape e => exact .escape e

theorem located (p : Problem) {s s' : Span} (hs : Moved r.node s s') :
    Relocated r (p.located s) ((p.relocate r).located s') := by
  rw [Problem.located, Problem.located, Problem.unshown?_relocate]
  cases p.unshown? with
  | some e => exact .escape e
  | none => exact .error (.self p) hs

/-- A failure that gets a place gets it in both trees. -/
theorem orAt (f : Failure) (s : Span) : Relocated r (f.orAt s) (f.orAt (r.node s)) := by
  cases f with
  | escape e => exact .escape e
  | error e =>
    rw [Failure.orAt, Failure.orAt]
    split
    · exact .error (.refl _) (.self s)
    · exact .error (.refl _) (.refl _)

end Failure.Relocated

def Misfit.relocate : Misfit → Misfit
  | node kind s => node kind (r.node s)
  | bare => bare

namespace Expr

mutual

def relocate : Expr → Expr
  | literal s v => literal (r.node s) v
  | untyped s what => untyped (r.node s) what
  | identifier s name => identifier (r.node s) name
  | binary form s op left right => binary form (r.node s) op left.relocate right.relocate
  | unary form s op operand => unary form (r.node s) op operand.relocate
  | call s name args => call (r.node s) name (relocateAll args)
  | missing => missing
  | misfit what => misfit (what.relocate r)

def relocateAll : List Expr → List Expr
  | [] => []
  | e :: rest => e.relocate :: relocateAll rest

end

@[simp] theorem length_relocateAll (args : List Expr) : (relocateAll r args).length = args.length := by
  induction args with
  | nil => rfl
  | cons e rest ih => simp [relocateAll, ih]

/-- What has no place has none in the other tree either. -/
theorem span_relocate (e : Expr) : Moved r.node e.span (e.relocate r).span := by
  cases e with
  | missing => exact .refl _
  | misfit what =>
    cases what with
    | node kind s => exact .self s
    | bare => exact .refl _
  | _ => exact .self _

end Expr

namespace Stmt

mutual

def relocate : Stmt → Stmt
  | declare s t name init => declare (r.node s) (t.relocate r) name (init.map (Expr.relocate r))
  | param s t name => param (r.node s) (t.relocate r) name
  | assign s name op v => assign (r.node s) name op (v.relocate r)
  | call s name args => call (r.node s) name (Expr.relocateAll r args)
  | define s result name params body v =>
    define (r.node s) (result.relocate r) name (relocateAll params) (relocateBody body) (v.relocate r)
  | print s operand => print (r.node s) (operand.map (Expr.relocate r))
  | branch s c thenBlock elseBlock => branch (r.node s) (c.relocate r) (relocateAll thenBlock) (relocateBody elseBlock)
  | loop s c body => loop (r.node s) (c.relocate r) (relocateBody body)
  | breakOut s => breakOut (r.node s)
  | misfit what => misfit (what.relocate r)

def relocateAll : List Stmt → List Stmt
  | [] => []
  | s :: rest => s.relocate :: relocateAll rest

def relocateBody : Option (List Stmt) → Option (List Stmt)
  | none => none
  | some block => some (relocateAll block)

end

theorem relocateAll_eq (block : List Stmt) : relocateAll r block = block.map (relocate r) := by
  induction block with
  | nil => rfl
  | cons s rest ih => rw [relocateAll, ih, List.map_cons]

@[simp] theorem isEmpty_relocateAll (block : List Stmt) : (relocateAll r block).isEmpty = block.isEmpty := by
  cases block <;> rfl

@[simp] theorem kind?_relocate (s : Stmt) : (s.relocate r).kind? = s.kind? := by
  cases s with
  | misfit what => cases what <;> rfl
  | _ => rfl

theorem span_relocate {s : Stmt} {k : NodeKind} (h : s.kind? = some k) : (s.relocate r).span = r.node s.span := by
  cases s with
  | misfit what =>
    cases what with
    | node kind s => rfl
    | bare => cases h
  | _ => rfl

theorem declaredType?_relocate (s : Stmt) : (s.relocate r).declaredType? = s.declaredType?.map (Ty.relocate r) := by
  cases s <;> rfl

end Stmt

@[simp] theorem endsInBreak_relocate (block : List Stmt) : endsInBreak (Stmt.relocateAll r block) = endsInBreak block := by
  rw [endsInBreak, endsInBreak, Stmt.relocateAll_eq, List.getLast?_map]
  cases block.getLast? with
  | none => rfl
  | some s => cases s <;> rfl

def Program.relocate (p : Program) : Program := ⟨r.node p.span, Stmt.relocateAll r p.statements⟩

section Still

open Relocation

theorem Misfit.relocate_still (what : Misfit) : what.relocate still = what := by
  cases what <;> rfl

mutual

theorem Expr.relocate_still (e : Expr) : e.relocate still = e := by
  cases e <;> simp only [relocate, relocate_still, relocateAll_still, Misfit.relocate_still] <;> rfl
termination_by structural e

theorem Expr.relocateAll_still (args : List Expr) : relocateAll still args = args := by
  cases args with
  | nil => rfl
  | cons e rest => rw [relocateAll, relocate_still, relocateAll_still]
termination_by structural args

end

mutual

theorem Stmt.relocate_still (s : Stmt) : s.relocate still = s := by
  have htype (t : Ty) : t.relocate still = t := t.relocate_of_type _ rfl
  have hoperand (e : Option Expr) : e.map (Expr.relocate still) = e := by
    rw [funext Expr.relocate_still, Option.map_id']
  cases s <;> simp only [relocate, relocateAll_still, relocateBody_still, htype, hoperand, Expr.relocate_still,
    Expr.relocateAll_still, Misfit.relocate_still] <;> rfl
termination_by structural s

theorem Stmt.relocateAll_still (block : List Stmt) : relocateAll still block = block := by
  cases block with
  | nil => rfl
  | cons s rest => rw [relocateAll, relocate_still, relocateAll_still]
termination_by structural block

theorem Stmt.relocateBody_still (body : Option (List Stmt)) : relocateBody still body = body := by
  cases body with
  | none => rfl
  | some block => rw [relocateBody, relocateAll_still]
termination_by structural body

end

theorem Program.relocate_still (p : Program) : p.relocate still = p := by
  rw [relocate, Stmt.relocateAll_still]
  rfl

end Still

namespace Definition

def relocate (d : Definition) : Definition :=
  ⟨r.node d.span, d.result.relocate r, d.name, Stmt.relocateAll r d.params, Stmt.relocateBody r d.body, d.value.relocate r⟩

theorem signature?_relocate (d : Definition) : (d.relocate r).signature? = d.signature?.map (Signature.relocate r) := by
  have hparams (params : List Stmt) : (params.map (Stmt.relocate r)).mapM Stmt.declaredType? =
      (params.mapM Stmt.declaredType?).map (List.map (Ty.relocate r)) := by
    induction params with
    | nil => rfl
    | cons s rest ih =>
      rw [List.map_cons, List.mapM_cons, List.mapM_cons, ih, Stmt.declaredType?_relocate]
      cases s.declaredType? with
      | none => rfl
      | some t => cases rest.mapM Stmt.declaredType? <;> rfl
  simp only [signature?, relocate, Stmt.relocateAll_eq, hparams, Option.map_map]
  rfl

end Definition

def Function.relocate (f : Function) : Function := ⟨f.signature.relocate r, f.definition.map (Definition.relocate r)⟩

end CheckedScript
