import CheckedScript.Proofs.Lockstep
import CheckedScript.Proofs.Places

/-! Runs without places. To take the places out of a tree is to relocate it, so a program and the same program without its
places are walked in step: with the same variables and the same output all along, and with the same end. -/

namespace CheckedScript

/-- Takes the places out of a tree. The types stay as they are. -/
def Relocation.unplacing : Relocation := ⟨fun _ => .zero, fun s => s⟩

open Relocation

theorem Ty.relocate_unplacing (t : Ty) : t.relocate unplacing = t := t.relocate_of_type _ rfl

theorem Misfit.relocate_eq_unplaced {r : Relocation} (h : r.node = fun _ => .zero) (what : Misfit) :
    what.relocate r = what.unplaced := by
  cases what <;> simp only [relocate, unplaced, h]

namespace Expr

mutual

/-- An expression holds no types, so it is enough that its own places are taken out. -/
theorem relocate_eq_unplaced {r : Relocation} (h : r.node = fun _ => .zero) (e : Expr) : e.relocate r = e.unplaced := by
  cases e <;> simp only [relocate, unplaced, h, relocate_eq_unplaced h, relocateAll_eq_unplacedAll h,
    Misfit.relocate_eq_unplaced h]
termination_by structural e

theorem relocateAll_eq_unplacedAll {r : Relocation} (h : r.node = fun _ => .zero) (args : List Expr) :
    relocateAll r args = unplacedAll args := by
  cases args with
  | nil => rfl
  | cons e rest => rw [relocateAll, unplacedAll, relocate_eq_unplaced h, relocateAll_eq_unplacedAll h]
termination_by structural args

end

end Expr

namespace Stmt

mutual

theorem relocate_unplacing (s : Stmt) : s.relocate unplacing = s.unplaced := by
  have hexpr : Expr.relocate unplacing = Expr.unplaced := funext (Expr.relocate_eq_unplaced rfl)
  have hargs := Expr.relocateAll_eq_unplacedAll (r := unplacing) rfl
  have hmisfit := Misfit.relocate_eq_unplaced (r := unplacing) rfl
  cases s <;> simp only [relocate, unplaced, relocateAll_unplacing, relocateBody_unplacing, hexpr, hargs, hmisfit,
    Ty.relocate_unplacing] <;> rfl
termination_by structural s

theorem relocateAll_unplacing (block : List Stmt) : relocateAll unplacing block = unplacedAll block := by
  cases block with
  | nil => rfl
  | cons s rest => rw [relocateAll, unplacedAll, relocate_unplacing, relocateAll_unplacing]
termination_by structural block

theorem relocateBody_unplacing (body : Option (List Stmt)) : relocateBody unplacing body = unplacedBody body := by
  cases body with
  | none => rfl
  | some block => rw [relocateBody, unplacedBody, relocateAll_unplacing]
termination_by structural body

end

end Stmt

theorem Program.relocate_unplacing (p : Program) : p.relocate unplacing = p.unplaced := by
  rw [relocate, Stmt.relocateAll_unplacing]
  rfl

/-- The kind of a failure: the category of an error, or the escape itself. -/
def Failure.kind : Failure → Category ⊕ Escape
  | error e => .inl e.problem.category
  | escape e => .inr e

theorem Failure.kind_unplaced (f : Failure) : f.unplaced.kind = f.kind := by
  cases f <;> rfl

theorem Failure.Relocated.unplaced_eq (e f : Failure) (h : e.Relocated unplacing f) : f.unplaced = e.unplaced := by
  cases h with
  | escape e => rfl
  | error hp hs => exact hp.congr (fun p => Failure.error ⟨p, .zero⟩) (by rw [Problem.relocate_of_type _ rfl])

namespace Interpreter

variable (i : Interpreter) (p : Program)

/-- A walk depends on the places in its program in nothing but the place of its error and the trace. -/
theorem walk_unplaced (execute : Bool) : Alike Failure.unplaced (i.walk execute p.unplaced) (i.walk execute p) := by
  rw [← Program.relocate_unplacing]
  exact walk_alike rfl (Scopes.relocate_of_type rfl rfl).symm Failure.Relocated.unplaced_eq execute p

theorem run_unplaced : (i.run p.unplaced).1.mapError Failure.unplaced = (i.run p).1.mapError Failure.unplaced :=
  (i.walk_unplaced p true).run.outcome

end Interpreter

end CheckedScript
