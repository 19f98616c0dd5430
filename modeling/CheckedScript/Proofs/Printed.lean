import CheckedScript.Proofs.Steps

/-! What walks print. Only a print touches the output. So a relation between outputs that holds of an output with itself, and
that goes through when one thing is done after the other, holds between the outputs before and after a walk as soon as
prints keep it. Nothing is ever taken back, for one; and where nothing may print, nothing changes. -/

namespace CheckedScript.Walk

variable {α β : Type} {w : Walk α} {k : α → Walk β} {R : Array String → Array String → Prop}

/-- A relation that can be followed along a walk. -/
structure Cumulative (R : Array String → Array String → Prop) : Prop where
  refl (p : Array String) : R p p
  trans {p q r : Array String} (h : R p q) (h' : R q r) : R p r

/-- However the walk ends, the outputs before and after it are related. -/
def Prints (R : Array String → Array String → Prop) (w : Walk α) : Prop :=
  ∀ m, Ends w m (fun _ m' => R m.output m'.output) (fun _ m' => R m.output m'.output)

theorem prints_pure (hR : Cumulative R) (a : α) : Prints R (pure a : Walk α) := fun _ => hR.refl _

theorem prints_throw (hR : Cumulative R) (e : Failure) : Prints R (throw e : Walk α) := fun _ => hR.refl _

theorem Prints.bind (hR : Cumulative R) (h : Prints R w) (hk : ∀ a, Prints R (k a)) : Prints R (w >>= k) := by
  intro m
  rw [ends_bind]
  apply (h m).imp
  · intro a m₁ h₁
    exact (hk a m₁).imp (fun _ _ h₂ => hR.trans h₁ h₂) fun _ _ h₂ => hR.trans h₁ h₂
  · intro _ _ h₁
    exact h₁

theorem prints_judge (hR : Cumulative R) (rule : Scopes → Except Failure α) : Prints R (judge rule) :=
  fun _ => ends_judge.mpr ⟨fun _ _ => hR.refl _, fun _ _ => hR.refl _⟩

theorem prints_change (hR : Cumulative R) (f : Scopes → Except Failure Scopes) : Prints R (change f) :=
  fun _ => ends_change.mpr ⟨fun _ _ => hR.refl _, fun _ _ => hR.refl _⟩

theorem prints_record (hR : Cumulative R) (settings : Settings) (level : Int) (line : String) :
    Prints R (record settings level line) :=
  fun _ => ends_record fun _ => hR.refl _

theorem prints_bracket {before after : Machine → Machine} (hb : ∀ m, (before m).output = m.output)
    (ha : ∀ m, (after m).output = m.output) (h : Prints R w) : Prints R (bracket before after w) := by
  intro m
  have hm := h (before m)
  rw [hb] at hm
  simp only [ends_bracket, ha]
  exact hm

/-- Whatever does not print keeps the relation. -/
theorem prints_steps (hR : Cumulative R) : OfSilentSteps (Prints R) where
  pure := prints_pure hR
  throw := prints_throw hR
  bind := Prints.bind hR
  judge _ := prints_judge hR _
  change _ := prints_change hR _
  record := prints_record hR
  inScope := prints_bracket (fun _ => rfl) fun _ => rfl
  inBody := prints_bracket (fun _ => rfl) fun _ => rfl
  inCall h := prints_bracket (fun _ => rfl) (fun _ => rfl) (prints_bracket (fun _ => rfl) (fun _ => rfl) h)

/-- The second output is the first with lines after it. -/
def Longer (p q : Array String) : Prop := p.toList <+: q.toList

theorem cumulative_longer : Cumulative Longer := ⟨fun p => List.prefix_refl p.toList, fun h h' => List.IsPrefix.trans h h'⟩

theorem longer_print (line : String) : Prints Longer (print line) := by
  intro m
  rw [ends_print, Longer, Array.toList_push]
  exact List.prefix_append _ _

/-- So no walk takes back what was printed. -/
theorem longer_steps : OfSteps (Prints Longer) where
  toOfSilentSteps := prints_steps cumulative_longer
  print := longer_print

theorem cumulative_eq : Cumulative Eq := ⟨fun _ => rfl, fun h h' => h.trans h'⟩

section Silence

variable (settings : Settings) (left : Nat)

theorem callWith_silent (span : Span) (name : Data) (f : Function) (values : List Value) :
    Prints Eq (callWith settings false left span name f values) :=
  (prints_steps cumulative_eq).callWith settings false (fun h => Bool.noConfusion h) left span name f values

/-- Without leave to print, a statement leaves the output as it is, however many calls may be under way inside of it. -/
theorem run_silent (loop : Option Loop) (isLast : Bool) (s : Stmt) :
    Prints Eq (run settings (callWith settings false left) false loop isLast s) :=
  (prints_steps cumulative_eq).run (callWith_silent settings left) false (fun h => Bool.noConfusion h) loop isLast s

theorem evaluate_silent (e : Expr) : Prints Eq (evaluate (callWith settings false left) e) :=
  (prints_steps cumulative_eq).evaluate (callWith_silent settings left) e

end Silence

end CheckedScript.Walk
