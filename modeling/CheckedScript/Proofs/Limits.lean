import CheckedScript.Proofs.BreakOrder
import CheckedScript.Proofs.Printed
import CheckedScript.Proofs.Termination

/-! Limits are only limits. A limit is looked at in two places: before a pass of a loop and before a call. With higher limits
the plan of an activity is therefore the plan that it was, except that it may go on where it gave up before. No step takes
back what was printed, so by the time a run gives up it has printed the first lines of what it would have printed otherwise;
and a run that does not give up never finds out how high its limits are. -/

namespace CheckedScript

/-- The failure is for a limit. -/
def Failure.IsExhaustion : Failure → Prop
  | error e => e.problem.category = .exhaustion
  | escape _ => False

def Settings.withLimits (s : Settings) (maxIterations maxCallDepth : Int) : Settings :=
  { s with maxIterations, maxCallDepth }

namespace Plan

/-- The second plan takes the steps of the first and performs the same activities, except that it may go on in any way where the
first gives up for a limit. No step of either takes back what was printed. -/
inductive Raised : {α : Type} → Plan α → Plan α → Prop where
  | step {α : Type} {w : Walk α} (h : Walk.Prints Walk.Longer w) : Raised (.step w) (.step w)
  | perform {α : Type} (t : Activity α) : Raised (.perform t) (.perform t)
  | bind {α β : Type} {c c' : Plan α} {k k' : α → Plan β} (h : Raised c c') (hk : ∀ a, Raised (k a) (k' a)) :
      Raised (.bind c k) (.bind c' k')
  | bracket {α : Type} {before after : Machine → Machine} {c c' : Plan α} (hb : ∀ m, (before m).output = m.output)
      (ha : ∀ m, (after m).output = m.output) (h : Raised c c') :
      Raised (.bracket before after c) (.bracket before after c')
  | limit {α : Type} {e : Failure} {c : Plan α} (he : e.IsExhaustion) (h : Raised c c) : Raised (.step (throw e)) c

section Rules

variable {α β : Type} {c c' : Plan α} {settings : Settings} {n d : Int}

/-- What goes on where the other gives up does not give up there itself. -/
theorem Raised.refl_right (h : Raised c c') : Raised c' c' := by
  induction h with
  | step h => exact .step h
  | perform t => exact .perform t
  | bind _ _ ih ihk => exact .bind ih ihk
  | bracket hb ha _ ih => exact .bracket hb ha ih
  | limit _ h _ => exact h

theorem raised_pure (a : α) : Raised (pure a : Plan α) (pure a) := .step (Walk.prints_pure Walk.cumulative_longer a)

theorem raised_fail (e : Failure) : Raised (fail e : Plan α) (fail e) := .step (Walk.prints_throw Walk.cumulative_longer e)

theorem raised_judge (rule : Scopes → Except Failure α) : Raised (step (Walk.judge rule)) (step (Walk.judge rule)) :=
  .step (Walk.prints_judge Walk.cumulative_longer rule)

/-- The trace does not depend on the limits. -/
theorem raised_record (level : Int) (line : String) :
    Raised (step (Walk.record settings level line)) (step (Walk.record (settings.withLimits n d) level line)) :=
  .step (Walk.prints_record Walk.cumulative_longer settings level line)

theorem raised_declare (span : Span) (type : Ty) (name : Data) (value : Option Value) :
    Raised (step (Walk.declare span type name value)) (step (Walk.declare span type name value)) :=
  .step (Walk.longer_steps.declare span type name value)

theorem raised_compute (span : Span) (r : Except Failure Value) :
    Raised (step (Walk.compute span r)) (step (Walk.compute span r)) :=
  .step (Walk.longer_steps.compute span r)

theorem Raised.inScope (h : Raised c c') : Raised (inScope c) (inScope c') := .bracket (fun _ => rfl) (fun _ => rfl) h

theorem Raised.inBody (h : Raised c c') : Raised (inBody c) (inBody c') := .bracket (fun _ => rfl) (fun _ => rfl) h

theorem Raised.inCall (h : Raised c c') : Raised (inCall c) (inCall c') := .bracket (fun _ => rfl) (fun _ => rfl) h.inBody

theorem raised_needed (block : Option (List Stmt)) (t : List Stmt → Activity (Option Loop)) :
    Raised (needed block fun block => perform (t block)) (needed block fun block => perform (t block)) := by
  cases block with
  | none => exact raised_fail _
  | some block => exact .perform (t block)

theorem raised_second (loop : Option Loop) (block : Option (List Stmt)) (t : List Stmt → Activity (Option Loop)) :
    Raised (second loop block fun block => perform (t block)) (second loop block fun block => perform (t block)) := by
  cases block with
  | none => exact raised_pure loop
  | some block => exact (Raised.perform (t block)).inScope

/-- A higher limit refuses less than a lower one. -/
theorem raised_guard {old new : Prop} [Decidable old] [Decidable new] (h : new → old) {e e' : Failure}
    (he : e.IsExhaustion) (hc : Raised c c') :
    Raised (if old then fail e else c) (if new then fail e' else c') := by
  by_cases ho : old
  · rw [if_pos ho]
    refine .limit he ?_
    by_cases hn : new
    · rw [if_pos hn]
      exact raised_fail e'
    · rw [if_neg hn]
      exact hc.refl_right
  · rw [if_neg ho, if_neg fun hn => ho (h hn)]
    exact hc

theorem raised_define (definition : Definition) (t : Activity (Option Loop)) (body : Option (List Stmt)) :
    Raised (define settings definition (perform t) (needed body fun block => perform (.checkBlock none block)))
      (define (settings.withLimits n d) definition (perform t)
        (needed body fun block => perform (.checkBlock none block))) := by
  refine .bind (.step (Walk.prints_change Walk.cumulative_longer _)) fun _ => .bind (Raised.inBody ?_) fun _ =>
    raised_record _ _
  exact .bind (.perform t) fun _ => .bind (raised_needed body _) fun _ => raised_judge _

end Rules

section Plans

variable {settings : Settings} {n d : Int}

theorem check_raised (loop : Option Loop) (isLast : Bool) (s : Stmt) :
    Raised (check settings loop isLast s) (check (settings.withLimits n d) loop isLast s) := by
  cases s with
  | declare span type name init =>
    refine .bind (raised_judge _) fun _ => .bind (raised_judge _) fun _ => ?_
    exact .bind (raised_declare _ _ _ _) fun _ => raised_pure loop
  | param span type name => exact .bind (raised_declare _ _ _ _) fun _ => raised_pure loop
  | assign span name op e => exact .bind (raised_judge _) fun _ => raised_pure loop
  | call span name args => exact .bind (raised_judge _) fun _ => raised_pure loop
  | define span result name params body value => exact .bind (raised_define _ _ _) fun _ => raised_pure loop
  | print span operand => exact .bind (raised_judge _) fun _ => raised_pure loop
  | branch span condition thenBlock elseBlock =>
    refine .bind (raised_judge _) fun _ => .bind (Raised.perform _).inScope fun l => ?_
    exact .bind (raised_second l elseBlock _) fun _ => raised_pure _
  | loop span condition body =>
    exact .bind (raised_judge _) fun _ => .bind (raised_needed body _).inScope fun _ => raised_pure loop
  | breakOut span => exact .bind (raised_judge _) fun _ => raised_pure loop
  | misfit what => exact raised_fail _

theorem run_raised (printing : Bool) (loop : Option Loop) (isLast : Bool) (s : Stmt) :
    Raised (run settings printing loop isLast s) (run (settings.withLimits n d) printing loop isLast s) := by
  cases s with
  | declare span type name init =>
    refine .bind (raised_judge _) fun _ => .bind (raised_judge _) fun _ => ?_
    cases init with
    | none =>
      refine .bind (raised_pure none) fun _ => .bind (raised_declare _ _ _ _) fun _ => ?_
      exact .bind (raised_record _ _) fun _ => raised_pure loop
    | some e =>
      refine .bind (.perform _) fun v => .bind (raised_pure (some v)) fun _ => .bind (raised_declare _ _ _ _) fun _ => ?_
      exact .bind (raised_record _ _) fun _ => raised_pure loop
  | param span type name => exact .perform _
  | assign span name op e =>
    refine .bind (raised_judge _) fun _ => .bind (.perform _) fun _ => .bind (raised_judge _) fun _ => ?_
    refine .bind (raised_compute _ _) fun new => .bind (.step (Walk.prints_change Walk.cumulative_longer _)) fun _ => ?_
    exact .bind (raised_record _ _) fun _ => raised_pure loop
  | call span name args => exact .bind (raised_judge _) fun _ => .bind (.perform _) fun _ => raised_pure loop
  | define span result name params body value => exact .bind (raised_define _ _ _) fun _ => raised_pure loop
  | print span operand =>
    refine .bind (raised_judge _) fun _ => ?_
    cases printing with
    | false => exact raised_pure loop
    | true =>
      cases operand with
      | none => exact .bind (.step (Walk.longer_print _)) fun _ => raised_pure loop
      | some e =>
        exact .bind (.perform _) fun _ => .bind (.step (Walk.longer_print _)) fun _ => raised_pure loop
  | branch span condition thenBlock elseBlock =>
    refine .bind (raised_judge _) fun _ => .bind (.perform _) fun v => .bind (raised_record _ _) fun _ => ?_
    dsimp only
    split
    · refine .bind (raised_second loop elseBlock _) fun l => ?_
      exact .bind (Raised.perform _).inScope fun _ => raised_pure _
    · refine .bind (Raised.perform _).inScope fun l => ?_
      exact .bind (raised_second l elseBlock _) fun _ => raised_pure _
  | loop span condition body =>
    refine .bind (raised_judge _) fun _ => .bind (raised_needed body _).inScope fun _ => ?_
    exact .bind (.perform _) fun _ => raised_pure loop
  | breakOut span => exact .bind (raised_judge _) fun _ => raised_pure _
  | misfit what => exact .perform _

theorem evaluate_raised (printing : Bool) (e : Expr) : Raised (evaluate printing e) (evaluate printing e) := by
  cases e with
  | literal span v => exact raised_pure v
  | untyped span what => exact raised_fail _
  | identifier span name => exact .bind (raised_judge _) fun _ => raised_pure _
  | binary form span op left right =>
    exact .bind (.perform _) fun _ => .bind (.perform _) fun _ => raised_compute _ _
  | unary form span op operand => exact .bind (.perform _) fun _ => raised_compute _ _
  | call span name args => exact .bind (raised_judge _) fun _ => .bind (.perform _) fun _ => .perform _
  | missing => exact raised_fail _
  | misfit what => exact raised_fail _

/-- The first of the two places where a limit is looked at. -/
theorem passes_raised (hn : settings.maxIterations ≤ n) (printing : Bool) (span : Span) (condition : Expr)
    (body : Option (List Stmt)) (done : Nat) (loop : Option Loop) :
    Raised (passes settings printing span condition body done loop)
      (passes (settings.withLimits n d) printing span condition body done loop) := by
  refine .bind (.bind (.perform _) fun v => raised_pure v.holds) fun holds => ?_
  cases holds with
  | false => exact raised_pure ()
  | true =>
    by_cases hp : loop.any (0 < ·.pending) = true
    · simp only [hp, if_true]
      exact raised_record _ _
    · simp only [hp, if_true]
      have hpasses : n < done + 1 → settings.maxIterations < done + 1 := fun h => Int.lt_of_le_of_lt hn h
      refine raised_guard hpasses rfl ?_
      exact .bind (raised_record _ _) fun _ => .bind (raised_needed body _).inScope fun _ => .perform _

theorem called_raised (printing : Bool) (f : Function) (values : List Value) :
    Raised (called printing f values) (called printing f values) := by
  unfold called
  cases f.definition with
  | none => exact raised_fail _
  | some definition =>
    refine .bind (.step (Walk.longer_steps.bindParams definition.params values)) fun _ => ?_
    exact .bind (raised_needed definition.body _) fun _ => .bind (raised_judge _) fun _ => .perform _

/-- The other place. -/
theorem call_raised (hd : settings.maxCallDepth ≤ d) (printing : Bool) (span : Span) (name : Data) (f : Function)
    (values : List Value) :
    Raised (call settings printing span name f values) (call (settings.withLimits n d) printing span name f values) := by
  refine .bind (.step fun _ => List.prefix_refl _) fun underWay => ?_
  have hcalls : d ≤ underWay → settings.maxCallDepth ≤ underWay := fun h => Int.le_trans hd h
  refine raised_guard hcalls rfl ?_
  exact .bind (raised_record _ _) fun _ => (called_raised printing f values).inCall

theorem statement_raised (s : Stmt) (rest : List Stmt) :
    Raised (statement settings s rest) (statement (settings.withLimits n d) s rest) := by
  unfold statement
  cases s.kind? with
  | none => exact .bind (raised_fail _) fun _ => .bind (.perform _) fun _ => .perform _
  | some k => exact .bind (raised_record _ _) fun _ => .bind (.perform _) fun _ => .perform _

/-- With higher limits every activity is planned as before, but for where it gave up. -/
theorem plan_raised (hn : settings.maxIterations ≤ n) (hd : settings.maxCallDepth ≤ d) {α : Type} (t : Activity α) :
    Raised (t.plan settings) (t.plan (settings.withLimits n d)) := by
  cases t with
  | check loop isLast s => exact check_raised loop isLast s
  | checkBlock loop block =>
    cases block with
    | nil => exact raised_pure loop
    | cons s rest => exact .bind (.perform _) fun _ => .perform _
  | run printing loop isLast s => exact run_raised printing loop isLast s
  | runBlock printing loop block =>
    cases block with
    | nil => exact raised_pure loop
    | cons s rest => exact .bind (.perform _) fun _ => .perform _
  | passes printing span condition body done loop => exact passes_raised hn printing span condition body done loop
  | evaluate printing e => exact evaluate_raised printing e
  | evaluateAll printing args =>
    cases args with
    | nil => exact raised_pure []
    | cons e rest => exact .bind (.perform _) fun _ => .bind (.perform _) fun _ => raised_pure _
  | call printing span name f values => exact call_raised hd printing span name f values
  | statements block =>
    cases block with
    | nil => exact raised_pure ()
    | cons s rest => exact statement_raised s rest

end Plans

section Ends

variable {settings : Settings} {α : Type} {c : Plan α} {m : Machine} {r : EStateM.Result Failure Machine α}

/-- The state in which something ended. -/
def finalState : EStateM.Result Failure Machine α → Machine
  | .ok _ m => m
  | .error _ m => m

/-- Did it end for a limit? -/
def Exhausted : EStateM.Result Failure Machine α → Prop
  | .ok _ _ => False
  | .error e _ => e.IsExhaustion

theorem finalState_close {after : Machine → Machine} : finalState (close after r) = after (finalState r) := by
  cases r <;> rfl

theorem finalState_grows {w : Walk α} (h : Walk.Prints Walk.Longer w) (m : Machine) :
    m.output.toList <+: (finalState (w m)).output.toList := by
  have hm := h m
  unfold Walk.Ends at hm
  cases hw : w m with
  | ok a m₁ =>
    rw [hw] at hm
    exact hm
  | error e m₁ =>
    rw [hw] at hm
    exact hm

/-- What was printed before is still there when a plan ends. -/
theorem EndsIn.grows (h : EndsIn settings c m r) {c' : Plan α} (hr : Raised c c') :
    m.output.toList <+: (finalState r).output.toList := by
  induction h with
  | step w m =>
    cases hr with
    | step hw => exact finalState_grows hw m
    | limit he hc => exact List.prefix_refl _
  | perform h ih => exact ih (plan_raised (Int.le_refl _) (Int.le_refl _) _)
  | next h hk ih ihk =>
    cases hr with
    | bind hc hk' => exact (ih hc).trans (ihk (hk' _))
  | stop h ih =>
    cases hr with
    | bind hc hk' => exact ih hc
  | bracket h ih =>
    cases hr with
    | bracket hb ha hc =>
      have hinner := ih hc
      rwa [finalState_close, ha, ← hb]

/-- The second end is the first one, unless that was for a limit; and then it comes after more lines have been printed. -/
structure Prolongs (r r' : EStateM.Result Failure Machine α) : Prop where
  same : ¬Exhausted r → r' = r
  printed : (finalState r).output.toList <+: (finalState r').output.toList

theorem Prolongs.refl (r : EStateM.Result Failure Machine α) : Prolongs r r := ⟨fun _ => rfl, List.prefix_refl _⟩

end Ends
end Plan

namespace Interpreter

def withLimits (i : Interpreter) (maxIterations maxCallDepth : Int) : Interpreter :=
  { i with settings := i.settings.withLimits maxIterations maxCallDepth }

/-- The walk of a program is the end that its plan comes to. -/
theorem endsIn_program (i : Interpreter) (p : Program) :
    Plan.EndsIn i.settings (.program p) i.machine (Walk.program i.settings true p i.machine) := by
  apply Plan.endsIn_bracket
  apply (Plan.statements_realized p.statements).ends
  · simp
  · simp [Interpreter.machine]

end Interpreter
end CheckedScript
