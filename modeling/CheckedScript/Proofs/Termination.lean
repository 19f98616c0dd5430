import CheckedScript.Proofs.History
import CheckedScript.Proofs.Recursion

/-! Every run ends. The plans of `Recursion` never count down, and the walks of the interpreter recurse on what is left: on the
tree, inside of that on the passes of a loop and outside of both on the calls that may still be made. A walk that closes what it
opens has as many calls under way when it ends as when it began, so the calls that are left to it are those that the limit
leaves. Hence each walk is the end that its plan comes to, by induction on the calls that are left, then on the tree or the
passes. The limits may be any integers and the program any tree. -/

namespace CheckedScript

open Walk (Balanced Caller balanced_steps)
open Machine (Level)

namespace Plan

/-- Wherever `left` more calls may be under way, the plan ends as the walk does. -/
structure Realizes (settings : Settings) (left : Nat) {α : Type} (c : Plan α) (w : Walk α) : Prop where
  balanced : Balanced w
  ends : ∀ m : Machine, m.scopes.outline ≠ [] → (settings.maxCallDepth - m.callDepth).toNat = left →
    EndsIn settings c m (w m)

section Rules

variable {settings : Settings} {left : Nat} {α β : Type} {c : Plan α} {w : Walk α}

theorem realizes_step (h : Balanced w) : Realizes settings left (step w) w := ⟨h, fun m _ _ => .step w m⟩

theorem realizes_pure (a : α) : Realizes settings left (pure a : Plan α) (pure a) := realizes_step Walk.balanced_pure

theorem realizes_fail (e : Failure) : Realizes settings left (fail e : Plan α) (throw e) :=
  realizes_step Walk.balanced_throw

theorem realizes_perform {t : Activity α} (h : Realizes settings left (t.plan settings) w) :
    Realizes settings left (perform t) w :=
  ⟨h.balanced, fun m ho hl => .perform (h.ends m ho hl)⟩

theorem Realizes.bind {k : α → Plan β} {k' : α → Walk β} (h : Realizes settings left c w)
    (hk : ∀ a, Realizes settings left (k a) (k' a)) : Realizes settings left (c >>= k) (w >>= k') := by
  refine ⟨h.balanced.bind fun a => (hk a).balanced, ?_⟩
  intro m ho hl
  have hlevel := h.balanced m ho
  have hends := h.ends m ho hl
  simp only [Bind.bind, EStateM.bind]
  cases hw : w m with
  | error e m₁ =>
    rw [hw] at hends
    exact .stop hends
  | ok a m₁ =>
    rw [hw] at hends
    have hm₁ := hlevel.ok hw
    exact .next hends ((hk a).ends m₁ hm₁.still_open (by rw [hm₁.callDepth, hl]))

theorem endsIn_bracket {before after : Machine → Machine} {m : Machine} (h : EndsIn settings c (before m) (w (before m))) :
    EndsIn settings (bracket before after c) m (Walk.bracket before after w m) := by
  have hclose : Walk.bracket before after w m = close after (w (before m)) := by
    unfold Walk.bracket
    cases w (before m) <;> rfl
  rw [hclose]
  exact .bracket h

theorem Realizes.inScope (h : Realizes settings left c w) : Realizes settings left (inScope c) (Walk.inScope w) := by
  refine ⟨Walk.balanced_inScope h.balanced, fun m ho hl => endsIn_bracket (h.ends _ ?_ hl)⟩
  simp

theorem Realizes.inBody (h : Realizes settings left c w) : Realizes settings left (inBody c) (Walk.inBody w) := by
  refine ⟨Walk.balanced_inBody h.balanced, fun m ho hl => endsIn_bracket (h.ends _ ?_ hl)⟩
  simp

/-- A call uses one of the calls that were left. -/
theorem Realizes.inCall (h : Realizes settings left c w) : Realizes settings (left + 1) (inCall c) (Walk.inCall w) := by
  refine ⟨Walk.balanced_inCall h.balanced, ?_⟩
  intro m ho hl
  refine endsIn_bracket (h.inBody.ends _ ho ?_)
  simp only [Int.natCast_add, Int.cast_ofNat_Int]
  omega

theorem realizes_judge {rule : Scopes → Except Failure α} : Realizes settings left (step (Walk.judge rule)) (Walk.judge rule) :=
  realizes_step Walk.balanced_judge

theorem realizes_record {level : Int} {line : String} :
    Realizes settings left (step (Walk.record settings level line)) (Walk.record settings level line) :=
  realizes_step Walk.balanced_record

theorem realizes_declare {span : Span} {type : Ty} {name : Data} {value : Option Value} :
    Realizes settings left (step (Walk.declare span type name value)) (Walk.declare span type name value) :=
  realizes_step (balanced_steps.declare span type name value)

theorem realizes_compute {span : Span} {r : Except Failure Value} :
    Realizes settings left (step (Walk.compute span r)) (Walk.compute span r) :=
  realizes_step (balanced_steps.compute span r)

theorem Realizes.define {d : Definition} {params body : Plan (Option Loop)} {params' body' : Walk (Option Loop)}
    (hp : Realizes settings left params params') (hb : Realizes settings left body body') :
    Realizes settings left (define settings d params body) (Walk.define settings d params' body') := by
  refine (realizes_step (Walk.balanced_change (.register d))).bind fun _ => ?_
  refine (Realizes.inBody ?_).bind fun _ => realizes_record
  exact hp.bind fun _ => hb.bind fun _ => realizes_judge

end Rules

section Trees

variable {settings : Settings} {left : Nat}

mutual

theorem check_realized (loop : Option Loop) (isLast : Bool) (s : Stmt) :
    Realizes settings left (perform (.check loop isLast s)) (Walk.check settings loop isLast s) := by
  apply realizes_perform
  cases s with
  | declare span type name init =>
    refine realizes_judge.bind fun _ => realizes_judge.bind fun _ => ?_
    exact realizes_declare.bind fun _ => realizes_pure loop
  | param span type name => exact realizes_declare.bind fun _ => realizes_pure loop
  | assign span name op e => exact realizes_judge.bind fun _ => realizes_pure loop
  | call span name args => exact realizes_judge.bind fun _ => realizes_pure loop
  | define span result name params body value =>
    refine (Realizes.define ?_ ?_).bind fun _ => realizes_pure loop
    · exact checkBlock_realized loop params
    · exact checkBody_realized none body
  | print span operand => exact realizes_judge.bind fun _ => realizes_pure loop
  | branch span condition thenBlock elseBlock =>
    refine realizes_judge.bind fun _ => (checkBlock_realized loop thenBlock).inScope.bind fun l => ?_
    exact (checkElse_realized l elseBlock).bind fun _ => realizes_pure _
  | loop span condition body =>
    refine realizes_judge.bind fun _ => (checkBody_realized (some .fresh) body).inScope.bind fun _ => ?_
    exact realizes_pure loop
  | breakOut span => exact realizes_judge.bind fun _ => realizes_pure loop
  | misfit what => exact realizes_fail _
termination_by structural s

theorem checkBlock_realized (loop : Option Loop) (block : List Stmt) :
    Realizes settings left (perform (.checkBlock loop block)) (Walk.checkBlock settings loop block) := by
  apply realizes_perform
  cases block with
  | nil => exact realizes_pure loop
  | cons s rest => exact (check_realized loop rest.isEmpty s).bind fun l => checkBlock_realized l rest
termination_by structural block

theorem checkBody_realized (loop : Option Loop) (body : Option (List Stmt)) :
    Realizes settings left (needed body fun block => perform (.checkBlock loop block))
      (Walk.checkBody settings loop body) := by
  cases body with
  | none => exact realizes_fail _
  | some block => exact checkBlock_realized loop block
termination_by structural body

theorem checkElse_realized (loop : Option Loop) (block : Option (List Stmt)) :
    Realizes settings left (second loop block fun block => perform (.checkBlock loop block))
      (Walk.checkElse settings loop block) := by
  cases block with
  | none => exact realizes_pure loop
  | some block => exact (checkBlock_realized loop block).inScope
termination_by structural block

end

/-- Calls end as they are planned, wherever so many more may be under way. -/
def CallsRealized (settings : Settings) (left : Nat) (printing : Bool) (call : Caller) : Prop :=
  ∀ span name f values, Realizes settings left (perform (.call printing span name f values)) (call span name f values)

variable {printing : Bool} {call : Caller}

mutual

theorem evaluate_realized (hc : CallsRealized settings left printing call) (e : Expr) :
    Realizes settings left (perform (.evaluate printing e)) (Walk.evaluate call e) := by
  apply realizes_perform
  cases e with
  | literal span v => exact realizes_pure v
  | untyped span what => exact realizes_fail _
  | identifier span name => exact realizes_judge.bind fun _ => realizes_pure _
  | binary form span op l r =>
    refine (evaluate_realized hc l).bind fun _ => (evaluate_realized hc r).bind fun _ => ?_
    exact realizes_compute
  | unary form span op operand => exact (evaluate_realized hc operand).bind fun _ => realizes_compute
  | call span name args =>
    refine realizes_judge.bind fun f => (evaluateAll_realized hc args).bind fun values => ?_
    exact hc span name f values
  | missing => exact realizes_fail _
  | misfit what => exact realizes_fail _
termination_by structural e

theorem evaluateAll_realized (hc : CallsRealized settings left printing call) (args : List Expr) :
    Realizes settings left (perform (.evaluateAll printing args)) (Walk.evaluateAll call args) := by
  apply realizes_perform
  cases args with
  | nil => exact realizes_pure []
  | cons e rest =>
    refine (evaluate_realized hc e).bind fun _ => (evaluateAll_realized hc rest).bind fun _ => ?_
    exact realizes_pure _
termination_by structural args

end

/-- The induction is on the passes that the limit leaves. A body that is done again is the same tree, and the plan does not
say how often it is done; only the count of passes grows. -/
theorem passes_realized (hc : CallsRealized settings left printing call) (span : Span) (condition : Expr)
    (body : Option (List Stmt)) {pass : Option Loop → Walk (Option Loop)}
    (hpass : ∀ inner, Realizes settings left (inScope (needed body fun block => perform (.runBlock printing inner block)))
      (pass inner)) {more done : Nat} (hm : (settings.maxIterations - done).toNat = more) (loop : Option Loop) :
    Realizes settings left (perform (.passes printing span condition body done loop))
      (Walk.iterate settings span (do let v ← Walk.evaluate call condition; return v.holds) pass more done loop) := by
  have htest : Realizes settings left (test printing condition)
      (do let v ← Walk.evaluate call condition; return v.holds) :=
    (evaluate_realized hc condition).bind fun v => realizes_pure v.holds
  induction more generalizing done loop with
  | zero =>
    have hlimit : settings.maxIterations < done + 1 := by omega
    apply realizes_perform
    simp only [Activity.plan, passes, hlimit, if_true, Walk.iterate_zero]
    refine htest.bind fun holds => ?_
    split
    · split
      · exact realizes_record
      · exact realizes_fail _
    · exact realizes_pure ()
  | succ more ih =>
    have hlimit : ¬ settings.maxIterations < done + 1 := by omega
    have hmore : (settings.maxIterations - (done + 1 : Nat)).toNat = more := by omega
    apply realizes_perform
    simp only [Activity.plan, passes, hlimit, if_false, Walk.iterate_succ]
    refine htest.bind fun holds => ?_
    split
    · split
      · exact realizes_record
      · exact realizes_record.bind fun _ => (hpass _).bind fun inner => ih hmore inner
    · exact realizes_pure ()

mutual

theorem run_realized (hc : CallsRealized settings left printing call) (loop : Option Loop) (isLast : Bool) (s : Stmt) :
    Realizes settings left (perform (.run printing loop isLast s)) (Walk.run settings call printing loop isLast s) := by
  apply realizes_perform
  cases s with
  | declare span type name init =>
    refine realizes_judge.bind fun _ => realizes_judge.bind fun _ => ?_
    cases init with
    | none =>
      refine (realizes_pure none).bind fun _ => realizes_declare.bind fun _ => ?_
      exact realizes_record.bind fun _ => realizes_pure loop
    | some e =>
      refine (evaluate_realized hc e).bind fun v => (realizes_pure (some v)).bind fun _ => ?_
      exact realizes_declare.bind fun _ => realizes_record.bind fun _ => realizes_pure loop
  | param span type name => exact check_realized loop isLast (.param span type name)
  | assign span name op e =>
    refine realizes_judge.bind fun _ => (evaluate_realized hc e).bind fun _ => realizes_judge.bind fun _ => ?_
    refine realizes_compute.bind fun new => (realizes_step (Walk.balanced_change (.assign name new))).bind fun _ => ?_
    exact realizes_record.bind fun _ => realizes_pure loop
  | call span name args =>
    exact realizes_judge.bind fun _ => (evaluate_realized hc _).bind fun _ => realizes_pure loop
  | define span result name params body value =>
    refine (Realizes.define ?_ ?_).bind fun _ => realizes_pure loop
    · exact runBlock_realized hc loop params
    · exact checkBody_realized none body
  | print span operand =>
    refine realizes_judge.bind fun _ => ?_
    cases printing with
    | false => exact realizes_pure loop
    | true =>
      cases operand with
      | none => exact (realizes_step Walk.balanced_print).bind fun _ => realizes_pure loop
      | some e =>
        refine (evaluate_realized hc e).bind fun _ => (realizes_step Walk.balanced_print).bind fun _ => ?_
        exact realizes_pure loop
  | branch span condition thenBlock elseBlock =>
    simp only [Activity.plan, run, Walk.run]
    refine realizes_judge.bind fun _ => (evaluate_realized hc condition).bind fun v => realizes_record.bind fun _ => ?_
    split
    · refine (checkElse_realized loop elseBlock).bind fun l => ?_
      exact (runBlock_realized hc l thenBlock).inScope.bind fun _ => realizes_pure _
    · refine (checkBlock_realized loop thenBlock).inScope.bind fun l => ?_
      exact (runElse_realized hc l elseBlock).bind fun _ => realizes_pure _
  | loop span condition body =>
    refine realizes_judge.bind fun _ => (checkBody_realized (some .fresh) body).inScope.bind fun _ => ?_
    refine (passes_realized hc span condition body (fun inner => ?_) (by omega) _).bind fun _ => realizes_pure loop
    exact (runBody_realized hc inner body).inScope
  | breakOut span => exact realizes_judge.bind fun _ => realizes_pure _
  | misfit what => exact check_realized loop isLast (.misfit what)
termination_by structural s

theorem runBlock_realized (hc : CallsRealized settings left printing call) (loop : Option Loop) (block : List Stmt) :
    Realizes settings left (perform (.runBlock printing loop block)) (Walk.runBlock settings call printing loop block) := by
  apply realizes_perform
  cases block with
  | nil => exact realizes_pure loop
  | cons s rest => exact (run_realized hc loop rest.isEmpty s).bind fun l => runBlock_realized hc l rest
termination_by structural block

theorem runBody_realized (hc : CallsRealized settings left printing call) (loop : Option Loop)
    (body : Option (List Stmt)) :
    Realizes settings left (needed body fun block => perform (.runBlock printing loop block))
      (Walk.runBody settings call printing loop body) := by
  cases body with
  | none => exact realizes_fail _
  | some block => exact runBlock_realized hc loop block
termination_by structural body

theorem runElse_realized (hc : CallsRealized settings left printing call) (loop : Option Loop)
    (block : Option (List Stmt)) :
    Realizes settings left (second loop block fun block => perform (.runBlock printing loop block))
      (Walk.runElse settings call printing loop block) := by
  cases block with
  | none => exact realizes_pure loop
  | some block => exact (runBlock_realized hc loop block).inScope
termination_by structural block

end

/-- What a call comes to where one more call may be under way, once it is known not to be refused. -/
theorem called_realized (hc : CallsRealized settings left printing call) (f : Function) (values : List Value) :
    Realizes settings left (called printing f values) (Walk.callBody settings call printing f values) := by
  unfold called Walk.callBody
  cases f.definition with
  | none => exact realizes_fail _
  | some d =>
    refine (realizes_step (balanced_steps.bindParams d.params values)).bind fun _ => ?_
    refine (runBody_realized hc none d.body).bind fun _ => realizes_judge.bind fun _ => ?_
    exact evaluate_realized hc d.value

/-- The induction is on the calls that are left: the body of a function is a tree of its own, and calls made in it have one
less. -/
theorem callWith_realized (settings : Settings) (printing : Bool) (left : Nat) :
    CallsRealized settings left printing (Walk.callWith settings printing left) := by
  induction left with
  | zero =>
    intro span name f values
    refine ⟨Walk.balanced_throw, fun m _ hl => .perform (.next (.step _ m) ?_)⟩
    rw [if_pos (by omega)]
    exact .step _ m
  | succ left ih =>
    intro span name f values
    have hmade : Realizes settings (left + 1) _ (Walk.callWith settings printing (left + 1) span name f values) :=
      realizes_record.bind fun _ => (called_realized ih f values).inCall
    refine ⟨hmade.balanced, fun m ho hl => .perform (.next (.step _ m) ?_)⟩
    rw [if_neg (by omega)]
    exact hmade.ends m ho hl

theorem statements_realized (block : List Stmt) :
    Realizes settings settings.maxCallDepth.toNat (perform (.statements block)) (Walk.statements settings true block) := by
  induction block with
  | nil => exact realizes_perform (realizes_pure ())
  | cons s rest ih =>
    apply realizes_perform
    simp only [Activity.plan, statement, Walk.statements]
    have hcalls := callWith_realized settings (!settings.script || rest.isEmpty) settings.maxCallDepth.toNat
    have hrest := (run_realized hcalls none rest.isEmpty s).bind fun _ => ih
    cases s.kind? with
    | none => exact (realizes_fail _).bind fun _ => hrest
    | some k => exact realizes_record.bind fun _ => hrest

end Trees

end Plan

namespace Interpreter

/-- What an interpreter answers when the walk of a program has ended. -/
def answer (i : Interpreter) : EStateM.Result Failure Machine Unit → Except Failure (Array String) × Interpreter
  | .ok _ m => (.ok m.output, i.after m)
  | .error e m => (.error e, i.after m)

theorem run_eq_answer (i : Interpreter) (p : Program) :
    i.run p = i.answer (Walk.program i.settings true p i.machine) := by
  unfold Interpreter.run Interpreter.walk
  cases Walk.program i.settings true p i.machine <;> rfl

/-- Every run ends. Whatever the tree and whatever the limits, even below zero: when the activities of a program are performed
one inside the other, the recursion is well founded below each of them, they come to an end and to exactly one, and `run`
answers with it, with a value or an error. -/
theorem run_ends (i : Interpreter) (p : Program) :
    (∀ x, Plan.Begins i.settings (.program p) i.machine x → Acc (Plan.Inside i.settings) x) ∧
    ∃ r, Plan.EndsIn i.settings (.program p) i.machine r ∧
      (∀ r', Plan.EndsIn i.settings (.program p) i.machine r' → r' = r) ∧ i.run p = i.answer r := by
  have hends : Plan.EndsIn i.settings (.program p) i.machine (Walk.program i.settings true p i.machine) := by
    apply Plan.endsIn_bracket
    apply (Plan.statements_realized p.statements).ends
    · simp
    · simp [Interpreter.machine]
  exact ⟨fun x hx => hends.acc hx, _, hends, fun r' h' => hends.unique h', run_eq_answer i p⟩

end Interpreter
end CheckedScript
