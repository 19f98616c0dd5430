import CheckedScript.Proofs.Discipline
import CheckedScript.Proofs.States

/-! Disciplines along a run. A task whose trees and arguments keep to a discipline hands a state that does over only to tasks of
this kind, and every state that it goes through keeps to the discipline: between its steps, inside a call whose parameters are
being bound, and in a block that is only looked at. -/

namespace CheckedScript.Discipline

open Walk

variable {D : Discipline} {settings : Settings}

/-- What the task is about keeps to the discipline. -/
def Takes (D : Discipline) : Task → Prop
  | .statements list | .block _ _ _ list => ∀ s ∈ list, D.Admits s
  | .run _ _ _ _ s => D.Admits s
  | .passes _ _ span condition body _ _ _ => D.Place span ∧ condition.Every D.expr ∧ ∀ s ∈ body, D.Admits s
  | .evaluate _ _ e => e.Every D.expr
  | .evaluateAll _ _ args => ∀ e ∈ args, e.Every D.expr
  | .call _ _ span _ f values => D.Place span ∧ D.Owns f ∧ ∀ v ∈ values, D.value v

section Walks

variable {printing : Bool} {left : Nat} {loop : Option Loop}

theorem keeps_value {e : Expr} (h : e.Every D.expr) : D.Keeps (evaluate (callWith settings printing left) e) D.value :=
  keeps_evaluate (callKeeps_callWith left) h

theorem keeps_values {args : List Expr} (h : ∀ e ∈ args, e.Every D.expr) :
    D.Keeps (evaluateAll (callWith settings printing left) args) fun values => ∀ v ∈ values, D.value v :=
  keeps_evaluateAll fun e he => keeps_value (h e he)

theorem keeps_statement {s : Stmt} (h : D.Admits s) (isLast : Bool) :
    D.Keeps (run settings (callWith settings printing left) printing loop isLast s) fun _ => True :=
  keeps_run (callKeeps_callWith left) h loop isLast

theorem keeps_block {list : List Stmt} (h : ∀ s ∈ list, D.Admits s) :
    D.Keeps (runBlock settings (callWith settings printing left) printing loop list) fun _ => True :=
  keeps_runBlock fun s hs loop isLast => keeps_run (callKeeps_callWith left) (h s hs) loop isLast

theorem keeps_looked {list : List Stmt} (h : ∀ s ∈ list, D.Admits s) :
    D.Keeps (checkBlock settings loop list) fun _ => True :=
  keeps_checkBlock fun s hs loop isLast => keeps_check (h s hs) loop isLast

theorem keeps_task {t : Task} (h : D.Takes t) : D.Keeps (t.walk settings) fun _ => True := by
  have forget {α : Type} {w : Walk α} {P : α → Prop} (hw : D.Keeps w P) :
      D.Keeps (do let _ ← w) fun _ => True := hw.bind fun _ _ => keeps_pure trivial
  cases t with
  | statements list => exact keeps_statements true h
  | run printing left loop isLast s => exact forget (keeps_statement h isLast)
  | block printing left loop list => exact forget (keeps_block h)
  | passes printing left span condition body more done loop =>
    exact keeps_iterate h.1 (keeps_test (callKeeps_callWith left) h.2.1) (fun _ => keeps_inScope (keeps_block h.2.2)) _ _ _
  | evaluate printing left e => exact forget (keeps_value h)
  | evaluateAll printing left args => exact forget (keeps_values h)
  | call printing left span name f values => exact forget (callKeeps_callWith left span name f values h.1 h.2.1 h.2.2)

end Walks

section Tasks

variable {t t' : Task} {m m' n : Machine}

theorem kept_of_record {level : Int} {line : String} {u : Unit} (hm : D.Kept m.scopes)
    (hr : record settings level line m = .ok u n) : D.Kept n.scopes := (keeps_record.ok hm hr).2

/-- The state in which the branches of an `if` are come to. -/
theorem kept_at_branch {printing : Bool} {left : Nat} {condition : Expr} (he : condition.Every D.expr)
    (hm : D.Kept m.scopes) {v : Value} {m₁ : Machine} {line : String}
    (hv : evaluate (callWith settings printing left) condition m = .ok v m₁)
    (hr : record settings 3 line m₁ = .ok () n) : D.Kept n.scopes :=
  kept_of_record ((keeps_value he).ok hm hv).2 hr

/-- The state in which a pass over the body of a loop begins. -/
theorem kept_at_pass {printing : Bool} {left : Nat} {condition : Expr} (he : condition.Every D.expr)
    (hm : D.Kept m.scopes) {b : Bool} {m₁ : Machine} {line : String}
    (ht : test (callWith settings printing left) condition m = .ok b m₁)
    (hr : record settings 3 line m₁ = .ok () n) : D.Kept n.scopes :=
  kept_of_record ((keeps_test (callKeeps_callWith left) he).ok hm ht).2 hr

/-- The state in which the body of a called function begins, or some of its parameters have their values. -/
theorem kept_at_body {params : List Stmt} (hp : ∀ p ∈ params, p.IsParam ∧ D.Place p.span) {values : List Value}
    (hv : ∀ v ∈ values, D.value v) (hm : D.Kept m.scopes) {m₁ : Machine} {line : String}
    (hr : record settings 3 line m = .ok () m₁) (hb : bindParams params values (called m₁) = .ok () n) : D.Kept n.scopes :=
  ((keeps_bindParams hp hv).ok (kept_of_record hm hr).enterCall hb).2

/-- What a task hands over, in one step. -/
theorem Takes.leads (ht : D.Takes t) (hm : D.Kept m.scopes) (h : Leads settings t m t' m') :
    D.Takes t' ∧ D.Kept m'.scopes := by
  cases h with
  | first hk hr => exact ⟨ht _ (.head _), kept_of_record hm hr⟩
  | next hk hr hs =>
    refine ⟨fun s hs => ht s (.tail _ hs), ?_⟩
    exact ((keeps_statement (ht _ (.head _)) _).ok (kept_of_record hm hr) hs).2
  | head => exact ⟨ht _ (.head _), hm⟩
  | tail hs => exact ⟨fun s hs => ht s (.tail _ hs), ((keeps_statement (ht _ (.head _)) _).ok hm hs).2⟩
  | initial | assigned | printed | condition => exact ⟨ht.expr (.head _), hm⟩
  | called => exact ⟨Expr.every_iff.mpr ⟨D.call ht.self, fun e he => ht.expr he⟩, hm⟩
  | params hs => exact ⟨fun s hs => ht.child (List.mem_append_left _ hs), (hm.register hs ht).enterCall⟩
  | thenBranch hc hv htrue hr he =>
    have hm₂ := kept_at_branch (ht.expr (.head _)) hm hv hr
    refine ⟨fun s hs => ht.child (List.mem_append_left _ hs), ((keeps_checkElse fun s hs loop isLast => ?_).ok hm₂ he).2.enter⟩
    exact keeps_check (ht.child (List.mem_append_right _ hs)) loop isLast
  | elseBranch hc hv hfalse hr he =>
    have hm₂ := kept_at_branch (ht.expr (.head _)) hm hv hr
    refine ⟨fun s hs => ht.child (List.mem_append_right _ hs), ?_⟩
    exact ((keeps_inScope (keeps_looked fun s hs => ht.child (List.mem_append_left _ hs))).ok hm₂ he).2.enter
  | loop hc hb =>
    refine ⟨⟨D.at_stmt ht.self, ht.expr (.head _), fun s hs => ht.child hs⟩, ?_⟩
    exact ((keeps_inScope (keeps_looked fun s hs => ht.child hs)).ok hm hb).2
  | test => exact ⟨ht.2.1, hm⟩
  | pass htest hp hr => exact ⟨ht.2.2, (kept_at_pass ht.2.1 hm htest hr).enter⟩
  | again htest hp hr hb =>
    exact ⟨ht, ((keeps_inScope (keeps_block ht.2.2)).ok (kept_at_pass ht.2.1 hm htest hr) hb).2⟩
  | left => exact ⟨Expr.Every.child ht (.head _), hm⟩
  | right hv => exact ⟨Expr.Every.child ht (.tail _ (.head _)), ((keeps_value (Expr.Every.child ht (.head _))).ok hm hv).2⟩
  | operand => exact ⟨Expr.Every.child ht (.head _), hm⟩
  | arguments hf => exact ⟨fun e he => Expr.Every.child ht he, hm⟩
  | call hf hv =>
    obtain ⟨hvalues, hm'⟩ := (keeps_values fun e he => Expr.Every.child ht he).ok hm hv
    exact ⟨⟨D.at_expr ht.self, hm.resolve hf, hvalues⟩, hm'⟩
  | argument => exact ⟨ht _ (.head _), hm⟩
  | otherArguments hv => exact ⟨fun e he => ht e (.tail _ he), ((keeps_value (ht _ (.head _))).ok hm hv).2⟩
  | body hd hb hr hp =>
    have hadmits := ht.2.1 _ hd
    refine ⟨fun s hs => hadmits.child (List.mem_append_right _ (by rw [hb]; exact hs)), ?_⟩
    exact kept_at_body hadmits.params ht.2.2 hm hr hp
  | result hd hb hr hp hs hc =>
    have hadmits := ht.2.1 _ hd
    have hm₂ := kept_at_body hadmits.params ht.2.2 hm hr hp
    refine ⟨hadmits.expr (.head _), ((keeps_block fun s hs => ?_).ok hm₂ hs).2⟩
    exact hadmits.child (List.mem_append_right _ (by rw [hb]; exact hs))

theorem Takes.reaches (ht : D.Takes t) (hm : D.Kept m.scopes) (h : Reaches settings t m t' m') :
    D.Takes t' ∧ D.Kept m'.scopes := by
  induction h with
  | here => exact ⟨ht, hm⟩
  | step hl _ ih =>
    obtain ⟨ht₁, hm₁⟩ := ht.leads hm hl
    exact ih ht₁ hm₁

/-- What is looked at keeps to the discipline. -/
def Looks (D : Discipline) : Inspection → Prop
  | .statement _ _ s => D.Admits s
  | .block _ list | .framed _ list => ∀ s ∈ list, D.Admits s

theorem keeps_inspection {i : Inspection} (h : D.Looks i) : D.Keeps (i.walk settings) fun _ => True := by
  cases i with
  | statement loop isLast s => exact keeps_check h loop isLast
  | block loop list => exact keeps_looked h
  | framed loop list => exact keeps_inScope (keeps_looked h)

theorem kept_of_inspects {i : Inspection} (h : Inspects settings i m n) (hi : D.Looks i) (hm : D.Kept m.scopes) :
    D.Kept n.scopes := by
  induction h with
  | begun => exact hm
  | ended h => exact ((keeps_inspection hi).ok hm h).2
  | failed h => exact ((keeps_inspection hi).error hm h).2
  | inside _ ih => exact ih hi hm.enter
  | head _ ih => exact ih (hi _ (.head _)) hm
  | tail hs _ ih => exact ih (fun s hs => hi s (.tail _ hs)) ((keeps_check (hi _ (.head _)) _ _).ok hm hs).2
  | thenBranch _ _ ih => exact ih (fun s hs => hi.child (List.mem_append_left _ hs)) hm
  | elseBranch _ ht _ ih =>
    refine ih (fun s hs => hi.child (List.mem_append_right _ hs)) ?_
    exact ((keeps_inScope (keeps_looked fun s hs => hi.child (List.mem_append_left _ hs))).ok hm ht).2
  | body _ _ ih => exact ih (fun s hs => hi.child hs) hm

/-- Every state that a task goes through keeps to the discipline. -/
theorem Takes.visits (ht : D.Takes t) (hm : D.Kept m.scopes) (h : Visits settings t m n) : D.Kept n.scopes := by
  induction h with
  | begun => exact hm
  | ended h => exact ((keeps_task ht).ok hm h).2
  | failed h => exact ((keeps_task ht).error hm h).2
  | within h _ ih =>
    obtain ⟨ht', hm'⟩ := ht.leads hm h
    exact ih ht' hm'
  | elseBranch hc hv htrue hr hn =>
    have hm₂ := kept_at_branch (ht.expr (.head _)) hm hv hr
    exact kept_of_inspects hn (fun s hs => ht.child (List.mem_append_right _ hs)) hm₂
  | thenBranch hc hv hfalse hr hn =>
    have hm₂ := kept_at_branch (ht.expr (.head _)) hm hv hr
    exact kept_of_inspects hn (fun s hs => ht.child (List.mem_append_left _ hs)) hm₂
  | loopBody hc hn => exact kept_of_inspects hn (fun s hs => ht.child hs) hm
  | registered hs => exact hm.register hs ht
  | definition hs hp hn =>
    have hparams := (keeps_block fun s hs => ht.child (List.mem_append_left _ hs)).ok (hm.register hs ht).enterCall hp
    exact kept_of_inspects hn (fun s hs => ht.child (List.mem_append_right _ hs)) hparams.2
  | bound hd hr hp =>
    have hadmits := ht.2.1 _ hd
    refine kept_at_body (fun p hp => ?_) (fun v hv => ?_) hm hr hp
    · exact hadmits.params p (List.mem_of_mem_take hp)
    · exact ht.2.2 v (List.mem_of_mem_take hv)

end Tasks

end CheckedScript.Discipline
