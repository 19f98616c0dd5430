import CheckedScript.Proofs.Agreement
import CheckedScript.Proofs.Quiet

/-! Script mode. A script prints what its last statement prints, and a print before that is passed over together with what it
would print. So the run of a script keeps beside the run that prints everything as long as no such print changes a variable:
both have the same variables all along, and where both print they print the same lines. -/

namespace CheckedScript

namespace Walk

section Rules

variable {α β : Type} {b : Bool} {p r : Array String} {m n : Machine} {w w' : Walk α} {k k' : α → Walk β}

/-- The variables of both states are the same. If the second run prints, it has printed after `r` what the first has printed
after `p`; if not, it has printed nothing after `r`. -/
structure Beside (b : Bool) (p r : Array String) (m n : Machine) : Prop where
  scopes : n.scopes = m.scopes
  output : if b then ∃ q, m.output = p ++ q ∧ n.output = r ++ q else n.output = r

theorem Beside.map (h : Beside b p r m n) (f : Scopes → Scopes) :
    Beside b p r { m with scopes := f m.scopes } { n with scopes := f n.scopes } :=
  ⟨congrArg f h.scopes, h.output⟩

theorem Beside.called (h : Beside b p r m n) : Beside b p r (called m) (called n) :=
  ⟨congrArg Scopes.enterCall h.scopes, h.output⟩

/-- If the first walk ends well then so does the second, with the same result and in a state beside that of the first. -/
def Follows (b : Bool) (p r : Array String) (w w' : Walk α) (m n : Machine) : Prop :=
  ∀ a m', w m = .ok a m' → ∃ n', w' n = .ok a n' ∧ Beside b p r m' n'

theorem Follows.bind (h : Follows b p r w w' m n)
    (hk : ∀ a m₁ n₁, w m = .ok a m₁ → Beside b p r m₁ n₁ → Follows b p r (k a) (k' a) m₁ n₁) :
    Follows b p r (w >>= k) (w' >>= k') m n := by
  intro x m' hm'
  obtain ⟨a, m₁, hw, hx⟩ := bind_ok.mp hm'
  obtain ⟨n₁, hn₁, h₁⟩ := h a m₁ hw
  obtain ⟨n', hn', h'⟩ := hk a m₁ n₁ hw h₁ x m' hx
  exact ⟨n', bind_ok.mpr ⟨a, n₁, hn₁, hn'⟩, h'⟩

theorem follows_pure {a : α} (h : Beside b p r m n) : Follows b p r (pure a) (pure a) m n := by
  rintro _ _ ⟨⟩
  exact ⟨n, rfl, h⟩

theorem follows_throw {e : Failure} : Follows b p r (throw e) w' m n := nofun

/-- Both walks are told the same by a rule. -/
theorem follows_judge {rule : Scopes → Except Failure α} (h : Beside b p r m n)
    (hk : ∀ a, rule m.scopes = .ok a → Follows b p r (k a) (k' a) m n) :
    Follows b p r (judge rule >>= k) (judge rule >>= k') m n := by
  intro x m' hm'
  simp only [bind_ok, judge_ok] at hm' ⊢
  obtain ⟨a, _, ⟨ha, rfl⟩, hx⟩ := hm'
  obtain ⟨n', hn', h'⟩ := hk a ha x m' hx
  exact ⟨n', ⟨a, n, ⟨by rw [h.scopes]; exact ha, rfl⟩, hn'⟩, h'⟩

theorem follows_change {f : Scopes → Except Failure Scopes} (h : Beside b p r m n) :
    Follows b p r (change f) (change f) m n := by
  intro u m' hm'
  obtain ⟨s, hs, rfl⟩ := change_ok.mp hm'
  exact ⟨{ n with scopes := s }, change_ok.mpr ⟨s, by rw [h.scopes]; exact hs, rfl⟩, rfl, h.output⟩

theorem follows_compute {span : Span} {v : Except Failure Value} (h : Beside b p r m n) :
    Follows b p r (compute span v) (compute span v) m n := by
  cases v with
  | ok v => exact follows_pure h
  | error e => exact follows_throw

theorem follows_record {settings settings' : Settings} {level : Int} {line : String} (h : Beside b p r m n) :
    Follows b p r (record settings level line) (record settings' level line) m n := by
  intro u m' hm'
  obtain ⟨trace, rfl⟩ := record_ok hm'
  obtain ⟨trace', hn'⟩ := record_eq settings' level line n
  exact ⟨_, hn', h.scopes, h.output⟩

theorem follows_print {line : String} (h : Beside true p r m n) : Follows true p r (print line) (print line) m n := by
  rintro u m' ⟨⟩
  obtain ⟨q, hm, hn⟩ := h.output
  refine ⟨_, rfl, h.scopes, q.push line, ?_, ?_⟩
  · rw [Array.append_push, ← hm]
  · rw [Array.append_push, ← hn]

theorem follows_bracket {before after : Machine → Machine}
    (hafter : ∀ m n, Beside b p r m n → Beside b p r (after m) (after n))
    (h : Follows b p r w w' (before m) (before n)) :
    Follows b p r (bracket before after w) (bracket before after w') m n := by
  intro a m' hm'
  unfold bracket at hm' ⊢
  cases hw : w (before m) with
  | error e m₁ => simp [hw] at hm'
  | ok a' m₁ =>
    simp only [hw, EStateM.Result.ok.injEq] at hm'
    obtain ⟨rfl, rfl⟩ := hm'
    obtain ⟨n₁, hn₁, h₁⟩ := h a' m₁ hw
    exact ⟨after n₁, by rw [hn₁], hafter m₁ n₁ h₁⟩

theorem follows_inScope (h : Follows b p r w w' { m with scopes := m.scopes.enter } { n with scopes := n.scopes.enter }) :
    Follows b p r (inScope w) (inScope w') m n :=
  follows_bracket (fun _ _ h => h.map Scopes.leave) h

theorem follows_inBody
    (h : Follows b p r w w' { m with scopes := m.scopes.enterCall } { n with scopes := n.scopes.enterCall }) :
    Follows b p r (inBody w) (inBody w') m n :=
  follows_bracket (fun _ _ h => h.map Scopes.leaveCall) h

theorem follows_inCall (h : Follows b p r w w' (called m) (called n)) : Follows b p r (inCall w) (inCall w') m n :=
  follows_bracket (fun _ _ h => ⟨h.scopes, h.output⟩) (follows_inBody h)

theorem follows_declare {span : Span} {type : Ty} {name : Data} {value : Option Value} (h : Beside b p r m n) :
    Follows b p r (declare span type name value) (declare span type name value) m n :=
  follows_judge h fun _ _ => (follows_change h).bind fun _ _ _ _ h₁ => follows_pure h₁

theorem follows_define {settings settings' : Settings} {d : Definition} {params params' body body' : Walk (Option Loop)}
    (hparams : ∀ s n, m.scopes.register d = .ok s → Beside b p r { m with scopes := s.enterCall } n →
      Follows b p r params params' { m with scopes := s.enterCall } n)
    (hbody : ∀ m n, Beside b p r m n → Follows b p r body body' m n) (h : Beside b p r m n) :
    Follows b p r (define settings d params body) (define settings' d params' body') m n := by
  refine (follows_change h).bind fun _ m₁ n₁ hw₁ h₁ => Follows.bind ?_ fun _ m₂ n₂ _ h₂ => follows_record h₂
  obtain ⟨s, hs, rfl⟩ := change_ok.mp hw₁
  refine follows_inBody ((hparams s _ hs (h₁.map Scopes.enterCall)).bind fun _ m₂ n₂ _ h₂ => ?_)
  refine (hbody m₂ n₂ h₂).bind fun _ m₃ n₃ _ h₃ => ?_
  rw [← bind_pure (judge _)]
  exact follows_judge h₃ fun _ _ => follows_pure h₃

end Rules

section Check

variable {settings settings' : Settings} {b : Bool} {p r : Array String}

mutual

/-- A check sees the variables and nothing else of the state. -/
theorem check_follows (loop : Option Loop) (isLast : Bool) (s : Stmt) {m n : Machine} (h : Beside b p r m n) :
    Follows b p r (check settings loop isLast s) (check settings' loop isLast s) m n := by
  cases s with
  | declare span type name init =>
    refine follows_judge h fun _ _ => follows_judge h fun _ _ => ?_
    exact (follows_declare h).bind fun _ _ _ _ h₁ => follows_pure h₁
  | param span type name => exact (follows_declare h).bind fun _ _ _ _ h₁ => follows_pure h₁
  | assign span name op e => exact follows_judge h fun _ _ => follows_pure h
  | call span name args => exact follows_judge h fun _ _ => follows_pure h
  | define span result name params body value =>
    refine (follows_define (fun _ _ _ h => checkBlock_follows loop params h) (fun _ _ h => ?_) h).bind
      fun _ _ _ _ h₁ => follows_pure h₁
    cases body with
    | none => exact follows_throw
    | some block => exact checkBlock_follows none block h
  | print span operand => exact follows_judge h fun _ _ => follows_pure h
  | branch span condition thenBlock elseBlock =>
    refine follows_judge h fun _ _ => ?_
    refine (follows_inScope (checkBlock_follows loop thenBlock (h.map Scopes.enter))).bind fun l m₁ n₁ _ h₁ => ?_
    exact (checkElse_follows l elseBlock h₁).bind fun _ _ _ _ h₂ => follows_pure h₂
  | loop span condition body =>
    refine follows_judge h fun _ _ => Follows.bind (follows_inScope ?_) fun _ _ _ _ h₁ => follows_pure h₁
    cases body with
    | none => exact follows_throw
    | some block => exact checkBlock_follows (some .fresh) block (h.map Scopes.enter)
  | breakOut span => exact follows_judge h fun _ _ => follows_pure h
  | misfit what => exact follows_throw
termination_by structural s

theorem checkBlock_follows (loop : Option Loop) (block : List Stmt) {m n : Machine} (h : Beside b p r m n) :
    Follows b p r (checkBlock settings loop block) (checkBlock settings' loop block) m n := by
  cases block with
  | nil => exact follows_pure h
  | cons s rest =>
    exact (check_follows loop rest.isEmpty s h).bind fun l _ _ _ h₁ => checkBlock_follows l rest h₁
termination_by structural block

theorem checkElse_follows (loop : Option Loop) (block : Option (List Stmt)) {m n : Machine} (h : Beside b p r m n) :
    Follows b p r (checkElse settings loop block) (checkElse settings' loop block) m n := by
  cases block with
  | none => exact follows_pure h
  | some block => exact follows_inScope (checkBlock_follows loop block (h.map Scopes.enter))
termination_by structural block

end

end Check

section Run

variable {settings settings' : Settings} {b : Bool} {left : Nat} {p r : Array String}

/-- Calls made by the run that prints everything are followed by the calls of the other run. -/
def CallFollows (settings settings' : Settings) (b : Bool) (left : Nat) : Prop :=
  ∀ p r span name f values m n, Beside b p r m n →
    (b = false → Quiet settings (.call true left span name f values) m) →
    Follows b p r (callWith settings true left span name f values) (callWith settings' b left span name f values) m n

mutual

theorem evaluate_follows (hc : CallFollows settings settings' b left) (e : Expr) {m n : Machine} (h : Beside b p r m n)
    (hq : b = false → Quiet settings (.evaluate true left e) m) :
    Follows b p r (evaluate (callWith settings true left) e) (evaluate (callWith settings' b left) e) m n := by
  cases e with
  | literal span v => exact follows_pure h
  | untyped span what => exact follows_throw
  | identifier span name => exact follows_judge h fun _ _ => follows_pure h
  | binary form span op e₁ e₂ =>
    refine (evaluate_follows hc e₁ h fun hb => (hq hb).of_leads .left).bind fun _ m₁ n₁ hw₁ h₁ => ?_
    refine (evaluate_follows hc e₂ h₁ fun hb => (hq hb).of_leads (.right hw₁)).bind fun _ m₂ n₂ _ h₂ => ?_
    exact follows_compute h₂
  | unary form span op operand =>
    refine (evaluate_follows hc operand h fun hb => (hq hb).of_leads .operand).bind fun _ m₁ n₁ _ h₁ => ?_
    exact follows_compute h₁
  | call span name args =>
    refine follows_judge h fun f hf => ?_
    refine (evaluateAll_follows hc args h fun hb => (hq hb).of_leads (.arguments hf)).bind fun values m₁ n₁ hw₁ h₁ => ?_
    exact hc p r span name f values m₁ n₁ h₁ fun hb => (hq hb).of_leads (.call hf hw₁)
  | missing => exact follows_throw
  | misfit what => exact follows_throw
termination_by structural e

theorem evaluateAll_follows (hc : CallFollows settings settings' b left) (args : List Expr) {m n : Machine}
    (h : Beside b p r m n) (hq : b = false → Quiet settings (.evaluateAll true left args) m) :
    Follows b p r (evaluateAll (callWith settings true left) args) (evaluateAll (callWith settings' b left) args) m n := by
  cases args with
  | nil => exact follows_pure h
  | cons e rest =>
    refine (evaluate_follows hc e h fun hb => (hq hb).of_leads .argument).bind fun _ m₁ n₁ hw₁ h₁ => ?_
    refine (evaluateAll_follows hc rest h₁ fun hb => (hq hb).of_leads (.otherArguments hw₁)).bind fun _ _ _ _ h₂ => ?_
    exact follows_pure h₂
termination_by structural args

end

/-- The passes of a loop are followed if its test and its body are. -/
theorem passes_follows (span : Span) (condition : Expr) (body : List Stmt) (hc : CallFollows settings settings' b left)
    (hbody : ∀ inner m n, Beside b p r m n → (b = false → Quiet settings (.block true left inner body) m) →
      Follows b p r (runBlock settings (callWith settings true left) true inner body)
        (runBlock settings' (callWith settings' b left) b inner body) m n)
    (more done : Nat) (loop : Option Loop) {m n : Machine} (h : Beside b p r m n)
    (hq : b = false → Quiet settings (.passes true left span condition body more done loop) m) :
    Follows b p r (passes settings (callWith settings true left) true span condition body more done loop)
      (passes settings' (callWith settings' b left) b span condition body more done loop) m n := by
  induction more generalizing done loop m n with
  | zero =>
    rw [passes, passes, iterate_zero, iterate_zero]
    have htest := (evaluate_follows hc condition h fun hb => (hq hb).of_leads .test).bind
      fun v _ _ _ h₁ => follows_pure (a := v.holds) h₁
    refine htest.bind fun holds m₁ n₁ _ h₁ => ?_
    cases holds with
    | false => exact follows_pure h₁
    | true =>
      cases loop.any (0 < ·.pending) with
      | true => exact follows_record h₁
      | false => exact follows_throw
  | succ more ih =>
    rw [passes, passes, iterate_succ, iterate_succ]
    have htest := (evaluate_follows hc condition h fun hb => (hq hb).of_leads .test).bind
      fun v _ _ _ h₁ => follows_pure (a := v.holds) h₁
    refine htest.bind fun holds m₁ n₁ hw₁ h₁ => ?_
    cases holds with
    | false => exact follows_pure h₁
    | true =>
      cases hpending : loop.any (0 < ·.pending) with
      | true => exact follows_record h₁
      | false =>
        refine (follows_record h₁).bind fun _ m₂ n₂ hw₂ h₂ => ?_
        have hpass := hbody (loop.map ({ · with budget := 1 })) _ _ (h₂.map Scopes.enter)
          fun hb => (hq hb).of_leads (.pass hw₁ hpending hw₂)
        refine (follows_inScope hpass).bind fun l m₃ n₃ hw₃ h₃ => ?_
        exact ih (done + 1) l h₃ fun hb => (hq hb).of_leads (.again hw₁ hpending hw₂ hw₃)

/-- Where the second run does not print, what the first prints must not matter. -/
theorem print_follows (hc : CallFollows settings settings' b left) (loop : Option Loop) (isLast : Bool) (span : Span)
    (operand : Option Expr) {m n : Machine} (h : Beside b p r m n)
    (hq : b = false → Quiet settings (.run true left loop isLast (.print span operand)) m) :
    Follows b p r (run settings (callWith settings true left) true loop isLast (.print span operand))
      (run settings' (callWith settings' b left) b loop isLast (.print span operand)) m n := by
  refine follows_judge h fun _ he => ?_
  cases b with
  | true =>
    cases operand with
    | none => exact (follows_print h).bind fun _ _ _ _ h₁ => follows_pure h₁
    | some e =>
      refine (evaluate_follows hc e h nofun).bind fun _ m₁ n₁ _ h₁ => ?_
      exact (follows_print h₁).bind fun _ _ _ _ h₂ => follows_pure h₂
  | false =>
    cases operand with
    | none =>
      rintro _ _ ⟨⟩
      exact ⟨n, rfl, h.scopes, h.output⟩
    | some e =>
      intro l m' hm'
      obtain ⟨v, m₁, hv, hm'⟩ := bind_ok.mp hm'
      obtain ⟨_, _, ⟨⟩, ⟨⟩⟩ := bind_ok.mp hm'
      have hsame := hq rfl left loop isLast span e m .here v m₁ hv
      exact ⟨n, rfl, h.scopes.trans hsame.symm, h.output⟩

mutual

/-- What the run that prints everything does the other run does as well, but for the prints. -/
theorem run_follows (hi : settings'.maxIterations = settings.maxIterations) (hc : CallFollows settings settings' b left)
    (loop : Option Loop) (isLast : Bool) (s : Stmt) {m n : Machine} (h : Beside b p r m n)
    (hq : b = false → Quiet settings (.run true left loop isLast s) m) :
    Follows b p r (run settings (callWith settings true left) true loop isLast s)
      (run settings' (callWith settings' b left) b loop isLast s) m n := by
  cases s with
  | declare span type name init =>
    refine follows_judge h fun _ hd => follows_judge h fun _ hu => ?_
    have finish : ∀ value m₁ n₁, Beside b p r m₁ n₁ → Follows b p r (do
        let d ← declare span type name value
        record settings 2 s!"declare {name.shown}: {type.text} = {d.value.shown}"
        return loop) (do
        let d ← declare span type name value
        record settings' 2 s!"declare {name.shown}: {type.text} = {d.value.shown}"
        return loop) m₁ n₁ := by
      intro value m₁ n₁ h₁
      refine (follows_declare h₁).bind fun _ _ _ _ h₂ => ?_
      exact (follows_record h₂).bind fun _ _ _ _ h₃ => follows_pure h₃
    cases init with
    | none => exact finish none m n h
    | some e =>
      refine (evaluate_follows hc e h fun hb => (hq hb).of_leads (.initial hd hu)).bind fun v m₁ n₁ _ h₁ => ?_
      exact finish (some v) m₁ n₁ h₁
  | param span type name =>
    rw [run, run]
    exact check_follows loop isLast (.param span type name) h
  | assign span name op e =>
    refine follows_judge h fun _ hd => ?_
    refine (evaluate_follows hc e h fun hb => (hq hb).of_leads (.assigned hd)).bind fun v m₁ n₁ _ h₁ => ?_
    refine follows_judge h₁ fun d _ => (follows_compute h₁).bind fun new m₂ n₂ _ h₂ => ?_
    refine (follows_change h₂).bind fun _ m₃ n₃ _ h₃ => ?_
    exact (follows_record h₃).bind fun _ _ _ _ h₄ => follows_pure h₄
  | call span name args =>
    refine follows_judge h fun _ hf => ?_
    refine (evaluate_follows hc (.call span name args) h fun hb => (hq hb).of_leads (.called hf)).bind ?_
    exact fun _ _ _ _ h₁ => follows_pure h₁
  | define span result name params body value =>
    refine (follows_define (fun _ _ hs h => ?_) (fun _ _ h => ?_) h).bind fun _ _ _ _ h₁ => follows_pure h₁
    · exact runBlock_follows hi hc loop params h fun hb => (hq hb).of_leads (.params hs)
    · cases body with
      | none => exact follows_throw
      | some block => exact checkBlock_follows none block h
  | print span operand => exact print_follows hc loop isLast span operand h hq
  | branch span condition thenBlock elseBlock =>
    refine follows_judge h fun _ hf => ?_
    refine (evaluate_follows hc condition h fun hb => (hq hb).of_leads (.condition hf)).bind fun v m₁ n₁ hw₁ h₁ => ?_
    refine (follows_record h₁).bind fun _ m₂ n₂ hw₂ h₂ => ?_
    dsimp only
    cases hv : v.holds with
    | true =>
      simp only [if_true]
      refine (checkElse_follows loop elseBlock h₂).bind fun l m₃ n₃ hw₃ h₃ => ?_
      have hblock := runBlock_follows hi hc l thenBlock (h₃.map Scopes.enter)
        fun hb => (hq hb).of_leads (.thenBranch hf hw₁ hv hw₂ hw₃)
      exact (follows_inScope hblock).bind fun _ _ _ _ h₄ => follows_pure h₄
    | false =>
      simp only [Bool.false_eq_true, if_false]
      refine (follows_inScope (checkBlock_follows loop thenBlock (h₂.map Scopes.enter))).bind fun l m₃ n₃ hw₃ h₃ => ?_
      cases elseBlock with
      | none => exact (follows_pure h₃).bind fun _ _ _ _ h₄ => follows_pure h₄
      | some block =>
        have hblock := runBlock_follows hi hc l block (h₃.map Scopes.enter)
          fun hb => (hq hb).of_leads (.elseBranch hf hw₁ hv hw₂ hw₃)
        exact (follows_inScope hblock).bind fun _ _ _ _ h₄ => follows_pure h₄
  | loop span condition body =>
    refine follows_judge h fun _ hf => ?_
    cases body with
    | none => exact Follows.bind (follows_inScope follows_throw) fun _ _ _ hw _ => nomatch hw
    | some block =>
      refine (follows_inScope (checkBlock_follows (some .fresh) block (h.map Scopes.enter))).bind fun l m₁ n₁ hw₁ h₁ => ?_
      have hpasses := passes_follows span condition block hc (fun inner _ _ h₂ hq₂ => runBlock_follows hi hc inner block h₂ hq₂)
        settings.maxIterations.toNat 0 (some .fresh) h₁ fun hb => (hq hb).of_leads (.loop hf hw₁)
      rw [← hi] at hpasses ⊢
      exact hpasses.bind fun _ _ _ _ h₂ => follows_pure h₂
  | breakOut span => exact follows_judge h fun _ _ => follows_pure h
  | misfit what => exact follows_throw
termination_by structural s

theorem runBlock_follows (hi : settings'.maxIterations = settings.maxIterations) (hc : CallFollows settings settings' b left)
    (loop : Option Loop) (block : List Stmt) {m n : Machine} (h : Beside b p r m n)
    (hq : b = false → Quiet settings (.block true left loop block) m) :
    Follows b p r (runBlock settings (callWith settings true left) true loop block)
      (runBlock settings' (callWith settings' b left) b loop block) m n := by
  cases block with
  | nil => exact follows_pure h
  | cons s rest =>
    refine (run_follows hi hc loop rest.isEmpty s h fun hb => (hq hb).of_leads .head).bind fun l m₁ n₁ hw₁ h₁ => ?_
    exact runBlock_follows hi hc l rest h₁ fun hb => (hq hb).of_leads (.tail hw₁)
termination_by structural block

end

theorem bindParams_follows (params : List Stmt) (values : List Value) {m n : Machine} (h : Beside b p r m n) :
    Follows b p r (bindParams params values) (bindParams params values) m n := by
  induction params generalizing values m n with
  | nil => cases values <;> exact follows_pure h
  | cons s params ih =>
    cases values with
    | nil => cases s <;> exact follows_pure h
    | cons v values =>
      cases s with
      | param span type name => exact (follows_declare h).bind fun _ _ _ _ h₁ => ih values h₁
      | declare span type name init => exact (follows_declare h).bind fun _ _ _ _ h₁ => ih values h₁
      | _ => exact follows_throw

/-- Calls are followed, whatever number of calls may still be made. -/
theorem callWith_follows (hi : settings'.maxIterations = settings.maxIterations) (b : Bool) (left : Nat) :
    CallFollows settings settings' b left := by
  induction left with
  | zero => exact fun _ _ _ _ _ _ _ _ _ _ => follows_throw
  | succ left ih =>
    intro p r span name f values m n h hq
    refine (follows_record h).bind fun _ m₁ n₁ hw₁ h₁ => follows_inCall ?_
    cases hd : f.definition with
    | none => exact follows_throw
    | some d =>
      refine (bindParams_follows d.params values h₁.called).bind fun _ m₂ n₂ hw₂ h₂ => ?_
      cases hb : d.body with
      | none => exact Follows.bind follows_throw fun _ _ _ hw _ => nomatch hw
      | some body =>
        refine (runBlock_follows hi ih none body h₂ fun hb' => (hq hb').of_leads (.body hd hb hw₁ hw₂)).bind
          fun _ m₃ n₃ hw₃ h₃ => ?_
        refine follows_judge h₃ fun _ hreturn => ?_
        exact evaluate_follows ih d.value h₃ fun hb' => (hq hb').of_leads (.result hd hb hw₁ hw₂ hw₃ hreturn)

end Run

/-- Runs the statements of the outermost level, which all print or all do not. -/
def runAll (settings : Settings) (printing : Bool) : List Stmt → Walk Unit
  | [] => return ()
  | s :: rest => do
    match s.kind? with
    | none => throw (.escape .notANode)
    | some k => record settings 1 s!"statement {k.label} at {s.span.text}"
    let _ ← run settings (caller settings printing) printing none rest.isEmpty s
    runAll settings printing rest

/-- Outside of a loop it is of no account whether a statement is the last one. -/
theorem run_isLast (settings : Settings) (call : Caller) (printing isLast isLast' : Bool) (s : Stmt) :
    run settings call printing none isLast s = run settings call printing none isLast' s := by
  cases s <;> rfl

/-- Without script mode everything prints. -/
theorem statements_eq_runAll {settings : Settings} (h : settings.script = false) (block : List Stmt) :
    statements settings true block = runAll settings true block := by
  induction block with
  | nil => rfl
  | cons s rest ih =>
    cases hk : s.kind? <;> simp only [statements, runAll, hk, h, Bool.not_false, Bool.true_or, if_true, ih]

/-- The last statement prints, and those before it do so without script mode. -/
theorem statements_concat (settings : Settings) (init : List Stmt) (last : Stmt) :
    statements settings true (init ++ [last]) =
      (do runAll settings (!settings.script) init; runAll settings true [last]) := by
  induction init with
  | nil =>
    cases hk : last.kind? <;>
      simp only [List.nil_append, statements, runAll, hk, List.isEmpty_nil, Bool.or_true, if_true, pure_bind]
  | cons s rest ih =>
    have hlast : (rest ++ [last]).isEmpty = false := by simp
    simp only [List.cons_append, statements, ih, if_true, hlast, Bool.or_false]
    rw [run_isLast settings _ _ false rest.isEmpty s]
    generalize runAll settings true [last] = final
    cases hk : s.kind? <;> simp only [runAll, hk, bind_assoc]

/-- The statements of the outermost level are followed by those of a run with the same limits. -/
theorem runAll_follows (settings settings' : Settings) (hs : settings.script = false)
    (hi : settings'.maxIterations = settings.maxIterations) (hd : settings'.maxCallDepth = settings.maxCallDepth)
    (b : Bool) (block : List Stmt) {p r : Array String} {m n : Machine} (h : Beside b p r m n)
    (hq : b = false → Quiet settings (.statements block) m) :
    Follows b p r (runAll settings true block) (runAll settings' b block) m n := by
  induction block generalizing m n with
  | nil => exact follows_pure h
  | cons s rest ih =>
    rw [runAll, runAll]
    cases hk : s.kind? with
    | none => exact Follows.bind follows_throw fun _ _ _ hw _ => nomatch hw
    | some k =>
      refine (follows_record h).bind fun _ m₁ n₁ hw₁ h₁ => ?_
      have hfirst (hb : b = false) :
          Quiet settings (.run true settings.maxCallDepth.toNat none rest.isEmpty s) m₁ := by
        have hstep := (hq hb).of_leads (.first hk hw₁)
        rwa [hs, Bool.not_false, Bool.true_or] at hstep
      have hrun := run_follows hi (callWith_follows hi b settings.maxCallDepth.toNat) none rest.isEmpty s h₁ hfirst
      unfold caller
      rw [hd]
      refine hrun.bind fun l m₂ n₂ hw₂ h₂ => ih h₂ fun hb => (hq hb).of_leads (.next (l := l) hk hw₁ ?_)
      rw [hs, Bool.not_false, Bool.true_or]
      exact hw₂

end Walk

/-- A program that prints no call before its last statement is quiet up to there. -/
theorem Program.Plain.quiet {p : Program} (hp : p.Plain) (hc : Stmt.printsCallBlock p.statements.dropLast = false)
    (settings : Settings) : Walk.Quiet settings (.statements p.statements.dropLast) Interpreter.start := by
  refine Walk.quiet_of_calm ⟨fun s hs => hp s (List.dropLast_subset _ hs), hc⟩ ⟨?_, ?_⟩
  · simp [Interpreter.start]
  · simp [Interpreter.start, Scopes.empty]

/-- Script mode filters the output, and does nothing else, for programs in which no print before the last statement changes a
variable by what it prints. If such a program runs to its end then so do the program without its last statement and the
script; and the script prints what is left of the output when that of the shorter program is taken from its front. -/
theorem run_script_of_run (settings : Settings) (dest : Destination) {p : Program} (hne : p.statements ≠ [])
    {output : Array String} (hr : ((Interpreter.new { settings with script := false } dest).run p).1 = .ok output)
    (hq : Walk.Quiet { settings with script := false } (.statements p.statements.dropLast) Interpreter.start) :
    ∃ before rest,
      ((Interpreter.new { settings with script := false } dest).run { p with statements := p.statements.dropLast }).1 =
        .ok before ∧
      output = before ++ rest ∧ ((Interpreter.new { settings with script := true } dest).run p).1 = .ok rest := by
  have hsplit := List.dropLast_concat_getLast hne
  obtain ⟨m, hm, rfl⟩ := Interpreter.new_run_ok.mp hr
  rw [← hsplit, Walk.statements_concat] at hm
  obtain ⟨_, m₁, h₁, h₂⟩ := Walk.bind_ok.mp hm
  have hinit := Walk.runAll_follows { settings with script := false } { settings with script := true } rfl rfl rfl false
    p.statements.dropLast (p := #[]) (r := #[]) (m := Interpreter.start) (n := Interpreter.start) ⟨rfl, rfl⟩ fun _ => hq
  obtain ⟨n₁, hn₁, hb₁⟩ := hinit () m₁ h₁
  -- nothing was printed by the script so far, so what it prints from here on is all of its output
  have hsilent : n₁.output = #[] := hb₁.output
  have hbeside : Walk.Beside true m₁.output #[] m₁ n₁ := ⟨hb₁.scopes, #[], by simp, by simp [hsilent]⟩
  have hlast := Walk.runAll_follows { settings with script := false } { settings with script := true } rfl rfl rfl true
    [p.statements.getLast hne] hbeside nofun
  obtain ⟨n₂, hn₂, hb₂⟩ := hlast () m h₂
  obtain ⟨rest, hm₂, hrest⟩ := hb₂.output
  refine ⟨m₁.output, rest, Interpreter.new_run_ok.mpr ⟨m₁, ?_, rfl⟩, hm₂, Interpreter.new_run_ok.mpr ⟨n₂, ?_, ?_⟩⟩
  · rw [Walk.statements_eq_runAll rfl]
    exact h₁
  · rw [← hsplit, Walk.statements_concat]
    exact Walk.bind_ok.mpr ⟨(), n₁, hn₁, hn₂⟩
  · simpa using hrest

/-- A function that changes a global and prints, called in a statement of its own. -/
def assigning : String :=
  "boolean g; def boolean f(boolean x) \x7b g = x; print(x); return x; \x7d print(g); f(!g); print(g);"

theorem run_script_of_run_assigning : ∃ p, Program.parse assigning = .ok p ∧ p.statements ≠ [] ∧
    ((Interpreter.new .standard .stream).run p).1 = .ok #["false", "true", "true"] ∧
    Walk.Quiet .standard (.statements p.statements.dropLast) Interpreter.start ∧
    ∃ before rest,
      ((Interpreter.new .standard .stream).run { p with statements := p.statements.dropLast }).1 = .ok before ∧
      #["false", "true", "true"] = before ++ rest ∧
      ((Interpreter.new { Settings.standard with script := true } .stream).run p).1 = .ok rest := by
  obtain ⟨p, hp, hne, hr, hc⟩ := exists_of_parse assigning rfl
    (fun p => p.statements ≠ [] ∧
      ((Interpreter.new .standard .stream).run p).1.toOption = some #["false", "true", "true"] ∧
      Stmt.printsCallBlock p.statements.dropLast = false) (by decide +kernel)
  have hr := eq_ok_of_toOption hr
  have hq := (Program.plain_of_parse hp).quiet hc .standard
  exact ⟨p, hp, hne, hr, hq, run_script_of_run .standard .stream hne hr hq⟩

/-- A print of a call that changes a global, and a print of the global. -/
def printsChange : String :=
  "boolean g = false; def boolean f() \x7b g = true; return g; \x7d print(f()); print(g);"

/-- Script mode changes the last line: the call is passed over with its print. -/
theorem run_script_printsChange : ∃ p, Program.parse printsChange = .ok p ∧ p.statements ≠ [] ∧
    ((Interpreter.new .standard .stream).run p).1 = .ok #["true", "true"] ∧
    ((Interpreter.new .standard .stream).run { p with statements := p.statements.dropLast }).1 = .ok #["true"] ∧
    ((Interpreter.new { Settings.standard with script := true } .stream).run p).1 = .ok #["false"] := by
  obtain ⟨p, hp, hne, hr, hi, hs⟩ := exists_of_parse printsChange rfl
    (fun p => p.statements ≠ [] ∧ ((Interpreter.new .standard .stream).run p).1.toOption = some #["true", "true"] ∧
      ((Interpreter.new .standard .stream).run { p with statements := p.statements.dropLast }).1.toOption =
        some #["true"] ∧
      ((Interpreter.new { Settings.standard with script := true } .stream).run p).1.toOption = some #["false"])
    (by decide +kernel)
  exact ⟨p, hp, hne, eq_ok_of_toOption hr, eq_ok_of_toOption hi, eq_ok_of_toOption hs⟩

end CheckedScript
