import CheckedScript.Proofs.Breaks
import CheckedScript.Proofs.Reach

/-! The passes of a loop. A loop goes on for as long as its condition holds, and stops after the first pass that executed a
break of its own: one that stands in its body and in no loop inside of it. What happens in inner loops and in calls is of no
account. A break does not end the pass in which it is executed; it is counted, and the count is looked at when the
condition has been found to hold again. -/

namespace CheckedScript.Walk

open Loop

/-- The task belongs to the pass in which it is met: it is no pass of another loop, no evaluation and no call. -/
def Task.InPass : Task → Prop
  | run _ _ _ _ _ => True
  | block _ _ _ _ => True
  | _ => False

/-- The second task is met on the way of the first, without leaving the pass. -/
inductive Within (settings : Settings) : Task → Machine → Task → Machine → Prop where
  | here {t m} : Within settings t m t m
  | step {t m t₁ m₁ t₂ m₂} (h : Leads settings t m t₁ m₁) (ht : t₁.InPass) (hr : Within settings t₁ m₁ t₂ m₂) :
      Within settings t m t₂ m₂

/-- The task executes a break of the loop that it stands in. -/
def Executes (settings : Settings) (t : Task) (m : Machine) : Prop :=
  ∃ printing left loop isLast span m', Within settings t m (.run printing left loop isLast (.breakOut span)) m'

section Executes

variable {settings : Settings} {printing isLast : Bool} {left : Nat} {loop : Option Loop} {m : Machine} {t : Task}

theorem executes_of_leads {t₁ : Task} {m₁ : Machine} (h : Leads settings t m t₁ m₁) (ht : t₁.InPass)
    (he : Executes settings t₁ m₁) : Executes settings t m := by
  obtain ⟨p, n, l, b, span, m', hw⟩ := he
  exact ⟨p, n, l, b, span, m', .step h ht hw⟩

/-- What executes a break is a break, or leads to something that does. -/
theorem Executes.cases (h : Executes settings t m) :
    (∃ printing left loop isLast span, t = .run printing left loop isLast (.breakOut span)) ∨
      ∃ t₁ m₁, Leads settings t m t₁ m₁ ∧ t₁.InPass ∧ Executes settings t₁ m₁ := by
  obtain ⟨p, n, l, b, span, m', hw⟩ := h
  cases hw with
  | here => exact Or.inl ⟨p, n, l, b, span, rfl⟩
  | step hl ht hr => exact Or.inr ⟨_, _, hl, ht, p, n, l, b, span, m', hr⟩

theorem executes_break {span : Span} : Executes settings (.run printing left loop isLast (.breakOut span)) m :=
  ⟨_, _, _, _, _, _, .here⟩

theorem not_executes_nil : ¬Executes settings (.block printing left loop []) m := by
  intro h
  rcases h.cases with ⟨_, _, _, _, _, h⟩ | ⟨_, _, h, -, -⟩ <;> cases h

theorem executes_cons {s : Stmt} {rest : List Stmt} {l : Option Loop} {m₁ : Machine}
    (hs : run settings (callWith settings printing left) printing loop rest.isEmpty s m = .ok l m₁) :
    Executes settings (.block printing left loop (s :: rest)) m ↔
      Executes settings (.run printing left loop rest.isEmpty s) m ∨ Executes settings (.block printing left l rest) m₁ := by
  constructor
  · intro h
    rcases h.cases with ⟨_, _, _, _, _, h⟩ | ⟨_, _, h, -, he⟩
    · cases h
    · cases h with
      | head => exact Or.inl he
      | tail hs' =>
        cases hs.symm.trans hs'
        exact Or.inr he
  · rintro (h | h)
    · exact executes_of_leads .head trivial h
    · exact executes_of_leads (.tail hs) trivial h

variable {span : Span} {condition : Expr} {thenBlock : List Stmt} {elseBlock : Option (List Stmt)} {v : Value}
  {l : Option Loop} {m₁ m₂ m₃ : Machine}

theorem executes_then (hc : m.scopes.checkCondition condition = .ok ())
    (hv : evaluate (callWith settings printing left) condition m = .ok v m₁) (ht : v.holds = true)
    (hr : record settings 3 s!"if condition -> {v.shown}" m₁ = .ok () m₂)
    (he : checkElse settings loop elseBlock m₂ = .ok l m₃) :
    Executes settings (.run printing left loop isLast (.branch span condition thenBlock elseBlock)) m ↔
      Executes settings (.block printing left l thenBlock) { m₃ with scopes := m₃.scopes.enter } := by
  constructor
  · intro h
    rcases h.cases with ⟨_, _, _, _, _, h⟩ | ⟨_, _, h, hin, hx⟩
    · cases h
    · cases h with
      | condition hc' => exact hin.elim
      | thenBranch hc' hv' ht' hr' he' =>
        cases hv.symm.trans hv'
        cases hr.symm.trans hr'
        cases he.symm.trans he'
        exact hx
      | elseBranch hc' hv' ht' hr' he' =>
        cases hv.symm.trans hv'
        simp [ht] at ht'
  · exact executes_of_leads (.thenBranch hc hv ht hr he) trivial

theorem executes_else (hc : m.scopes.checkCondition condition = .ok ())
    (hv : evaluate (callWith settings printing left) condition m = .ok v m₁) (ht : v.holds = false)
    (hr : record settings 3 s!"if condition -> {v.shown}" m₁ = .ok () m₂)
    (he : inScope (checkBlock settings loop thenBlock) m₂ = .ok l m₃) :
    Executes settings (.run printing left loop isLast (.branch span condition thenBlock elseBlock)) m ↔
      ∃ block, elseBlock = some block ∧
        Executes settings (.block printing left l block) { m₃ with scopes := m₃.scopes.enter } := by
  constructor
  · intro h
    rcases h.cases with ⟨_, _, _, _, _, h⟩ | ⟨_, _, h, hin, hx⟩
    · cases h
    · cases h with
      | condition hc' => exact hin.elim
      | thenBranch hc' hv' ht' hr' he' =>
        cases hv.symm.trans hv'
        simp [ht] at ht'
      | elseBranch hc' hv' ht' hr' he' =>
        cases hv.symm.trans hv'
        cases hr.symm.trans hr'
        cases he.symm.trans he'
        exact ⟨_, rfl, hx⟩
  · rintro ⟨block, rfl, hx⟩
    exact executes_of_leads (.elseBranch hc hv ht hr he) trivial hx

end Executes

/-- The breaks that a loop counts as executed. -/
def pending? (loop : Option Loop) : Option Int := loop.map (·.pending)

theorem pending?_spend (b : Bool) (loop : Option Loop) : pending? (spend b loop) = pending? loop := by
  cases loop with
  | none => simp
  | some l =>
    simp only [spend]
    split
    · simp only [pending?, Option.map_some, consume]
      split <;> rfl
    · rfl

/-- The task counts the breaks that it executes. -/
def Counts (settings : Settings) (t : Task) (m : Machine) (loop loop' : Option Loop) : Prop :=
  ∃ k : Nat, pending? loop' = (pending? loop).map (· + (k : Int)) ∧ (0 < k ↔ Executes settings t m)

section Counts

variable {settings : Settings} {printing : Bool} {left : Nat}

theorem counts_none {t : Task} {m : Machine} {loop : Option Loop} (h : ¬Executes settings t m) :
    Counts settings t m loop loop :=
  ⟨0, by cases loop <;> simp [pending?], by simp [h]⟩

/-- Only a break and an `if` do something to the loop that they stand in. -/
theorem run_same_loop {call : Caller} (loop : Option Loop) (isLast : Bool) {s : Stmt} (hb : ∀ span, s ≠ .breakOut span)
    (hbr : ∀ span c t e, s ≠ .branch span c t e) :
    Always (run settings call printing loop isLast s) (fun loop' => loop' = loop) fun _ => True := by
  cases s with
  | declare span type name init =>
    refine always_skip fun _ => always_skip fun _ => ?_
    cases init with
    | none => exact always_skip fun _ => always_skip fun _ => always_skip fun _ => always_pure rfl
    | some e =>
      refine always_skip fun _ => always_skip fun _ => always_skip fun _ => ?_
      exact always_skip fun _ => always_pure rfl
  | param span type name => exact always_skip fun _ => always_pure rfl
  | assign span name op e =>
    refine always_skip fun _ => always_skip fun _ => always_skip fun _ => always_skip fun _ => ?_
    exact always_skip fun _ => always_skip fun _ => always_pure rfl
  | call span name args => exact always_skip fun _ => always_skip fun _ => always_pure rfl
  | define span result name params body value => exact always_skip fun _ => always_pure rfl
  | print span operand =>
    refine always_skip fun _ => ?_
    cases printing with
    | false => exact always_pure rfl
    | true =>
      cases operand with
      | none => exact always_skip fun _ => always_pure rfl
      | some e => exact always_skip fun _ => always_skip fun _ => always_pure rfl
  | branch span condition thenBlock elseBlock => exact absurd rfl (hbr _ _ _ _)
  | loop span condition body => exact always_skip fun _ => always_skip fun _ => always_skip fun _ => always_pure rfl
  | breakOut span => exact absurd rfl (hb _)
  | misfit what => exact always_throw trivial

mutual

theorem run_counts (loop : Option Loop) (h : AtMostOne loop) (isLast : Bool) (s : Stmt) (hp : s.Plain) {m m' : Machine}
    {loop' : Option Loop} (hr : run settings (callWith settings printing left) printing loop isLast s m = .ok loop' m') :
    Counts settings (.run printing left loop isLast s) m loop loop' := by
  have leaf : (∀ span, s ≠ .breakOut span) → (∀ span c t e, s ≠ .branch span c t e) →
      Counts settings (.run printing left loop isLast s) m loop loop' := by
    intro hb hbr
    obtain rfl := (run_same_loop loop isLast hb hbr m).ok hr
    refine counts_none fun hx => ?_
    rcases hx.cases with ⟨_, _, _, _, _, h⟩ | ⟨_, _, h, hin, -⟩
    · cases h
      exact hb _ rfl
    · cases h with
      | thenBranch => exact hbr _ _ _ _ rfl
      | elseBranch => exact hbr _ _ _ _ rfl
      | params => exact hp.elim
      | _ => exact hin.elim
  cases s with
  | branch span condition thenBlock elseBlock =>
    simp only [run, bind_ok, judge_ok] at hr
    obtain ⟨_, _, ⟨hc, rfl⟩, v, m₁, hv, _, m₂, hrec, hb⟩ := hr
    cases ht : v.holds with
    | true =>
      simp only [ht, if_true, bind_ok, inScope_ok, pure_ok] at hb
      obtain ⟨l, m₃, he, l', _, ⟨m₄, hrun, rfl⟩, rfl, rfl⟩ := hb
      obtain ⟨rfl, -⟩ := (checkElse_legal settings loop h elseBlock m₂).ok he
      obtain ⟨k, hk, hx⟩ := runBlock_counts _ (h.spend _) thenBlock hp.2.1 hrun
      refine ⟨k, ?_, hx.trans (executes_then hc hv ht hrec he).symm⟩
      rw [afterBranch_eq, pending?_spend, hk, pending?_spend]
    | false =>
      simp only [ht, Bool.false_eq_true, if_false, bind_ok, pure_ok] at hb
      obtain ⟨l, m₃, he, l', m₄, hrun, rfl, rfl⟩ := hb
      obtain ⟨m₅, hc₅, -⟩ := inScope_ok.mp he
      obtain ⟨rfl, -⟩ := (checkBlock_legal settings loop h thenBlock _).ok hc₅
      have hex : Executes settings (.run printing left loop isLast (.branch span condition thenBlock elseBlock)) m ↔ _ :=
        executes_else hc hv ht hrec he
      cases elseBlock with
      | none =>
        simp only [runElse, pure_ok] at hrun
        obtain ⟨rfl, rfl⟩ := hrun
        refine ⟨0, ?_, by simp [hex]⟩
        rw [afterBranch_eq, pending?_spend, pending?_spend]
        cases pending? loop <;> simp
      | some block =>
        simp only [runElse, inScope_ok] at hrun
        obtain ⟨m₆, hrun, rfl⟩ := hrun
        obtain ⟨k, hk, hx⟩ := runBlock_counts _ (h.spend _) block hp.2.2 hrun
        refine ⟨k, ?_, by simp [hex, hx]⟩
        rw [afterBranch_eq, pending?_spend, hk, pending?_spend]
  | breakOut span =>
    simp only [run, bind_ok, judge_ok, pure_ok] at hr
    obtain ⟨_, _, ⟨hc, rfl⟩, rfl, rfl⟩ := hr
    exact ⟨1, by cases loop <;> simp [pending?], by simp [executes_break]⟩
  | _ => exact leaf (by simp) (by simp)
termination_by structural s

theorem runBlock_counts (loop : Option Loop) (h : AtMostOne loop) (block : List Stmt) (hp : Stmt.PlainBlock block)
    {m m' : Machine} {loop' : Option Loop}
    (hr : runBlock settings (callWith settings printing left) printing loop block m = .ok loop' m') :
    Counts settings (.block printing left loop block) m loop loop' := by
  cases block with
  | nil =>
    simp only [runBlock, pure_ok] at hr
    obtain ⟨rfl, rfl⟩ := hr
    exact counts_none not_executes_nil
  | cons s rest =>
    simp only [runBlock, bind_ok] at hr
    obtain ⟨l₁, m₁, hs, hrest⟩ := hr
    have h₁ : AtMostOne l₁ := (h.spend _).congr ((run_spends loop h rest.isEmpty s m).ok hs).1
    obtain ⟨k, hk, hx⟩ := run_counts loop h rest.isEmpty s hp.1 hs
    obtain ⟨k', hk', hx'⟩ := runBlock_counts l₁ h₁ rest hp.2 hrest
    refine ⟨k + k', ?_, ?_⟩
    · rw [hk', hk]
      cases pending? loop <;> simp [Int.add_assoc]
    · rw [executes_cons hs, ← hx, ← hx']
      omega
termination_by structural block

end

end Counts

section Loops

variable (settings : Settings) (printing : Bool) (left : Nat) (condition : Expr) (body : List Stmt)

/-- A pass that ends well: after `done` passes the condition was found to hold in `m`, the body began in `begun`, and the
pass left the state `m'`. -/
def Pass (done : Nat) (m begun m' : Machine) : Prop :=
  ∃ m₁ m₂ l m₃, test (callWith settings printing left) condition m = .ok true m₁ ∧
    record settings 3 s!"while iteration {done + 1}" m₁ = .ok () m₂ ∧ begun = { m₂ with scopes := m₂.scopes.enter } ∧
    runBlock settings (callWith settings printing left) printing (some .fresh) body begun = .ok l m₃ ∧
    m' = { m₃ with scopes := m₃.scopes.leave }

/-- The pass that began in the state executes a break of its loop. -/
def Broken (begun : Machine) : Prop := Executes settings (.block printing left (some .fresh) body) begun

/-- A number of passes that end well and execute no break of their loop. -/
inductive Unbroken : Nat → Machine → Machine → Prop where
  | none {m} : Unbroken 0 m m
  | more {n m m₁ begun m₂} (h : Unbroken n m m₁) (hp : Pass settings printing left condition body n m₁ begun m₂)
      (hb : ¬Broken settings printing left body begun) : Unbroken (n + 1) m m₂

/-- How a loop ends well. -/
inductive Leaves : Machine → Machine → Prop where
  /-- The condition does not hold any more, and no pass executed a break. -/
  | condition {n m m₁ m'} (h : Unbroken settings printing left condition body n m m₁)
      (hn : n ≤ settings.maxIterations.toNat) (ht : test (callWith settings printing left) condition m₁ = .ok false m') :
      Leaves m m'
  /-- The last pass, and no other, executed a break. The condition is evaluated once more, whatever comes of it. -/
  | broken {n m m₁ begun m₂ b m₃ m'} (h : Unbroken settings printing left condition body n m m₁)
      (hn : n + 1 ≤ settings.maxIterations.toNat) (hp : Pass settings printing left condition body n m₁ begun m₂)
      (hb : Broken settings printing left body begun)
      (ht : test (callWith settings printing left) condition m₂ = .ok b m₃)
      (hr : if b then record settings 3 "while loop left by break" m₃ = .ok () m' else m' = m₃) : Leaves m m'

/-- How the passes of a loop at a place end badly. -/
inductive Faults (span : Span) (e : Failure) : Machine → Machine → Prop where
  /-- The condition fails, after passes of which only the last may have executed a break. -/
  | test {n m m₁ m'} (h : Unbroken settings printing left condition body n m m₁)
      (ht : test (callWith settings printing left) condition m₁ = .error e m') : Faults span e m m'
  | testAfterBreak {n m m₁ begun m₂ m'} (h : Unbroken settings printing left condition body n m m₁)
      (hp : Pass settings printing left condition body n m₁ begun m₂) (hb : Broken settings printing left body begun)
      (ht : test (callWith settings printing left) condition m₂ = .error e m') : Faults span e m m'
  /-- A pass fails. -/
  | pass {n m m₁ m₂ m₃ m'} (h : Unbroken settings printing left condition body n m m₁)
      (ht : test (callWith settings printing left) condition m₁ = .ok true m₂)
      (hr : record settings 3 s!"while iteration {n + 1}" m₂ = .ok () m₃)
      (hb : inScope (runBlock settings (callWith settings printing left) printing (some .fresh) body) m₃ = .error e m') :
      Faults span e m m'
  /-- The loop itself is at fault: all passes that it may make ended well without a break, and the condition holds again. -/
  | exhausted {m m₁ m'} (h : Unbroken settings printing left condition body settings.maxIterations.toNat m m₁)
      (ht : test (callWith settings printing left) condition m₁ = .ok true m')
      (he : e = Problem.located (.tooManyIterations settings.maxIterations) span) : Faults span e m m'

end Loops

section Ends

variable {settings : Settings} {printing : Bool} {left : Nat} {condition : Expr} {body : List Stmt} {span : Span}

theorem ends_self {α : Type} (w : Walk α) (m : Machine) :
    Ends w m (fun a m' => w m = .ok a m') (fun e m' => w m = .error e m') :=
  ends_iff.mpr ⟨fun _ _ h => h, fun _ _ h => h⟩

/-- A loop that counts an executed break makes no further pass. -/
theorem ends_iterate_pending {test : Walk Bool} {pass : Option Loop → Walk (Option Loop)} {more done : Nat}
    {loop : Option Loop} {m : Machine} (h : loop.any (0 < ·.pending) = true) {good : Unit → Machine → Prop}
    {bad : Failure → Machine → Prop}
    (hg : ∀ b m₁ m', test m = .ok b m₁ →
      (if b then record settings 3 "while loop left by break" m₁ = .ok () m' else m' = m₁) → good () m')
    (hb : ∀ e m', test m = .error e m' → bad e m') :
    Ends (iterate settings span test pass more done loop) m good bad := by
  have hafter : ∀ b m₁, test m = .ok b m₁ →
      Ends (if b then record settings 3 "while loop left by break" else pure ()) m₁ good bad := by
    intro b m₁ ht
    cases b with
    | false => exact hg false m₁ m₁ ht rfl
    | true =>
      obtain ⟨trace, hr⟩ := record_eq settings 3 "while loop left by break" m₁
      exact ends_of_ok hr (hg true m₁ _ ht hr)
  cases more with
  | zero =>
    rw [iterate_zero, ends_bind]
    refine (ends_self test m).imp (fun b m₁ ht => ?_) hb
    simpa only [h, if_true] using hafter b m₁ ht
  | succ more =>
    rw [iterate_succ, ends_bind]
    refine (ends_self test m).imp (fun b m₁ ht => ?_) hb
    simpa only [h, if_true] using hafter b m₁ ht

/-- The run lemma: from a state that is reached by unbroken passes, with no break counted, the loop leaves or fails. -/
theorem passes_ends (hp : Stmt.PlainBlock body) {n more : Nat} (hn : n + more = settings.maxIterations.toNat)
    {m₀ m : Machine} (h : Unbroken settings printing left condition body n m₀ m) {loop : Option Loop}
    (hl : pending? loop = some 0) :
    Ends (passes settings (callWith settings printing left) printing span condition body more n loop) m
      (fun _ m' => Leaves settings printing left condition body m₀ m')
      (fun e m' => Faults settings printing left condition body span e m₀ m') := by
  induction more generalizing n m loop with
  | zero =>
    obtain ⟨⟨budget, _⟩, rfl, rfl⟩ := Option.map_eq_some_iff.mp hl
    rw [passes, iterate_zero, ends_bind]
    refine (ends_self _ m).imp (fun b m₁ ht => ?_) fun _ _ ht => Faults.test h ht
    obtain rfl : n = settings.maxIterations.toNat := hn
    cases b with
    | false => exact Leaves.condition h (Nat.le_refl _) ht
    | true => exact Faults.exhausted h ht rfl
  | succ more ih =>
    obtain ⟨⟨budget, _⟩, rfl, rfl⟩ := Option.map_eq_some_iff.mp hl
    rw [passes, iterate_succ, ends_bind]
    refine (ends_self _ m).imp (fun b m₁ ht => ?_) fun _ _ ht => Faults.test h ht
    cases b with
    | false => exact Leaves.condition h (by omega) ht
    | true =>
      obtain ⟨trace, hr⟩ := record_eq settings 3 s!"while iteration {n + 1}" m₁
      simp only [if_true, Option.any_some, Int.lt_irrefl, decide_false, Bool.false_eq_true, if_false, Option.map_some]
      rw [ends_bind]
      refine ends_of_ok hr ?_
      rw [ends_bind]
      refine (ends_self _ _).imp (fun l m₃ hb => ?_) fun _ _ hb => Faults.pass h ht hr hb
      obtain ⟨m₂, hrun, rfl⟩ := inScope_ok.mp hb
      have hpass : Pass settings printing left condition body n m _ _ := ⟨m₁, _, l, m₂, ht, hr, rfl, hrun, rfl⟩
      obtain ⟨k, hk, hx⟩ := runBlock_counts _ atMostOne_fresh body hp hrun
      rcases Nat.eq_zero_or_pos k with rfl | hpos
      · have hb : ¬Broken settings printing left body _ := fun hb => absurd (hx.mpr hb) (Nat.lt_irrefl 0)
        exact ih (by omega) (.more h hpass hb) hk
      · obtain ⟨l', rfl, hl'⟩ := Option.map_eq_some_iff.mp hk
        have hb : Broken settings printing left body _ := hx.mp hpos
        have hany : (some l').any (0 < ·.pending) = true := by
          simp only [Option.any_some, hl', fresh, decide_eq_true_eq]
          omega
        exact ends_iterate_pending hany (fun b m₁ m' ht hr => .broken h (by omega) hpass hb ht hr)
          fun e m' ht => .testAfterBreak h hpass hb ht

/-- A loop stops after its own break and nowhere else while its condition holds. If it ends well, it made at most as many
passes as it may make, none but the last executed a break of it, and either the condition was found not to hold or the last
pass executed such a break. If it ends badly, then its condition or its body was refused, or one of them failed on the way, or
the loop is at fault: it made all the passes that it may make, none executed such a break, and the condition held again. -/
theorem loop_stops (hp : Stmt.PlainBlock body) (loop : Option Loop) (isLast : Bool) (m : Machine) :
    Ends (run settings (callWith settings printing left) printing loop isLast (.loop span condition (some body))) m
      (fun loop' m' => loop' = loop ∧ ∃ l m₁, m.scopes.checkCondition condition = .ok () ∧
        inScope (checkBlock settings (some .fresh) body) m = .ok l m₁ ∧
        Leaves settings printing left condition body m₁ m')
      (fun e m' => (m.scopes.checkCondition condition = .error e ∧ m' = m) ∨
        inScope (checkBlock settings (some .fresh) body) m = .error e m' ∨
        ∃ l m₁, inScope (checkBlock settings (some .fresh) body) m = .ok l m₁ ∧
          Faults settings printing left condition body span e m₁ m') := by
  have hrun : run settings (callWith settings printing left) printing loop isLast (.loop span condition (some body)) = do
      judge fun s => s.checkCondition condition
      let _ ← inScope (checkBlock settings (some .fresh) body)
      passes settings (callWith settings printing left) printing span condition body settings.maxIterations.toNat 0
        (some .fresh)
      return loop := rfl
  rw [hrun, ends_bind, ends_judge]
  refine ⟨fun _ hc => ?_, fun e he => Or.inl ⟨he, rfl⟩⟩
  rw [ends_bind]
  refine (ends_self _ m).imp (fun l m₁ hb => ?_) fun e m' he => Or.inr (Or.inl he)
  rw [ends_bind]
  refine (passes_ends hp (Nat.zero_add _) .none rfl).imp (fun _ m' h => ?_) fun e m' h => Or.inr (Or.inr ⟨l, m₁, hb, h⟩)
  exact ⟨rfl, l, m₁, hc, hb, h⟩

/-- The body of `while (b) { while (b) { break; } b = false; }`. -/
def innerBreak : List Stmt :=
  [.loop .zero (.identifier .zero (.text "b")) (some [.breakOut .zero]),
    .assign .zero (.text "b") .set (.literal .zero (.boolean false))]

/-- A state with a global `b` that is true. -/
def holdingTrue : Machine := ⟨⟨some ⟨[⟨.text "b", .boolean, .boolean true, .boolean false⟩], []⟩, [], []⟩, #[], 0, #[]⟩

theorem loop_stops_innerBreak : Stmt.PlainBlock innerBreak ∧
    ∃ m', run .standard (callWith .standard true 0) true none true
        (.loop .zero (.identifier .zero (.text "b")) (some innerBreak)) holdingTrue = .ok none m' ∧
      ∃ l m₁, inScope (checkBlock .standard (some .fresh) innerBreak) holdingTrue = .ok l m₁ ∧
        Leaves .standard true 0 (.identifier .zero (.text "b")) innerBreak m₁ m' := by
  have hp : Stmt.PlainBlock innerBreak := by
    simp [innerBreak, Stmt.PlainBlock, Stmt.Plain, Stmt.PlainBody, Expr.Plain, Value.type?, Data.IsText, AssignOp.Known]
  have hrun : ∃ m', run .standard (callWith .standard true 0) true none true
      (.loop .zero (.identifier .zero (.text "b")) (some innerBreak)) holdingTrue = .ok none m' := ⟨_, rfl⟩
  obtain ⟨m', hm'⟩ := hrun
  obtain ⟨-, l, m₁, -, hb, h⟩ := (loop_stops hp none true holdingTrue).ok hm'
  exact ⟨hp, m', hm', l, m₁, hb, h⟩

end Ends
end CheckedScript.Walk
