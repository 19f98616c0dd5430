import CheckedScript.Proofs.Checking

/-! Breaks and the budget of their loop. A break needs a loop with budget left, and an `if` that ends in a break on both sides
uses the budget up, so what a walk does to the budget is read off the statement alone. A check that ends well shows that
the statement is legal: no break comes after such an `if` in the order in which checks go, the first branch before the
second. With another loop around it, a legal statement is then refused at a break only if it has one and the loop has no
budget left. -/

namespace CheckedScript

/-- A problem with the place of a break. -/
def Problem.IsBreak : Problem → Prop
  | breakOutsideLoop | breakAfterBreak | breakNotLast => True
  | _ => False

def Failure.IsBreak : Failure → Prop
  | error e => e.problem.IsBreak
  | escape _ => False

namespace Stmt

mutual

/-- Does the statement hold a break of the loop that it stands in? -/
def breaks : Stmt → Bool
  | branch _ _ thenBlock elseBlock => breaksBlock thenBlock || breaksElse elseBlock
  | breakOut _ => true
  | _ => false

def breaksBlock : List Stmt → Bool
  | [] => false
  | s :: rest => s.breaks || breaksBlock rest

def breaksElse : Option (List Stmt) → Bool
  | none => false
  | some block => breaksBlock block

end

mutual

/-- Does the statement hold an `if`, in the loop that it stands in, that ends in a break on both sides? -/
def spends : Stmt → Bool
  | branch _ _ thenBlock elseBlock =>
    spendsBlock thenBlock || spendsElse elseBlock || (endsInBreak thenBlock && elseBlock.any endsInBreak)
  | _ => false

def spendsBlock : List Stmt → Bool
  | [] => false
  | s :: rest => s.spends || spendsBlock rest

def spendsElse : Option (List Stmt) → Bool
  | none => false
  | some block => spendsBlock block

end

mutual

/-- Every break stands where a check lets it stand, if the loop around the statement has budget left. -/
def Legal (isLast : Bool) : Stmt → Prop
  | branch _ _ thenBlock elseBlock =>
    LegalBlock thenBlock ∧ LegalElse elseBlock ∧ (spendsBlock thenBlock → breaksElse elseBlock = false)
  | loop _ _ body => LegalElse body
  | breakOut _ => isLast
  | _ => True

def LegalBlock : List Stmt → Prop
  | [] => True
  | s :: rest => s.Legal rest.isEmpty ∧ LegalBlock rest ∧ (s.spends → breaksBlock rest = false)

def LegalElse : Option (List Stmt) → Prop
  | none => True
  | some block => LegalBlock block

end

end Stmt

namespace Loop

variable {loop loop' : Option Loop} {b c : Bool}

def budget? (loop : Option Loop) : Option Int := loop.map (·.budget)

/-- There is a loop, and it has budget left. -/
def Ready (loop : Option Loop) : Prop := ∃ n ∈ budget? loop, 0 < n

/-- A loop has a budget of one break at most. -/
def AtMostOne (loop : Option Loop) : Prop := ∀ n ∈ budget? loop, n ≤ 1

/-- Takes one from the budget if `b` says so. -/
def spend (b : Bool) (loop : Option Loop) : Option Loop := if b then loop.map consume else loop

@[simp] theorem spend_none : spend b none = none := by simp [spend]

theorem spend_false : spend false loop = loop := rfl

theorem budget?_spend (b : Bool) (loop : Option Loop) :
    budget? (spend b loop) = (budget? loop).map fun n => if b ∧ 0 < n then n - 1 else n := by
  cases loop with
  | none => simp [budget?]
  | some l =>
    cases b with
    | false => simp [budget?, spend]
    | true =>
      simp only [budget?, spend, consume, if_true, Option.map_some, true_and, Option.some.injEq]
      split <;> rfl

theorem budget?_spend_congr (h : budget? loop = budget? loop') : budget? (spend b loop) = budget? (spend b loop') := by
  rw [budget?_spend, budget?_spend, h]

theorem spend_spend (h : AtMostOne loop) : spend c (spend b loop) = spend (b || c) loop := by
  cases loop with
  | none => simp
  | some l =>
    have hl : l.budget ≤ 1 := h l.budget rfl
    cases b with
    | false => rfl
    | true =>
      cases c with
      | false => rfl
      | true =>
        simp only [spend, if_true, Option.map_some, Bool.or_self, Option.some.injEq]
        unfold consume
        split
        · rw [if_neg (by simp only; omega)]
        · rfl

theorem AtMostOne.congr (h : AtMostOne loop) (hb : budget? loop' = budget? loop) : AtMostOne loop' := by
  unfold AtMostOne
  rw [hb]
  exact h

theorem AtMostOne.spend (h : AtMostOne loop) (b : Bool) : AtMostOne (spend b loop) := by
  intro n hn
  rw [budget?_spend] at hn
  obtain ⟨k, hk, rfl⟩ := Option.map_eq_some_iff.mp hn
  have := h k hk
  split <;> omega

/-- Once one break was taken from the budget, no other is left. -/
theorem ready_spend (h : AtMostOne loop) : Ready (Loop.spend b loop) ↔ Ready loop ∧ b = false := by
  simp only [Ready, budget?_spend, Option.mem_def, Option.map_eq_some_iff]
  constructor
  · rintro ⟨n, ⟨k, hk, rfl⟩, hn⟩
    have hle := h k hk
    cases b with
    | false => exact ⟨⟨k, hk, by simpa using hn⟩, rfl⟩
    | true =>
      exfalso
      simp only [true_and] at hn
      split at hn <;> omega
  · rintro ⟨⟨k, hk, hn⟩, rfl⟩
    exact ⟨k, ⟨k, hk, by simp⟩, hn⟩

theorem Ready.congr (h : Ready loop) (hb : budget? loop' = budget? loop) : Ready loop' := by
  unfold Ready
  rw [hb]
  exact h

/-- What holds a break and comes after a legal statement found the budget as that statement did. -/
theorem not_ready_before {breaks : Bool} (hb : budget? loop' = budget? (Loop.spend b loop)) (hl : b → breaks = false)
    (h : breaks) (hr : ¬Ready loop') : ¬Ready loop := by
  cases b with
  | false => exact fun hready => hr (hready.congr hb)
  | true => exact absurd (hl rfl) (by simp [h])

theorem not_ready_none : ¬Ready none := by simp [Ready, budget?]

theorem ready_reset (h : loop.isSome) : Ready (loop.map ({ · with budget := 1 })) := by
  obtain ⟨l, rfl⟩ := Option.isSome_iff_exists.mp h
  exact ⟨1, rfl, by decide⟩

theorem atMostOne_reset : AtMostOne (loop.map ({ · with budget := 1 })) := by
  intro n hn
  cases loop with
  | none => cases hn
  | some l =>
    cases hn
    exact Int.le_refl 1

theorem ready_fresh : Ready (some fresh) := ⟨1, rfl, by decide⟩

theorem atMostOne_fresh : AtMostOne (some fresh) := by
  intro n hn
  cases hn
  decide

theorem atMostOne_none : AtMostOne none := by simp [AtMostOne, budget?]

theorem checkBreak_ok {isLast : Bool} {span : Span} :
    checkBreak loop isLast span = .ok () ↔ Ready loop ∧ isLast = true := by
  cases loop with
  | none => simp [checkBreak, Ready, budget?]
  | some l =>
    simp only [checkBreak, Ready, budget?, Option.map_some, Option.mem_def, Option.some.injEq, exists_eq_left']
    split
    · simp only [reduceCtorEq, false_iff, not_and]
      omega
    · cases isLast with
      | false => simp
      | true =>
        simp only [Bool.not_true, Bool.false_eq_true, if_false, and_true, true_iff]
        omega

end Loop

namespace Walk

open Loop

theorem afterBranch_eq (thenBlock : List Stmt) (elseBlock : Option (List Stmt)) (loop : Option Loop) :
    afterBranch thenBlock elseBlock loop = spend (endsInBreak thenBlock && elseBlock.any endsInBreak) loop := rfl

mutual

/-- What a check does to the budget, and what it shows of the breaks if it ends well. -/
theorem check_legal (settings : Settings) (loop : Option Loop) (h : AtMostOne loop) (isLast : Bool) (s : Stmt) :
    Always (check settings loop isLast s)
      (fun loop' => loop' = spend s.spends loop ∧ s.Legal isLast ∧ (s.breaks → Ready loop)) (fun _ => True) := by
  cases s with
  | declare span type name init =>
    refine always_skip fun _ => always_skip fun _ => always_skip fun _ => always_pure ?_
    simp [Stmt.spends, Stmt.breaks, Stmt.Legal, spend]
  | param span type name =>
    refine always_skip fun _ => always_pure ?_
    simp [Stmt.spends, Stmt.breaks, Stmt.Legal, spend]
  | assign span name op e =>
    refine always_skip fun _ => always_pure ?_
    simp [Stmt.spends, Stmt.breaks, Stmt.Legal, spend]
  | call span name args =>
    refine always_skip fun _ => always_pure ?_
    simp [Stmt.spends, Stmt.breaks, Stmt.Legal, spend]
  | define span result name params body value =>
    refine always_skip fun _ => always_pure ?_
    simp [Stmt.spends, Stmt.breaks, Stmt.Legal, spend]
  | print span operand =>
    refine always_skip fun _ => always_pure ?_
    simp [Stmt.spends, Stmt.breaks, Stmt.Legal, spend]
  | branch span condition thenBlock elseBlock =>
    refine always_skip fun _ => (always_inScope (checkBlock_legal settings loop h thenBlock)).bind ?_
    rintro l₁ ⟨rfl, ht, hbt⟩
    refine (checkElse_legal settings _ (h.spend _) elseBlock).bind ?_
    rintro l₂ ⟨rfl, he, hbe⟩
    simp only [ready_spend h] at hbe
    refine always_pure ⟨?_, ⟨ht, he, fun hs => ?_⟩, fun hb => ?_⟩
    · rw [afterBranch_eq, spend_spend h, spend_spend h, Stmt.spends]
    · cases hn : Stmt.breaksElse elseBlock with
      | false => rfl
      | true => exact absurd (hbe hn).2 (by simp [hs])
    · simp only [Stmt.breaks, Bool.or_eq_true] at hb
      exact hb.elim hbt fun hb => (hbe hb).1
  | loop span condition body =>
    refine always_skip fun _ => Always.bind ?_ fun _ hb => always_pure ⟨rfl, hb, by simp [Stmt.breaks]⟩
    refine always_inScope ?_
    cases body with
    | none => exact always_throw trivial
    | some block => exact (checkBlock_legal settings _ atMostOne_fresh block).imp (fun _ hb => hb.2.1) fun _ hb => hb
  | breakOut span =>
    have hb : Always (judge fun _ => checkBreak loop isLast span) (fun _ => Ready loop ∧ isLast = true) (fun _ => True) :=
      always_judge (fun _ _ ho => checkBreak_ok.mp ho) fun _ _ _ => trivial
    exact hb.bind fun _ hb => always_pure ⟨rfl, hb.2, fun _ => hb.1⟩
  | misfit what => exact always_throw trivial
termination_by structural s

theorem checkBlock_legal (settings : Settings) (loop : Option Loop) (h : AtMostOne loop) (block : List Stmt) :
    Always (checkBlock settings loop block)
      (fun loop' => loop' = spend (Stmt.spendsBlock block) loop ∧ Stmt.LegalBlock block ∧
        (Stmt.breaksBlock block → Ready loop)) (fun _ => True) := by
  cases block with
  | nil => exact always_pure ⟨rfl, trivial, by simp [Stmt.breaksBlock]⟩
  | cons s rest =>
    refine (check_legal settings loop h rest.isEmpty s).bind ?_
    rintro l₁ ⟨rfl, hs, hbs⟩
    refine (checkBlock_legal settings _ (h.spend _) rest).imp ?_ fun _ hb => hb
    rintro l₂ ⟨rfl, hr, hbr⟩
    simp only [ready_spend h] at hbr
    refine ⟨by rw [spend_spend h, Stmt.spendsBlock], ⟨hs, hr, fun hsp => ?_⟩, fun hb => ?_⟩
    · cases hn : Stmt.breaksBlock rest with
      | false => rfl
      | true => exact absurd (hbr hn).2 (by simp [hsp])
    · simp only [Stmt.breaksBlock, Bool.or_eq_true] at hb
      exact hb.elim hbs fun hb => (hbr hb).1
termination_by structural block

theorem checkElse_legal (settings : Settings) (loop : Option Loop) (h : AtMostOne loop) (block : Option (List Stmt)) :
    Always (checkElse settings loop block)
      (fun loop' => loop' = spend (Stmt.spendsElse block) loop ∧ Stmt.LegalElse block ∧
        (Stmt.breaksElse block → Ready loop)) (fun _ => True) := by
  cases block with
  | none => exact always_pure ⟨rfl, trivial, by simp [Stmt.breaksElse]⟩
  | some block => exact always_inScope (checkBlock_legal settings loop h block)
termination_by structural block

end

section OtherLoop

variable {settings : Settings}

theorem checkBreak_isBreak {loop : Option Loop} {isLast : Bool} {span : Span} {e : Failure}
    (h : checkBreak loop isLast span = .error e) : e.IsBreak := by
  cases loop with
  | none =>
    cases h
    trivial
  | some l =>
    simp only [checkBreak] at h
    split at h
    · cases h
      trivial
    · split at h
      · cases h
        trivial
      · cases h

mutual

/-- A check that ends well with one loop around it fails with another only at a break that has no budget there. -/
theorem check_otherLoop {loop other : Option Loop} (hl : AtMostOne loop) (ho : AtMostOne other) (isLast : Bool) (s : Stmt)
    (hp : s.Plain) {m : Machine} (hm : m.scopes.outline ≠ []) {loop' : Option Loop} {m' : Machine}
    (hc : check settings loop isLast s m = .ok loop' m') :
    Ends (check settings other isLast s) m (fun _ _ => True) (fun e _ => e.IsBreak ∧ s.breaks ∧ ¬Ready other) := by
  obtain ⟨-, hlegal, -⟩ := (check_legal settings loop hl isLast s m).ok hc
  cases s with
  | declare span type name init =>
    simp only [check, bind_ok, judge_ok, pure_ok] at hc
    obtain ⟨_, _, ⟨hd, rfl⟩, _, _, ⟨hu, rfl⟩, d, _, hm, -, -⟩ := hc
    simp only [check, ends_bind, ends_judge_match, hd, hu, ends_pure]
    exact ends_of_ok hm trivial
  | param span type name =>
    simp only [check, bind_ok, pure_ok] at hc
    obtain ⟨d, _, hm, -, -⟩ := hc
    simp only [check, ends_bind, ends_pure]
    exact ends_of_ok hm trivial
  | assign span name op e =>
    simp only [check, bind_ok, judge_ok, pure_ok] at hc
    obtain ⟨d, _, ⟨hd, rfl⟩, -, -⟩ := hc
    simp only [check, ends_bind, ends_judge_match, hd, ends_pure]
  | call span name args =>
    simp only [check, bind_ok, judge_ok, pure_ok] at hc
    obtain ⟨f, _, ⟨hf, rfl⟩, -, -⟩ := hc
    simp only [check, ends_bind, ends_judge_match, hf, ends_pure]
  | define span result name params body value => exact hp.elim
  | print span operand =>
    simp only [check, bind_ok, judge_ok, pure_ok] at hc
    obtain ⟨_, _, ⟨he, rfl⟩, -, -⟩ := hc
    simp only [check, ends_bind, ends_judge_match, he, ends_pure]
  | branch span condition thenBlock elseBlock =>
    simp only [check, bind_ok, judge_ok, pure_ok] at hc
    obtain ⟨_, _, ⟨hf, rfl⟩, l₁, m₁, ht, l₂, m₂, he, -, -⟩ := hc
    obtain rfl := (inScope_adds hm (checkBlock_adds settings loop thenBlock hp.2.1 _ (by simp))).ok ht
    obtain ⟨m₃, ht, -⟩ := inScope_ok.mp ht
    obtain ⟨rfl, -⟩ := (checkBlock_legal settings loop hl thenBlock _).ok ht
    simp only [check, ends_bind, ends_judge_match, hf, ends_pure, Stmt.breaks, Bool.or_eq_true]
    have hback := inScope_adds hm (checkBlock_adds settings other thenBlock hp.2.1 _ (by simp))
    have hspend := always_inScope (checkBlock_legal settings other ho thenBlock) m₁
    have hthen : Ends (inScope (checkBlock settings other thenBlock)) m₁ (fun _ _ => True)
        (fun e _ => e.IsBreak ∧ Stmt.breaksBlock thenBlock ∧ ¬Ready other) :=
      ends_inScope.mpr (checkBlock_otherLoop hl ho thenBlock hp.2.1 (by simp) ht)
    refine ((hback.and hspend).and hthen).imp ?_ fun _ _ h => ⟨h.2.1, Or.inl h.2.2.1, h.2.2.2⟩
    rintro l _ ⟨⟨rfl, rfl, -⟩, -⟩
    refine (checkElse_otherLoop (hl.spend _) (ho.spend _) elseBlock hp.2.2 he).imp (fun _ _ h => h) fun e _ h => ?_
    exact ⟨h.1, Or.inr h.2.1, not_ready_before rfl hlegal.2.2 h.2.1 h.2.2⟩
  | loop span condition body =>
    simp only [check, bind_ok, judge_ok, pure_ok] at hc
    obtain ⟨_, _, ⟨hf, rfl⟩, l₁, m₁, hb, -, -⟩ := hc
    simp only [check, ends_bind, ends_judge_match, hf, ends_pure]
    exact ends_of_ok hb trivial
  | breakOut span =>
    simp only [check, ends_bind, ends_judge, ends_pure]
    refine ⟨fun _ _ => trivial, fun e he => ⟨checkBreak_isBreak he, rfl, fun hr => ?_⟩⟩
    rw [checkBreak_ok.mpr ⟨hr, hlegal⟩] at he
    cases he
  | misfit what => exact hp.elim
termination_by structural s

theorem checkBlock_otherLoop {loop other : Option Loop} (hl : AtMostOne loop) (ho : AtMostOne other) (block : List Stmt)
    (hp : Stmt.PlainBlock block) {m : Machine} (hm : m.scopes.outline ≠ []) {loop' : Option Loop} {m' : Machine}
    (hc : checkBlock settings loop block m = .ok loop' m') :
    Ends (checkBlock settings other block) m (fun _ _ => True)
      (fun e _ => e.IsBreak ∧ Stmt.breaksBlock block ∧ ¬Ready other) := by
  obtain ⟨-, hlegal, -⟩ := (checkBlock_legal settings loop hl block m).ok hc
  cases block with
  | nil => trivial
  | cons s rest =>
    simp only [checkBlock, bind_ok] at hc
    obtain ⟨l₁, m₁, h₁, h₂⟩ := hc
    obtain ⟨rfl, -⟩ := (check_legal settings loop hl rest.isEmpty s m).ok h₁
    have ha := (check_adds settings loop rest.isEmpty s hp.1 m hm).ok h₁
    simp only [checkBlock, ends_bind, Stmt.breaksBlock, Bool.or_eq_true]
    have hb := check_adds settings other rest.isEmpty s hp.1 m hm
    have hspend := check_legal settings other ho rest.isEmpty s m
    have hs := check_otherLoop hl ho rest.isEmpty s hp.1 hm h₁
    refine ((hb.and hspend).and hs).imp ?_ fun _ _ h => ⟨h.2.1, Or.inl h.2.2.1, h.2.2.2⟩
    rintro l n ⟨⟨hb, rfl, -⟩, -⟩
    have hw := (Scopes.Wider.of_alike (s := m.scopes) hm rfl rfl).grow ha.outline ha.functions hb.outline hb.functions
    obtain ⟨n', hn'⟩ := checkBlock_wider settings _ rest hp.2 hw h₂
    have hrest := checkBlock_otherLoop (hl.spend _) (ho.spend s.spends) rest hp.2 hw.right_open hn'
    refine hrest.imp (fun _ _ h => h) fun e _ h => ?_
    exact ⟨h.1, Or.inr h.2.1, not_ready_before rfl hlegal.2.2 h.2.1 h.2.2⟩
termination_by structural block

theorem checkElse_otherLoop {loop other : Option Loop} (hl : AtMostOne loop) (ho : AtMostOne other)
    (block : Option (List Stmt)) (hp : Stmt.PlainElse block) {loop' : Option Loop} {m m' : Machine}
    (hc : checkElse settings loop block m = .ok loop' m') :
    Ends (checkElse settings other block) m (fun _ _ => True)
      (fun e _ => e.IsBreak ∧ Stmt.breaksElse block ∧ ¬Ready other) := by
  cases block with
  | none => trivial
  | some block =>
    obtain ⟨_, hb, -⟩ := inScope_ok.mp hc
    exact ends_inScope.mpr (checkBlock_otherLoop hl ho block hp (by simp) hb)
termination_by structural block

end

end OtherLoop

section Run

variable {settings : Settings} {call : Caller} {printing : Bool}

mutual

/-- What a run does to the budget; that it may count breaks as executed is of no account. -/
theorem run_spends (loop : Option Loop) (h : AtMostOne loop) (isLast : Bool) (s : Stmt) :
    Always (run settings call printing loop isLast s)
      (fun loop' => budget? loop' = budget? (spend s.spends loop) ∧ (s.breaks → Ready loop)) (fun _ => True) := by
  have stay : s.spends = false → s.breaks = false →
      budget? loop = budget? (spend s.spends loop) ∧ (s.breaks → Ready loop) := by
    intro hs hb
    simp [hs, hb, spend_false]
  cases s with
  | declare span type name init =>
    refine always_skip fun _ => always_skip fun _ => ?_
    cases init with
    | none => exact always_skip fun _ => always_skip fun _ => always_skip fun _ => always_pure (stay rfl rfl)
    | some e =>
      refine always_skip fun _ => always_skip fun _ => always_skip fun _ => ?_
      exact always_skip fun _ => always_pure (stay rfl rfl)
  | param span type name => exact always_skip fun _ => always_pure (stay rfl rfl)
  | assign span name op e =>
    refine always_skip fun _ => always_skip fun _ => always_skip fun _ => always_skip fun _ => ?_
    exact always_skip fun _ => always_skip fun _ => always_pure (stay rfl rfl)
  | call span name args => exact always_skip fun _ => always_skip fun _ => always_pure (stay rfl rfl)
  | define span result name params body value => exact always_skip fun _ => always_pure (stay rfl rfl)
  | print span operand =>
    refine always_skip fun _ => ?_
    cases printing with
    | false => exact always_pure (stay rfl rfl)
    | true =>
      cases operand with
      | none => exact always_skip fun _ => always_pure (stay rfl rfl)
      | some e => exact always_skip fun _ => always_skip fun _ => always_pure (stay rfl rfl)
  | branch span condition thenBlock elseBlock =>
    refine always_skip fun _ => always_skip fun v => always_skip fun _ => ?_
    simp only [Stmt.spends, Stmt.breaks, Bool.or_eq_true]
    split
    · refine (checkElse_legal settings loop h elseBlock).bind ?_
      rintro l₁ ⟨rfl, -, hbe⟩
      refine (always_inScope (runBlock_spends _ (h.spend _) thenBlock)).bind fun l₂ ⟨hl, hbt⟩ => ?_
      simp only [ready_spend h] at hbt
      refine always_pure ⟨?_, fun hb => hb.elim (fun hb => (hbt hb).1) hbe⟩
      rw [afterBranch_eq, budget?_spend_congr hl, spend_spend h, spend_spend h, Bool.or_comm (Stmt.spendsElse _)]
    · refine (always_inScope (checkBlock_legal settings loop h thenBlock)).bind ?_
      rintro l₁ ⟨rfl, -, hbt⟩
      refine (runElse_spends _ (h.spend _) elseBlock).bind fun l₂ ⟨hl, hbe⟩ => ?_
      simp only [ready_spend h] at hbe
      refine always_pure ⟨?_, fun hb => hb.elim hbt fun hb => (hbe hb).1⟩
      rw [afterBranch_eq, budget?_spend_congr hl, spend_spend h, spend_spend h]
  | loop span condition body =>
    exact always_skip fun _ => always_skip fun _ => always_skip fun _ => always_pure (stay rfl rfl)
  | breakOut span =>
    have hb : Always (judge fun _ => checkBreak loop isLast span) (fun _ => Ready loop) (fun _ => True) :=
      always_judge (fun _ _ ho => (checkBreak_ok.mp ho).1) fun _ _ _ => trivial
    refine hb.bind fun _ hb => always_pure ⟨?_, fun _ => hb⟩
    cases loop <;> rfl
  | misfit what => exact always_throw trivial
termination_by structural s

theorem runBlock_spends (loop : Option Loop) (h : AtMostOne loop) (block : List Stmt) :
    Always (runBlock settings call printing loop block)
      (fun loop' => budget? loop' = budget? (spend (Stmt.spendsBlock block) loop) ∧
        (Stmt.breaksBlock block → Ready loop)) (fun _ => True) := by
  cases block with
  | nil => exact always_pure ⟨rfl, by simp [Stmt.breaksBlock]⟩
  | cons s rest =>
    refine (run_spends loop h rest.isEmpty s).bind fun l₁ ⟨hl₁, hbs⟩ => ?_
    refine (runBlock_spends l₁ ((h.spend _).congr hl₁) rest).imp (fun l₂ ⟨hl₂, hbr⟩ => ⟨?_, fun hb => ?_⟩) fun _ hb => hb
    · rw [hl₂, budget?_spend_congr hl₁, spend_spend h, Stmt.spendsBlock]
    · simp only [Stmt.breaksBlock, Bool.or_eq_true] at hb
      exact hb.elim hbs fun hb => ((ready_spend h).mp ((hbr hb).congr hl₁.symm)).1
termination_by structural block

theorem runElse_spends (loop : Option Loop) (h : AtMostOne loop) (block : Option (List Stmt)) :
    Always (runElse settings call printing loop block)
      (fun loop' => budget? loop' = budget? (spend (Stmt.spendsElse block) loop) ∧
        (Stmt.breaksElse block → Ready loop)) (fun _ => True) := by
  cases block with
  | none => exact always_pure ⟨rfl, by simp [Stmt.breaksElse]⟩
  | some block => exact always_inScope (runBlock_spends loop h block)
termination_by structural block

end

end Run

end Walk
end CheckedScript
