import CheckedScript.Proofs.BreakOrder
import CheckedScript.Proofs.Unbroken
import Mathlib.Tactic.Tauto

/-! The rule of breaks. A program whose breaks all stand last in their lists and inside loops, and that breaks no other rule,
is refused for its breaks exactly if in the body of some loop a break comes after an `if` that ends in a break on both
sides. Such an `if` need not lie on the way to the break: it may be inside one branch of an earlier statement, or in the
first branch of an `if` with the break in the second. -/

namespace CheckedScript

namespace Stmt

/-- Is the statement an `if` that ends in a break on both sides? -/
def forks : Stmt → Bool
  | branch _ _ thenBlock elseBlock => endsInBreak thenBlock && elseBlock.any endsInBreak
  | _ => false

/-- Does the statement have such an `if` in one of its branches, in the loop that it stands in? -/
def hidesFork : Stmt → Bool
  | branch _ _ thenBlock elseBlock => spendsBlock thenBlock || spendsElse elseBlock
  | _ => false

theorem spends_eq (s : Stmt) : s.spends = (s.hidesFork || s.forks) := by
  cases s <;> rfl

mutual

/-- Some break of the loop that the statement stands in comes after an `if` that ends in a break on both sides, in its own list
or in a list around it. -/
def follows : Stmt → Bool
  | branch _ _ thenBlock elseBlock => followsBlock thenBlock || followsElse elseBlock
  | _ => false

def followsBlock : List Stmt → Bool
  | [] => false
  | s :: rest => s.follows || (s.forks && breaksBlock rest) || followsBlock rest

def followsElse : Option (List Stmt) → Bool
  | none => false
  | some block => followsBlock block

end

mutual

/-- Some break of the loop that the statement stands in comes after such an `if` that lies aside: inside a branch of a statement
before it, or in the first branch of an `if` whose second branch has the break. -/
def crossed : Stmt → Bool
  | branch _ _ thenBlock elseBlock =>
    crossedBlock thenBlock || crossedElse elseBlock || (spendsBlock thenBlock && breaksElse elseBlock)
  | _ => false

def crossedBlock : List Stmt → Bool
  | [] => false
  | s :: rest => s.crossed || (s.hidesFork && breaksBlock rest) || crossedBlock rest

def crossedElse : Option (List Stmt) → Bool
  | none => false
  | some block => crossedBlock block

end

mutual

/-- Every break is the last of its list and stands inside a loop. -/
def placed (inLoop isLast : Bool) : Stmt → Bool
  | branch _ _ thenBlock elseBlock => placedBlock inLoop thenBlock && placedElse inLoop elseBlock
  | loop _ _ body => placedElse true body
  | define _ _ _ _ body _ => placedElse false body
  | breakOut _ => inLoop && isLast
  | _ => true

def placedBlock (inLoop : Bool) : List Stmt → Bool
  | [] => true
  | s :: rest => s.placed inLoop rest.isEmpty && placedBlock inLoop rest

def placedElse (inLoop : Bool) : Option (List Stmt) → Bool
  | none => true
  | some block => placedBlock inLoop block

end

mutual

/-- The bodies of the loops in the statement, and of the loops inside these. -/
def bodies : Stmt → List (List Stmt)
  | branch _ _ thenBlock elseBlock => bodiesBlock thenBlock ++ bodiesElse elseBlock
  | loop _ _ body => body.toList ++ bodiesElse body
  | define _ _ _ _ body _ => bodiesElse body
  | _ => []

def bodiesBlock : List Stmt → List (List Stmt)
  | [] => []
  | s :: rest => s.bodies ++ bodiesBlock rest

def bodiesElse : Option (List Stmt) → List (List Stmt)
  | none => []
  | some block => bodiesBlock block

end

/-- In the body of a loop no break comes after an `if` that ends in a break on both sides. -/
def Unspent (body : List Stmt) : Prop := followsBlock body = false ∧ crossedBlock body = false

mutual

/-- What has no break has none that comes after something. -/
theorem unspent_of_breaks (s : Stmt) (h : s.breaks = false) : s.follows = false ∧ s.crossed = false := by
  cases s with
  | branch span condition thenBlock elseBlock =>
    simp only [breaks, Bool.or_eq_false_iff] at h
    have ht := unspentBlock_of_breaks thenBlock h.1
    have he := unspentElse_of_breaks elseBlock h.2
    simp [follows, crossed, ht, he, h]
  | _ => exact ⟨rfl, rfl⟩
termination_by structural s

theorem unspentBlock_of_breaks (block : List Stmt) (h : breaksBlock block = false) :
    followsBlock block = false ∧ crossedBlock block = false := by
  cases block with
  | nil => exact ⟨rfl, rfl⟩
  | cons s rest =>
    simp only [breaksBlock, Bool.or_eq_false_iff] at h
    have hs := unspent_of_breaks s h.1
    have hr := unspentBlock_of_breaks rest h.2
    simp [followsBlock, crossedBlock, hs, hr, h]
termination_by structural block

theorem unspentElse_of_breaks (block : Option (List Stmt)) (h : breaksElse block = false) :
    followsElse block = false ∧ crossedElse block = false := by
  cases block with
  | none => exact ⟨rfl, rfl⟩
  | some block => exact unspentBlock_of_breaks block h
termination_by structural block

end

mutual

theorem breaks_of_placed (isLast : Bool) (s : Stmt) (h : s.placed false isLast = true) : s.breaks = false := by
  cases s with
  | branch span condition thenBlock elseBlock =>
    simp only [placed, Bool.and_eq_true] at h
    simp [breaks, breaksBlock_of_placed thenBlock h.1, breaksElse_of_placed elseBlock h.2]
  | breakOut span => cases h
  | _ => rfl
termination_by structural s

theorem breaksBlock_of_placed (block : List Stmt) (h : placedBlock false block = true) : breaksBlock block = false := by
  cases block with
  | nil => rfl
  | cons s rest =>
    simp only [placedBlock, Bool.and_eq_true] at h
    simp [breaksBlock, breaks_of_placed rest.isEmpty s h.1, breaksBlock_of_placed rest h.2]
termination_by structural block

theorem breaksElse_of_placed (block : Option (List Stmt)) (h : placedElse false block = true) :
    breaksElse block = false := by
  cases block with
  | none => rfl
  | some block => exact breaksBlock_of_placed block h
termination_by structural block

end

mutual

/-- What makes a statement legal, if its breaks stand last in their lists. -/
theorem legal_iff {inLoop isLast : Bool} (s : Stmt) (hp : s.Plain) (h : s.placed inLoop isLast = true) :
    s.Legal isLast ↔ (s.follows = false ∧ s.crossed = false) ∧ ∀ body ∈ s.bodies, Unspent body := by
  cases s with
  | branch span condition thenBlock elseBlock =>
    simp only [placed, Bool.and_eq_true] at h
    simp only [Legal, follows, crossed, bodies, List.forall_mem_append, Bool.or_eq_false_iff, Bool.and_eq_false_imp,
      legalBlock_iff thenBlock hp.2.1 h.1, legalElse_iff elseBlock hp.2.2 h.2]
    tauto
  | loop span condition body =>
    cases body with
    | none => exact hp.2.elim
    | some block =>
      simp only [Legal, LegalElse, follows, crossed, bodies, bodiesElse, Option.toList_some, List.singleton_append,
        List.forall_mem_cons, legalBlock_iff block hp.2 h, Unspent]
      tauto
  | define span result name params body value => exact hp.elim
  | breakOut span =>
    simp only [placed, Bool.and_eq_true] at h
    simp [Legal, follows, crossed, bodies, h.2]
  | _ => simp [Legal, follows, crossed, bodies]
termination_by structural s

theorem legalBlock_iff {inLoop : Bool} (block : List Stmt) (hp : PlainBlock block) (h : placedBlock inLoop block = true) :
    LegalBlock block ↔
      (followsBlock block = false ∧ crossedBlock block = false) ∧ ∀ body ∈ bodiesBlock block, Unspent body := by
  cases block with
  | nil => simp [LegalBlock, followsBlock, crossedBlock, bodiesBlock]
  | cons s rest =>
    simp only [placedBlock, Bool.and_eq_true] at h
    simp only [LegalBlock, followsBlock, crossedBlock, bodiesBlock, List.forall_mem_append, Bool.or_eq_false_iff,
      Bool.and_eq_false_imp, spends_eq, Bool.or_eq_true, legal_iff s hp.1 h.1, legalBlock_iff rest hp.2 h.2]
    tauto
termination_by structural block

theorem legalElse_iff {inLoop : Bool} (block : Option (List Stmt)) (hp : PlainElse block)
    (h : placedElse inLoop block = true) :
    LegalElse block ↔
      (followsElse block = false ∧ crossedElse block = false) ∧ ∀ body ∈ bodiesElse block, Unspent body := by
  cases block with
  | none => simp [LegalElse, followsElse, crossedElse, bodiesElse]
  | some block => exact legalBlock_iff block hp h
termination_by structural block

end
end Stmt

/-- The definition without its breaks. -/
def Definition.withoutBreaks (d : Definition) : Definition := { d with body := Stmt.withoutElse d.body }

theorem Definition.Plain.withoutBreaks {d : Definition} (h : d.Plain) : d.withoutBreaks.Plain := by
  refine ⟨h.result, h.params, ?_, h.value⟩
  obtain ⟨span, result, name, params, _ | body, value⟩ := d
  · exact h.body.elim
  · exact Stmt.PlainBlock.withoutBlock h.body

theorem Stmt.declares_withoutBlock (block : List Stmt) :
    (withoutBlock block).flatMap declares = block.flatMap declares := by
  induction block with
  | nil => rfl
  | cons s rest ih =>
    cases hs : s.isBreak with
    | true => rw [withoutBlock_break hs, ih, List.flatMap_cons, declares_of_isBreak hs, List.nil_append]
    | false => rw [withoutBlock_cons hs, List.flatMap_cons, List.flatMap_cons, ih, declares_withoutBreaks]

/-- Parameters are no breaks and hold none. -/
theorem Stmt.params_unbroken {params : List Stmt} (h : ∀ p ∈ params, p.IsParam) :
    withoutBlock params = params ∧ LegalBlock params ∧ breaksBlock params = false := by
  induction params with
  | nil => exact ⟨rfl, trivial, rfl⟩
  | cons p rest ih =>
    obtain ⟨hw, hl, hb⟩ := ih fun q hq => h q (.tail _ hq)
    cases p with
    | param span type name => exact ⟨by rw [withoutBlock_cons rfl, hw]; rfl, ⟨trivial, hl, fun _ => hb⟩, hb⟩
    | _ => exact (h _ (.head _)).elim

theorem Scopes.Agree.function?_none {s t : Scopes} (h : s.Agree t) {name : Data} {arity : Int}
    (hs : s.function? name arity = none) : t.function? name arity = none := by
  have hsig : ∀ u : Scopes, (u.function? name arity).map (·.signature) =
      (u.functions.map (·.signature)).find? fun f => f.name.equal name && (f.params.length : Int) == arity := by
    intro u
    rw [List.find?_map]
    rfl
  have ht := hsig t
  rw [h.signatures, ← hsig s, hs] at ht
  exact Option.map_eq_none_iff.mp ht

namespace Walk

open Loop Machine

variable {settings settings' : Settings} {m n n' : Machine}

/-- The parts of a definition that is accepted without its breaks fail only at a break, and only if the body has a break outside
of its loops or one that stands where it may not stand. -/
theorem parts_of_withoutBreaks {d : Definition} (hd : d.Plain) (ha : n.scopes.Agree m.scopes)
    (ho : n.scopes.outline ≠ []) (hacc : Accepts settings' d.withoutBreaks n) :
    Ends (do
        let _ ← checkBlock settings none d.params
        let _ ← checkBody settings none d.body
        judge fun s => s.checkReturn d) m
      (fun _ m' => (∃ a, Adds a m m') ∧ Stmt.LegalElse d.body ∧ Stmt.breaksElse d.body = false)
      (fun e _ => e.IsBreak ∧ ¬(Stmt.LegalElse d.body ∧ Stmt.breaksElse d.body = false)) := by
  obtain ⟨l₁, n₁, l₂, n₂, h₁, h₂, h₃, hn₁, -⟩ := hacc.adds hd.withoutBreaks ho
  obtain ⟨span, result, name, params, _ | block, value⟩ := d
  · exact hd.body.elim
  obtain ⟨hsame, hlegal, hnone⟩ := Stmt.params_unbroken hd.params
  have hparams : Ends (checkBlock settings none params) m (fun _ _ => True)
      (fun e _ => e.IsBreak ∧ ¬(Stmt.LegalBlock params ∧ (Stmt.breaksBlock params → Ready none))) :=
    checkBlock_of_withoutBlock atMostOne_none params hd.plainParams ha ho (by rw [hsame]; exact h₁)
  have hadds := checkBlock_adds settings none params hd.plainParams m (ha.isOpen ho)
  simp only [ends_bind, checkBody]
  refine (hadds.and hparams).imp ?_ fun e _ h => absurd ⟨hlegal, by simp [hnone]⟩ h.2.2
  rintro _ m₁ ⟨hm₁, -⟩
  have ha₁ := ha.grow hn₁ hm₁
  have hbody : Ends (checkBlock settings none block) m₁ (fun _ _ => True)
      (fun e _ => e.IsBreak ∧ ¬(Stmt.LegalBlock block ∧ (Stmt.breaksBlock block → Ready none))) :=
    checkBlock_of_withoutBlock atMostOne_none block hd.body ha₁ (hn₁.isOpen ho) h₂
  have hadds₁ := checkBlock_adds settings none block hd.body m₁ (hm₁.isOpen (ha.isOpen ho))
  have hspend := checkBlock_legal settings none atMostOne_none block m₁
  refine ((hadds₁.and hspend).and hbody).imp ?_ fun e _ h => ⟨h.2.1, fun hgood => h.2.2 ⟨hgood.1, ?_⟩⟩
  · rintro _ m₂ ⟨⟨hm₂, -, hblock, hfree⟩, -⟩
    have hn₂ := (checkBlock_adds settings' none _ (Stmt.PlainBlock.withoutBlock hd.body) n₁ (hn₁.isOpen ho)).ok h₂
    rw [Stmt.declares_withoutBlock] at hn₂
    have hreturn : m₂.scopes.checkReturn ⟨span, result, name, params, some block, value⟩ = .ok () :=
      (ha₁.grow hn₂ hm₂).checkReturn (hn₂.isOpen (hn₁.isOpen ho)) rfl rfl h₃
    rw [ends_judge_match, hreturn]
    refine ⟨⟨_, hm₁.trans hm₂⟩, hblock, ?_⟩
    cases hb : Stmt.breaksBlock block with
    | false => exact hb
    | true => exact absurd (hfree hb) not_ready_none
  · intro hb
    rw [Stmt.breaksElse, hb] at hgood
    exact absurd hgood.2 (by simp)

/-- A definition that is accepted without its breaks is accepted, or it fails at a break. -/
theorem defineOnly_of_withoutBreaks {d : Definition} (hd : d.Plain) (ha : n.scopes.Agree m.scopes)
    (ho : n.scopes.outline ≠ []) {u : Unit} (hc : defineOnly settings' d.withoutBreaks n = .ok u n') :
    Ends (defineOnly settings d) m
      (fun _ m' => n'.scopes.Agree m'.scopes ∧ Stmt.LegalElse d.body ∧ Stmt.breaksElse d.body = false)
      (fun e _ => e.IsBreak ∧ ¬(Stmt.LegalElse d.body ∧ Stmt.breaksElse d.body = false)) := by
  have hf := hd.signature
  generalize (⟨d.result, d.name, (d.params.flatMap Stmt.declares).map Prod.snd⟩ : Signature) = f at hf
  obtain ⟨hnew, hacc, trace, rfl⟩ := defineOnly_ok hd.withoutBreaks ho hf hc
  have hreg := Scopes.register_ok.mpr ⟨f, hf, ha.function?_none hnew, rfl⟩
  have hin : (defining n ⟨f, some d.withoutBreaks⟩).scopes.Agree (defining m ⟨f, some d⟩).scopes := by
    refine ⟨?_, by simp [defining, ha.signatures]⟩
    simp only [defining, Scopes.outline_enterCall]
    exact congrArg (fun o => [] :: o.getLast?.toList) ha.outline
  simp only [defineOnly, define, ends_bind]
  refine ends_of_ok (a := ()) (change_ok.mpr ⟨_, hreg, rfl⟩) ?_
  rw [ends_inBody]
  refine (parts_of_withoutBreaks hd hin (by simp [defining]) hacc).imp ?_ fun _ _ h => h
  rintro _ m' ⟨⟨a, hadds⟩, hgood⟩
  rw [leaveCall_defining (ha.isOpen ho) hadds]
  refine ends_record fun _ => ⟨⟨ha.outline, ?_⟩, hgood⟩
  simp [defined, ha.signatures]

end Walk

namespace Stmt

/-- What makes a statement of the outermost level legal: no break stands outside of the loops, and those inside are legal. -/
def LegalTop (isLast : Bool) : Stmt → Prop
  | define _ _ _ _ body _ => LegalElse body ∧ breaksElse body = false
  | s => s.Legal isLast ∧ s.breaks = false

def LegalTops : List Stmt → Prop
  | [] => True
  | s :: rest => s.LegalTop rest.isEmpty ∧ LegalTops rest

theorem Plain.legalTop {s : Stmt} (hp : s.Plain) {isLast : Bool} :
    s.LegalTop isLast ↔ s.Legal isLast ∧ s.breaks = false := by
  cases s with
  | define span result name params body value => exact hp.elim
  | _ => exact Iff.rfl

theorem kind?_withoutBreaks (s : Stmt) : s.withoutBreaks.kind? = s.kind? := by
  cases s <;> rfl

/-- A statement of the outermost level whose breaks are last in their lists and inside loops is legal if nothing was spent
before a break in any of its loops. -/
theorem PlainTop.legalTop_iff {s : Stmt} (hp : s.PlainTop) {isLast : Bool} (h : s.placed false isLast = true) :
    s.LegalTop isLast ↔ ∀ body ∈ s.bodies, Unspent body := by
  have plain (hp : s.Plain) : s.LegalTop isLast ↔ ∀ body ∈ s.bodies, Unspent body := by
    have hb := breaks_of_placed isLast s h
    simp [hp.legalTop, legal_iff s hp h, hb, unspent_of_breaks s hb]
  cases s with
  | define span result name params body value =>
    obtain _ | block := body
    · exact hp.body.elim
    have hb := breaksBlock_of_placed block h
    simp [LegalTop, LegalElse, breaksElse, legalBlock_iff block hp.body h, hb, unspentBlock_of_breaks block hb, bodies,
      bodiesElse]
  | _ => exact plain hp

theorem legalTops_iff {block : List Stmt} (hp : ∀ s ∈ block, s.PlainTop) (h : placedBlock false block = true) :
    LegalTops block ↔ ∀ body ∈ bodiesBlock block, Unspent body := by
  induction block with
  | nil => simp [LegalTops, bodiesBlock]
  | cons s rest ih =>
    simp only [placedBlock, Bool.and_eq_true] at h
    rw [LegalTops, bodiesBlock, List.forall_mem_append, (hp s (.head _)).legalTop_iff h.1,
      ih (fun q hq => hp q (.tail _ hq)) h.2]

end Stmt

namespace Walk

open Loop Machine

variable {settings' : Settings} {m n n' : Machine}

/-- One statement of the outermost level that is accepted without its breaks. -/
theorem check_top_of_withoutBreaks (settings : Settings) (isLast isLast₀ : Bool) {s : Stmt} (hp : s.PlainTop)
    (hs : s.isBreak = false) (ha : n.scopes.Agree m.scopes) (ho : n.scopes.outline ≠ []) {l : Option Loop}
    (hc : check settings' none isLast₀ s.withoutBreaks n = .ok l n') :
    Ends (check settings none isLast s) m
      (fun _ m' => n'.scopes.Agree m'.scopes ∧ n'.scopes.outline ≠ [] ∧ s.LegalTop isLast)
      (fun e _ => e.IsBreak ∧ ¬s.LegalTop isLast) := by
  have plain (hp : s.Plain) : Ends (check settings none isLast s) m
      (fun _ m' => n'.scopes.Agree m'.scopes ∧ n'.scopes.outline ≠ [] ∧ s.LegalTop isLast)
      (fun e _ => e.IsBreak ∧ ¬s.LegalTop isLast) := by
    have hn := (check_adds settings' none isLast₀ _ hp.withoutBreaks n ho).ok hc
    rw [Stmt.declares_withoutBreaks] at hn
    have hadds := check_adds settings none isLast s hp m (ha.isOpen ho)
    have hlegal := check_legal settings none atMostOne_none isLast s m
    have hends : Ends (check settings none isLast s) m (fun _ _ => True)
        (fun e _ => e.IsBreak ∧ ¬(s.Legal isLast ∧ (s.breaks → Ready none))) :=
      check_of_withoutBreaks atMostOne_none isLast isLast₀ s hp ha ho hs hc
    rw [hp.legalTop]
    refine ((hadds.and hlegal).and hends).imp ?_ fun e _ h => ⟨h.2.1, fun hgood => h.2.2 ⟨hgood.1, ?_⟩⟩
    · rintro _ m' ⟨⟨hm, -, hlegal, hfree⟩, -⟩
      refine ⟨ha.grow hn hm, hn.isOpen ho, hlegal, ?_⟩
      cases hb : s.breaks with
      | false => rfl
      | true => exact absurd (hfree hb) not_ready_none
    · simp [hgood.2]
  cases s with
  | define span result name params body value =>
    simp only [Stmt.withoutBreaks, check, bind_ok, pure_ok] at hc
    obtain ⟨_, n₁, hc, -, rfl⟩ := hc
    simp only [check, ends_bind, ends_pure]
    have hopen : n₁.scopes.outline ≠ [] := by
      obtain ⟨-, -, trace, rfl⟩ := defineOnly_ok (Definition.Plain.withoutBreaks hp) ho
        (Definition.Plain.withoutBreaks hp).signature hc
      exact ho
    exact (defineOnly_of_withoutBreaks hp ha ho hc).imp (fun _ _ h => ⟨h.1, hopen, h.2⟩) fun _ _ h => h
  | _ => exact plain hp

theorem statements_of_withoutBlock (settings : Settings) {block : List Stmt} (hp : ∀ s ∈ block, s.PlainTop)
    (ha : n.scopes.Agree m.scopes) (ho : n.scopes.outline ≠ []) {u : Unit}
    (hc : statements settings' false (Stmt.withoutBlock block) n = .ok u n') :
    Ends (statements settings false block) m (fun _ _ => Stmt.LegalTops block)
      (fun e _ => e.IsBreak ∧ ¬Stmt.LegalTops block) := by
  induction block generalizing m n with
  | nil => trivial
  | cons s rest ih =>
    have hprest : ∀ q ∈ rest, q.PlainTop := fun q hq => hp q (.tail _ hq)
    cases hs : s.isBreak with
    | true =>
      cases s with
      | breakOut span =>
        simp only [statements, Stmt.kind?, if_false, Bool.false_eq_true, ends_bind, check, ends_judge_match, Loop.checkBreak]
        refine ends_record fun _ => ⟨trivial, ?_⟩
        rintro ⟨⟨-, hnone⟩, -⟩
        cases hnone
      | _ => cases hs
    | false =>
      rw [Stmt.withoutBlock_cons hs] at hc
      cases hk : s.kind? with
      | none => simp [statements, Stmt.kind?_withoutBreaks, hk, bind_ok, throw_ok] at hc
      | some k =>
        simp only [statements, Stmt.kind?_withoutBreaks, hk, if_false, Bool.false_eq_true, bind_ok] at hc
        obtain ⟨_, n₁, h₁, l, n₂, h₂, h₃⟩ := hc
        obtain ⟨trace, rfl⟩ := record_ok h₁
        simp only [statements, hk, if_false, Bool.false_eq_true, ends_bind]
        refine ends_record fun trace' => ?_
        have ha₁ : n.scopes.Agree { m with trace := trace' }.scopes := ha
        have hfirst := check_top_of_withoutBreaks (n := { n with trace }) settings rest.isEmpty _ (hp s (.head _)) hs ha₁ ho h₂
        refine hfirst.imp ?_ fun e _ h => ⟨h.1, fun hgood => h.2 hgood.1⟩
        rintro _ m₂ ⟨ha₂, ho₂, hlegal⟩
        refine (ih hprest ha₂ ho₂ h₃).imp (fun _ _ h => ⟨hlegal, h⟩) fun e _ h => ⟨h.1, fun hgood => h.2 hgood.2⟩

end Walk

namespace Program

/-- Every break is the last of its list and stands inside a loop. -/
def placed (p : Program) : Bool := Stmt.placedBlock false p.statements

/-- The bodies of all loops of the program. -/
def loopBodies (p : Program) : List (List Stmt) := Stmt.bodiesBlock p.statements

end Program

/-- How the check of a program by a new interpreter ends. -/
theorem Interpreter.new_validate {settings : Settings} (dest : Destination) {p : Program} {good : Prop}
    {bad : Failure → Prop} (h : Walk.Ends (Walk.statements settings false p.statements) start (fun _ _ => good)
      (fun e _ => bad e)) :
    (((new settings dest).validate p).1 = .ok () ∧ good) ∨ ∃ e, ((new settings dest).validate p).1 = .error e ∧ bad e := by
  have hends : Walk.Ends (Walk.program settings false p) (new settings dest).machine (fun _ _ => good) (fun e _ => bad e) :=
    Walk.ends_inScope.mpr h
  simp only [validate, walk]
  cases hw : Walk.program (new settings dest).settings false p (new settings dest).machine with
  | ok u m => exact Or.inl ⟨rfl, hends.ok hw⟩
  | error e m => exact Or.inr ⟨e, rfl, hends.error hw⟩

/-- The rule of breaks, for programs whose breaks are last in their lists and inside loops and that break no other rule: such a
program is refused for its grammar exactly if in the body of some loop a break comes after an `if` that ends in a break on
both sides, whether that `if` stands before it in its own list or in one around it or lies aside in another branch. -/
theorem validate_grammar_iff {source : String} {p : Program} (hp : Program.parse source = .ok p) (hplaced : p.placed = true)
    {other : Settings} {dest : Destination} (hother : ((Interpreter.new other dest).validate p.withoutBreaks).1 = .ok ())
    (checker : Settings) (dest' : Destination) :
    categoryOf? ((Interpreter.new checker dest').validate p).1 = some .grammar ↔
      (∃ body ∈ p.loopBodies, Stmt.followsBlock body = true) ∨ (∃ body ∈ p.loopBodies, Stmt.crossedBlock body = true) := by
  have hplain := Program.plain_of_parse hp
  obtain ⟨n, hn⟩ := Interpreter.validate_ok.mp hother
  obtain ⟨n₁, hn₁, -⟩ := Walk.inScope_ok.mp hn
  have hends := Walk.statements_of_withoutBlock (m := Interpreter.start) checker hplain ⟨rfl, rfl⟩
    (by simp [Interpreter.start]) hn₁
  have hlegal : Stmt.LegalTops p.statements ↔ ∀ body ∈ p.loopBodies, Stmt.Unspent body :=
    Stmt.legalTops_iff hplain hplaced
  have hspent : (¬∀ body ∈ p.loopBodies, Stmt.Unspent body) ↔
      (∃ body ∈ p.loopBodies, Stmt.followsBlock body = true) ∨ (∃ body ∈ p.loopBodies, Stmt.crossedBlock body = true) := by
    simp only [Stmt.Unspent, ← exists_or, ← and_or_left, not_forall, not_and_or, Bool.not_eq_false, exists_prop]
  rw [← hspent, ← hlegal]
  rcases Interpreter.new_validate dest' hends with ⟨hv, hgood⟩ | ⟨e, hv, hbreak, hbad⟩
  · simp [hv, hgood, categoryOf?]
  · simp [hv, hbad, hbreak.category]

/-- A break in a list after an `if` that ends in a break on both sides, next to a loop where no break comes after one. -/
def breaksAfterFork : String :=
  "def number f(number x) \x7b while (x > 0) \x7b if (x > 1) \x7b break; \x7d x -= 1; \x7d return x; \x7d " ++
  "while (true) \x7b if (true) \x7b break; \x7d else \x7b break; \x7d if (true) \x7b break; \x7d \x7d"

theorem validate_grammar_iff_breaksAfterFork : ∃ p, Program.parse breaksAfterFork = .ok p ∧ p.placed = true ∧
    ((Interpreter.new .standard .stream).validate p.withoutBreaks).1 = .ok () ∧
    ∀ checker dest, categoryOf? ((Interpreter.new checker dest).validate p).1 = some .grammar := by
  obtain ⟨p, hp, hplaced, hother, hspent⟩ := exists_of_parse breaksAfterFork String.ofList_append.symm
    (fun p => p.placed = true ∧ ((Interpreter.new .standard .stream).validate p.withoutBreaks).1.toOption = some () ∧
      ∃ body ∈ p.loopBodies, Stmt.followsBlock body = true) (by decide +kernel)
  have hother := eq_ok_of_toOption hother
  refine ⟨p, hp, hplaced, hother, fun checker dest => ?_⟩
  exact (validate_grammar_iff hp hplaced hother checker dest).mpr (Or.inl hspent)

/-- A break after an `if` whose only branch has inside it an `if` that ends in a break on both sides. -/
def breaksAfterHidden : String :=
  "while (true) \x7b if (false) \x7b if (true) \x7b break; \x7d else \x7b break; \x7d \x7d break; \x7d"

/-- No break stands after an `if` that ends in a break on both sides, neither in its own list nor in one around it, and yet the
program is refused. -/
theorem validate_grammar_breaksAfterHidden : ∃ p, Program.parse breaksAfterHidden = .ok p ∧ p.placed = true ∧
    ((Interpreter.new .standard .stream).validate p.withoutBreaks).1 = .ok () ∧
    (∀ body ∈ p.loopBodies, Stmt.followsBlock body = false) ∧
    categoryOf? ((Interpreter.new .standard .stream).validate p).1 = some .grammar := by
  obtain ⟨p, hp, hplaced, hother, hfollows, hgrammar⟩ := exists_of_parse breaksAfterHidden rfl
    (fun p => p.placed = true ∧ ((Interpreter.new .standard .stream).validate p.withoutBreaks).1.toOption = some () ∧
      (∀ body ∈ p.loopBodies, Stmt.followsBlock body = false) ∧
      categoryOf? ((Interpreter.new .standard .stream).validate p).1 = some .grammar) (by decide +kernel)
  exact ⟨p, hp, hplaced, eq_ok_of_toOption hother, hfollows, hgrammar⟩

end CheckedScript
