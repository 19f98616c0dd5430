import CheckedScript.Proofs.Breaks
import CheckedScript.Proofs.Reach

/-! The order of the branches. A check goes through the branches of an `if` as they are written. A run looks at the branch
that it does not take before it goes into the other, so if the condition holds the second branch comes first, and the
breaks of the first branch find the budget of the loop used up where the second uses it. No check finds this, and no run
gets past it. -/

namespace CheckedScript.Walk

open Loop

variable {settings : Settings} {t t' : Task} {m m' : Machine}

/-- The task is an `if` in a loop with budget left. Its condition holds, its first branch has a break, and its second branch has
an `if` that ends in a break on both sides. -/
inductive Crossing (settings : Settings) : Task → Machine → Prop where
  | intro {printing left l isLast span condition thenBlock elseBlock m v m'} (hb : l.budget = 1)
      (hv : evaluate (callWith settings printing left) condition m = .ok v m') (ht : v.holds = true)
      (hbreaks : Stmt.breaksBlock thenBlock = true) (hspends : Stmt.spendsElse elseBlock = true) :
      Crossing settings (.run printing left (some l) isLast (.branch span condition thenBlock elseBlock)) m

/-- The task comes to such an `if`. -/
def Crosses (settings : Settings) (t : Task) (m : Machine) : Prop :=
  ∃ t' m', Reaches settings t m t' m' ∧ Crossing settings t' m'

theorem Crossing.crosses (h : Crossing settings t m) : Crosses settings t m := ⟨t, m, .here, h⟩

theorem Crosses.of_leads (hl : Leads settings t m t' m') (h : Crosses settings t' m') : Crosses settings t m := by
  obtain ⟨t₁, m₁, hr, hc⟩ := h
  exact ⟨t₁, m₁, .step hl hr, hc⟩

/-- The first branch has a break and no budget for it, and ends badly. -/
theorem Crossing.fails (h : Crossing settings t m) : ∃ f, Fails (t.walk settings) m f := by
  cases h with
  | @intro printing left l isLast span condition thenBlock elseBlock _ v m' hb hv ht hbreaks hspends =>
    simp only [Task.walk, fails_forget]
    cases hr : run settings (callWith settings printing left) printing (some l) isLast
        (.branch span condition thenBlock elseBlock) m with
    | error f m₁ => exact ⟨f, m₁, hr⟩
    | ok l' m₁ =>
      exfalso
      have hone : AtMostOne (some l) := by
        rintro _ ⟨⟩
        exact Int.le_of_eq hb
      simp only [run, bind_ok, judge_ok] at hr
      obtain ⟨_, _, ⟨-, rfl⟩, v', _, hv', _, m₂, -, hr⟩ := hr
      obtain ⟨rfl, rfl⟩ : v' = v ∧ _ = m' := by
        rw [hv] at hv'
        injection hv' with h₁ h₂
        exact ⟨h₁.symm, h₂.symm⟩
      rw [if_pos ht] at hr
      simp only [bind_ok] at hr
      obtain ⟨_, m₃, he, l₂, m₄, hblock, -⟩ := hr
      obtain ⟨rfl, -⟩ := (checkElse_legal settings _ hone elseBlock m₂).ok he
      obtain ⟨m₅, hblock, -⟩ := inScope_ok.mp hblock
      have hready := ((runBlock_spends _ (hone.spend _) thenBlock _).ok hblock).2 hbreaks
      rw [ready_spend hone, hspends] at hready
      exact Bool.noConfusion hready.2

/-- What comes to such an `if` ends badly. -/
theorem Crosses.fails (h : Crosses settings t m) : ∃ f, Fails (t.walk settings) m f := by
  obtain ⟨t', m', hr, hc⟩ := h
  obtain ⟨f, hf⟩ := hc.fails
  exact ⟨f, hr.fails hf⟩

end CheckedScript.Walk
