import CheckedScript.Proofs.Plain
import CheckedScript.Proofs.Rules

/-! What operators give to values of the types that the static rules ask for: a value of the type that the rules say, or a fault
of arithmetic. -/

namespace CheckedScript

/-- What can end the run of a program that was accepted: bad arithmetic, a limit that was reached, or the remainder of an
infinite number. -/
def Failure.IsFault : Failure → Prop
  | error e => e.problem.category = .arithmetic ∨ e.problem.category = .exhaustion
  | escape e => e = .infiniteDividend

theorem Failure.IsFault.orAt {f : Failure} (h : f.IsFault) (span : Span) : (f.orAt span).IsFault := by
  cases f with
  | error e =>
    simp only [Failure.orAt, IsFault] at h ⊢
    split <;> exact h
  | escape e => exact h

/-- A type that a value has is the same as no other. -/
theorem Ty.eq_of_same {s t : Ty} (hs : s.Simple) (h : s.same t = true) : s = t := by
  cases s with
  | other n => exact hs.elim
  | _ => cases t <;> first | rfl | cases h

theorem Value.simple_type {v : Value} {t : Ty} (h : v.type? = some t) : t.Simple := by
  cases v <;> cases h <;> trivial

theorem Value.of_number {v : Value} (h : v.type? = some .number) : ∃ x, v = .number x := by
  cases v <;> cases h
  exact ⟨_, rfl⟩

theorem Value.of_boolean {v : Value} (h : v.type? = some .boolean) : ∃ b, v = .boolean b := by
  cases v <;> cases h
  exact ⟨_, rfl⟩

theorem Value.of_string {v : Value} (h : v.type? = some .string) : ∃ s, v = .text s := by
  cases v <;> cases h
  exact ⟨_, rfl⟩

/-- An operation gives a value of the type, or ends in a fault. -/
def Operates (r : Except Failure Value) (t : Ty) : Prop :=
  match r with
  | .ok v => v.type? = some t
  | .error f => f.IsFault

theorem Value.ofResult_operates (op : String) (x : Float) : Operates (Value.ofResult op x) .number := by
  unfold Value.ofResult
  split
  · exact rfl
  · exact Or.inl rfl

theorem Value.concat_operates {a b : Value} {s t : Ty} (ha : a.type? = some s) (hb : b.type? = some t) :
    Operates (a.concat b) .string := by
  cases a <;> cases ha <;> cases b <;> cases hb <;> rfl

theorem ArithOp.apply_numbers (op : ArithOp) (x y : Float) : Operates (op.apply (.number x) (.number y)) .number := by
  cases op with
  | add => exact Value.ofResult_operates _ _
  | sub => exact Value.ofResult_operates _ _
  | mul => exact Value.ofResult_operates _ _
  | div =>
    simp only [ArithOp.apply, Value.asNumber, bind, Except.bind]
    split
    · exact Or.inl rfl
    · exact Value.ofResult_operates _ _
  | mod =>
    simp only [ArithOp.apply, Value.asNumber, bind, Except.bind]
    split
    · exact Or.inl rfl
    · split
      · rfl
      · exact Value.ofResult_operates _ _

/-- A text on either side makes `+` join texts. -/
theorem ArithOp.apply_add_text {a b : Value} {s t : Ty} (ha : a.type? = some s) (hb : b.type? = some t)
    (h : s = .string ∨ t = .string) : Operates (ArithOp.add.apply a b) .string := by
  rcases h with rfl | rfl
  · obtain ⟨x, rfl⟩ := Value.of_string ha
    exact Value.concat_operates (a := .text x) rfl hb
  · obtain ⟨y, rfl⟩ := Value.of_string hb
    cases a <;> cases ha <;> rfl

theorem BinaryOp.apply_operates {op : BinaryOp} {form : Form} {span : Span} {a b : Value} {s t r : Ty} (hop : op.Fits form)
    (ha : a.type? = some s) (hb : b.type? = some t) (h : op.type form span s t = .ok r) : Operates (op.apply a b) r := by
  cases form with
  | expression =>
    cases op with
    | arith o =>
      simp only [BinaryOp.type] at h
      split at h
      · rename_i hstring
        split at h <;> cases h
        rename_i hadd
        cases hadd
        refine ArithOp.apply_add_text ha hb ?_
        rcases Bool.or_eq_true_iff.mp hstring with hs | ht
        · exact Or.inl (Ty.eq_of_same (Value.simple_type ha) hs)
        · exact Or.inr (Ty.eq_of_same (Value.simple_type hb) ht)
      · rename_i hstring
        split at h
        · cases h
        · rename_i hsame
          split at h <;> cases h
          rename_i hboolean
          obtain rfl : s = t := Ty.eq_of_same (Value.simple_type ha) (by simpa using hsame)
          -- neither texts nor truth values are left
          have hs : s = .number := by
            cases s with
            | number => rfl
            | boolean => exact absurd rfl hboolean
            | string => exact absurd rfl hstring
            | other n => exact (Value.simple_type ha).elim
          subst hs
          obtain ⟨x, rfl⟩ := Value.of_number ha
          obtain ⟨y, rfl⟩ := Value.of_number hb
          exact ArithOp.apply_numbers o x y
    | _ => exact hop.elim
  | condition =>
    simp only [BinaryOp.type] at h
    split at h
    · cases h
    · rename_i hsame
      obtain rfl : s = t := Ty.eq_of_same (Value.simple_type ha) (by simpa using hsame)
      split at h
      · cases h
      · rename_i hnumber
        split at h <;> cases h
        rename_i hboolean
        cases op with
        | arith o => exact hop.elim
        | unknown text => exact hop.elim
        | eq | ne =>
          simp only [BinaryOp.apply, Value.sameAs, Value.typeOf, ha, hb]
          rfl
        | and | or =>
          obtain rfl := Ty.eq_of_same (Value.simple_type ha) (by simpa [BinaryOp.isLogical] using hboolean)
          obtain ⟨x, rfl⟩ := Value.of_boolean ha
          obtain ⟨y, rfl⟩ := Value.of_boolean hb
          cases x <;> rfl
        | gt | ge | lt | le =>
          obtain rfl := Ty.eq_of_same (Value.simple_type ha) (by simpa [BinaryOp.isRelational] using hnumber)
          obtain ⟨x, rfl⟩ := Value.of_number ha
          obtain ⟨y, rfl⟩ := Value.of_number hb
          rfl

theorem UnaryOp.apply_operates {op : UnaryOp} {form : Form} {span : Span} {a : Value} {s r : Ty} (hop : op.Fits form)
    (ha : a.type? = some s) (h : op.type form span s = .ok r) : Operates (op.apply a) r := by
  cases form with
  | expression =>
    have hnumber (hne : op ≠ .not) : s = .number ∧ s = r := by
      simp only [UnaryOp.type, hne, if_false] at h
      split at h <;> cases h
      rename_i hsame
      exact ⟨Ty.eq_of_same (Value.simple_type ha) hsame, rfl⟩
    cases op with
    | not => exact hop.elim
    | unknown text => exact hop.elim
    | neg =>
      obtain ⟨rfl, rfl⟩ := hnumber (by simp)
      obtain ⟨x, rfl⟩ := Value.of_number ha
      rfl
    | inc | dec =>
      obtain ⟨rfl, rfl⟩ := hnumber (by simp)
      obtain ⟨x, rfl⟩ := Value.of_number ha
      exact Value.ofResult_operates _ _
  | condition =>
    cases op with
    | not =>
      simp only [UnaryOp.type] at h
      split at h <;> cases h
      rename_i hsame
      obtain rfl := Ty.eq_of_same (Value.simple_type ha) hsame
      obtain ⟨b, rfl⟩ := Value.of_boolean ha
      rfl
    | _ => exact hop.elim

/-- An operator does the same whether it is written in an expression or with an assignment, though the assignment joins texts by a
rule of its own. -/
theorem AssignOp.apply_compound (o : ArithOp) (current v : Value) : (compound o).apply current v = o.apply current v := by
  cases o with
  | add =>
    cases current with
    | text s => cases v <;> rfl
    | _ => rfl
  | _ => rfl

/-- An assignment that a variable takes leaves it with a value of its type. -/
theorem AssignOp.apply_operates {op : AssignOp} {current v : Value} {target t : Ty} (hop : op.Known)
    (hc : current.type? = some target) (hv : v.type? = some t) (h : op.Takes target t) :
    Operates (op.apply current v) target := by
  cases op with
  | unknown text => exact hop.elim
  | set =>
    obtain rfl := Ty.eq_of_same (Value.simple_type hv) h
    exact hv
  | compound o =>
    rw [apply_compound]
    rcases h with ⟨ho, hs⟩ | ⟨hn, ht⟩
    · cases ho
      obtain rfl := Ty.eq_of_same (Value.simple_type hc) hs
      exact ArithOp.apply_add_text hc hv (Or.inl rfl)
    · obtain rfl := Ty.eq_of_same (Value.simple_type hc) hn
      obtain rfl := Ty.eq_of_same (Value.simple_type hv) ht
      obtain ⟨x, rfl⟩ := Value.of_number hc
      obtain ⟨y, rfl⟩ := Value.of_number hv
      exact ArithOp.apply_numbers o x y

end CheckedScript
