import CheckedScript.Proofs.Deriving
import Mathlib.Computability.Language

/-! The sentences of the language, as sequences of token kinds. Each part of the grammar has the language of the kinds that it
derives, and the productions of the part are an equation of languages: the right side is what a reader meets from left to
right, with the first token to choose by where there is a choice, and with repetition for sums and products. -/

namespace CheckedScript.Grammar

open Token.Kind
open scoped Computability

/-- The kinds of the tokens. -/
def kinds (w : List Token) : List Token.Kind := w.map Token.kind

@[simp] theorem kinds_nil : kinds [] = [] := rfl

@[simp] theorem kinds_cons (t : Token) (w : List Token) : kinds (t :: w) = t.kind :: kinds w := rfl

@[simp] theorem kinds_append (u v : List Token) : kinds (u ++ v) = kinds u ++ kinds v := List.map_append

/-- The kinds that tokens of the part can have. -/
def ExprPart.language (n : ExprPart) : Language Token.Kind := {x | ∃ w, ∃ e : n.Tree, DerivesExpr n w e ∧ x = kinds w}

def StmtPart.language (n : StmtPart) : Language Token.Kind := {x | ∃ w, ∃ s : n.Tree, DerivesStmt n w s ∧ x = kinds w}

/-- The kinds of a whole program. -/
def Sentence (x : List Token.Kind) : Prop := x ∈ StmtPart.start.language

/-- A sentence can start like this. -/
def Viable (x : List Token.Kind) : Prop := ∃ more, Sentence (x ++ more)

/-- One token of one of the kinds. -/
def one (ks : List Token.Kind) : Language Token.Kind := {x | ∃ t, Terminal ks t ∧ x = [t.kind]}

/-- A token of one of the kinds, and then what goes with that kind. -/
def choice (ks : List Token.Kind) (rest : Token.Kind → Language Token.Kind) : Language Token.Kind :=
  {x | ∃ t, Terminal ks t ∧ ∃ z ∈ rest t.kind, x = t.kind :: z}

/-- What may stand after the first token of an atom. -/
def atomRest : Token.Kind → Language Token.Kind
  | name => 1 + one [lpar] * (ExprPart.args.language * one [rpar])
  | _ => 1

/-- What stands after the first token of a condition. -/
def condRest : Token.Kind → Language Token.Kind
  | bang => ExprPart.negand.language
  | _ => ExprPart.side.language * (one condOp * (ExprPart.side.language * one [rpar]))

namespace ExprPart

/-- What the productions of a part say about its language. -/
def shape : ExprPart → Language Token.Kind
  | value | side => cond.language + expr.language
  | header => side.language * (1 + one condOp * side.language)
  | cond => choice Parse.conditionFirst condRest
  | negand => cond.language + atom.language
  | expr => term.language * (one addOp * term.language)∗
  | term => factor.language * (one mulOp * factor.language)∗
  | factor => one [minus] * factor.language + atom.language
  | atom => choice Parse.atomFirst atomRest
  | call => one [name] * (one [lpar] * (args.language * one [rpar]))
  | args => 1 + someArgs.language
  | someArgs => value.language * (1 + one [comma] * someArgs.language)

end ExprPart

/-- The header of an `if` or a `while` in its parentheses. -/
def enclosed : Language Token.Kind := one [lpar] * (ExprPart.header.language * one [rpar])

/-- What stands after the type of a declaration. -/
def declarationRest : Language Token.Kind :=
  one [name] * ((1 + one [equal] * ExprPart.value.language) * one [semicolon])

/-- What stands after the first token of a statement. -/
def innerRest : Token.Kind → Language Token.Kind
  | print => one [lpar] * ((1 + ExprPart.value.language) * (one [rpar] * one [semicolon]))
  | ifWord => enclosed * (StmtPart.block.language * (1 + one [elseWord] * StmtPart.block.language))
  | whileWord => enclosed * StmtPart.block.language
  | breakWord => one [semicolon]
  | name => one [lpar] * (ExprPart.args.language * one [rpar]) * one [semicolon] +
      (one stepOp * one [semicolon] + one assignOp * (ExprPart.value.language * one [semicolon]))
  | _ => declarationRest

namespace StmtPart

def shape : StmtPart → Language Token.Kind
  | inner => choice Parse.statementFirst innerRest
  | inners => 1 + inner.language * inners.language
  | block => one [lbrace] * (inners.language * one [rbrace])
  | params => 1 + someParams.language
  | someParams => param.language * (1 + one [comma] * someParams.language)
  | param => one typeName * one [name]
  | define => one [.define] * (param.language * (one [lpar] * (params.language * (one [rpar] * (one [lbrace] *
      (inners.language * (one [returnWord] * (ExprPart.value.language * (one [semicolon] * one [rbrace])))))))))
  | outer => define.language + inner.language
  | outers => 1 + outer.language * outers.language
  | start => outers.language

end StmtPart

section Members

variable {ks : List Token.Kind} {t : Token} {u v w : List Token} {l m : Language Token.Kind}

theorem Terminal.mem_one (h : Terminal ks t) : kinds [t] ∈ one ks := ⟨t, h, rfl⟩

theorem Terminal.cons_mem (h : Terminal ks t) (hw : kinds w ∈ l) : kinds (t :: w) ∈ one ks * l :=
  Language.append_mem_mul h.mem_one hw

theorem append_mem (hu : kinds u ∈ l) (hv : kinds v ∈ m) : kinds (u ++ v) ∈ l * m := by
  rw [kinds_append]
  exact Language.append_mem_mul hu hv

section Choice

variable {rest : Token.Kind → Language Token.Kind} {ks' : List Token.Kind}

theorem Terminal.mem_choice_of_mem (h : Terminal ks' t) (hks : ∀ k ∈ ks', k ∈ ks) (hrest : ∀ k ∈ ks', rest k = l)
    (hw : kinds w ∈ l) : kinds (t :: w) ∈ choice ks rest := by
  refine ⟨t, ⟨hks _ h.kind_mem, h.lexical⟩, kinds w, ?_, rfl⟩
  rw [hrest _ h.kind_mem]
  exact hw

theorem Terminal.mem_choice {k : Token.Kind} (h : Terminal [k] t) (hk : k ∈ ks) (hw : kinds w ∈ rest k) :
    kinds (t :: w) ∈ choice ks rest :=
  h.mem_choice_of_mem (List.forall_mem_singleton.mpr hk) (List.forall_mem_singleton.mpr rfl) hw

end Choice

theorem DerivesExpr.mem {n : ExprPart} {e : n.Tree} (h : DerivesExpr n w e) : kinds w ∈ n.language := ⟨w, e, h, rfl⟩

theorem DerivesStmt.mem {n : StmtPart} {s : n.Tree} (h : DerivesStmt n w s) : kinds w ∈ n.language := ⟨w, s, h, rfl⟩

/-- What may follow can be missing. -/
theorem append_one_mem (hw : kinds w ∈ l) : kinds w ∈ l * (1 + m) := by
  rw [mul_add, mul_one]
  exact .inl hw

theorem enclosed_mem {l r : Token} {c : Expr} (hl : Terminal [lpar] l) (hw : DerivesExpr .header w c) (hr : Terminal [rpar] r)
    (hu : kinds u ∈ m) : kinds (l :: (w ++ r :: u)) ∈ enclosed * m := by
  have hcut : l :: (w ++ r :: u) = l :: (w ++ [r]) ++ u := by simp
  rw [hcut]
  exact append_mem (hl.cons_mem (append_mem hw.mem hr.mem_one)) hu

/-- One more of what is repeated. -/
theorem append_mem_mul_kstar {x y : List Token.Kind} (hx : x ∈ l * m∗) (hy : y ∈ m) : x ++ y ∈ l * m∗ := by
  obtain ⟨a, ha, b, hb, rfl⟩ := hx
  rw [List.append_assoc]
  have hmore : m∗ * m ≤ m∗ := kstar_mul_le_kstar
  exact Language.append_mem_mul ha (hmore (Language.append_mem_mul hb hy))

end Members

/-- What holds of the first one and stays with one more holds of all repetitions. -/
theorem mul_kstar_subset {l m n : Language Token.Kind} (hl : ∀ x ∈ l, x ∈ n) (hm : ∀ x ∈ n * m, x ∈ n) :
    ∀ x ∈ l * m∗, x ∈ n := by
  have hle : l * m∗ ≤ n := mul_kstar_le hl hm
  exact fun x hx => hle hx

theorem repeated_eq (ks : List Token.Kind) (l : Language Token.Kind) :
    (one ks * l)∗ = one ks * (l * (one ks * l)∗) + 1 := by
  rw [← mul_assoc, add_comm, one_add_mul_kstar]

theorem innerRest_type : ∀ k ∈ typeName, innerRest k = declarationRest := by
  simp [innerRest, typeName]

/-- What is derived has the shape of its part. -/
theorem DerivesExpr.mem_shape {n : ExprPart} {w : List Token} {e : n.Tree} (h : DerivesExpr n w e) : kinds w ∈ n.shape := by
  induction h with
  | value_expr h | side_expr h | negand_atom h | factor_atom h => exact .inr h.mem
  | value_cond h | side_cond h | negand_cond h => exact .inl h.mem
  | header_side h | someArgs_one h => exact append_one_mem h.mem
  | header_binary hu ho hv | someArgs_more hu ho hv => exact append_mem hu.mem (.inr (ho.cons_mem hv.mem))
  | cond_binary hl hu ho hv hr =>
    exact hl.mem_choice (by decide) (append_mem hu.mem (ho.cons_mem (append_mem hv.mem hr.mem_one)))
  | cond_not hb hw => exact hb.mem_choice (by decide) hw.mem
  | expr_term h | term_factor h =>
    rw [← List.append_nil (kinds _)]
    exact Language.append_mem_mul h.mem (Language.nil_mem_kstar _)
  | expr_binary _ ho hv ih | term_binary _ ho hv ih =>
    rw [kinds_append]
    exact append_mem_mul_kstar ih (ho.cons_mem hv.mem)
  | factor_folded hm hw | factor_negated hm hw => exact .inl (hm.cons_mem hw.mem)
  | atom_literal ht | atom_boolean ht => exact ht.mem_choice_of_mem (l := 1) (w := []) (by decide) (by simp [atomRest]) rfl
  | atom_call h =>
    cases h with
    | call hf hl hw hr => exact hf.mem_choice (by decide) (.inr (hl.cons_mem (append_mem hw.mem hr.mem_one)))
  | atom_name ht => exact ht.mem_choice (by decide) (.inl rfl)
  | call hf hl hw hr => exact hf.cons_mem (hl.cons_mem (append_mem hw.mem hr.mem_one))
  | args_none => exact .inl rfl
  | args_some h => exact .inr h.mem

theorem DerivesStmt.mem_shape {n : StmtPart} {w : List Token} {s : n.Tree} (h : DerivesStmt n w s) : kinds w ∈ n.shape := by
  cases h with
  | declare hk _ ha hs =>
    exact hk.mem_choice_of_mem (by decide) innerRest_type
      (ha.cons_mem (append_mem (u := []) (.inl rfl) hs.mem_one))
  | declare_init hk _ ha ho hw hs =>
    exact hk.mem_choice_of_mem (by decide) innerRest_type
      (ha.cons_mem (append_mem (u := _ :: _) (.inr (ho.cons_mem hw.mem)) hs.mem_one))
  | assign ha ho hw hs =>
    exact ha.mem_choice (by decide) (.inr (.inr (ho.cons_mem (append_mem hw.mem hs.mem_one))))
  | step ha ho hs => exact ha.mem_choice (by decide) (.inr (.inl (ho.cons_mem hs.mem_one)))
  | call hw hs =>
    cases hw with
    | call hf hl hw hr =>
      have hcall := append_mem (hl.cons_mem (append_mem hw.mem hr.mem_one)) hs.mem_one
      exact hf.mem_choice (by decide) (.inl hcall)
  | print ha hl hr hs =>
    exact ha.mem_choice (by decide) (hl.cons_mem (append_mem (u := []) (.inl rfl) (hr.cons_mem hs.mem_one)))
  | print_value ha hl hw hr hs =>
    exact ha.mem_choice (by decide) (hl.cons_mem (append_mem (.inr hw.mem) (hr.cons_mem hs.mem_one)))
  | branch ha hl hw hr hu => exact ha.mem_choice (by decide) (enclosed_mem hl hw hr (append_one_mem hu.mem))
  | branch_else ha hl hw hr hu ho hv =>
    exact ha.mem_choice (by decide) (enclosed_mem hl hw hr (append_mem hu.mem (.inr (ho.cons_mem hv.mem))))
  | loop ha hl hw hr hu => exact ha.mem_choice (by decide) (enclosed_mem hl hw hr hu.mem)
  | breakOut ha hs => exact ha.mem_choice (by decide) hs.mem_one
  | inners_none | params_none | outers_none => exact .inl rfl
  | inners_more hu hv | outers_more hu hv => exact .inr (append_mem hu.mem hv.mem)
  | block hl hw hr => exact hl.cons_mem (append_mem hw.mem hr.mem_one)
  | params_some h => exact .inr h.mem
  | someParams_one h => exact append_one_mem h.mem
  | someParams_more hu hc hv => exact append_mem hu.mem (.inr (hc.cons_mem hv.mem))
  | param hk _ ha => exact hk.cons_mem ha.mem_one
  | define hd hk htype ha hl hu hr hb hw ho hv hs hc =>
    have hvalue := ho.cons_mem (append_mem hv.mem (hs.cons_mem hc.mem_one))
    have hbody := hr.cons_mem (hb.cons_mem (append_mem hw.mem hvalue))
    have hhead := append_mem (DerivesStmt.param hk htype ha).mem (hl.cons_mem (append_mem hu.mem hbody))
    exact hd.cons_mem hhead
  | outer_inner h => exact .inr h.mem
  | outer_define h => exact .inl h.mem
  | start h => exact h.mem

/-- There are tokens of every kind, but for the end. -/
theorem exists_readable {k : Token.Kind} (hk : k ≠ ending) : ∃ t : Token, t.kind = k ∧ Readable t := by
  cases hs : k.symbol? with
  | some s =>
    have hfaithful : Token.Faithful ⟨k, s, 0, 0⟩ := fun s' hs' => Option.some.inj (hs.symm.trans hs')
    have hne : k ≠ numberLit := by
      rintro rfl
      cases hs
    have hlexical := Token.lexical_of_symbol hs hfaithful
    exact ⟨⟨k, s, 0, 0⟩, rfl, hlexical, by simp [hlexical.isForeignNumber_eq, hne]⟩
  | none =>
    have hother : k = name ∨ k = numberLit ∨ k = stringLit := by
      cases k <;> simp_all [Token.Kind.symbol?]
    obtain ⟨t, ht, hkind, hforeign⟩ : ∃ t ∈ (Token.scan "a 1 ''").tokens, t.kind = k ∧ t.isForeignNumber = false := by
      rcases hother with rfl | rfl | rfl <;> decide
    exact ⟨t, hkind, Token.scan_lexical _ t ht, hforeign⟩

/-- A choice goes by the kinds alone. -/
theorem mem_choice_iff {ks : List Token.Kind} {rest : Token.Kind → Language Token.Kind} {x : List Token.Kind}
    (hks : ending ∉ ks) : x ∈ choice ks rest ↔ ∃ k ∈ ks, ∃ z ∈ rest k, x = k :: z := by
  constructor
  · rintro ⟨t, ht, hx⟩
    exact ⟨t.kind, ht.kind_mem, hx⟩
  · rintro ⟨k, hk, hx⟩
    obtain ⟨t, rfl, ht⟩ := exists_readable (k := k) (fun h => hks (h ▸ hk))
    exact ⟨t, ⟨hk, ht.1⟩, hx⟩

theorem choice_const (ks : List Token.Kind) (l : Language Token.Kind) : (choice ks fun _ => l) = one ks * l := by
  ext x
  constructor
  · rintro ⟨t, ht, z, hz, rfl⟩
    exact ⟨[t.kind], ⟨t, ht, rfl⟩, z, hz, rfl⟩
  · rintro ⟨_, ⟨t, ht, rfl⟩, z, hz, rfl⟩
    exact ⟨t, ht, z, hz, rfl⟩

/-- A literal can have any of the kinds of literals. -/
theorem literal_mem {k : Token.Kind} (hk : k ∈ Parse.atomFirst) (hname : k ≠ name) : [k] ∈ ExprPart.atom.language := by
  obtain ⟨t, rfl, ht⟩ := exists_readable (k := k) (by rintro rfl; revert hk; decide)
  simp only [Parse.atomFirst, List.mem_cons, List.not_mem_nil, or_false, hname] at hk
  rcases hk with hk | hk | hk
  · exact (Parse.derives_number ht hk).mem
  · exact (Parse.derives_string ht hk).mem
  · exact (Parse.derives_boolean ht hk).mem

theorem atomRest_of_ne {k : Token.Kind} (h : k ≠ name) : atomRest k = 1 := by
  cases k <;> first | rfl | exact absurd rfl h

/-- What has the shape of a part can be derived. -/
theorem ExprPart.mem_of_shape (n : ExprPart) : ∀ x ∈ n.shape, x ∈ n.language := by
  cases n with
  | value =>
    rintro _ (⟨w, e, h, rfl⟩ | ⟨w, e, h, rfl⟩)
    · exact (DerivesExpr.value_cond h).mem
    · exact (DerivesExpr.value_expr h).mem
  | side =>
    rintro _ (⟨w, e, h, rfl⟩ | ⟨w, e, h, rfl⟩)
    · exact (DerivesExpr.side_cond h).mem
    · exact (DerivesExpr.side_expr h).mem
  | header =>
    rintro _ ⟨_, ⟨u, x, hu, rfl⟩, _, rfl | ⟨_, ⟨o, ho, rfl⟩, _, ⟨v, y, hv, rfl⟩, rfl⟩, rfl⟩
    · exact ⟨u, x, .header_side hu, List.append_nil _⟩
    · exact ⟨u ++ o :: v, _, .header_binary hu ho hv, by simp⟩
  | cond =>
    rintro _ ⟨t, ht, z, hz, rfl⟩
    have hkind : t.kind = lpar ∨ t.kind = bang := by simpa [Parse.conditionFirst] using ht.kind_mem
    rcases hkind with hk | hk
    · rw [hk] at hz
      obtain ⟨_, ⟨u, x, hu, rfl⟩, _, ⟨_, ⟨o, ho, rfl⟩, _, ⟨_, ⟨v, y, hv, rfl⟩, _, ⟨r, hr, rfl⟩, rfl⟩, rfl⟩, rfl⟩ := hz
      exact ⟨t :: (u ++ o :: (v ++ [r])), _, .cond_binary ⟨by simp [hk], ht.lexical⟩ hu ho hv hr, by simp⟩
    · rw [hk] at hz
      obtain ⟨w, e, hw, rfl⟩ := hz
      exact ⟨t :: w, _, .cond_not ⟨by simp [hk], ht.lexical⟩ hw, rfl⟩
  | negand =>
    rintro _ (⟨w, e, h, rfl⟩ | ⟨w, e, h, rfl⟩)
    · exact (DerivesExpr.negand_cond h).mem
    · exact (DerivesExpr.negand_atom h).mem
  | expr =>
    apply mul_kstar_subset
    · rintro _ ⟨w, e, h, rfl⟩
      exact (DerivesExpr.expr_term h).mem
    · rintro _ ⟨_, ⟨u, x, hu, rfl⟩, _, ⟨_, ⟨o, ho, rfl⟩, _, ⟨v, y, hv, rfl⟩, rfl⟩, rfl⟩
      exact ⟨u ++ o :: v, _, .expr_binary hu ho hv, by simp⟩
  | term =>
    apply mul_kstar_subset
    · rintro _ ⟨w, e, h, rfl⟩
      exact (DerivesExpr.term_factor h).mem
    · rintro _ ⟨_, ⟨u, x, hu, rfl⟩, _, ⟨_, ⟨o, ho, rfl⟩, _, ⟨v, y, hv, rfl⟩, rfl⟩, rfl⟩
      exact ⟨u ++ o :: v, _, .term_binary hu ho hv, by simp⟩
  | factor =>
    rintro _ (⟨_, ⟨m, hm, rfl⟩, _, ⟨w, e, hw, rfl⟩, rfl⟩ | ⟨w, e, h, rfl⟩)
    · exact (Parse.derives_negate hm hw).mem
    · exact (DerivesExpr.factor_atom h).mem
  | atom =>
    rintro _ ⟨t, ht, z, hz, rfl⟩
    by_cases hname : t.kind = name
    · have hterminal : Terminal [name] t := ⟨by simp [hname], ht.lexical⟩
      rw [hname] at hz
      obtain rfl | ⟨_, ⟨l, hl, rfl⟩, _, ⟨_, ⟨w, es, hw, rfl⟩, _, ⟨r, hr, rfl⟩, rfl⟩, rfl⟩ := hz
      · exact (DerivesExpr.atom_name hterminal).mem
      · exact ⟨t :: l :: (w ++ [r]), _, .atom_call (.call hterminal hl hw hr), by simp⟩
    · rw [atomRest_of_ne hname] at hz
      obtain rfl := (Language.mem_one z).mp hz
      exact literal_mem ht.kind_mem hname
  | call =>
    rintro _ ⟨_, ⟨f, hf, rfl⟩, _, ⟨_, ⟨l, hl, rfl⟩, _, ⟨_, ⟨w, es, hw, rfl⟩, _, ⟨r, hr, rfl⟩, rfl⟩, rfl⟩, rfl⟩
    exact ⟨f :: l :: (w ++ [r]), _, .call hf hl hw hr, by simp⟩
  | args =>
    rintro _ (rfl | ⟨w, es, h, rfl⟩)
    · exact DerivesExpr.args_none.mem
    · exact (DerivesExpr.args_some h).mem
  | someArgs =>
    rintro _ ⟨_, ⟨u, e, hu, rfl⟩, _, rfl | ⟨_, ⟨c, hc, rfl⟩, _, ⟨v, es, hv, rfl⟩, rfl⟩, rfl⟩
    · exact ⟨u, [e], .someArgs_one hu, List.append_nil _⟩
    · exact ⟨u ++ c :: v, _, .someArgs_more hu hc hv, by simp⟩

theorem ExprPart.language_eq (n : ExprPart) : n.language = n.shape := by
  ext x
  constructor
  · rintro ⟨w, e, h, rfl⟩
    exact h.mem_shape
  · exact n.mem_of_shape x

theorem exists_terminal {k : Token.Kind} (hk : k ≠ ending) : ∃ t, Terminal [k] t := by
  obtain ⟨t, hkind, ht⟩ := exists_readable hk
  exact ⟨t, by simp [hkind], ht.1⟩

theorem ExprPart.exists_mem (n : ExprPart) : ∃ x, x ∈ n.language := by
  obtain ⟨t, ht⟩ := exists_terminal (k := name) (by decide)
  obtain ⟨b, hb⟩ := exists_terminal (k := bang) (by decide)
  obtain ⟨l, hl⟩ := exists_terminal (k := lpar) (by decide)
  obtain ⟨r, hr⟩ := exists_terminal (k := rpar) (by decide)
  have hatom := DerivesExpr.atom_name ht
  have hexpr := DerivesExpr.expr_term (.term_factor (.factor_atom hatom))
  cases n with
  | value => exact ⟨_, (DerivesExpr.value_expr hexpr).mem⟩
  | side => exact ⟨_, (DerivesExpr.side_expr hexpr).mem⟩
  | header => exact ⟨_, (DerivesExpr.header_side (.side_expr hexpr)).mem⟩
  | cond => exact ⟨_, (DerivesExpr.cond_not hb (.negand_atom hatom)).mem⟩
  | negand => exact ⟨_, (DerivesExpr.negand_atom hatom).mem⟩
  | expr => exact ⟨_, hexpr.mem⟩
  | term => exact ⟨_, (DerivesExpr.term_factor (.factor_atom hatom)).mem⟩
  | factor => exact ⟨_, (DerivesExpr.factor_atom hatom).mem⟩
  | atom => exact ⟨_, hatom.mem⟩
  | call => exact ⟨_, (DerivesExpr.call ht hl .args_none hr).mem⟩
  | args => exact ⟨_, DerivesExpr.args_none.mem⟩
  | someArgs => exact ⟨_, (DerivesExpr.someArgs_one (.value_expr hexpr)).mem⟩

section Statements

variable {t : Token} {z : List Token.Kind}

theorem print_mem (ht : Terminal [print] t) (hz : z ∈ innerRest print) : t.kind :: z ∈ StmtPart.inner.language := by
  obtain ⟨_, ⟨l, hl, rfl⟩, _, ⟨_, hvalue, _, ⟨_, ⟨r, hr, rfl⟩, _, ⟨s, hs, rfl⟩, rfl⟩, rfl⟩, rfl⟩ := hz
  rcases hvalue with rfl | ⟨w, e, hw, rfl⟩
  · exact (DerivesStmt.print ht hl hr hs).mem
  · exact ⟨t :: l :: (w ++ [r, s]), _, .print_value ht hl hw hr hs, by simp⟩

theorem branch_mem (ht : Terminal [ifWord] t) (hz : z ∈ innerRest ifWord) : t.kind :: z ∈ StmtPart.inner.language := by
  obtain ⟨_, ⟨_, ⟨l, hl, rfl⟩, _, ⟨_, ⟨w, c, hw, rfl⟩, _, ⟨r, hr, rfl⟩, rfl⟩, rfl⟩, _, ⟨_, ⟨u, first, hu, rfl⟩, _, hsecond,
    rfl⟩, rfl⟩ := hz
  rcases hsecond with rfl | ⟨_, ⟨o, ho, rfl⟩, _, ⟨v, second, hv, rfl⟩, rfl⟩
  · exact ⟨t :: l :: (w ++ r :: u), _, .branch ht hl hw hr hu, by simp⟩
  · exact ⟨t :: l :: (w ++ r :: (u ++ o :: v)), _, .branch_else ht hl hw hr hu ho hv, by simp⟩

theorem loop_mem (ht : Terminal [whileWord] t) (hz : z ∈ innerRest whileWord) : t.kind :: z ∈ StmtPart.inner.language := by
  obtain ⟨_, ⟨_, ⟨l, hl, rfl⟩, _, ⟨_, ⟨w, c, hw, rfl⟩, _, ⟨r, hr, rfl⟩, rfl⟩, rfl⟩, _, ⟨u, body, hu, rfl⟩, rfl⟩ := hz
  exact ⟨t :: l :: (w ++ r :: u), _, .loop ht hl hw hr hu, by simp⟩

theorem named_mem (ht : Terminal [name] t) (hz : z ∈ innerRest name) : t.kind :: z ∈ StmtPart.inner.language := by
  rcases hz with hcall | hstep | hassign
  · obtain ⟨_, ⟨_, ⟨l, hl, rfl⟩, _, ⟨_, ⟨w, es, hw, rfl⟩, _, ⟨r, hr, rfl⟩, rfl⟩, rfl⟩, _, ⟨s, hs, rfl⟩, rfl⟩ := hcall
    exact ⟨t :: l :: (w ++ [r]) ++ [s], _, .call (.call ht hl hw hr) hs, by simp⟩
  · obtain ⟨_, ⟨o, ho, rfl⟩, _, ⟨s, hs, rfl⟩, rfl⟩ := hstep
    exact (DerivesStmt.step ht ho hs).mem
  · obtain ⟨_, ⟨o, ho, rfl⟩, _, ⟨_, ⟨w, e, hw, rfl⟩, _, ⟨s, hs, rfl⟩, rfl⟩, rfl⟩ := hassign
    exact ⟨t :: o :: (w ++ [s]), _, .assign ht ho hw hs, by simp⟩

theorem declare_mem (ht : Terminal typeName t) (hz : z ∈ declarationRest) : t.kind :: z ∈ StmtPart.inner.language := by
  have htype := ht.lexical.typeNamed ht.kind_mem
  obtain ⟨_, ⟨a, ha, rfl⟩, _, ⟨_, hinit, _, ⟨s, hs, rfl⟩, rfl⟩, rfl⟩ := hz
  rcases hinit with rfl | ⟨_, ⟨o, ho, rfl⟩, _, ⟨w, e, hw, rfl⟩, rfl⟩
  · exact (DerivesStmt.declare ht htype ha hs).mem
  · exact ⟨t :: a :: o :: (w ++ [s]), _, .declare_init ht htype ha ho hw hs, by simp⟩

theorem inner_mem (ht : Terminal Parse.statementFirst t) (hz : z ∈ innerRest t.kind) :
    t.kind :: z ∈ StmtPart.inner.language := by
  have hone {k : Token.Kind} (hk : t.kind = k) : Terminal [k] t ∧ z ∈ innerRest k :=
    ⟨⟨by simp [hk], ht.lexical⟩, hk ▸ hz⟩
  have hkind : t.kind = print ∨ t.kind = ifWord ∨ t.kind = whileWord ∨ t.kind = breakWord ∨ t.kind = name ∨
      t.kind ∈ typeName := by
    simpa [Parse.statementFirst, Parse.typeWords, typeName] using ht.kind_mem
  rcases hkind with hk | hk | hk | hk | hk | hk
  · exact print_mem (hone hk).1 (hone hk).2
  · exact branch_mem (hone hk).1 (hone hk).2
  · exact loop_mem (hone hk).1 (hone hk).2
  · obtain ⟨hbreak, s, hs, rfl⟩ := hone hk
    exact (DerivesStmt.breakOut hbreak hs).mem
  · exact named_mem (hone hk).1 (hone hk).2
  · exact declare_mem ⟨hk, ht.lexical⟩ (innerRest_type _ hk ▸ hz)

end Statements

theorem StmtPart.mem_of_shape (n : StmtPart) : ∀ x ∈ n.shape, x ∈ n.language := by
  cases n with
  | inner =>
    rintro _ ⟨t, ht, z, hz, rfl⟩
    exact inner_mem ht hz
  | inners =>
    rintro _ (rfl | ⟨_, ⟨u, s, hu, rfl⟩, _, ⟨v, rest, hv, rfl⟩, rfl⟩)
    · exact DerivesStmt.inners_none.mem
    · exact ⟨u ++ v, _, .inners_more hu hv, (kinds_append u v).symm⟩
  | block =>
    rintro _ ⟨_, ⟨l, hl, rfl⟩, _, ⟨_, ⟨w, body, hw, rfl⟩, _, ⟨r, hr, rfl⟩, rfl⟩, rfl⟩
    exact ⟨l :: (w ++ [r]), body, .block hl hw hr, by simp⟩
  | params =>
    rintro _ (rfl | ⟨w, ps, h, rfl⟩)
    · exact DerivesStmt.params_none.mem
    · exact (DerivesStmt.params_some h).mem
  | someParams =>
    rintro _ ⟨_, ⟨u, p, hu, rfl⟩, _, rfl | ⟨_, ⟨c, hc, rfl⟩, _, ⟨v, ps, hv, rfl⟩, rfl⟩, rfl⟩
    · exact ⟨u, [p], .someParams_one hu, List.append_nil _⟩
    · exact ⟨u ++ c :: v, _, .someParams_more hu hc hv, by simp⟩
  | param =>
    rintro _ ⟨_, ⟨k, hk, rfl⟩, _, ⟨a, ha, rfl⟩, rfl⟩
    exact (DerivesStmt.param hk (hk.lexical.typeNamed hk.kind_mem) ha).mem
  | define =>
    rintro _ ⟨_, ⟨d, hd, rfl⟩, _, hhead, rfl⟩
    obtain ⟨_, ⟨_, _, hparam, rfl⟩, _, ⟨_, ⟨l, hl, rfl⟩, _, hparams, rfl⟩, rfl⟩ := hhead
    obtain ⟨_, ⟨u, ps, hu, rfl⟩, _, ⟨_, ⟨r, hr, rfl⟩, _, ⟨_, ⟨b, hb, rfl⟩, _, hbody, rfl⟩, rfl⟩, rfl⟩ := hparams
    obtain ⟨_, ⟨w, body, hw, rfl⟩, _, ⟨_, ⟨o, ho, rfl⟩, _, hvalue, rfl⟩, rfl⟩ := hbody
    obtain ⟨_, ⟨v, e, hv, rfl⟩, _, ⟨_, ⟨s, hs, rfl⟩, _, ⟨c, hc, rfl⟩, rfl⟩, rfl⟩ := hvalue
    cases hparam with
    | param hk htype ha => exact ⟨_, _, .define hd hk htype ha hl hu hr hb hw ho hv hs hc, by simp⟩
  | outer =>
    rintro _ (⟨w, s, h, rfl⟩ | ⟨w, s, h, rfl⟩)
    · exact (DerivesStmt.outer_define h).mem
    · exact (DerivesStmt.outer_inner h).mem
  | outers =>
    rintro _ (rfl | ⟨_, ⟨u, s, hu, rfl⟩, _, ⟨v, rest, hv, rfl⟩, rfl⟩)
    · exact DerivesStmt.outers_none.mem
    · exact ⟨u ++ v, _, .outers_more hu hv, (kinds_append u v).symm⟩
  | start =>
    rintro _ ⟨w, body, h, rfl⟩
    exact (DerivesStmt.start h).mem

theorem StmtPart.exists_mem (n : StmtPart) : ∃ x, x ∈ n.language := by
  obtain ⟨a, ha⟩ := exists_terminal (k := breakWord) (by decide)
  obtain ⟨s, hs⟩ := exists_terminal (k := semicolon) (by decide)
  obtain ⟨l, hl⟩ := exists_terminal (k := lbrace) (by decide)
  obtain ⟨r, hr⟩ := exists_terminal (k := rbrace) (by decide)
  obtain ⟨k, hk⟩ := exists_terminal (k := number) (by decide)
  obtain ⟨f, hf⟩ := exists_terminal (k := name) (by decide)
  have hinner := DerivesStmt.breakOut ha hs
  have htype : Terminal typeName k := ⟨by simp [typeName, hk.kind_eq], hk.lexical⟩
  have hparam := DerivesStmt.param htype (htype.lexical.typeNamed htype.kind_mem) hf
  cases n with
  | inner => exact ⟨_, hinner.mem⟩
  | inners => exact ⟨_, DerivesStmt.inners_none.mem⟩
  | block => exact ⟨_, (DerivesStmt.block hl .inners_none hr).mem⟩
  | params => exact ⟨_, DerivesStmt.params_none.mem⟩
  | someParams => exact ⟨_, (DerivesStmt.someParams_one hparam).mem⟩
  | param => exact ⟨_, hparam.mem⟩
  | define =>
    obtain ⟨d, hd⟩ := exists_terminal (k := .define) (by decide)
    obtain ⟨p, hp⟩ := exists_terminal (k := lpar) (by decide)
    obtain ⟨q, hq⟩ := exists_terminal (k := rpar) (by decide)
    obtain ⟨o, ho⟩ := exists_terminal (k := returnWord) (by decide)
    obtain ⟨_, v, e, hv, -⟩ := ExprPart.value.exists_mem
    have hnamed := htype.lexical.typeNamed htype.kind_mem
    exact ⟨_, (DerivesStmt.define hd htype hnamed hf hp .params_none hq hl .inners_none ho hv hs hr).mem⟩
  | outer => exact ⟨_, (DerivesStmt.outer_inner hinner).mem⟩
  | outers => exact ⟨_, DerivesStmt.outers_none.mem⟩
  | start => exact ⟨_, (DerivesStmt.start .outers_none).mem⟩

theorem StmtPart.language_eq (n : StmtPart) : n.language = n.shape := by
  ext x
  constructor
  · rintro ⟨w, s, h, rfl⟩
    exact h.mem_shape
  · exact n.mem_of_shape x

theorem StmtPart.nil_notMem (n : StmtPart) (h : ending ∉ n.first) : [] ∉ n.language := by
  rintro ⟨w, s, hw, hnil⟩
  rw [List.map_eq_nil_iff.mp hnil.symm] at hw
  exact h hw.first

end CheckedScript.Grammar
