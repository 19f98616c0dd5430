import CheckedScript.Proofs.Accepting
import CheckedScript.Proofs.Sentences

/-! Reading goes on for as long as a sentence can. A parser looks at the kinds of the tokens that it takes and of one token
more. If it accepts, then no other part of its kind goes with what it has seen; if it refuses, then the tokens before the
refused one start a part of its kind, and with the refused one no part starts. Both hold before the tokens that can follow
the part, and they carry over from the parsers of the parts to the parser of the whole. -/

namespace CheckedScript.Parse

open Grammar
open Token.Kind
open scoped Computability

/-- The kinds start with one of `ks`. -/
def Starts (ks x : List Token.Kind) : Prop := ∃ k ∈ ks, ∃ z, x = k :: z

/-- Whatever stands in the language, before what starts with one of `follow`, starts with one of `first`. -/
def Leads (l : Language Token.Kind) (follow first : List Token.Kind) : Prop :=
  ∀ x ∈ l, ∀ y, Starts follow y → Starts first (x ++ y)

namespace Leads

variable {l m : Language Token.Kind} {follow first mid ks : List Token.Kind}

theorem of_subset (h : Leads l follow mid) (hsub : ∀ k ∈ mid, k ∈ first := by decide) : Leads l follow first := by
  intro x hx y hy
  obtain ⟨k, hk, heq⟩ := h x hx y hy
  exact ⟨k, hsub k hk, heq⟩

theorem nil (h : ∀ k ∈ follow, k ∈ first := by decide) : Leads 1 follow first := by
  rintro _ rfl y ⟨k, hk, z, rfl⟩
  exact ⟨k, h k hk, z, rfl⟩

theorem add (hl : Leads l follow first) (hm : Leads m follow first) : Leads (l + m) follow first := by
  rintro x (hx | hx) y hy
  · exact hl x hx y hy
  · exact hm x hx y hy

/-- If something must stand in the language, then what follows is of no account. -/
theorem of_starts (h : ∀ x ∈ l, Starts first x) : Leads l follow first := by
  intro x hx y _
  obtain ⟨k, hk, z, rfl⟩ := h x hx
  exact ⟨k, hk, z ++ y, rfl⟩

end Leads

section Starting

variable {l m : Language Token.Kind} {follow first ks : List Token.Kind}

theorem starts_mul (h : ∀ x ∈ l, Starts first x) : ∀ x ∈ l * m, Starts first x := by
  rintro _ ⟨x, hx, y, -, rfl⟩
  obtain ⟨k, hk, z, rfl⟩ := h x hx
  exact ⟨k, hk, z ++ y, rfl⟩

theorem starts_one (h : ∀ k ∈ ks, k ∈ first) : ∀ x ∈ one ks, Starts first x := by
  rintro _ ⟨t, ht, rfl⟩
  exact ⟨t.kind, h _ ht.kind_mem, [], rfl⟩

theorem starts_of_nextKind {w : List Token} {kinds' : List Token.Kind} (hw : nextKind w ∈ kinds') (hend : ending ∉ kinds')
    (h : ∀ k ∈ kinds', k ∈ first) : Starts first (kinds w) := by
  obtain ⟨t, w, rfl⟩ := List.exists_cons_of_ne_nil (ne_nil_of_nextKind hw hend)
  exact ⟨t.kind, h _ hw, kinds w, rfl⟩

theorem starts_expr (n : ExprPart) (hend : ending ∉ n.first) (h : ∀ k ∈ n.first, k ∈ first) :
    ∀ x ∈ n.language, Starts first x := by
  rintro _ ⟨w, e, hw, rfl⟩
  exact starts_of_nextKind hw.first hend h

theorem starts_stmt (n : StmtPart) (hend : ending ∉ n.first) (h : ∀ k ∈ n.first, k ∈ first) :
    ∀ x ∈ n.language, Starts first x := by
  rintro _ ⟨w, s, hw, rfl⟩
  exact starts_of_nextKind hw.first hend h

namespace Leads

theorem one (h : ∀ k ∈ ks, k ∈ first := by decide) : Leads (Grammar.one ks) follow first := .of_starts (starts_one h)

theorem one_mul (h : ∀ k ∈ ks, k ∈ first := by decide) : Leads (Grammar.one ks * m) follow first :=
  .of_starts (starts_mul (starts_one h))

theorem expr (n : ExprPart) (h : ∀ k ∈ n.first, k ∈ first := by decide) (hend : ending ∉ n.first := by decide) :
    Leads n.language follow first := .of_starts (starts_expr n hend h)

theorem expr_mul (n : ExprPart) (h : ∀ k ∈ n.first, k ∈ first := by decide) (hend : ending ∉ n.first := by decide) :
    Leads (n.language * m) follow first := .of_starts (starts_mul (starts_expr n hend h))

theorem stmt (n : StmtPart) (h : ∀ k ∈ n.first, k ∈ first := by decide) (hend : ending ∉ n.first := by decide) :
    Leads n.language follow first := .of_starts (starts_stmt n hend h)

theorem stmt_mul (n : StmtPart) (h : ∀ k ∈ n.first, k ∈ first := by decide) (hend : ending ∉ n.first := by decide) :
    Leads (n.language * m) follow first := .of_starts (starts_mul (starts_stmt n hend h))

theorem repeated (hks : ∀ k ∈ ks, k ∈ first := by decide) (h : ∀ k ∈ follow, k ∈ first := by decide) :
    Leads (Grammar.one ks * m)∗ follow first := by
  rw [repeated_eq]
  exact .add (.one_mul hks) (.nil h)

end Leads

end Starting

/-- The kinds that have been looked at, once `w` is taken and `rest` is left. -/
def seen (w rest : List Token) : List Token.Kind := kinds w ++ [nextKind rest]

theorem seen_append (w v rest : List Token) : seen (w ++ v) rest = kinds w ++ seen v rest := by
  rw [seen, seen, kinds_append, List.append_assoc]

theorem nextKind_prefix_seen (v rest : List Token) : [nextKind (v ++ rest)] <+: seen v rest := by
  cases v with
  | nil => exact List.prefix_rfl
  | cons t v => exact ⟨seen v rest, rfl⟩

theorem seen_initial (w v rest : List Token) : seen w (v ++ rest) <+: seen (w ++ v) rest := by
  rw [seen_append, seen, List.prefix_append_right_inj]
  exact nextKind_prefix_seen v rest

/-- The tokens make up a part, and nothing else does that agrees with what has been seen. -/
structure Whole (l : Language Token.Kind) (follow : List Token.Kind) (w rest : List Token) : Prop where
  mem : kinds w ∈ l
  unique : ∀ x ∈ l, ∀ y, Starts follow y → seen w rest <+: x ++ y → x = kinds w

/-- The tokens start a part, and no part agrees with what has been seen. -/
structure Broken (l : Language Token.Kind) (follow : List Token.Kind) (u rest : List Token) : Prop where
  viable : ∃ x ∈ l, kinds u <+: x
  stuck : ∀ x ∈ l, ∀ y, Starts follow y → ¬seen u rest <+: x ++ y

section Parts

variable {l m : Language Token.Kind} {follow mid : List Token.Kind} {u v w rest : List Token}

theorem Whole.append (hw : Whole l mid w (v ++ rest)) (hv : Whole m follow v rest) (hlead : Leads m follow mid) :
    Whole (l * m) follow (w ++ v) rest := by
  refine ⟨append_mem hw.mem hv.mem, ?_⟩
  rintro _ ⟨x, hx, x', hx', rfl⟩ y hy hseen
  rw [List.append_assoc] at hseen
  -- what has been seen fixes the first part, and then the rest of it is about the second part alone
  obtain rfl := hw.unique x hx _ (hlead x' hx' y hy) ((seen_initial w v rest).trans hseen)
  rw [seen_append, List.prefix_append_right_inj] at hseen
  rw [hv.unique x' hx' y hy hseen, kinds_append]

theorem Whole.append_broken (hw : Whole l mid w (u ++ rest)) (hu : Broken m follow u rest) (hlead : Leads m follow mid) :
    Broken (l * m) follow (w ++ u) rest := by
  obtain ⟨x, hx, hinitial⟩ := hu.viable
  refine ⟨⟨kinds w ++ x, Language.append_mem_mul hw.mem hx, ?_⟩, ?_⟩
  · rwa [kinds_append, List.prefix_append_right_inj]
  · rintro _ ⟨x, hx, x', hx', rfl⟩ y hy hseen
    rw [List.append_assoc] at hseen
    obtain rfl := hw.unique x hx _ (hlead x' hx' y hy) ((seen_initial w u rest).trans hseen)
    rw [seen_append, List.prefix_append_right_inj] at hseen
    exact hu.stuck x' hx' y hy hseen

theorem Broken.append (hu : Broken l mid u rest) (hm : ∃ x, x ∈ m) (hlead : Leads m follow mid) :
    Broken (l * m) follow u rest := by
  obtain ⟨x, hx, hinitial⟩ := hu.viable
  obtain ⟨x', hx'⟩ := hm
  refine ⟨⟨x ++ x', Language.append_mem_mul hx hx', hinitial.trans (List.prefix_append x x')⟩, ?_⟩
  rintro _ ⟨x, hx, x', hx', rfl⟩ y hy hseen
  rw [List.append_assoc] at hseen
  exact hu.stuck x hx _ (hlead x' hx' y hy) hseen

/-- What starts otherwise does not agree with what has been seen. -/
theorem not_agrees {first : List Token.Kind} (hlead : Leads m follow first) (hnext : nextKind (w ++ rest) ∉ first) :
    ∀ x ∈ m, ∀ y, Starts follow y → ¬seen w rest <+: x ++ y := by
  intro x hx y hy hseen
  obtain ⟨k, hk, z, heq⟩ := hlead x hx y hy
  have hhead := (nextKind_prefix_seen w rest).trans hseen
  rw [heq, List.cons_prefix_cons] at hhead
  exact hnext (hhead.1 ▸ hk)

theorem Whole.add (hw : Whole l follow w rest) (hm : ∀ x ∈ m, ∀ y, Starts follow y → ¬seen w rest <+: x ++ y) :
    Whole (l + m) follow w rest := by
  refine ⟨.inl hw.mem, ?_⟩
  rintro x (hx | hx) y hy hseen
  · exact hw.unique x hx y hy hseen
  · exact absurd hseen (hm x hx y hy)

theorem Broken.add (hu : Broken l follow u rest) (hm : ∀ x ∈ m, ∀ y, Starts follow y → ¬seen u rest <+: x ++ y) :
    Broken (l + m) follow u rest := by
  obtain ⟨x, hx, hinitial⟩ := hu.viable
  refine ⟨⟨x, .inl hx, hinitial⟩, ?_⟩
  rintro x (hx | hx) y hy
  · exact hu.stuck x hx y hy
  · exact hm x hx y hy

end Parts

variable {α β : Type}

/-- What a parser of the language can come to. -/
inductive Outcome (l : Language Token.Kind) (follow : List Token.Kind) (ts : List Token) :
    Except Refusal (α × List Token) → Prop
  | accepted {w rest : List Token} {a : α} (hts : ts = w ++ rest) (h : Whole l follow w rest) :
      Outcome l follow ts (.ok (a, rest))
  | refused {u rest : List Token} {r : Refusal} (hts : ts = u ++ rest) (hfound : r.found = rest.head?)
      (h : Broken l follow u rest) : Outcome l follow ts (.error r)

section Outcomes

variable {l m : Language Token.Kind} {follow first ks : List Token.Kind} {ts : List Token}
  {answer : Except Refusal (α × List Token)}

/-- Nothing was taken, and the next token starts no part. -/
theorem Outcome.at_once (ts expected) (hl : ∃ x, x ∈ l) (hlead : Leads l follow first) (hnext : nextKind ts ∉ first) :
    Outcome l follow ts (.error ⟨ts.head?, expected⟩ : Except Refusal (α × List Token)) := by
  obtain ⟨x, hx⟩ := hl
  exact .refused (u := []) rfl rfl ⟨⟨x, hx, List.nil_prefix⟩, not_agrees hlead hnext⟩

/-- What starts otherwise does not count. -/
theorem Outcome.add (h : Outcome l follow ts answer) (hlead : Leads m follow first) (hnext : nextKind ts ∉ first) :
    Outcome (l + m) follow ts answer := by
  cases h with
  | accepted hts hw =>
    subst hts
    exact .accepted rfl (hw.add (not_agrees hlead hnext))
  | refused hts hfound hu =>
    subst hts
    exact .refused rfl hfound (hu.add (not_agrees hlead hnext))

/-- The token that was taken decides on what goes with it. -/
theorem Outcome.choice {rest : Token.Kind → Language Token.Kind} {t : Token} (h : Outcome (rest t.kind) follow ts answer)
    (hkind : t.kind ∈ ks) (hend : ending ∉ ks) : Outcome (choice ks rest) follow (t :: ts) answer := by
  have hmem {x : List Token.Kind} (hx : x ∈ rest t.kind) : t.kind :: x ∈ Grammar.choice ks rest :=
    (mem_choice_iff hend).mpr ⟨t.kind, hkind, x, hx, rfl⟩
  cases h with
  | @accepted w after _ hts hw =>
    subst hts
    refine .accepted (w := t :: w) rfl ⟨hmem hw.mem, ?_⟩
    intro x hx y hy hseen
    obtain ⟨kind, -, z, hz, rfl⟩ := (mem_choice_iff hend).mp hx
    obtain ⟨rfl, htail⟩ := List.cons_prefix_cons.mp hseen
    rw [hw.unique z hz y hy htail, kinds_cons]
  | @refused u after _ hts hfound hu =>
    subst hts
    obtain ⟨x, hx, hinitial⟩ := hu.viable
    refine .refused (u := t :: u) rfl hfound ⟨⟨t.kind :: x, hmem hx, List.cons_prefix_cons.mpr ⟨rfl, hinitial⟩⟩, ?_⟩
    intro x hx y hy hseen
    obtain ⟨kind, -, z, hz, rfl⟩ := (mem_choice_iff hend).mp hx
    obtain ⟨rfl, htail⟩ := List.cons_prefix_cons.mp hseen
    exact hu.stuck z hz y hy htail

end Outcomes

/-- The parser reads the language before what follows, from fewer than `n` tokens. -/
structure Recognizes (n : Nat) (p : Parser α) (l : Language Token.Kind) (follow : List Token.Kind) : Prop where
  exists_mem : ∃ x, x ∈ l
  outcome : ∀ ts, ts.length < n → Outcome l follow ts (p ts)

theorem expect_eq_error {ks : List Token.Kind} {ts : List Token} (h : nextKind ts ∉ ks) :
    expect ks ts = .error ⟨ts.head?, ks⟩ := by
  unfold expect
  rw [next_step, if_neg h]
  rfl

theorem bind_error {p : Parser α} {k : α → Parser β} {ts : List Token} {r : Refusal} (h : p ts = .error r) :
    (p >>= k) ts = .error r := by
  simp only [Bind.bind, StateT.bind, h, Except.bind]

/-- Looking again shows the same. -/
theorem next_ite_next {c : Token.Kind → Prop} [DecidablePred c] {p : Parser α} {q : Token.Kind → Parser α} :
    (next >>= fun k => if c k then p else q k) = next >>= fun k => if c k then p else next >>= q := by
  funext ts
  rw [next_step, next_step]
  split
  · rfl
  · rw [next_step]

namespace Recognizes

variable {n : Nat} {p q : Parser α} {k : α → Parser β} {l m : Language Token.Kind} {follow mid ks : List Token.Kind}

/-- Without fuel nothing is read. -/
theorem exhausted (hn : n = 0) (h : ∃ x, x ∈ l) : Recognizes n p l follow := by
  refine ⟨h, ?_⟩
  intro ts hts
  omega

theorem of_subset (h : Recognizes n p l mid) (follow : List Token.Kind) (hsub : ∀ k ∈ follow, k ∈ mid := by decide) :
    Recognizes n p l follow := by
  have hstarts {y : List Token.Kind} : Starts follow y → Starts mid y := by
    rintro ⟨k, hk, hy⟩
    exact ⟨k, hsub k hk, hy⟩
  refine ⟨h.exists_mem, fun ts hts => ?_⟩
  have hout := h.outcome ts hts
  generalize p ts = answer at hout
  cases hout with
  | accepted heq hw => exact .accepted heq ⟨hw.mem, fun x hx y hy => hw.unique x hx y (hstarts hy)⟩
  | refused heq hfound hu => exact .refused heq hfound ⟨hu.viable, fun x hx y hy => hu.stuck x hx y (hstarts hy)⟩

theorem of_pure (a : α) : Recognizes n (pure a) 1 follow := by
  refine ⟨⟨[], rfl⟩, fun ts _ => ?_⟩
  exact .accepted (w := []) rfl ⟨rfl, fun x hx _ _ _ => hx⟩

/-- One parser after the other, on as many tokens as are left for the second one. -/
theorem bind_of_length [Nonempty α] {n' : Nat} (hp : Recognizes n p l mid) (hk : ∀ a, Recognizes n' (k a) m follow)
    (hlead : Leads m follow mid) (hn : ∀ w rest : List Token, kinds w ∈ l → (w ++ rest).length < n → rest.length < n') :
    Recognizes n (p >>= k) (l * m) follow := by
  obtain ⟨x, hx⟩ := hp.exists_mem
  obtain ⟨y, hy⟩ := (hk (Classical.arbitrary α)).exists_mem
  refine ⟨⟨x ++ y, Language.append_mem_mul hx hy⟩, fun ts hts => ?_⟩
  have hfirst := hp.outcome ts hts
  cases hanswer : p ts with
  | error r =>
    rw [hanswer] at hfirst
    rw [bind_error hanswer]
    cases hfirst with
    | refused heq hfound hu => exact .refused heq hfound (hu.append ⟨y, hy⟩ hlead)
  | ok r =>
    obtain ⟨a, rest⟩ := r
    rw [hanswer] at hfirst
    rw [bind_step hanswer]
    cases hfirst with
    | @accepted w _ _ heq hw =>
      subst heq
      have hsecond := (hk a).outcome rest (hn w rest hw.mem hts)
      generalize k a rest = answer at hsecond
      cases hsecond with
      | @accepted v rest' _ heq hv =>
        subst heq
        exact .accepted (List.append_assoc w v rest').symm (hw.append hv hlead)
      | @refused u rest' r heq hfound hu =>
        subst heq
        exact .refused (List.append_assoc w u rest').symm hfound (hw.append_broken hu hlead)

theorem bind [Nonempty α] (hp : Recognizes n p l mid) (hk : ∀ a, Recognizes n (k a) m follow) (hlead : Leads m follow mid) :
    Recognizes n (p >>= k) (l * m) follow := by
  refine hp.bind_of_length hk hlead fun w rest _ hlength => ?_
  rw [List.length_append] at hlength
  omega

/-- The second parser has fewer tokens to read from if the first one must take some. -/
theorem bind_shorter [Nonempty α] (hp : Recognizes n p l mid) (hl : [] ∉ l) (hk : ∀ a, Recognizes (n - 1) (k a) m follow)
    (hlead : Leads m follow mid) : Recognizes n (p >>= k) (l * m) follow := by
  refine hp.bind_of_length hk hlead fun w rest hw hlength => ?_
  obtain ⟨t, w, rfl⟩ : ∃ t v, w = t :: v := List.exists_cons_of_ne_nil (by rintro rfl; exact hl hw)
  rw [List.length_append, List.length_cons] at hlength
  omega

theorem bind_one [Nonempty α] (hp : Recognizes n p l follow) (hk : ∀ a, Recognizes n (k a) 1 follow) :
    Recognizes n (p >>= k) l follow := by
  have h := hp.bind hk (.nil fun _ hk => hk)
  rwa [mul_one] at h

theorem expect_bind {k : Unit → Parser β} (hk : Recognizes n (k ()) l follow) (hlead : Leads l follow ks) :
    Recognizes n (expect ks >>= k) l follow := by
  refine ⟨hk.exists_mem, fun ts hts => ?_⟩
  by_cases hnext : nextKind ts ∈ ks
  · rw [expect_step hnext]
    exact hk.outcome ts hts
  · rw [bind_error (expect_eq_error hnext)]
    exact .at_once ts ks hk.exists_mem hlead hnext

/-- The next token decides. -/
theorem next_ite {c : Token.Kind → Prop} [DecidablePred c] (first other : List Token.Kind) (hp : Recognizes n p l follow)
    (hq : Recognizes n q m follow) (hl : Leads l follow first) (hm : Leads m follow other)
    (hfirst : ∀ k ∈ first, c k := by decide) (hother : ∀ k ∈ other, ¬c k := by decide) :
    Recognizes n (next >>= fun k => if c k then p else q) (l + m) follow := by
  obtain ⟨x, hx⟩ := hp.exists_mem
  refine ⟨⟨x, .inl hx⟩, fun ts hts => ?_⟩
  rw [next_step]
  split
  · rename_i hc
    exact (hp.outcome ts hts).add hm fun hmem => hother _ hmem hc
  · rename_i hc
    rw [add_comm]
    exact (hq.outcome ts hts).add hl fun hmem => hc (hfirst _ hmem)

theorem take_choice {k : Token → Parser β} {rest : Token.Kind → Language Token.Kind}
    (hk : ∀ t : Token, t.kind ∈ ks → Recognizes (n - 1) (k t) (rest t.kind) follow) (hend : ending ∉ ks := by decide)
    (hks : ks ≠ [] := by decide) : Recognizes n (take ks >>= k) (choice ks rest) follow := by
  have hmem : ∃ x, x ∈ choice ks rest := by
    obtain ⟨kind, hkind⟩ := List.exists_mem_of_ne_nil ks hks
    obtain ⟨t, rfl, ht⟩ := exists_readable (k := kind) (fun h => hend (h ▸ hkind))
    obtain ⟨z, hz⟩ := (hk t hkind).exists_mem
    exact ⟨t.kind :: z, t, ⟨hkind, ht.1⟩, z, hz, rfl⟩
  have hlead : Leads (choice ks rest) follow ks := by
    rintro _ ⟨t, ht, z, -, rfl⟩ y -
    exact ⟨t.kind, ht.kind_mem, z ++ y, rfl⟩
  refine ⟨hmem, fun ts hts => ?_⟩
  cases ts with
  | nil =>
    rw [bind_error (r := ⟨none, ks⟩) rfl]
    exact .at_once [] ks hmem hlead hend
  | cons t ts =>
    by_cases hkind : t.kind ∈ ks
    · rw [take_step hkind]
      rw [List.length_cons] at hts
      exact ((hk t hkind).outcome ts (by omega)).choice hkind hend
    · have htake : take ks (t :: ts) = .error ⟨some t, ks⟩ := by simp only [take, hkind, if_false]
      rw [bind_error htake]
      exact .at_once (t :: ts) ks hmem hlead hkind

theorem take_bind {k : Token → Parser β} (hk : ∀ t : Token, Recognizes (n - 1) (k t) l follow)
    (hend : ending ∉ ks := by decide) (hks : ks ≠ [] := by decide) : Recognizes n (take ks >>= k) (one ks * l) follow := by
  rw [← choice_const]
  exact take_choice (fun t _ => hk t) hend hks

/-- The last token of a part. -/
theorem take_end {k : Token → Parser β} (hk : ∀ t : Token, Recognizes (n - 1) (k t) 1 follow) (hend : ending ∉ ks := by decide)
    (hks : ks ≠ [] := by decide) : Recognizes n (take ks >>= k) (one ks) follow := by
  have h := take_bind hk hend hks
  rwa [mul_one] at h

/-- The fuel goes by the tokens that are there. -/
theorem of_length {p : List Token → Parser α} (h : ∀ ts : List Token, Recognizes (ts.length + 1) (p ts) l follow) :
    Recognizes n (fun ts => p ts ts) l follow :=
  ⟨(h []).exists_mem, fun ts _ => (h ts).outcome ts (Nat.lt_succ_self _)⟩

end Recognizes

end CheckedScript.Parse
