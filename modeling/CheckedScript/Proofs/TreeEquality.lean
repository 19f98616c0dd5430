import CheckedScript.Node.Decode
import CheckedScript.Proofs.Numerals
import CheckedScript.Proofs.Sound

/-! When trees are equal. Two trees are compared node by node: at every position they must have the same kind of node, the same
names and operators, and as many nodes in each field. Where values stand, they are compared as data, and as data a truth value
is the number one or zero. So equal trees say the same everywhere but where a truth value stands in one of them and
that number in the other. -/

namespace CheckedScript

namespace Decimal

/-- The size of a finite number with its sign, over its denominator. -/
def Binary.signed (b : Binary) : Int := if b.negative then -(b.num : Int) else b.num

theorem Binary.den_pos (b : Binary) : 0 < b.den := Nat.pow_pos (by decide)

open Binary (ofFloat signed)

section Doubles

variable {x y : Float}

theorem eq_of_toBits (hbits : x.toBits.toNat % 2 ^ 63 = y.toBits.toNat % 2 ^ 63)
    (hsign : (ofFloat x).negative = (ofFloat y).negative) : x = y := by
  have hx : x.toBits.toNat < 2 ^ 64 := x.toBits.toNat_lt
  have hy : y.toBits.toNat < 2 ^ 64 := y.toBits.toNat_lt
  have hs : (x.toBits.toNat / 2 ^ 63 = 1) ↔ (y.toBits.toNat / 2 ^ 63 = 1) := decide_eq_decide.mp hsign
  rw [← Float.toBits_inj, ← UInt64.toNat_inj]
  omega

/-- Which of the two zeros a double without size is, its sign tells. -/
theorem eq_zero_of_num (hx : x.toBits.toNat / 2 ^ 52 % 2 ^ 11 ≠ 2047) (h : (ofFloat x).num = 0) :
    x = if (ofFloat x).negative then -0 else 0 := by
  have hbits : x.toBits.toNat % 2 ^ 63 = 0 := by
    rw [← nearestBits_ofFloat hx, h]
    rfl
  cases hs : (ofFloat x).negative <;> exact eq_of_toBits hbits hs

/-- Finite doubles that are equal as quotients, their signs included, are equal. -/
theorem eq_or_zero_of_quotients (hx : x.toBits.toNat / 2 ^ 52 % 2 ^ 11 ≠ 2047)
    (hy : y.toBits.toNat / 2 ^ 52 % 2 ^ 11 ≠ 2047)
    (h : (ofFloat x).signed * (ofFloat y).den = (ofFloat y).signed * (ofFloat x).den) :
    x = y ∨ x = 0 ∧ y = -0 ∨ x = -0 ∧ y = 0 := by
  have same (hs : (ofFloat x).negative = (ofFloat y).negative)
      (hq : (ofFloat x).num * (ofFloat y).den = (ofFloat y).num * (ofFloat x).den) : x = y := by
    apply eq_of_toBits _ hs
    rw [← nearestBits_ofFloat hx, ← nearestBits_ofFloat hy]
    exact nearestBits_congr (Binary.den_pos _) (Binary.den_pos _) hq
  -- With opposite signs the quotients are equal only if both are zero.
  have opposite (hq : (ofFloat x).num * (ofFloat y).den + (ofFloat y).num * (ofFloat x).den = 0) :
      (ofFloat x).num = 0 ∧ (ofFloat y).num = 0 := by
    simpa [(Binary.den_pos _).ne'] using hq
  have hzero (hq : (ofFloat x).num * (ofFloat y).den + (ofFloat y).num * (ofFloat x).den = 0) :=
    And.intro (eq_zero_of_num hx (opposite hq).1) (eq_zero_of_num hy (opposite hq).2)
  cases hsx : (ofFloat x).negative <;> cases hsy : (ofFloat y).negative <;>
    simp only [signed, hsx, hsy, if_true, if_false, Bool.false_eq_true] at h hzero
  · exact .inl (same (hsx.trans hsy.symm) (by exact_mod_cast h))
  · refine .inr (.inl (hzero ?_))
    zify
    linarith
  · refine .inr (.inr (hzero ?_))
    zify
    linarith
  · refine .inl (same (hsx.trans hsy.symm) ?_)
    zify
    linarith

theorem exponent_of_finite (hn : x.isNaN = false) (hi : x.isInf = false) : x.toBits.toNat / 2 ^ 52 % 2 ^ 11 ≠ 2047 := by
  rw [Bool.eq_false_iff, Ne, isNaN_iff] at hn
  rw [Bool.eq_false_iff, Ne, isInf_iff] at hi
  omega

end Doubles

end Decimal

namespace Data

open Decimal (isInf_iff eq_of_toBits eq_or_zero_of_quotients exponent_of_finite)
open Decimal.Binary (ofFloat signed)

/-- Only the same text is equal to a text. -/
theorem eq_of_equal_text {d e : Data} (h : d.equal e = true) (ht : d.IsText ∨ e.IsText) : d = e := by
  obtain hd | he := ht
  · exact equal_text hd h
  · cases e with
    | text s => cases d <;> simp_all [equal, asNumber?]
    | _ => exact he.elim

section Doubles

variable {x y : Float}

theorem asNumber?_finite (hn : x.isNaN = false) (hi : x.isInf = false) :
    asNumber? (.float x) = some (.inl ((ofFloat x).signed, (ofFloat x).den)) := by
  simp only [asNumber?, hn, hi, Bool.false_eq_true, if_false, signed]

theorem asNumber?_infinite (hn : x.isNaN = false) (hi : x.isInf = true) :
    asNumber? (.float x) = some (.inr (ofFloat x).negative) := by
  simp only [asNumber?, hn, hi, Bool.false_eq_true, if_false, if_true]

theorem asNumber?_nan (h : x.isNaN = true) : asNumber? (.float x) = none := by
  simp only [asNumber?, h, if_true]

theorem equal_of_numbers {d e : Data} {m n : Int × Nat ⊕ Bool} (hd : d.asNumber? = some m) (he : e.asNumber? = some n) :
    d.equal e = equalNumbers m n := by
  cases d <;> cases e <;> simp_all [equal, asNumber?]

theorem equal_float_self (h : x.isNaN = false) : (float x).equal (float x) = true := by
  cases hi : x.isInf with
  | false => simp [equal_of_numbers (asNumber?_finite h hi) (asNumber?_finite h hi), equalNumbers]
  | true => simp [equal_of_numbers (asNumber?_infinite h hi) (asNumber?_infinite h hi), equalNumbers]

theorem equalNumbers_zero (d e : Nat) : equalNumbers (.inl (0, d)) (.inl (0, e)) = true := by
  simp [equalNumbers]

/-- The two zeros are equal as data. -/
theorem equal_zeros : (float 0).equal (float (-0)) = true ∧ (float (-0)).equal (float 0) = true := by
  have hzero : asNumber? (float 0) = some (.inl (0, (ofFloat 0).den)) := asNumber?_finite rfl rfl
  have hminus : asNumber? (float (-0)) = some (.inl (0, (ofFloat (-0)).den)) := asNumber?_finite rfl rfl
  rw [equal_of_numbers hzero hminus, equal_of_numbers hminus hzero]
  exact ⟨equalNumbers_zero _ _, equalNumbers_zero _ _⟩

/-- Doubles that are equal as data are the same or the two zeros. -/
theorem eq_or_zero_of_equal (hx : x.isNaN = false) (hy : y.isNaN = false) (h : (float x).equal (float y) = true) :
    x = y ∨ x = 0 ∧ y = -0 ∨ x = -0 ∧ y = 0 := by
  cases hxi : x.isInf with
  | false =>
    cases hyi : y.isInf with
    | false =>
      rw [equal_of_numbers (asNumber?_finite hx hxi) (asNumber?_finite hy hyi), equalNumbers, beq_iff_eq] at h
      exact eq_or_zero_of_quotients (exponent_of_finite hx hxi) (exponent_of_finite hy hyi) h
    | true =>
      rw [equal_of_numbers (asNumber?_finite hx hxi) (asNumber?_infinite hy hyi)] at h
      cases h
  | true =>
    cases hyi : y.isInf with
    | false =>
      rw [equal_of_numbers (asNumber?_infinite hx hxi) (asNumber?_finite hy hyi)] at h
      cases h
    | true =>
      rw [equal_of_numbers (asNumber?_infinite hx hxi) (asNumber?_infinite hy hyi), equalNumbers, beq_iff_eq] at h
      refine .inl (eq_of_toBits ?_ h)
      rw [isInf_iff] at hxi hyi
      omega

/-- As data, doubles are equal if they are equal as doubles. -/
theorem equal_float (x y : Float) : (float x).equal (float y) = (x == y) := by
  have hnan (z : Float) : z ≠ Float.nan ↔ z.isNaN = false := by simp [Float.isNaN_eq_decide_eq_nan]
  rw [Bool.eq_iff_iff, Float.beq_iff_ne_nan_and_eq, hnan, hnan]
  constructor
  · intro h
    have hx : x.isNaN = false := by
      by_contra hx
      simp [equal, asNumber?_nan (Bool.not_eq_false _ ▸ hx)] at h
    have hy : y.isNaN = false := by
      by_contra hy
      simp [equal, asNumber?_nan (Bool.not_eq_false _ ▸ hy)] at h
    exact ⟨hx, hy, eq_or_zero_of_equal hx hy h⟩
  · rintro ⟨hx, -, rfl | ⟨rfl, rfl⟩ | ⟨rfl, rfl⟩⟩
    · exact equal_float_self hx
    · exact equal_zeros.1
    · exact equal_zeros.2

theorem equalNumbers_mul {k : Int} {den : Nat} (hd : 0 < den) (n : Int × Nat ⊕ Bool) :
    equalNumbers (.inl (k * den, den)) n = equalNumbers (.inl (k, 1)) n := by
  cases n with
  | inl q =>
    have hd' : (den : Int) ≠ 0 := by omega
    have hcancel : k * den * q.2 = q.1 * den ↔ k * q.2 = q.1 := by
      rw [mul_right_comm, mul_left_inj' hd']
    rw [Bool.eq_iff_iff]
    simp [equalNumbers, hcancel]
  | inr b => rfl

theorem equalNumbers_comm (m n : Int × Nat ⊕ Bool) : equalNumbers m n = equalNumbers n m := by
  rcases m with ⟨m, d⟩ | a <;> rcases n with ⟨n, e⟩ | b
  · exact BEq.comm
  · rfl
  · rfl
  · exact BEq.comm

/-- The double that a truth value is equal to as data. -/
def ofTruth (b : Bool) : Float := if b then 1.0 else 0.0

theorem asNumber?_ofTruth (b : Bool) : ∃ den : Nat, 0 < den ∧
    asNumber? (.float (ofTruth b)) = some (.inl ((if b then 1 else 0) * den, den)) := by
  have hsigned : (ofFloat (ofTruth b)).signed = (if b then 1 else 0) * (ofFloat (ofTruth b)).den := by
    cases b with
    | false => exact (Int.zero_mul _).symm
    | true => rfl
  refine ⟨(ofFloat (ofTruth b)).den, Decimal.Binary.den_pos _, ?_⟩
  rw [asNumber?_finite (by cases b <;> rfl) (by cases b <;> rfl), hsigned]

/-- As data, a truth value is one or zero. -/
theorem equal_bool_float (b : Bool) (x : Float) : (bool b).equal (float x) = (ofTruth b == x) := by
  obtain ⟨den, hden, hb⟩ := asNumber?_ofTruth b
  rw [← equal_float]
  cases hx : asNumber? (float x) with
  | none => simp [equal, hx]
  | some n => rw [equal_of_numbers hb hx, equal_of_numbers rfl hx, equalNumbers_mul hden]

theorem equal_float_bool (x : Float) (b : Bool) : (float x).equal (bool b) = (ofTruth b == x) := by
  rw [← equal_bool_float]
  cases hx : asNumber? (float x) with
  | none => simp [equal, hx]
  | some n => rw [equal_of_numbers rfl hx, equal_of_numbers hx rfl, equalNumbers_comm]

end Doubles

end Data

namespace Value

/-- One is a truth value and the other the number that it is equal to as data: one for true and zero for false. -/
def Confused : Value → Value → Prop
  | boolean b, number x | number x, boolean b => (Data.ofTruth b == x) = true
  | _, _ => False

/-- Values are equal as data if they are equal or confused. -/
theorem equal_toData (v w : Value) : v.toData.equal w.toData = true ↔ v.equal w = true ∨ v.Confused w := by
  cases v with
  | number x =>
    cases w with
    | number y => simp [toData, Data.equal_float, Value.equal, Confused]
    | boolean b => simp [toData, Data.equal_float_bool, Value.equal, Confused]
    | _ => simp [toData, Data.equal, Data.asNumber?, Value.equal, Confused]
  | boolean b =>
    cases w with
    | number y => simp [toData, Data.equal_bool_float, Value.equal, Confused]
    | boolean c => cases b <;> cases c <;> simp [toData, Data.equal, Data.asNumber?, Data.equalNumbers, Value.equal, Confused]
    | _ => simp [toData, Data.equal, Data.asNumber?, Value.equal, Confused]
  | _ => cases w <;> simp [toData, Data.equal, Data.asNumber?, Value.equal, Confused]

theorem type?_of_equal {v w : Value} (h : v.equal w = true) : v.type? = w.type? := by
  cases v <;> cases w <;> simp_all [Value.equal, type?]

/-- What is confused is of two types. -/
theorem Confused.type?_ne {v w : Value} (h : v.Confused w) : v.type? ≠ w.type? := by
  cases v <;> cases w <;> simp_all [Confused, type?]

end Value

namespace Node

/-- What stands at a position: a bare value, a type, or a node of some kind, an operation in one of its forms. -/
inductive Label where
  | value
  | typeTag
  | node (kind : NodeKind)
  | binary (form : Form)
  | unary (form : Form)
deriving DecidableEq, Repr

def label : Node → Label
  | value _ => .value
  | typeTag _ => .typeTag
  | program _ _ => .node .program
  | variableDecl _ _ _ _ => .node .variableDecl
  | paramDecl _ _ _ => .node .paramDecl
  | assignment _ _ _ _ => .node .assignment
  | call _ _ _ => .node .call
  | definition _ _ _ _ _ _ => .node .definition
  | print _ _ => .node .print
  | branch _ _ _ _ => .node .branch
  | loop _ _ _ => .node .loop
  | breakOut _ => .node .breakOut
  | binary form _ _ _ _ => .binary form
  | unary form _ _ _ => .unary form
  | literal _ _ => .node .literal
  | identifier _ _ => .node .identifier

/-- The names, operators and kinds of types in a node. -/
def words : Node → List Data
  | typeTag kind => [kind]
  | variableDecl _ _ name _ | paramDecl _ _ name | call _ name _ | definition _ _ name _ _ _ | identifier _ name => [name]
  | assignment _ name op _ => [name, op]
  | binary _ _ op _ _ | unary _ _ op _ => [op]
  | _ => []

/-- The fields in which nodes stand, in order. A block may be missing. -/
def fields : Node → List (Option (List Node))
  | program _ statements => [statements]
  | variableDecl _ type _ init => [some [type], some [init]]
  | paramDecl _ type _ => [some [type]]
  | assignment _ _ _ v => [some [v]]
  | call _ _ args => [some args]
  | definition _ result _ params body v => [some [result], some params, body, some [v]]
  | print _ operand => [some [operand]]
  | branch _ condition thenBlock elseBlock => [some [condition], thenBlock, elseBlock]
  | loop _ condition body => [some [condition], body]
  | binary _ _ _ left right => [some [left], some [right]]
  | unary _ _ _ operand => [some [operand]]
  | literal _ v => [some [v]]
  | value _ | typeTag _ | breakOut _ | identifier _ _ => []

/-- How many nodes stand in each field. -/
def shape (n : Node) : List (Option Nat) := n.fields.map (·.map List.length)

/-- The node in the field `p.1`, at the place `p.2` there. -/
def child? (n : Node) (p : Nat × Nat) : Option Node := do
  let field ← n.fields[p.1]?
  let block ← field
  block[p.2]?

/-- The node at a position: the way down to it from the root. -/
def at? : List (Nat × Nat) → Node → Option Node
  | [], n => some n
  | p :: rest, n => (n.child? p).bind (at? rest)

/-- The nodes say the same, whatever stands in their fields: they are of one kind and have the same names and operators, texts
being the same only if they are identical, as many nodes in each field, and, if they are values, are of one type and equal. -/
structure Same (x y : Node) : Prop where
  label : x.label = y.label
  words : List.Forall₂ (fun d e => d.equal e = true ∧ (d.IsText ∨ e.IsText → d = e)) x.words y.words
  shape : x.shape = y.shape
  value : ∀ v w, x = .value v → y = .value w → v.type? = w.type? ∧ v.equal w = true

/-- A truth value stands where the other has the number that it is equal to as data. -/
def Confused (x y : Node) : Prop := ∃ v w, x = .value v ∧ y = .value w ∧ v.Confused w

theorem Same.not_confused {x y : Node} (h : x.Same y) : ¬ x.Confused y := by
  rintro ⟨v, w, hx, hy, hc⟩
  exact hc.type?_ne (h.value v w hx hy).1

@[simp] theorem equalBlocks_some (as bs : List Node) : equalBlocks (some as) (some bs) = equalLists as bs := rfl

theorem equalLists_cons (a b : Node) (as bs : List Node) :
    equalLists (a :: as) (b :: bs) = (a.equal b && equalLists as bs) := rfl

@[simp] theorem equalLists_single (a b : Node) : equalLists [a] [b] = a.equal b := Bool.and_true _

/-- What equality of trees asks of two nodes, with what stands in their fields compared in turn. -/
@[mk_iff]
structure Level (a b : Node) : Prop where
  label : a.label = b.label
  words : List.Forall₂ (fun d e => d.equal e = true) a.words b.words
  value : ∀ v w, a = .value v → b = .value w → v.toData.equal w.toData = true
  fields : List.Forall₂ (fun f g => equalBlocks f g = true) a.fields b.fields

theorem equal_iff_level_of_label {a b : Node} (he : a.equal b = false) (hl : a.label ≠ b.label) :
    a.equal b = true ↔ a.Level b :=
  iff_of_false (by rw [he]; exact Bool.false_ne_true) fun h => hl h.label

/-- One case for each kind of node; nodes of two kinds are not equal. -/
theorem equal_iff_level (a b : Node) : a.equal b = true ↔ a.Level b := by
  cases a with
  | value v =>
    cases b with
    | value w => simp [level_iff, equal, label, words, fields]
    | _ => exact equal_iff_level_of_label rfl (by rintro ⟨⟩)
  | typeTag k =>
    cases b with
    | typeTag l => simp [level_iff, equal, label, words, fields]
    | _ => exact equal_iff_level_of_label rfl (by rintro ⟨⟩)
  | program =>
    cases b with
    | program => simp [level_iff, equal, label, words, fields]
    | _ => exact equal_iff_level_of_label rfl (by rintro ⟨⟩)
  | variableDecl =>
    cases b with
    | variableDecl => simp [level_iff, equal, label, words, fields, and_assoc, and_left_comm]
    | _ => exact equal_iff_level_of_label rfl (by rintro ⟨⟩)
  | paramDecl =>
    cases b with
    | paramDecl => simp [level_iff, equal, label, words, fields, and_comm]
    | _ => exact equal_iff_level_of_label rfl (by rintro ⟨⟩)
  | assignment =>
    cases b with
    | assignment => simp [level_iff, equal, label, words, fields, and_assoc]
    | _ => exact equal_iff_level_of_label rfl (by rintro ⟨⟩)
  | call =>
    cases b with
    | call => simp [level_iff, equal, label, words, fields]
    | _ => exact equal_iff_level_of_label rfl (by rintro ⟨⟩)
  | definition =>
    cases b with
    | definition => simp [level_iff, equal, label, words, fields, and_assoc, and_left_comm]
    | _ => exact equal_iff_level_of_label rfl (by rintro ⟨⟩)
  | print =>
    cases b with
    | print => simp [level_iff, equal, label, words, fields]
    | _ => exact equal_iff_level_of_label rfl (by rintro ⟨⟩)
  | branch =>
    cases b with
    | branch => simp [level_iff, equal, label, words, fields, and_assoc]
    | _ => exact equal_iff_level_of_label rfl (by rintro ⟨⟩)
  | loop =>
    cases b with
    | loop => simp [level_iff, equal, label, words, fields]
    | _ => exact equal_iff_level_of_label rfl (by rintro ⟨⟩)
  | breakOut =>
    cases b with
    | breakOut => simp [level_iff, equal, label, words, fields]
    | _ => exact equal_iff_level_of_label rfl (by rintro ⟨⟩)
  | binary =>
    cases b with
    | binary => simp [level_iff, equal, label, words, fields, and_assoc]
    | _ => exact equal_iff_level_of_label rfl (by rintro ⟨⟩)
  | unary =>
    cases b with
    | unary => simp [level_iff, equal, label, words, fields, and_assoc]
    | _ => exact equal_iff_level_of_label rfl (by rintro ⟨⟩)
  | literal =>
    cases b with
    | literal => simp [level_iff, equal, label, words, fields]
    | _ => exact equal_iff_level_of_label rfl (by rintro ⟨⟩)
  | identifier =>
    cases b with
    | identifier => simp [level_iff, equal, label, words, fields]
    | _ => exact equal_iff_level_of_label rfl (by rintro ⟨⟩)

theorem equalLists_iff (as bs : List Node) :
    equalLists as bs = true ↔ List.Forall₂ (fun a b => a.equal b = true) as bs := by
  induction as generalizing bs with
  | nil =>
    cases bs with
    | nil => exact iff_of_true rfl .nil
    | cons b bs => exact iff_of_false Bool.false_ne_true (by rintro ⟨⟩)
  | cons a as ih =>
    cases bs with
    | nil => exact iff_of_false Bool.false_ne_true (by rintro ⟨⟩)
    | cons b bs => rw [equalLists_cons, Bool.and_eq_true, ih, List.forall₂_cons]

theorem equalBlocks_iff (f g : Option (List Node)) :
    equalBlocks f g = true ↔ Option.Rel (List.Forall₂ fun a b => a.equal b = true) f g := by
  cases f with
  | none =>
    cases g with
    | none => exact iff_of_true rfl .none
    | some bs => exact iff_of_false Bool.false_ne_true (by rintro ⟨⟩)
  | some as =>
    cases g with
    | none => exact iff_of_false Bool.false_ne_true (by rintro ⟨⟩)
    | some bs => rw [equalBlocks_some, equalLists_iff, Option.rel_some_some]

/-- Lists correspond if they do at every place. -/
theorem forall₂_iff_getElem? {α β : Type} {R : α → β → Prop} {as : List α} {bs : List β} :
    List.Forall₂ R as bs ↔ ∀ i : Nat, Option.Rel R as[i]? bs[i]? := by
  constructor
  · intro h
    induction h with
    | nil => exact fun _ => .none
    | cons hab _ ih =>
      rintro (_ | i)
      · exact .some hab
      · exact ih i
  · intro h
    induction as generalizing bs with
    | nil =>
      cases bs with
      | nil => exact .nil
      | cons b bs => cases h 0
    | cons a as ih =>
      cases bs with
      | nil => cases h 0
      | cons b bs =>
        cases h 0 with
        | some hab => exact .cons hab (ih fun i => h (i + 1))

theorem rel_bind {α β γ δ : Type} {R : α → β → Prop} {S : γ → δ → Prop} {x : Option α} {y : Option β}
    {f : α → Option γ} {g : β → Option δ} (h : Option.Rel R x y) (hfg : ∀ a b, R a b → Option.Rel S (f a) (g b)) :
    Option.Rel S (x.bind f) (y.bind g) := by
  cases h with
  | some hab => exact hfg _ _ hab
  | none => exact .none

theorem rel_imp {α β : Type} {R S : α → β → Prop} {x : Option α} {y : Option β} (h : Option.Rel R x y)
    (hRS : ∀ a b, x = some a → y = some b → R a b → S a b) : Option.Rel S x y := by
  cases h with
  | some hab => exact .some (hRS _ _ rfl rfl hab)
  | none => exact .none

section Positions

variable {a b c : Node} {p : Nat × Nat}

theorem child?_of_equal (h : a.equal b = true) (p : Nat × Nat) :
    Option.Rel (fun x y => x.equal y = true) (a.child? p) (b.child? p) := by
  have hfields := ((equal_iff_level a b).mp h).fields
  refine rel_bind (forall₂_iff_getElem?.mp hfields p.1) fun f g hfg => ?_
  exact rel_bind ((equalBlocks_iff f g).mp hfg) fun as bs hlists => forall₂_iff_getElem?.mp hlists p.2

/-- Equal trees have equal trees at every position. -/
theorem at?_of_equal (h : a.equal b = true) (path : List (Nat × Nat)) :
    Option.Rel (fun x y => x.equal y = true) (a.at? path) (b.at? path) := by
  induction path generalizing a b with
  | nil => exact .some h
  | cons p rest ih => exact rel_bind (child?_of_equal h p) fun _ _ hxy => ih hxy

theorem shape_of_level (h : a.Level b) : a.shape = b.shape := by
  have hlengths : List.Forall₂ (fun f g => f.map List.length = g.map List.length) a.fields b.fields := by
    refine h.fields.imp fun f g hfg => ?_
    cases (equalBlocks_iff f g).mp hfg with
    | some hblocks => exact congrArg some hblocks.length_eq
    | none => rfl
  rwa [shape, shape, ← List.forall₂_eq_eq_eq, List.forall₂_map_left_iff, List.forall₂_map_right_iff]

/-- What the roots of equal trees have in common. -/
theorem same_or_confused_of_equal (h : a.equal b = true) : a.Same b ∨ a.Confused b := by
  have hl := (equal_iff_level a b).mp h
  have hwords : List.Forall₂ (fun d e : Data => d.equal e = true ∧ (d.IsText ∨ e.IsText → d = e)) a.words b.words :=
    hl.words.imp fun d e hde => ⟨hde, Data.eq_of_equal_text hde⟩
  by_cases hc : a.Confused b
  · exact .inr hc
  refine .inl ⟨hl.label, hwords, shape_of_level hl, fun v w hv hw => ?_⟩
  obtain heq | hvw := (Value.equal_toData v w).mp (hl.value v w hv hw)
  · exact ⟨Value.type?_of_equal heq, heq⟩
  · exact absurd ⟨v, w, hv, hw, hvw⟩ hc

theorem sizeOf_lt_of_mem_fields {block : List Node} (hb : some block ∈ a.fields) (hc : c ∈ block) : sizeOf c < sizeOf a := by
  have hlt := List.sizeOf_lt_of_mem hc
  cases a with
  | value | typeTag | breakOut | identifier => cases hb
  | program span statements =>
    obtain rfl : some block = statements := by simpa [fields] using hb
    simp
    omega
  | call span name args =>
    obtain rfl : block = args := by simpa [fields] using hb
    simp
    omega
  | definition span result name params body v =>
    simp only [fields, List.mem_cons, Option.some.injEq, List.not_mem_nil, or_false] at hb
    rcases hb with rfl | rfl | rfl | rfl <;> simp_all <;> omega
  | branch span condition thenBlock elseBlock =>
    simp only [fields, List.mem_cons, Option.some.injEq, List.not_mem_nil, or_false] at hb
    rcases hb with rfl | rfl | rfl <;> simp_all <;> omega
  | variableDecl | loop | binary =>
    simp only [fields, List.mem_cons, Option.some.injEq, List.not_mem_nil, or_false] at hb
    rcases hb with rfl | rfl <;> simp_all <;> omega
  | paramDecl span type name =>
    obtain rfl : block = [type] := by simpa [fields] using hb
    obtain rfl := List.mem_singleton.mp hc
    simp
    omega
  | assignment | print | unary | literal =>
    simp only [fields, List.mem_cons, Option.some.injEq, List.not_mem_nil, or_false] at hb
    subst hb
    simp_all

theorem sizeOf_child? (h : a.child? p = some c) : sizeOf c < sizeOf a := by
  simp only [child?, Option.bind_eq_bind, Option.bind_eq_some_iff] at h
  obtain ⟨_, hfield, block, rfl, hplace⟩ := h
  exact sizeOf_lt_of_mem_fields (List.mem_of_getElem? hfield) (List.mem_of_getElem? hplace)

/-- Fields of the same shape are equal as soon as the nodes in them are. -/
theorem fields_of_children (hs : a.shape = b.shape)
    (hc : ∀ p x y, a.child? p = some x → b.child? p = some y → x.equal y = true) :
    List.Forall₂ (fun f g => equalBlocks f g = true) a.fields b.fields := by
  refine forall₂_iff_getElem?.mpr fun i => ?_
  have hi : a.fields[i]?.map (·.map List.length) = b.fields[i]?.map (·.map List.length) := by
    rw [← List.getElem?_map, ← List.getElem?_map]
    exact congrArg (·[i]?) hs
  cases hf : a.fields[i]? with
  | none =>
    have hg : b.fields[i]? = none := by simpa [hf, eq_comm] using hi
    rw [hg]
    exact .none
  | some f =>
    obtain ⟨g, hg, hlength⟩ : ∃ g, b.fields[i]? = some g ∧ g.map List.length = f.map List.length := by
      simpa [hf, eq_comm] using hi
    rw [hg]
    refine .some ((equalBlocks_iff f g).mpr ?_)
    cases f with
    | none =>
      obtain rfl : g = none := by simpa using hlength
      exact .none
    | some as =>
      obtain ⟨bs, rfl, hbs⟩ : ∃ bs, g = some bs ∧ bs.length = as.length := by simpa using hlength
      refine .some (List.forall₂_iff_get.mpr ⟨hbs.symm, fun j hj hj' => ?_⟩)
      apply hc (i, j)
      · simp [child?, hf]
      · simp [child?, hg]

/-- A tree is equal to another as soon as its root says the same and each node in its fields is equal to the other's. -/
theorem equal_of_children (h : a.Same b ∨ a.Confused b)
    (hc : ∀ p x y, a.child? p = some x → b.child? p = some y → x.equal y = true) : a.equal b = true := by
  rw [equal_iff_level]
  obtain hsame | ⟨v, w, rfl, rfl, hvw⟩ := h
  · refine ⟨hsame.label, hsame.words.imp fun _ _ hde => hde.1, fun v w hv hw => ?_, fields_of_children hsame.shape hc⟩
    exact (Value.equal_toData v w).mpr (.inl (hsame.value v w hv hw).2)
  · rw [← equal_iff_level]
    exact (Value.equal_toData v w).mpr (.inr hvw)

/-- The induction is on the first tree. -/
theorem equal_of_positions (a b : Node)
    (h : ∀ path, Option.Rel (fun x y => x.Same y ∨ x.Confused y) (a.at? path) (b.at? path)) : a.equal b = true := by
  have hroot : a.Same b ∨ a.Confused b := by
    cases h [] with
    | some hab => exact hab
  apply equal_of_children hroot
  intro p x y hx hy
  have hsize := sizeOf_child? hx
  apply equal_of_positions x y
  intro path
  have hpath := h (p :: path)
  rwa [at?, at?, hx, hy] at hpath
termination_by sizeOf a

end Positions

/-- When trees are equal. Two trees are equal exactly if at every position where one of them has a node the other has one too,
and the two nodes say the same, or are a truth value and the number that it is equal to as data. Trees that say the same at
every position are exactly the equal ones without such a pair. -/
theorem equal_iff_same_or_confused (a b : Node) :
    (a.equal b = true ↔
      ∀ path, Option.Rel (fun x y => x.Same y ∨ x.Confused y) (a.at? path) (b.at? path)) ∧
    ((∀ path, Option.Rel Same (a.at? path) (b.at? path)) ↔
      a.equal b = true ∧ ∀ path x y, a.at? path = some x → b.at? path = some y → ¬ x.Confused y) := by
  have hiff : a.equal b = true ↔
      ∀ path, Option.Rel (fun x y => x.Same y ∨ x.Confused y) (a.at? path) (b.at? path) :=
    ⟨fun h path => rel_imp (at?_of_equal h path) fun _ _ _ _ hxy => same_or_confused_of_equal hxy, equal_of_positions a b⟩
  refine ⟨hiff, fun h => ⟨hiff.mpr fun path => ?_, fun path x y hx hy => ?_⟩, fun h path => ?_⟩
  · exact rel_imp (h path) fun _ _ _ _ hxy => .inl hxy
  · have hpath := h path
    rw [hx, hy] at hpath
    cases hpath with
    | some hxy => exact hxy.not_confused
  · exact rel_imp (hiff.mp h.1 path) fun x y hx hy hxy => hxy.resolve_right (h.2 path x y hx hy)

/-- The data of a literal. -/
def literalData (v : Data) : Data := .object [("type", .text "Literal"), ("span", .list [.int 0, .int 0]), ("value", v)]

/-- The literals `true` and `1.0` are equal trees. -/
theorem equal_literal_true_one : ∃ a b, decode (literalData (.bool true)) = .ok a ∧ decode (literalData (.float 1.0)) = .ok b ∧
    a.equal b = true ∧ ∃ v w, a.at? [(0, 0)] = some (.value v) ∧ b.at? [(0, 0)] = some (.value w) ∧
      v.type? = some .boolean ∧ w.type? = some .number := by
  exact ⟨.literal .zero (.value (.boolean true)), .literal .zero (.value (.number 1.0)), rfl, rfl, rfl, .boolean true, .number 1.0,
    rfl, rfl, rfl, rfl⟩

end Node
end CheckedScript
