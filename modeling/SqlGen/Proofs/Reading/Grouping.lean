import SqlGen.Proofs.Reading.Term

/-!
# Grouping

Two terms differ by grouping when nodes of one associative operator that are nested
directly in each other are bracketed differently: `Regroups`.

What is read back differs from the term by more than grouping exactly when the right operand of
an associative operator begins a chain in which another operator of the level stands
(`regroups_regroup_iff`).  The reason that no other term fails is a weight that grouping keeps
and that grows whenever an operand is moved across an operator that is not associative.

`value_regroup` is about the value over the integers.  A sum may be followed by differences,
so there only products matter.
-/

namespace SqlGen.Reading.Term

/-- The terms differ by how nodes of one associative operator are nested in each other. -/
inductive Regroups : Term → Term → Prop where
  | refl (t : Term) : Regroups t t
  | symm {t u : Term} : Regroups t u → Regroups u t
  | trans {t u v : Term} : Regroups t u → Regroups u v → Regroups t v
  | assoc {op : BinaryOp} (h : op.isAssociative = true) (a b c : Term) :
      Regroups (.binary op (.binary op a b) c) (.binary op a (.binary op b c))
  | unary (op : UnaryOp) {t u : Term} : Regroups t u → Regroups (.unary op t) (.unary op u)
  | binary (op : BinaryOp) {l l' r r' : Term} :
      Regroups l l' → Regroups r r' → Regroups (.binary op l r) (.binary op l' r')

/-! ## Chains -/

/-- The root is the operator, and so is every other operator of its level that stands outside
parentheses in the text. -/
def isChainOf (op : BinaryOp) : Term → Bool
  | .binary op' l r =>
      op' == op && (l.precedence != op.precedence || l.isChainOf op) &&
        (!r.isBinary op || r.isChainOf op)
  | _ => false

/-- Wherever one of the operators has itself as the root of its right operand, that operand is a
chain of this operator alone. -/
def chainsAgree (among : BinaryOp → Bool) : Term → Bool
  | .operand _ => true
  | .unary _ t => t.chainsAgree among
  | .binary op l r =>
      l.chainsAgree among && r.chainsAgree among &&
        (!(among op && r.isBinary op) || r.isChainOf op)

/-- A chain of the operator, or a term that binds on another level. -/
def Continues (op : BinaryOp) (t : Term) : Prop :=
  t.precedence = op.precedence → t.isChainOf op = true

theorem isBinary_of_isChainOf {op : BinaryOp} {t : Term} (h : t.isChainOf op = true) :
    t.isBinary op = true := by
  cases t with
  | operand s => exact h
  | unary op' t => exact h
  | binary op' l r =>
      simp only [isChainOf, Bool.and_eq_true] at h
      exact h.1.1

theorem isChainOf_binary {op : BinaryOp} {l r : Term} :
    (binary op l r).isChainOf op = true ↔
      l.Continues op ∧ (r.isBinary op = true → r.isChainOf op = true) := by
  simp only [isChainOf, Continues, beq_self_eq_true, Bool.true_and, Bool.and_eq_true,
    Bool.or_eq_true, bne_iff_ne, Bool.not_eq_true', Bool.eq_false_iff]
  constructor
  · rintro ⟨hl, hr⟩
    exact ⟨fun h => hl.resolve_left fun h' => h' h, fun h => hr.resolve_left fun h' => h' h⟩
  · rintro ⟨hl, hr⟩
    exact ⟨Classical.or_iff_not_imp_left.mpr fun h => hl (not_not.mp h),
      Classical.or_iff_not_imp_left.mpr fun h => hr (not_not.mp h)⟩

theorem continues_iff {op : BinaryOp} {t : Term} (h : t.precedence = op.precedence) :
    t.Continues op ↔ t.isChainOf op = true := ⟨fun ht => ht h, fun ht _ => ht⟩

theorem continues_of_ne {op : BinaryOp} {t : Term} (h : t.precedence ≠ op.precedence) :
    t.Continues op := fun same => absurd same h

/-- A term whose root is another operator of the level is no chain. -/
theorem root_of_continues {op op' : BinaryOp} {l r : Term}
    (h : (binary op' l r).Continues op) (same : op'.precedence = op.precedence) : op' = op := by
  simpa using isBinary_of_isChainOf (h same)

/-! ## Chains after reading back -/

/-- A graft is a chain exactly when both of its parts are, as far as they are on the level. -/
theorem isChainOf_graft {op : BinaryOp} (h : op.isAssociative = true) (l r : Term) :
    (graft op l r).isChainOf op = true ↔ l.Continues op ∧ r.Continues op := by
  have other {t : Term} (ht : t.precedence ≠ op.precedence) :
      (binary op l t).isChainOf op = true ↔ l.Continues op ∧ t.Continues op := by
    rw [isChainOf_binary]
    refine and_congr_right fun _ => ⟨fun _ => continues_of_ne ht, fun _ root => ?_⟩
    exact absurd (precedence_of_isBinary root) ht
  induction r with
  | operand s => exact other op.precedence_ne_atom.symm
  | unary op' t ih => exact other (op'.precedence_ne (op.isComparison_of_isAssociative h))
  | binary op' r₁ r₂ ih₁ ih₂ =>
      by_cases same : op'.precedence = op.precedence
      · rw [graft_binary same, ← continues_iff (t := .binary op' _ _) same]
        by_cases root : op' = op
        · subst root
          have left : (graft op' l r₁).Continues op' ↔ l.Continues op' ∧ r₁.Continues op' :=
            (continues_iff (precedence_graft op' l r₁)).trans ih₁
          rw [continues_iff (t := .binary op' _ r₂) rfl, continues_iff (t := .binary op' r₁ r₂) rfl,
            isChainOf_binary, isChainOf_binary, left, and_assoc]
        · exact iff_of_false (fun hg => root (root_of_continues hg same))
            (fun hr => root (root_of_continues hr.2 same))
      · rw [graft_of_ne (r := .binary op' r₁ r₂) same]
        exact other same

/-- Reading back takes chains to chains and makes no new ones. -/
theorem isChainOf_regroup {op : BinaryOp} (h : op.isAssociative = true) (t : Term) :
    t.regroup.isChainOf op = true ↔ t.isChainOf op = true := by
  induction t with
  | operand s => rfl
  | unary op' t ih => rfl
  | binary op' l r ihl ihr =>
      have hl : l.regroup.Continues op ↔ l.Continues op := by
        rw [Continues, Continues, precedence_regroup, ihl]
      by_cases root : op' = op
      · subst root
        rw [isChainOf_binary]
        rcases regroup_binary op' l r with ⟨-, hr, grafted⟩ | ⟨-, kept⟩
        · have hr' : r.regroup.Continues op' ↔ r.isChainOf op' = true := by
            rw [continues_iff (by rw [precedence_regroup, precedence_of_isBinary hr]), ihr]
          rw [grafted, isChainOf_graft h, hl, hr']
          exact and_congr_right fun _ => ⟨fun c _ => c, fun c => c hr⟩
        · rw [kept, isChainOf_binary, hl, isBinary_regroup, ihr]
      · have no {u : Term} (hu : u.isBinary op' = true) : ¬ u.isChainOf op = true := by
          intro hc
          cases u with
          | operand s => simp [isBinary] at hu
          | unary op₁ t => simp [isBinary] at hu
          | binary op₁ a b =>
              have h₁ : op₁ = op' := by simpa using hu
              have h₂ : op₁ = op := by simpa using isBinary_of_isChainOf hc
              exact root (h₁ ▸ h₂)
        refine iff_of_false (no ?_) (no ?_)
        · simp [isBinary_regroup]
        · simp

/-! ## Grafts and grouping -/

theorem regroups_graft {op : BinaryOp} (h : op.isAssociative = true) (l : Term) {r : Term}
    (hr : r.Continues op) : Regroups (graft op l r) (.binary op l r) := by
  induction r with
  | operand s => exact .refl _
  | unary op' t ih => exact .refl _
  | binary op' r₁ r₂ ih₁ ih₂ =>
      by_cases same : op'.precedence = op.precedence
      · have root := root_of_continues hr same
        subst root
        rw [graft_binary same]
        exact .trans (.binary op' (ih₁ (isChainOf_binary.mp (hr same)).1) (.refl r₂))
          (.assoc h l r₁ r₂)
      · rw [graft_of_ne (r := .binary op' r₁ r₂) same]
        exact .refl _

/-- A term whose chains agree is read back up to grouping. -/
theorem regroups_regroup {t : Term} (h : t.chainsAgree BinaryOp.isAssociative = true) :
    Regroups t.regroup t := by
  induction t with
  | operand s => exact .refl _
  | unary op t ih => exact .unary op (ih h)
  | binary op l r ihl ihr =>
      simp only [chainsAgree, Bool.and_eq_true, Bool.or_eq_true, Bool.not_eq_true'] at h
      obtain ⟨⟨hl, hr⟩, chain⟩ := h
      have parts : Regroups (.binary op l.regroup r.regroup) (.binary op l r) :=
        .binary op (ihl hl) (ihr hr)
      rcases regroup_binary op l r with ⟨ha, root, grafted⟩ | ⟨-, kept⟩
      · have hc : r.isChainOf op = true := by
          rcases chain with apart | hc
          · simp [ha, root] at apart
          · exact hc
        rw [grafted]
        exact .trans (regroups_graft ha _ fun _ => (isChainOf_regroup ha r).mpr hc) parts
      · rw [kept]
        exact parts

/-! ## The weight of a term -/

/-- A number that grouping keeps.  It doubles for each operator that is not associative and has
the term on its left. -/
def weight : Term → Nat
  | .operand _ => 1
  | .unary _ t => t.weight
  | .binary op l r =>
      if op.isAssociative then l.weight + r.weight else 2 * l.weight + r.weight

theorem weight_pos (t : Term) : 0 < t.weight := by
  induction t with
  | operand s => simp [weight]
  | unary op t ih => exact ih
  | binary op l r ihl ihr =>
      unfold weight
      split <;> omega

theorem Regroups.weight_eq {t u : Term} (h : Regroups t u) : t.weight = u.weight := by
  induction h with
  | refl t => rfl
  | symm _ ih => exact ih.symm
  | trans _ _ ih₁ ih₂ => exact ih₁.trans ih₂
  | assoc h a b c => simp only [weight, h, if_true]; omega
  | unary op _ ih => exact ih
  | binary op _ _ ihl ihr => simp only [weight, ihl, ihr]

/-- A graft weighs no less than the node, and more if it moves the operand across another
operator. -/
theorem weight_graft {op : BinaryOp} (h : op.isAssociative = true) (l : Term) {r : Term}
    (hr : r.LeftNested) :
    l.weight + r.weight ≤ (graft op l r).weight ∧
      ((graft op l r).weight = l.weight + r.weight → r.Continues op) := by
  have node (t : Term) : (binary op l t).weight = l.weight + t.weight := by simp [weight, h]
  have other {t : Term} (ht : t.precedence ≠ op.precedence) :
      l.weight + t.weight ≤ (binary op l t).weight ∧
        ((binary op l t).weight = l.weight + t.weight → t.Continues op) :=
    ⟨Nat.le_of_eq (node t).symm, fun _ => continues_of_ne ht⟩
  induction r with
  | operand s => exact other op.precedence_ne_atom.symm
  | unary op' t ih => exact other (op'.precedence_ne (op.isComparison_of_isAssociative h))
  | binary op' r₁ r₂ ih₁ ih₂ =>
      by_cases same : op'.precedence = op.precedence
      · obtain ⟨least, chain⟩ := ih₁ hr.1
        rw [graft_binary same]
        by_cases root : op' = op
        · subst root
          simp only [weight, h, if_true]
          refine ⟨by omega, fun eq _ => isChainOf_binary.mpr ⟨chain (by omega), fun hb => ?_⟩⟩
          exact absurd hb (by simp [isBinary_right_of_leftNested h hr])
        · have ha : op'.isAssociative = false :=
            Bool.eq_false_iff.mpr fun ha => root (BinaryOp.eq_of_isAssociative h ha same)
          have := weight_pos l
          simp only [weight, ha, Bool.false_eq_true, if_false]
          exact ⟨by omega, fun eq => by omega⟩
      · rw [graft_of_ne (r := .binary op' r₁ r₂) same]
        exact other same

/-- Reading back loses no weight, and gains some unless the chains agree. -/
theorem weight_regroup (t : Term) :
    t.weight ≤ t.regroup.weight ∧
      (t.regroup.weight = t.weight → t.chainsAgree BinaryOp.isAssociative = true) := by
  induction t with
  | operand s => exact ⟨Nat.le_refl _, fun _ => rfl⟩
  | unary op t ih => exact ih
  | binary op l r ihl ihr =>
      obtain ⟨leastL, agreeL⟩ := ihl
      obtain ⟨leastR, agreeR⟩ := ihr
      simp only [chainsAgree, Bool.and_eq_true, Bool.or_eq_true, Bool.not_eq_true']
      rcases regroup_binary op l r with ⟨ha, root, grafted⟩ | ⟨apart, kept⟩
      · obtain ⟨least, chain⟩ := weight_graft ha l.regroup (leftNested_regroup r)
        have node : (binary op l r).weight = l.weight + r.weight := by simp [weight, ha]
        rw [grafted]
        refine ⟨by omega, fun eq => ⟨⟨agreeL (by omega), agreeR (by omega)⟩, Or.inr ?_⟩⟩
        refine (isChainOf_regroup ha r).mp (chain (by omega) ?_)
        rw [precedence_regroup, precedence_of_isBinary root]
      · rw [kept]
        simp only [weight]
        split
        · exact ⟨by omega, fun eq => ⟨⟨agreeL (by omega), agreeR (by omega)⟩, Or.inl apart⟩⟩
        · exact ⟨by omega, fun eq => ⟨⟨agreeL (by omega), agreeR (by omega)⟩, Or.inl apart⟩⟩

/-- A term is read back up to grouping exactly when its chains agree. -/
theorem regroups_regroup_iff (t : Term) :
    Regroups t.regroup t ↔ t.chainsAgree BinaryOp.isAssociative = true :=
  ⟨fun h => (weight_regroup t).2 h.weight_eq, regroups_regroup⟩

/-! ## Values -/

/-- The result of an operator on integers.  Quotients are truncated, and remainders have the sign
of the dividend.  There is none for a divisor of zero, and none for operators on other things than
numbers. -/
def compute : BinaryOp → Int → Int → Option Int
  | .add, a, b => some (a + b)
  | .subtract, a, b => some (a - b)
  | .multiply, a, b => some (a * b)
  | .divide, a, b => if b = 0 then none else some (a.tdiv b)
  | .modulo, a, b => if b = 0 then none else some (a.tmod b)
  | _, _, _ => none

/-- The value of a term when each operand has an integer. -/
def value (assigned : String → Int) : Term → Option Int
  | .operand s => some (assigned s)
  | .unary .negate t => (t.value assigned).map fun a => -a
  | .unary _ _ => none
  | .binary op l r => do
      let a ← l.value assigned
      let b ← r.value assigned
      compute op a b

theorem eq_add_or_subtract {op : BinaryOp} (h : op.precedence = BinaryOp.add.precedence) :
    op = .add ∨ op = .subtract := by
  revert h
  cases op <;> decide

/-- A sum has the value of the chain it is put in front of. -/
theorem value_graft_add (assigned : String → Int) (l r : Term) :
    (graft .add l r).value assigned = (binary .add l r).value assigned := by
  induction r with
  | operand s => rfl
  | unary op t ih => rfl
  | binary op r₁ r₂ ih₁ ih₂ =>
      by_cases same : op.precedence = BinaryOp.add.precedence
      · rw [graft_binary same]
        simp only [value, ih₁]
        cases l.value assigned with
        | none => rfl
        | some a =>
          cases r₁.value assigned with
          | none => rfl
          | some b =>
            cases r₂.value assigned with
            | none => rfl
            | some c =>
              rcases eq_add_or_subtract same with rfl | rfl
              · exact congrArg some (Int.add_assoc a b c)
              · exact congrArg some (Int.add_sub_assoc a b c)
      · rw [graft_of_ne (r := .binary op r₁ r₂) same]

/-- A product has the value of the products it is put in front of. -/
theorem value_graft_multiply (assigned : String → Int) (l : Term) {r : Term}
    (h : r.Continues .multiply) :
    (graft .multiply l r).value assigned = (binary .multiply l r).value assigned := by
  induction r with
  | operand s => rfl
  | unary op t ih => rfl
  | binary op r₁ r₂ ih₁ ih₂ =>
      by_cases same : op.precedence = BinaryOp.multiply.precedence
      · have root := root_of_continues h same
        subst root
        rw [graft_binary same]
        simp only [value, ih₁ (isChainOf_binary.mp (h same)).1]
        cases l.value assigned with
        | none => rfl
        | some a =>
          cases r₁.value assigned with
          | none => rfl
          | some b =>
            cases r₂.value assigned with
            | none => rfl
            | some c => exact congrArg some (Int.mul_assoc a b c)
      · rw [graft_of_ne (r := .binary op r₁ r₂) same]

/-- Of the operators that associate, only the sum and the product are of numbers. -/
theorem compute_eq_none {op : BinaryOp} (h : op.isAssociative = true) (hadd : op ≠ .add)
    (hmul : op ≠ .multiply) (a b : Int) : compute op a b = none := by
  revert h hadd hmul
  cases op <;> simp [compute, BinaryOp.isAssociative]

theorem value_binary_eq_none {op : BinaryOp} (h : ∀ a b, compute op a b = none)
    (assigned : String → Int) (l r : Term) : (binary op l r).value assigned = none := by
  simp only [value, h]
  cases l.value assigned with
  | none => rfl
  | some a => cases r.value assigned <;> rfl

theorem value_graft_eq_none {op : BinaryOp} (h : ∀ a b, compute op a b = none)
    (assigned : String → Int) (l : Term) {r : Term} (root : r.isBinary op = true) :
    (graft op l r).value assigned = none := by
  cases r with
  | operand s => simp [isBinary] at root
  | unary op' t => simp [isBinary] at root
  | binary op' r₁ r₂ =>
      have same : op' = op := by simpa using root
      subst same
      rw [graft_binary rfl]
      exact value_binary_eq_none h assigned _ _

/-- A term whose products are followed by chains of products has the value it is read back
with. -/
theorem value_regroup (assigned : String → Int) {t : Term}
    (h : t.chainsAgree (fun op => op == .multiply) = true) :
    t.regroup.value assigned = t.value assigned := by
  induction t with
  | operand s => rfl
  | unary op t ih =>
      have ih' := ih h
      cases op <;> simp only [regroup, value, ih']
  | binary op l r ihl ihr =>
      simp only [chainsAgree, Bool.and_eq_true, Bool.or_eq_true, Bool.not_eq_true'] at h
      obtain ⟨⟨hl, hr⟩, chain⟩ := h
      have parts : (binary op l.regroup r.regroup).value assigned =
          (binary op l r).value assigned := by
        simp only [value, ihl hl, ihr hr]
      rcases regroup_binary op l r with ⟨ha, root, grafted⟩ | ⟨-, kept⟩
      · rw [grafted, ← parts]
        by_cases hadd : op = .add
        · subst hadd
          exact value_graft_add assigned _ _
        · by_cases hmul : op = .multiply
          · subst hmul
            refine value_graft_multiply assigned _ fun _ => (isChainOf_regroup rfl r).mpr ?_
            exact chain.resolve_left (by simp [root])
          · have no := compute_eq_none ha hadd hmul
            rw [value_binary_eq_none no]
            exact value_graft_eq_none no assigned _ (by rw [isBinary_regroup, root])
      · rw [kept]
        exact parts

end SqlGen.Reading.Term
