import SqlGen.Expr.Basic

/-!
# Equality of expressions

Two expressions are equal when they are built alike, node by node and field by
field.  `Expr.equal` decides it along the trees, with one companion for each
kind of container that a node keeps children in.

`Expr.equal_iff` says that the test is equality, so the instance is the
decidable equality of the type.  Equal expressions have equal hashes because the
hash is a function of the expression.
-/

namespace SqlGen

namespace Expr

/-! ## The test -/

mutual

/-- Two expressions are built alike. -/
def equal : Expr → Expr → Bool
  | .column n a t u, y => match y with
      | .column n' a' t' u' => n == n' && (a == a' && (t == t' && u == u'))
      | _ => false
  | .constant v t, y => match y with
      | .constant v' t' => v == v' && t == t'
      | _ => false
  | .parameter n t u, y => match y with
      | .parameter n' t' u' => n == n' && (t == t' && u == u')
      | _ => false
  | .fragment s, y => match y with
      | .fragment s' => s == s'
      | _ => false
  | .call f args, y => match y with
      | .call f' args' => f == f' && equalList args args'
      | _ => false
  | .niladic f, y => match y with
      | .niladic f' => f == f'
      | _ => false
  | .binary op l r t, y => match y with
      | .binary op' l' r' t' => op == op' && (equal l l' && (equal r r' && t == t'))
      | _ => false
  | .unary op e t, y => match y with
      | .unary op' e' t' => op == op' && (equal e e' && t == t')
      | _ => false
  | .table n a, y => match y with
      | .table n' a' => n == n' && a == a'
      | _ => false
  | .join k t p, y => match y with
      | .join k' t' p' => k == k' && (equal t t' && equal p p')
      | _ => false
  | .crossJoin t, y => match y with
      | .crossJoin t' => equal t t'
      | _ => false
  | .projection e a, y => match y with
      | .projection e' a' => equal e e' && a == a'
      | _ => false
  | .ordering e a, y => match y with
      | .ordering e' a' => equal e e' && a == a'
      | _ => false
  | .select s, y => match y with
      | .select s' => equalSelect s s'
      | _ => false
  | .setOperation op a l r d, y => match y with
      | .setOperation op' a' l' r' d' =>
          op == op' && (a == a' && (equalSelect l l' && (equalSelect r r' && d == d')))
      | _ => false
  | .collate e c, y => match y with
      | .collate e' c' => equal e e' && c == c'
      | _ => false
termination_by structural x => x

def equalList : List Expr → List Expr → Bool
  | [], ys => match ys with
      | [] => true
      | _ :: _ => false
  | x :: xs, ys => match ys with
      | [] => false
      | y :: ys => equal x y && equalList xs ys
termination_by structural xs => xs

/-- Two optional expressions are built alike. -/
def equalOption : Option Expr → Option Expr → Bool
  | none, y => y.isNone
  | some x, y => match y with
      | none => false
      | some y => equal x y
termination_by structural x => x

def equalSelect : Select Expr → Select Expr → Bool
  | ⟨⟨p, t, w, o, l, f⟩, d⟩, y =>
      d == y.distinct && (equalList p y.projection && (equalList t y.tables &&
        (equalOption w y.predicate && (equalList o y.orderings &&
          (equalOption l y.limit && equalOption f y.offset)))))
termination_by structural x => x

end

/-! ## The test is equality -/

mutual

theorem eq_of_equal : ∀ {x y : Expr}, equal x y = true → x = y
  | .column .., y, h => by cases y <;> simp_all [equal]
  | .constant .., y, h => by cases y <;> simp_all [equal]
  | .parameter .., y, h => by cases y <;> simp_all [equal]
  | .fragment .., y, h => by cases y <;> simp_all [equal]
  | .call f args, y, h => by
      cases y <;> simp only [equal, Bool.and_eq_true, beq_iff_eq, reduceCtorEq] at h
      exact h.1 ▸ eqList_of_equal h.2 ▸ rfl
  | .niladic .., y, h => by cases y <;> simp_all [equal]
  | .binary _ l r _, y, h => by
      cases y <;> simp only [equal, Bool.and_eq_true, beq_iff_eq, reduceCtorEq] at h
      obtain ⟨rfl, hl, hr, rfl⟩ := h
      rw [eq_of_equal hl, eq_of_equal hr]
  | .unary _ e _, y, h => by
      cases y <;> simp only [equal, Bool.and_eq_true, beq_iff_eq, reduceCtorEq] at h
      obtain ⟨rfl, he, rfl⟩ := h
      rw [eq_of_equal he]
  | .table .., y, h => by cases y <;> simp_all [equal]
  | .join _ t p, y, h => by
      cases y <;> simp only [equal, Bool.and_eq_true, beq_iff_eq, reduceCtorEq] at h
      obtain ⟨rfl, ht, hp⟩ := h
      rw [eq_of_equal ht, eq_of_equal hp]
  | .crossJoin t, y, h => by
      cases y <;> simp only [equal, reduceCtorEq] at h
      rw [eq_of_equal h]
  | .projection e _, y, h => by
      cases y <;> simp only [equal, Bool.and_eq_true, beq_iff_eq, reduceCtorEq] at h
      obtain ⟨he, rfl⟩ := h
      rw [eq_of_equal he]
  | .ordering e _, y, h => by
      cases y <;> simp only [equal, Bool.and_eq_true, beq_iff_eq, reduceCtorEq] at h
      obtain ⟨he, rfl⟩ := h
      rw [eq_of_equal he]
  | .select s, y, h => by
      cases y <;> simp only [equal, reduceCtorEq] at h
      rw [eqSelect_of_equal h]
  | .setOperation _ _ l r _, y, h => by
      cases y <;> simp only [equal, Bool.and_eq_true, beq_iff_eq, reduceCtorEq] at h
      obtain ⟨rfl, rfl, hl, hr, rfl⟩ := h
      rw [eqSelect_of_equal hl, eqSelect_of_equal hr]
  | .collate e _, y, h => by
      cases y <;> simp only [equal, Bool.and_eq_true, beq_iff_eq, reduceCtorEq] at h
      obtain ⟨he, rfl⟩ := h
      rw [eq_of_equal he]
termination_by structural x => x

theorem eqList_of_equal : ∀ {xs ys : List Expr}, equalList xs ys = true → xs = ys
  | [], ys, h => by cases ys <;> simp_all [equalList]
  | x :: xs, ys, h => by
      cases ys <;> simp only [equalList, Bool.and_eq_true, reduceCtorEq] at h
      rw [eq_of_equal h.1, eqList_of_equal h.2]
termination_by structural xs => xs

theorem eqOption_of_equal : ∀ {x y : Option Expr}, equalOption x y = true → x = y
  | none, y, h => by cases y <;> simp_all [equalOption]
  | some x, y, h => by
      cases y <;> simp only [equalOption, reduceCtorEq] at h
      rw [eq_of_equal h]
termination_by structural x => x

theorem eqSelect_of_equal : ∀ {x y : Select Expr}, equalSelect x y = true → x = y
  | ⟨⟨p, t, w, o, l, f⟩, d⟩, y, h => by
      obtain ⟨⟨p', t', w', o', l', f'⟩, d'⟩ := y
      simp only [equalSelect, Bool.and_eq_true, beq_iff_eq] at h
      obtain ⟨rfl, hp, ht, hw, ho, hl, hf⟩ := h
      rw [eqList_of_equal hp, eqList_of_equal ht, eqOption_of_equal hw, eqList_of_equal ho,
        eqOption_of_equal hl, eqOption_of_equal hf]
termination_by structural x => x

end

mutual

theorem equal_refl : ∀ x : Expr, equal x x = true
  | .column .. | .constant .. | .parameter .. | .fragment .. | .niladic .. | .table .. => by
      simp [equal]
  | .call f args => by simp [equal, equalList_refl args]
  | .binary _ l r _ => by simp [equal, equal_refl l, equal_refl r]
  | .unary _ e _ => by simp [equal, equal_refl e]
  | .join _ t p => by simp [equal, equal_refl t, equal_refl p]
  | .crossJoin t => by simp [equal, equal_refl t]
  | .projection e _ => by simp [equal, equal_refl e]
  | .ordering e _ => by simp [equal, equal_refl e]
  | .select s => by simp [equal, equalSelect_refl s]
  | .setOperation _ _ l r _ => by simp [equal, equalSelect_refl l, equalSelect_refl r]
  | .collate e _ => by simp [equal, equal_refl e]
termination_by structural x => x

theorem equalList_refl : ∀ xs : List Expr, equalList xs xs = true
  | [] => rfl
  | x :: xs => by simp [equalList, equal_refl x, equalList_refl xs]
termination_by structural xs => xs

theorem equalOption_refl : ∀ x : Option Expr, equalOption x x = true
  | none => rfl
  | some x => by simp [equalOption, equal_refl x]
termination_by structural x => x

theorem equalSelect_refl : ∀ x : Select Expr, equalSelect x x = true
  | ⟨⟨p, t, w, o, l, f⟩, d⟩ => by
      simp [equalSelect, equalList_refl p, equalList_refl t, equalOption_refl w,
        equalList_refl o, equalOption_refl l, equalOption_refl f]
termination_by structural x => x

end

/-- The test holds exactly of equal expressions. -/
theorem equal_iff {x y : Expr} : equal x y = true ↔ x = y :=
  ⟨eq_of_equal, fun h => h ▸ equal_refl x⟩

instance : DecidableEq Expr := fun x y => decidable_of_iff (equal x y = true) equal_iff

/-! ## Hashes -/

mutual

/-- A hash of every field and every child. -/
def hash : Expr → UInt64
  | .column n a t u => mixHash 1 (Hashable.hash (n, a, t, u))
  | .constant v t => mixHash 2 (Hashable.hash (v, t))
  | .parameter n t u => mixHash 3 (Hashable.hash (n, t, u))
  | .fragment s => mixHash 4 (Hashable.hash s)
  | .call f args => mixHash 5 (mixHash (Hashable.hash f) (hashList args))
  | .niladic f => mixHash 6 (Hashable.hash f)
  | .binary op l r t =>
      mixHash 7 (mixHash (Hashable.hash (op, t)) (mixHash (hash l) (hash r)))
  | .unary op e t => mixHash 8 (mixHash (Hashable.hash (op, t)) (hash e))
  | .table n a => mixHash 9 (Hashable.hash (n, a))
  | .join k t p => mixHash 10 (mixHash (Hashable.hash k) (mixHash (hash t) (hash p)))
  | .crossJoin t => mixHash 11 (hash t)
  | .projection e a => mixHash 12 (mixHash (Hashable.hash a) (hash e))
  | .ordering e a => mixHash 13 (mixHash (Hashable.hash a) (hash e))
  | .select s => mixHash 14 (hashSelect s)
  | .setOperation op a l r d =>
      mixHash 15 (mixHash (Hashable.hash (op, a, d)) (mixHash (hashSelect l) (hashSelect r)))
  | .collate e c => mixHash 16 (mixHash (Hashable.hash c) (hash e))
termination_by structural x => x

def hashList : List Expr → UInt64
  | [] => 17
  | x :: xs => mixHash (hash x) (hashList xs)
termination_by structural xs => xs

/-- A hash of an optional expression. -/
def hashOption : Option Expr → UInt64
  | none => 18
  | some x => mixHash 19 (hash x)
termination_by structural x => x

def hashSelect : Select Expr → UInt64
  | ⟨⟨p, t, w, o, l, f⟩, d⟩ =>
      mixHash (Hashable.hash d) (mixHash (hashList p) (mixHash (hashList t)
        (mixHash (hashOption w) (mixHash (hashList o)
          (mixHash (hashOption l) (hashOption f))))))
termination_by structural x => x

end

instance : Hashable Expr := ⟨Expr.hash⟩

end Expr

end SqlGen
