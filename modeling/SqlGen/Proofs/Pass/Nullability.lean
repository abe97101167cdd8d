import SqlGen.Pass.Nullability
import SqlGen.Proofs.Pass.Evaluation

/-!
# Simplification by nullability keeps the meaning

The induction on the tree carries two facts about a node after the pass: it denotes what it did
before, and if it says that it is never NULL then it never is.  A rule is right for a node whose
children satisfy both, since it only looks at the nullability of children and at constants.

`agrees_after` is this induction, for every evaluation that honours the promises of the tree.
-/

namespace SqlGen

/-! ## Flags of calls -/

/-- A function call has one flag for each argument.  A call without an argument list has none. -/
def Expr.HasFlags : Expr → Prop
  | .call f args => args.length = f.propagates.length
  | .niladic f => f.propagates = []
  | _ => True

theorem Expr.HasFlags.flagsMatch {e : Expr} (h : e.HasFlags) : e.FlagsMatch := by
  cases e with
  | call f args => exact h
  | _ => trivial

namespace Function

theorem mem_of_mem_propagating {f : Function} {args : List Expr} {a : Expr}
    (h : a ∈ f.propagating args) : a ∈ args := by
  obtain ⟨p, mem, rfl⟩ := List.mem_map.mp h
  exact (List.of_mem_zip (List.mem_filter.mp mem).1).1

/-- Arguments in the place of others propagate where these do. -/
theorem propagating_map (f : Function) (h : Expr → Expr) (args : List Expr) :
    f.propagating (args.map h) = (f.propagating args).map h := by
  simp only [propagating, List.zip_map_left, List.filter_map, List.map_map]
  rfl

end Function

namespace Evaluation

variable {Env Val : Type} {v : Evaluation Env Val} {root e e' : Expr} {h : Expr → Expr}

/-! ## Nodes over other children -/

/-- A node in the place of another one: it denotes the same, and it is never NULL if it says
so. -/
structure Agrees (v : Evaluation Env Val) (e e' : Expr) : Prop where
  denote : v.denote e' = v.denote e
  neverNull : e'.isNullable = false → v.NeverNull e'

theorem NeverNull.congr (same : v.denote e' = v.denote e) : v.NeverNull e' ↔ v.NeverNull e := by
  rw [NeverNull, NeverNull, same]

/-- A child that is replaced by one that is never NULL was never NULL. -/
theorem Agrees.neverNull_before (agrees : v.Agrees e e') (n : e'.isNullable = false) :
    v.NeverNull e := (NeverNull.congr agrees.denote).mp (agrees.neverNull n)

theorem Honours.truth_ne_null (honours : v.Honours root) (env : Env) (b : Bool) :
    v.truth b ≠ v.null := by
  intro isNull
  have t : Typing := ⟨.boolean, none⟩
  have constant := (honours.boolean b t env).trans isNull
  cases (honours.constant (.boolean b) t env).mp constant

theorem denote_rebuilt (children : ∀ c ∈ e.children, v.denote (h c) = v.denote c)
    (rebuilt : e.withSlots (e.slots.map h) = .ok e') : v.denote e' = v.denote e := by
  refine v.compositional e' e ?_
  rw [Expr.node_of_withSlots rebuilt, Expr.node_congr children]

/-- If a rebuilt node says that it is never NULL, the node before never was. -/
theorem neverNull_before (honours : v.Honours root) (within : e.Within root)
    (children : ∀ c ∈ e.children, v.Agrees c (h c))
    (rebuilt : e.withSlots (e.slots.map h) = .ok e') (n : e'.isNullable = false) :
    v.NeverNull e := by
  cases e with
  | column name tableAlias t nullable =>
      obtain rfl := Except.ok.inj rebuilt
      obtain rfl : nullable = false := n
      exact honours.column within
  | parameter name t nullable =>
      obtain rfl := Except.ok.inj rebuilt
      obtain rfl : nullable = false := n
      exact honours.parameter within
  | constant value t =>
      obtain rfl := Except.ok.inj rebuilt
      intro env isNull
      have := (honours.constant value t env).mp isNull
      subst this
      cases n
  | call f args =>
      obtain ⟨-, rfl⟩ := Expr.withSlots_call rebuilt
      exact honours.call within n
  | niladic f =>
      obtain rfl := Except.ok.inj rebuilt
      exact honours.niladic within n
  | binary op l r t =>
      obtain rfl := Except.ok.inj rebuilt
      obtain ⟨nl, nr⟩ := Bool.or_eq_false_iff.mp n
      have left := (children l List.mem_cons_self).neverNull_before nl
      have right := (children r (List.mem_cons_of_mem l List.mem_cons_self)).neverNull_before nr
      intro env isNull
      rcases honours.binary within env isNull with null | null
      · exact left env null
      · exact right env null
  | unary op operand t =>
      obtain rfl := Except.ok.inj rebuilt
      have agrees := children operand List.mem_cons_self
      intro env isNull
      have two := honours.truth_ne_null env
      cases op with
      | not => exact agrees.neverNull_before n env (honours.not within env isNull)
      | negate => exact agrees.neverNull_before n env (honours.negate within env isNull)
      | isNull =>
          by_cases null : v.denote operand env = v.null
          · exact two true (((honours.isNull within env).1 null).symm.trans isNull)
          · exact two false (((honours.isNull within env).2 null).symm.trans isNull)
      | isNotNull =>
          by_cases null : v.denote operand env = v.null
          · exact two false (((honours.isNotNull within env).1 null).symm.trans isNull)
          · exact two true (((honours.isNotNull within env).2 null).symm.trans isNull)
  | projection operand columnAlias =>
      obtain rfl := Except.ok.inj rebuilt
      have agrees := children operand List.mem_cons_self
      exact (NeverNull.congr (honours.projection within)).mpr (agrees.neverNull_before n)
  | setOperation op a l r d =>
      obtain ⟨l', r', -, -, rfl⟩ := Expr.withSlots_setOperation rebuilt
      cases n
  | _ =>
      obtain rfl := Except.ok.inj rebuilt
      cases n

theorem agrees_rebuilt (honours : v.Honours root) (within : e.Within root)
    (children : ∀ c ∈ e.children, v.Agrees c (h c))
    (rebuilt : e.withSlots (e.slots.map h) = .ok e') : v.Agrees e e' := by
  have same := denote_rebuilt (fun c hc => (children c hc).denote) rebuilt
  refine ⟨same, fun n => ?_⟩
  exact (NeverNull.congr same).mpr (neverNull_before honours within children rebuilt n)

/-! ## The rules -/

/-- A call with a NULL constant that makes it NULL is NULL. -/
theorem agrees_nullCall (honours : v.Honours root) {f : Function} {args : List Expr}
    (within : (Expr.call f args).Within root) (children : ∀ c ∈ args, v.denote (h c) = v.denote c)
    (null : Nullability.isNullCall f (args.map h) = true) :
    v.Agrees (.call f args) (.constant .null f.typing) := by
  obtain ⟨a', mem', isNull⟩ := List.any_eq_true.mp null
  rw [Function.propagating_map] at mem'
  obtain ⟨a, mem, rfl⟩ := List.mem_map.mp mem'
  have argument (env : Env) : v.denote a env = v.null := by
    rw [← children a (Function.mem_of_mem_propagating mem)]
    cases constant : h a with
    | constant value t =>
        rw [constant] at isNull
        exact (honours.constant value t env).mpr (Value.isNull_eq_true.mp isNull)
    | _ =>
        rw [constant] at isNull
        cases isNull
  refine ⟨funext fun env => ?_, fun n => by cases n⟩
  rw [(honours.constant .null f.typing env).mpr rfl,
    honours.propagates within a mem env (argument env)]

/-- A call of a strict function is never NULL if none of its arguments is. -/
theorem agrees_neverNullCall (honours : v.Honours root) {f : Function} {args : List Expr}
    (within : (Expr.call f args).Within root) (flags : args.length = f.propagates.length)
    (children : ∀ c ∈ args, v.Agrees c (h c))
    (strict : Nullability.isNeverNull f (args.map h) = true) :
    v.Agrees (.call f args) (.call { f with nullable := false } (args.map h)) := by
  simp only [Nullability.isNeverNull, Bool.and_eq_true, Bool.not_eq_true'] at strict
  obtain ⟨⟨⟨-, someFlag⟩, all⟩, arguments⟩ := strict
  have same : v.denote (.call { f with nullable := false } (args.map h)) =
      v.denote (.call f args) := by
    refine v.compositional _ _ ?_
    have list : (args.map h).map v.denote = args.map v.denote := by
      rw [List.map_map]
      exact List.map_congr_left fun a ha => (children a ha).denote
    rw [Expr.node, Expr.node, list]
    rfl
  have someArgument : args ≠ [] := by
    rintro rfl
    have none : f.propagates = [] := List.length_eq_zero_iff.mp flags.symm
    rw [none] at someFlag
    cases someFlag
  refine ⟨same, fun _ => (NeverNull.congr same).mpr fun env => ?_⟩
  refine honours.strict within someArgument all env fun a ha => ?_
  have declared : (h a).isNullable = false := by
    have := List.all_eq_true.mp arguments (h a) (List.mem_map_of_mem ha)
    simpa using this
  exact (children a ha).neverNull_before declared env

/-- A test of an operand that is never NULL is a truth value. -/
theorem agrees_test (honours : v.Honours root) {b : Bool} {t : Typing}
    (test : ∀ env, v.denote e env = v.truth b) :
    v.Agrees e (.constant (.boolean b) t) := by
  refine ⟨funext fun env => (honours.boolean b t env).trans (test env).symm, fun _ env isNull => ?_⟩
  cases (honours.constant (.boolean b) t env).mp isNull

/-- Each rule is right for a node over children that agree with those before. -/
theorem agrees_simplify (honours : v.Honours root) (within : e.Within root) (flags : e.HasFlags)
    (children : ∀ c ∈ e.children, v.Agrees c (h c))
    (rebuilt : e.withSlots (e.slots.map h) = .ok e') :
    v.Agrees e ((Nullability.simplify e').of e') := by
  have agrees := agrees_rebuilt honours within children rebuilt
  cases e with
  | call f args =>
      obtain ⟨-, rfl⟩ := Expr.withSlots_call rebuilt
      simp only [Nullability.simplify, Nullability.simplifyCall]
      split
      next null => exact agrees_nullCall honours within (fun c hc => (children c hc).denote) null
      next =>
        split
        next strict =>
          have nullable : f.nullable = true := by
            simp only [Nullability.isNeverNull, Bool.and_eq_true] at strict
            exact strict.1.1.1
          have declared : (Expr.call f (args.map h)).withNullability false =
              .changed (.call { f with nullable := false } (args.map h))
                ((args.map h).map fun _ => true) := by
            simp [Expr.withNullability, nullable]
          rw [declared]
          exact agrees_neverNullCall honours within flags children strict
        next => exact agrees
  | niladic f =>
      obtain rfl := Except.ok.inj rebuilt
      have none : f.propagates = [] := flags
      have notNull : Nullability.isNullCall f [] = false := rfl
      have notStrict : Nullability.isNeverNull f [] = false := by
        simp [Nullability.isNeverNull, none]
      simp only [Nullability.simplify, Nullability.simplifyCall, notNull, notStrict]
      exact agrees
  | unary op operand t =>
      obtain rfl := Except.ok.inj rebuilt
      have before := (children operand List.mem_cons_self).neverNull_before
      cases op with
      | not => exact agrees
      | negate => exact agrees
      | isNull =>
          simp only [Nullability.simplify, Nullability.simplifyTest]
          split
          next => exact agrees
          next n =>
            refine agrees_test honours fun env => (honours.isNull within env).2 ?_
            exact before (Bool.eq_false_iff.mpr n) env
      | isNotNull =>
          simp only [Nullability.simplify, Nullability.simplifyTest]
          split
          next => exact agrees
          next n =>
            refine agrees_test honours fun env => (honours.isNotNull within env).2 ?_
            exact before (Bool.eq_false_iff.mpr n) env
  | setOperation op a l r d =>
      obtain ⟨l', r', -, -, rfl⟩ := Expr.withSlots_setOperation rebuilt
      exact agrees
  | _ =>
      obtain rfl := Except.ok.inj rebuilt
      exact agrees

end Evaluation

/-! ## The whole tree -/

namespace Expr

/-- Every call of the tree has one flag for each argument. -/
def FlagsComplete (root : Expr) : Prop := ∀ e : Expr, e.Within root → e.HasFlags

theorem FlagsComplete.child {c e : Expr} (h : e.FlagsComplete) (mem : c ∈ e.children) :
    c.FlagsComplete := fun x below => h x (.child mem below)

theorem FlagsComplete.allFlagsMatch {e : Expr} (h : e.FlagsComplete) : e.AllFlagsMatch :=
  fun x below => (h x below).flagsMatch

/-- The simplification of a tree whose calls have their flags does not fail.  At every node it
simplifies what the simplified children give. -/
theorem revise_nullability_ok {e : Expr} (flags : e.AllFlagsMatch) :
    ∃ e' r, e.withSlots (e.slots.map (after .nullability)) = .ok e' ∧
      e.revise .nullability = .ok r ∧ r.of e = (Nullability.simplify e').of e' := by
  induction e using induction_children with
  | node e ih =>
      have matched := flags e .self
      -- A select among the children has been simplified to a select.
      have selects (q : Select Expr) (mem : .select q ∈ e.children) :
          ∃ q', after .nullability (.select q) = .select q' := by
        obtain ⟨q', r, rebuilt, revised, result⟩ := ih _ mem (flags.child mem)
        obtain rfl := Except.ok.inj rebuilt
        rw [after, outcome_of_revise revised, result]
        exact ⟨_, rfl⟩
      have children (c : Expr) (mem : c ∈ e.children) : ∃ r, c.revise .nullability = .ok r := by
        obtain ⟨-, r, -, revised, -⟩ := ih c mem (flags.child mem)
        exact ⟨r, revised⟩
      obtain ⟨e', rebuilt⟩ := withSlots_ok matched selects
      obtain ⟨r, revised, result⟩ := revise_of_withSlots rfl matched children rebuilt
      exact ⟨e', r, rebuilt, revised, result⟩

end Expr

namespace Evaluation

variable {Env Val : Type} {v : Evaluation Env Val}

/-- Every node of the tree agrees with what it is simplified to. -/
theorem agrees_after {root : Expr} (honours : v.Honours root) {e : Expr} (within : e.Within root)
    (flags : e.FlagsComplete) : v.Agrees e (e.after .nullability) := by
  induction e using Expr.induction_children with
  | node e ih =>
      obtain ⟨e', r, rebuilt, revised, result⟩ :=
        Expr.revise_nullability_ok flags.allFlagsMatch
      have children (c : Expr) (mem : c ∈ e.children) : v.Agrees c (c.after .nullability) :=
        ih c mem (within.of_mem_children mem) (flags.child mem)
      rw [Expr.after, Expr.outcome_of_revise revised, result]
      exact agrees_simplify honours within (flags e .self) children rebuilt

/-- The simplification of a tree denotes what the tree does, and is never NULL if it says so. -/
theorem denote_revise_nullability (v : Evaluation Env Val) {e : Expr} (flags : e.FlagsComplete)
    (honours : v.Honours e) :
    ∃ r, e.revise .nullability = .ok r ∧ v.denote (r.of e) = v.denote e ∧
      ((r.of e).isNullable = false → ∀ env, v.denote (r.of e) env ≠ v.null) := by
  obtain ⟨-, r, -, revised, -⟩ := Expr.revise_nullability_ok flags.allFlagsMatch
  have agrees := agrees_after honours .self flags
  rw [Expr.after, Expr.outcome_of_revise revised] at agrees
  exact ⟨r, revised, agrees.denote, agrees.neverNull⟩

/-! ## A database of integers -/

/-- What nodes denote in a row of a table.  The column `id` holds an integer and the other columns
may be NULL.  A call is the absolute value of its first argument, and truth values are numbers. -/
def integers : Node (Int × Option Int → Option Int) → Int × Option Int → Option Int
  | .column name _ _ => fun row => if name = "id" then some row.1 else row.2
  | .constant .null _ => fun _ => none
  | .constant (.boolean b) _ => fun _ => some (if b then 1 else 0)
  | .constant (.integer i) _ => fun _ => some i.toInt
  | .constant _ _ => fun _ => some 0
  | .parameter _ _ => fun _ => some 0
  | .call f args => fun row =>
      if (args.zip f.propagates).any fun p => p.2 && (p.1 row).isNone then none
      else args.head?.elim (some 0) fun a => (a row).map fun i => (i.natAbs : Int)
  | .niladic _ => fun _ => some 0
  | .binary _ l r _ => fun row => (l row).bind fun i => (r row).map fun j => i + j
  | .unary .not x _ => fun row => (x row).map fun i => 1 - i
  | .unary .negate x _ => fun row => (x row).map fun i => -i
  | .unary .isNull x _ => fun row => some (if (x row).isNone then 1 else 0)
  | .unary .isNotNull x _ => fun row => some (if (x row).isNone then 0 else 1)
  | .projection x _ => x
  | _ => fun _ => none

def integerEvaluation : Evaluation (Int × Option Int) (Option Int) :=
  .ofTable integers none fun b => some (if b then 1 else 0)

/-- A call with a NULL among the arguments that make it NULL. -/
theorem integers_call_eq_none {f : Function} {args : List Expr} {a : Expr}
    (mem : a ∈ f.propagating args) {row : Int × Option Int}
    (null : integerEvaluation.denote a row = none) :
    integerEvaluation.denote (.call f args) row = none := by
  obtain ⟨p, flagged, rfl⟩ := List.mem_map.mp mem
  obtain ⟨zipped, flag⟩ := List.mem_filter.mp flagged
  have value : (Expr.fold integers p.1, p.2) ∈
      (args.map (Expr.fold integers)).zip f.propagates := by
    rw [List.zip_map_left]
    exact List.mem_map_of_mem zipped
  have found : ((args.map (Expr.fold integers)).zip f.propagates).any
      (fun p => p.2 && (p.1 row).isNone) = true := by
    refine List.any_eq_true.mpr ⟨_, value, ?_⟩
    have isNone : Expr.fold integers p.1 row = none := null
    simp [flag, isNone]
  have call : integerEvaluation.denote (.call f args) =
      integers (.call f.undeclared (args.map (Expr.fold integers))) := Expr.fold_eq integers _
  rw [call]
  exact if_pos found

/-- A call of values is a value. -/
theorem integers_call_ne_none {f : Function} {args : List Expr} (someArgument : args ≠ [])
    {row : Int × Option Int} (values : ∀ a ∈ args, integerEvaluation.denote a row ≠ none) :
    integerEvaluation.denote (.call f args) row ≠ none := by
  have call : integerEvaluation.denote (.call f args) =
      integers (.call f.undeclared (args.map (Expr.fold integers))) := Expr.fold_eq integers _
  have noNull : ((args.map (Expr.fold integers)).zip f.propagates).any
      (fun p => p.2 && (p.1 row).isNone) = false := by
    refine List.any_eq_false.mpr fun p mem => ?_
    obtain ⟨a, ha, same⟩ := List.mem_map.mp (List.of_mem_zip mem).1
    have value : p.1 row ≠ none := same ▸ values a ha
    simp [value]
  obtain ⟨a, rest, rfl⟩ := List.exists_cons_of_ne_nil someArgument
  obtain ⟨i, hi⟩ := Option.ne_none_iff_exists'.mp (values a List.mem_cons_self)
  have first : Expr.fold integers a row = some i := hi
  have absolute : integers (.call f.undeclared ((a :: rest).map (Expr.fold integers))) row =
      some (i.natAbs : Int) := by
    refine (if_neg (Bool.eq_false_iff.mp noNull)).trans ?_
    simp [first]
  rw [call, absolute]
  exact Option.some_ne_none _

/-- The integers honour every tree that declares no other column and no call never to be NULL. -/
theorem honours_integers {root : Expr}
    (columns : ∀ {name tableAlias t},
      (Expr.column name tableAlias t false).Within root → name = "id")
    (calls : ∀ {f args}, (Expr.call f args).Within root → f.nullable = true) :
    integerEvaluation.Honours root where
  column within row isNull := by
    obtain rfl := columns within
    simp [integerEvaluation, ofTable, Expr.fold, integers] at isNull
  parameter _ row isNull := by cases isNull
  constant value t row := by
    cases value <;> simp [integerEvaluation, ofTable, Expr.fold, integers]
  boolean b t row := rfl
  propagates _ a mem row isNull := integers_call_eq_none mem isNull
  call within declared := by
    rw [calls within] at declared
    cases declared
  niladic _ _ row isNull := by cases isNull
  strict _ someArgument _ row arguments := integers_call_ne_none someArgument arguments
  binary {_ l _ _} _ row isNull := by
    by_cases left : integerEvaluation.denote l row = none
    · exact .inl left
    · obtain ⟨i, hi⟩ := Option.ne_none_iff_exists'.mp left
      exact .inr (Option.map_eq_none_iff.mp (Option.bind_eq_none_iff.mp isNull i hi))
  not _ row isNull := Option.map_eq_none_iff.mp isNull
  negate _ row isNull := Option.map_eq_none_iff.mp isNull
  isNull _ row := by
    constructor <;> intro h <;> simp_all [integerEvaluation, ofTable, Expr.fold, integers]
  isNotNull _ row := by
    constructor <;> intro h <;> simp_all [integerEvaluation, ofTable, Expr.fold, integers]
  projection _ := rfl

/-- The test whether the absolute value of the column `id` is not NULL. -/
def absIsNotNull : Expr :=
  .unary .isNotNull
    (.call ⟨"abs", none, true, [true], ⟨.int64, none⟩⟩ [.column "id" "t" ⟨.int64, none⟩ false])
    ⟨.boolean, none⟩

theorem within_absIsNotNull {x : Expr} (h : x.Within absIsNotNull) :
    x = absIsNotNull ∨
      x = .call ⟨"abs", none, true, [true], ⟨.int64, none⟩⟩
        [.column "id" "t" ⟨.int64, none⟩ false] ∨
      x = .column "id" "t" ⟨.int64, none⟩ false := by
  rcases Expr.within_iff.mp h with rfl | ⟨c, mem, below⟩
  · exact .inl rfl
  · obtain rfl := List.mem_singleton.mp mem
    rcases Expr.within_iff.mp below with rfl | ⟨c, mem, below⟩
    · exact .inr (.inl rfl)
    · obtain rfl := List.mem_singleton.mp mem
      rcases Expr.within_iff.mp below with rfl | ⟨c, mem, below⟩
      · exact .inr (.inr rfl)
      · cases mem

theorem flagsComplete_absIsNotNull : absIsNotNull.FlagsComplete := by
  intro e within
  rcases within_absIsNotNull within with rfl | rfl | rfl
  · trivial
  · rfl
  · trivial

theorem honours_absIsNotNull : integerEvaluation.Honours absIsNotNull := by
  refine honours_integers ?_ ?_
  · intro name tableAlias t within
    rcases within_absIsNotNull within with same | same | same <;> cases same
    rfl
  · intro f args within
    rcases within_absIsNotNull within with same | same | same <;> cases same
    rfl

/-- The call is found never to be NULL, which makes the test true. -/
theorem denote_revise_absIsNotNull :
    absIsNotNull.FlagsComplete ∧ integerEvaluation.Honours absIsNotNull ∧
      absIsNotNull.after .nullability = .constant (.boolean true) ⟨.boolean, none⟩ ∧
      ∃ r, absIsNotNull.revise .nullability = .ok r ∧
        integerEvaluation.denote (r.of absIsNotNull) = integerEvaluation.denote absIsNotNull ∧
        ((r.of absIsNotNull).isNullable = false →
          ∀ row, integerEvaluation.denote (r.of absIsNotNull) row ≠ none) :=
  ⟨flagsComplete_absIsNotNull, honours_absIsNotNull, rfl,
    denote_revise_nullability integerEvaluation flagsComplete_absIsNotNull honours_absIsNotNull⟩

end Evaluation

end SqlGen
