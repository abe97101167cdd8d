import SqlGen.Pass.Substitution
import SqlGen.Proofs.Pass.Nullability
import SqlGen.Proofs.Pass.Stable

/-!
# The flags of obtainable calls

`Expr.Obtainable` says which trees can be built from nothing: nodes over obtainable children, calls
with a flag for each argument, calls without an argument list, and what the operations on calls
and updates make of such trees.

A call that loses its argument list keeps its flags.  That is the one step from a call with as many
flags as arguments to one with more, so `removable` says which calls may lose their lists.  Every
obtainable call has a flag for each argument exactly if the removable ones have no flags
(`Expr.flagsComplete_obtainable_iff`).  Visits and passes take no list away.
-/

namespace SqlGen

namespace Expr

/-! ## Obtainable trees -/

def isCall : Expr → Bool
  | .call .. | .niladic _ => true
  | _ => false

/-- A call of the function with that name in a schema. -/
def withSchema (schema : String) : Expr → Expr
  | .call f args => .call { f with schema := some schema } args
  | .niladic f => .niladic { f with schema := some schema }
  | e => e

/-- Trees that can be built, where only calls of removable functions lose their argument list. -/
inductive Obtainable (removable : Function → Prop) : Expr → Prop where
  /-- Any other node than a call. -/
  | node {e : Expr} (other : e.isCall = false)
      (children : ∀ c ∈ e.children, Obtainable removable c) : Obtainable removable e
  | call {f : Function} {args : List Expr} {e : Expr} (schema : f.schema = none)
      (arguments : ∀ a ∈ args, Obtainable removable a) (made : call? f args = .ok e) :
      Obtainable removable e
  | niladic {f : Function} (schema : f.schema = none) (flags : f.propagates = []) :
      Obtainable removable (.niladic f)
  | withSchema {e : Expr} (schema : String) (before : Obtainable removable e) :
      Obtainable removable (e.withSchema schema)
  | withNullability {e : Expr} (nullable : Bool) (before : Obtainable removable e) :
      Obtainable removable ((e.withNullability nullable).of e)
  | update {e : Expr} {parts : Slots Part e.shape} {r : Revision}
      (before : Obtainable removable e)
      (children : ∀ p ∈ parts.toList, Obtainable removable p.expr)
      (updated : e.update parts = .ok r)
      (removal : ∀ f args, e = .call f args → r.of e = .niladic f → removable f) :
      Obtainable removable (r.of e)

theorem children_withSchema (schema : String) (e : Expr) :
    (e.withSchema schema).children = e.children := by
  cases e <;> rfl

theorem of_withNullability_call (nullable : Bool) (f : Function) (args : List Expr) :
    ((Expr.call f args).withNullability nullable).of (.call f args) =
      .call { f with nullable } args := by
  by_cases same : f.nullable = nullable
  · subst same
    simp [withNullability]
  · simp [withNullability, same]

theorem of_withNullability_niladic (nullable : Bool) (f : Function) :
    ((Expr.niladic f).withNullability nullable).of (.niladic f) = .niladic { f with nullable } := by
  by_cases same : f.nullable = nullable
  · subst same
    simp [withNullability]
  · simp [withNullability, same]

theorem children_withNullability (nullable : Bool) (e : Expr) :
    ((e.withNullability nullable).of e).children = e.children := by
  cases e with
  | call f args => rw [of_withNullability_call]; rfl
  | niladic f => rw [of_withNullability_niladic]; rfl
  | _ => rfl

theorem call?_eq_ok {f : Function} {args : List Expr} {e : Expr} (made : call? f args = .ok e) :
    args.length = f.propagates.length ∧ e = .call f args := by
  unfold call? at made
  split at made
  next length => exact ⟨length, (Except.ok.inj made).symm⟩
  next => cases made

namespace Obtainable

variable {removable : Function → Prop}

theorem child {e c : Expr} (h : Obtainable removable e) (mem : c ∈ e.children) :
    Obtainable removable c := by
  induction h generalizing c with
  | node _ children => exact children c mem
  | call _ arguments made =>
      obtain ⟨-, rfl⟩ := call?_eq_ok made
      exact arguments c mem
  | niladic => cases mem
  | withSchema schema _ ih => exact ih (children_withSchema schema _ ▸ mem)
  | withNullability nullable _ ih => exact ih (children_withNullability nullable _ ▸ mem)
  | update _ children updated _ ih =>
      rcases mem_children_of_update updated mem with mem | ⟨p, offered, rfl⟩
      · exact ih mem
      · exact children p offered

/-- Other children in the same places take no argument list away. -/
theorem stable : Stable (Obtainable removable) where
  child h mem := h.child mem
  rebuild {e e' x} h rebuilt places children := by
    let parts := x.map fun c => (⟨c, none⟩ : Part)
    have exprs : parts.map Part.expr = x := by rw [Slots.map_map, Slots.map_id]
    have isNew (p : Part) (mem : p ∈ parts.toList) : ∃ c ∈ x.toList, p = ⟨c, none⟩ := by
      rw [Slots.toList_map] at mem
      obtain ⟨c, child, rfl⟩ := List.mem_map.mp mem
      exact ⟨c, child, rfl⟩
    by_cases held : e.holds parts e.positions = true
    · have inMemory (p : Part) (mem : p ∈ parts.toList) : p.IsIn e.childAt := by
        obtain ⟨c, -, rfl⟩ := isNew p mem
        intro a address
        cases address
      -- Nothing is new, so the node has no children.
      rw [map_expr_of_holds e.map_childAt_positions inMemory held] at exprs
      obtain ⟨own, arranged⟩ := own_of_withSlots rebuilt
      rw [← exprs] at arranged
      rwa [eq_of_own_eq own arranged]
    · have updated : e.update parts = .ok (.changed e' (sharedParts parts e.positions)) := by
        rw [Expr.update, if_neg held, exprs, rebuilt]
        rfl
      refine Obtainable.update h (fun p mem => ?_) updated ?_
      · obtain ⟨c, child, rfl⟩ := isNew p mem
        exact children c child
      · rintro f args rfl rfl
        cases head_of_withSlots rebuilt places

end Obtainable

/-! ## Flags -/

/-- Flags and arguments that are counted in the head of a node. -/
theorem HasFlags.congr {e e' : Expr} (head : e.head = e'.head) (h : e.HasFlags) : e'.HasFlags := by
  cases e with
  | call f args =>
      cases e' with
      | call f' args' =>
          obtain ⟨rfl, blanks⟩ := Expr.call.inj head
          have length : args.length = args'.length := by simpa using congrArg List.length blanks
          exact length.symm.trans h
      | _ => cases head
  | niladic f =>
      cases e' with
      | niladic f' =>
          obtain rfl := Expr.niladic.inj head
          exact h
      | _ => cases head
  | _ => cases e' <;> trivial

theorem HasFlags.of_not_isCall {e : Expr} (h : e.isCall = false) : e.HasFlags := by
  cases e with
  | call f args | niladic f => cases h
  | _ => trivial

/-- With other children a node has its flags, unless a call with flags loses its argument list. -/
theorem HasFlags.withSlots {e e' : Expr} {x : Slots Expr e.shape} (h : e.HasFlags)
    (rebuilt : e.withSlots x = .ok e')
    (removal : ∀ f args, e = .call f args → e' = .niladic f → f.propagates = []) :
    e'.HasFlags := by
  have own := (own_of_withSlots rebuilt).1
  cases e with
  | call f args =>
      cases x with
      | arguments list =>
          cases list with
          | none =>
              obtain rfl := Except.ok.inj rebuilt
              exact removal f args rfl rfl
          | some args' =>
              obtain ⟨length, rfl⟩ := call?_eq_ok rebuilt
              exact length
  | niladic f =>
      cases x with
      | arguments list =>
          cases list with
          | none =>
              obtain rfl := Except.ok.inj rebuilt
              exact h
          | some args' =>
              obtain ⟨length, rfl⟩ := call?_eq_ok rebuilt
              exact length
  | _ => cases e' <;> trivial

/-- A property of single nodes holds everywhere in an obtainable tree, if the nodes that the
constructors make have it and every operation keeps it. -/
theorem Obtainable.forall_within {removable : Function → Prop} {Q : Expr → Prop}
    (node : ∀ e : Expr, e.isCall = false → Q e)
    (call : ∀ f args, args.length = f.propagates.length → Q (.call f args))
    (niladic : ∀ f, f.propagates = [] → Q (.niladic f))
    (schema : ∀ s e, Q e → Q (e.withSchema s))
    (nullability : ∀ b e, Q e → Q ((e.withNullability b).of e))
    (rebuilt : ∀ (e e' : Expr) (x : Slots Expr e.shape), Q e → e.withSlots x = .ok e' →
      (∀ f args, e = .call f args → e' = .niladic f → removable f) → Q e')
    {e : Expr} (h : Obtainable removable e) : ∀ x : Expr, x.Within e → Q x := by
  induction h with
  | node other _ ih => exact Expr.forall_within (node _ other) ih
  | call _ _ made ih =>
      obtain ⟨length, rfl⟩ := call?_eq_ok made
      exact Expr.forall_within (call _ _ length) ih
  | niladic _ flags => exact Expr.forall_within (niladic _ flags) fun _ mem => nomatch mem
  | @withSchema e s _ ih =>
      refine Expr.forall_within (schema s e (ih e .self)) fun c mem x below => ?_
      exact ih x (.child (children_withSchema s e ▸ mem) below)
  | @withNullability e b _ ih =>
      refine Expr.forall_within (nullability b e (ih e .self)) fun c mem x below => ?_
      exact ih x (.child (children_withNullability b e ▸ mem) below)
  | update _ _ updated removal ih children =>
      refine Expr.forall_within ?_ fun c mem x below => ?_
      · obtain ⟨-, rfl⟩ | ⟨e', made, rfl⟩ := update_cases updated
        · exact ih _ .self
        · exact rebuilt _ _ _ (ih _ .self) made removal
      · rcases mem_children_of_update updated mem with mem | ⟨p, offered, rfl⟩
        · exact ih x (.child mem below)
        · exact children p offered x below

/-- Calls have their flags if only calls without flags lose their argument lists. -/
theorem Obtainable.flagsComplete {removable : Function → Prop}
    (noFlags : ∀ f, removable f → f.propagates = []) {e : Expr} (h : Obtainable removable e) :
    e.FlagsComplete := by
  refine h.forall_within (fun _ => .of_not_isCall) (fun _ _ length => length)
    (fun _ flags => flags) (fun s e flags => ?schema) (fun b e flags => ?nullability)
    fun e e' x flags rebuilt removal => ?rebuilt
  case schema => cases e <;> exact flags
  case nullability =>
    cases e with
    | call f args => rwa [of_withNullability_call]
    | niladic f => rwa [of_withNullability_niladic]
    | _ => trivial
  case rebuilt =>
    exact flags.withSlots rebuilt fun f args call lost => noFlags f (removal f args call lost)

/-- There is a call of every function, with as many arguments as the function has flags. -/
theorem Obtainable.exists_call (removable : Function → Prop) (f : Function) :
    ∃ args, Obtainable removable (.call f args) := by
  obtain ⟨name, schema, nullable, propagates, typing⟩ := f
  let args := List.replicate propagates.length blank
  have unqualified :
      Obtainable removable (.call ⟨name, none, nullable, propagates, typing⟩ args) := by
    refine .call rfl (fun a mem => ?_) (if_pos List.length_replicate)
    obtain rfl := List.eq_of_mem_replicate mem
    exact .node rfl fun _ mem => nomatch mem
  cases schema with
  | none => exact ⟨args, unqualified⟩
  | some schema => exact ⟨args, unqualified.withSchema schema⟩

/-- A call that loses its argument list keeps its flags. -/
theorem Obtainable.removed {removable : Function → Prop} {f : Function} (removes : removable f) :
    Obtainable removable (.niladic f) := by
  obtain ⟨args, call⟩ := exists_call removable f
  have updated : (Expr.call f args).update (.arguments none) = .ok (.changed (.niladic f) []) := rfl
  refine Obtainable.update call (fun _ mem => by cases mem) updated fun f' args' same lost => ?_
  obtain rfl := Expr.niladic.inj lost
  exact removes

/-! ## Passes -/

section Passes

variable {removable : Function → Prop}

theorem Obtainable.constant (removable : Function → Prop) (v : Value) (t : Typing) :
    Obtainable removable (.constant v t) := .node rfl fun _ mem => nomatch mem

theorem keeps_nullability : Pass.nullability.Keeps (Obtainable removable) :=
  Pass.keeps_nullability (.constant removable .null) (fun b => .constant removable (.boolean b))
    fun _ h => h.withNullability false

theorem keeps_inline (b : Builder) (values : Bindings) :
    (Pass.inline b values).Keeps (Obtainable removable) where
  replace {e result} _ replaced := by
    cases e with
    | parameter name t nullable =>
        obtain ⟨v, -, rfl⟩ := Option.map_eq_some_iff.mp replaced
        exact .constant removable _ _
    | _ => cases replaced
  finish h := h

theorem keeps_substitute (target : Expr) {replacement : Expr}
    (h : Obtainable removable replacement) :
    (Pass.substitute target replacement).Keeps (Obtainable removable) where
  replace {e result} _ replaced := by
    simp only [Pass.substitute] at replaced
    split at replaced
    next =>
      obtain rfl := Option.some.inj replaced
      exact h
    next => cases replaced
  finish h := h

end Passes

/-- Every call of an obtainable tree has one flag for each argument, exactly if the calls that may
lose their argument lists have no flags.

Visits and passes lose no list: what they make of an obtainable tree is obtainable, if what they do
to one node is.  That is so of the simplification by nullability and of the passes that put values
or other trees in place. -/
theorem flagsComplete_obtainable_iff (removable : Function → Prop) :
    ((∀ e, Obtainable removable e → e.FlagsComplete) ↔
      ∀ f, removable f → f.propagates = []) ∧
    (∀ {σ : Type} {visitor : Expr → StateT σ (Except Violation) Revision},
      (∀ c s r s', Obtainable removable c → visitor c s = .ok (r, s') →
        Obtainable removable (r.of c)) →
      ∀ e s r s', Obtainable removable e → e.visitChildren visitor s = .ok (r, s') →
        Obtainable removable (r.of e)) ∧
    (∀ p : Pass, p.Keeps (Obtainable removable) → ∀ e r, Obtainable removable e →
      e.revise p = .ok r → Obtainable removable (r.of e)) ∧
    Pass.nullability.Keeps (Obtainable removable) ∧
    (∀ b values, (Pass.inline b values).Keeps (Obtainable removable)) ∧
    ∀ target replacement, Obtainable removable replacement →
      (Pass.substitute target replacement).Keeps (Obtainable removable) := by
  refine ⟨⟨fun complete f removes => ?_, fun noFlags e h => h.flagsComplete noFlags⟩, ?_, ?_,
    keeps_nullability, keeps_inline, fun target _ h => keeps_substitute target h⟩
  · exact complete _ (.removed removes) _ .self
  · intro σ visitor keeps e s r s' h visited
    exact Obtainable.stable.visitChildren keeps h visited
  · intro p keeps e r h revised
    exact Obtainable.stable.revise keeps h revised

/-! ## An absolute value -/

/-- The absolute value, which is NULL if its argument is. -/
def absolute (nullable : Bool) : Function := ⟨"abs", none, nullable, [true], ⟨.int64, none⟩⟩

/-- The absolute value of a random number. -/
def absOfRandom (nullable : Bool) : Expr :=
  .call (absolute nullable) [.niladic ⟨"random", none, false, [], ⟨.int64, none⟩⟩]

theorem obtainable_absOfRandom :
    Obtainable (fun f => f.propagates = []) (absOfRandom true) := by
  have made : call? (absolute true) [.niladic ⟨"random", none, false, [], ⟨.int64, none⟩⟩] =
      .ok (absOfRandom true) := rfl
  refine .call rfl (fun a mem => ?_) made
  obtain rfl := List.mem_singleton.mp mem
  exact .niladic rfl rfl

/-- The simplification of the call, which is never NULL, has its flags. -/
theorem flagsComplete_revise_absOfRandom :
    Obtainable (fun f => f.propagates = []) (absOfRandom true) ∧
      Pass.nullability.Keeps (Obtainable fun f => f.propagates = []) ∧
      (absOfRandom true).revise .nullability = .ok (.changed (absOfRandom false) [true]) ∧
      (absOfRandom false).FlagsComplete := by
  obtain ⟨complete, -, passes, keeps, -⟩ :=
    flagsComplete_obtainable_iff fun f => f.propagates = []
  have revised : (absOfRandom true).revise .nullability =
      .ok (.changed (absOfRandom false) [true]) := rfl
  have after := passes .nullability keeps _ _ obtainable_absOfRandom revised
  exact ⟨obtainable_absOfRandom, keeps, revised,
    complete.mpr (fun _ flags => flags) _ after⟩

/-- Without its argument list, the call of a column has a flag and no argument. -/
theorem not_hasFlags_absWithoutArguments :
    call? (absolute true) [.column "Id" "t" ⟨.int64, none⟩ false] =
        .ok (.call (absolute true) [.column "Id" "t" ⟨.int64, none⟩ false]) ∧
      (Expr.call (absolute true) [.column "Id" "t" ⟨.int64, none⟩ false]).update
        (.arguments none) = .ok (.changed (.niladic (absolute true)) []) ∧
      Obtainable (fun _ => True) (.niladic (absolute true)) ∧
      (Expr.niladic (absolute true)).arguments.length = 0 ∧
      (absolute true).propagates.length = 1 ∧ ¬ (Expr.niladic (absolute true)).HasFlags :=
  ⟨rfl, rfl, .removed trivial, rfl, rfl, fun flags => nomatch flags⟩

end Expr

end SqlGen
