import SqlGen.Pass.Nullability
import SqlGen.Pass.Substitution
import SqlGen.Proofs.Pass.Outcome

/-!
# Passes that do not fail

Two things refuse a node with new children: a call that has not one flag for each argument, and a
set operation of something else than selects.  A pass that leaves selects what they are runs into
neither on a tree whose calls have their flags (`Expr.revise_ok`).
-/

namespace SqlGen

/-- A pass that makes a select of a select. -/
structure Pass.KeepsSelects (p : Pass) : Prop where
  replace (q : Select Expr) : p.replace (.select q) = none
  finish (q : Select Expr) : ∃ q', (p.finish (.select q)).of (.select q) = .select q'

theorem Pass.keepsSelects_nullability : Pass.nullability.KeepsSelects where
  replace _ := rfl
  finish q := ⟨q, rfl⟩

theorem Pass.keepsSelects_inline (b : Builder) (values : Bindings) :
    (Pass.inline b values).KeepsSelects where
  replace _ := rfl
  finish q := ⟨q, rfl⟩

namespace Expr

theorem revise_of_replace {p : Pass} {e result : Expr} (h : p.replace e = some result) :
    e.revise p = .ok (.changed result []) := by
  rw [revise_eq, step, h]

/-- A pass that keeps selects does not fail on a tree whose calls have their flags. -/
theorem revise_ok {p : Pass} (keeps : p.KeepsSelects) {e : Expr} (flags : e.AllFlagsMatch) :
    ∃ r, e.revise p = .ok r ∧ ∀ q, e = .select q → ∃ q', r.of e = .select q' := by
  induction e using induction_children with
  | node e ih =>
      cases replaced : p.replace e with
      | some result =>
          refine ⟨_, revise_of_replace replaced, ?_⟩
          rintro q rfl
          rw [keeps.replace q] at replaced
          cases replaced
      | none =>
          have children (c : Expr) (mem : c ∈ e.children) : ∃ r, c.revise p = .ok r := by
            obtain ⟨r, revised, -⟩ := ih c mem (flags.child mem)
            exact ⟨r, revised⟩
          have selects (q : Select Expr) (mem : .select q ∈ e.children) :
              ∃ q', after p (.select q) = .select q' := by
            obtain ⟨r, revised, select⟩ := ih _ mem (flags.child mem)
            rw [after, outcome_of_revise revised]
            exact select q rfl
          obtain ⟨e', rebuilt⟩ := withSlots_ok (flags e .self) selects
          obtain ⟨r, revised, result⟩ :=
            revise_of_withSlots replaced (flags e .self) children rebuilt
          refine ⟨r, revised, ?_⟩
          rintro q rfl
          obtain rfl := Except.ok.inj rebuilt
          rw [result]
          exact keeps.finish _

theorem after_of_replace {p : Pass} {e result : Expr} (h : p.replace e = some result) :
    e.after p = result := by
  rw [after, outcome_of_revise (revise_of_replace h)]
  rfl

/-- A node after a pass that does not replace it is what its children after the pass give,
finished. -/
theorem exists_after {p : Pass} (keeps : p.KeepsSelects) {e : Expr} (flags : e.AllFlagsMatch)
    (inside : p.replace e = none) :
    ∃ e', e.withSlots (e.slots.map (after p)) = .ok e' ∧ e.after p = (p.finish e').of e' := by
  have children (c : Expr) (mem : c ∈ e.children) : ∃ r, c.revise p = .ok r := by
    obtain ⟨r, revised, -⟩ := revise_ok keeps (flags.child mem)
    exact ⟨r, revised⟩
  have selects (q : Select Expr) (mem : .select q ∈ e.children) :
      ∃ q', after p (.select q) = .select q' := by
    obtain ⟨r, revised, select⟩ := revise_ok keeps (flags.child mem)
    rw [after, outcome_of_revise revised]
    exact select q rfl
  obtain ⟨e', rebuilt⟩ := withSlots_ok (flags e .self) selects
  obtain ⟨r, revised, result⟩ := revise_of_withSlots inside (flags e .self) children rebuilt
  exact ⟨e', rebuilt, by rw [after, outcome_of_revise revised, result]⟩

end Expr

end SqlGen
