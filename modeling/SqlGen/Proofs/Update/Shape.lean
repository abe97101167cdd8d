import Mathlib.Tactic.Common
import SqlGen.Update.Generator

/-!
# The shapes of a script

The statements of a change are its data modification and at most one query behind it.  There are
four shapes (`Generator.IsScript`): an insertion of which nothing is read, a modification that
returns rows itself, one whose columns are read back by a query and one that is counted by a command
of the dialect.  What holds of the statements of every change is shown for each shape.
-/

namespace SqlGen

/-- The data modification of a change. -/
def RowChange.modification (c : RowChange) (returned : Option (List String)) : Statement :=
  let values := c.written.map ColumnChange.assignment
  let conditions := c.conditions.map (ColumnChange.comparison true)
  match c.kind with
  | .added => .insert c.table values returned
  | .modified => .update c.table values conditions returned
  | .deleted => .delete c.table conditions returned

namespace Generator

/-- A second statement reads columns back. -/
def readsBack (g : Generator) (c : RowChange) : Bool :=
  !g.dialect.returning && c.kind != .deleted && !c.read.isEmpty

/-- The statements of a change and what they return. -/
inductive IsScript (g : Generator) (c : RowChange) (position : Nat) :
    List Statement × ResultSets → Prop where
  /-- Nothing is read. -/
  | silent : g.readsBack c = false → IsScript g c position ([c.modification none], .none)
  /-- The modification returns rows itself. -/
  | returning {columns : List String} :
      g.readsBack c = false → IsScript g c position ([c.modification (some columns)], .last)
  | selecting :
      g.readsBack c = true →
      IsScript g c position ([c.modification none, readBack c.table c.read c.keys], .last)
  | counting :
      g.readsBack c = false →
      IsScript g c position
        ([c.modification none, .count (g.countCommand c.table position).1],
          (g.countCommand c.table position).2)

/-- The script of a change is of one of the shapes. -/
theorem isScript_of_eq {g : Generator} {c : RowChange} {position : Nat}
    {script : List Statement × ResultSets} (h : g.script c position = script) :
    g.IsScript c position script := by
  subst h
  unfold Generator.script
  cases kind : c.kind with
  | added =>
      have modification (returned : Option (List String)) : c.modification returned =
          .insert c.table (c.written.map ColumnChange.assignment) returned := by
        rw [RowChange.modification, kind]
      simp only [insertScript, ← modification]
      split
      next nothing => exact .silent (by simp [readsBack, nothing])
      next something =>
        split
        next returning => exact .returning (by simp [readsBack, returning])
        next plain => exact .selecting (by simp [readsBack, kind, plain, something])
  | modified =>
      have modification (returned : Option (List String)) : c.modification returned =
          .update c.table (c.written.map ColumnChange.assignment)
            (c.conditions.map (ColumnChange.comparison true)) returned := by
        rw [RowChange.modification, kind]
      simp only [updateScript, ← modification]
      split
      next returning => exact .returning (by simp [readsBack, returning])
      next plain =>
        split
        next nothing => exact .counting (by simp [readsBack, nothing])
        next something => exact .selecting (by simp [readsBack, kind, plain, something])
  | deleted =>
      have modification (returned : Option (List String)) : c.modification returned =
          .delete c.table (c.conditions.map (ColumnChange.comparison true)) returned := by
        rw [RowChange.modification, kind]
      simp only [deleteScript, ← modification]
      -- Of a deleted row nothing is read back, whatever the roles of its columns.
      have kept : g.readsBack c = false := by simp [readsBack, kind]
      split
      next => exact .returning kept
      next => exact .counting kept

end Generator

end SqlGen
