import DiceNotation.Evaluation.Functions

/-! # Merging tables of functions

Merging puts the functions of one table over those of another one, and makes a new table of them.
`FunctionTable.History` is all tables that were made so far.  Further merges of any of them only add
to it (`made_prefix`), so whoever looks up a name in one of them finds what was found before. -/

namespace DiceNotation

namespace FunctionTable

/-- All tables that were made so far, the first one first. -/
abbrev History := List FunctionTable

/-- A merge of the table that was made at this place. -/
structure Merge where
  place : Nat
  /-- The functions that are put over those of the table. -/
  given : Option FunctionTable

namespace History

/-- A merge makes a table.  Without a table at its place it makes none. -/
def make (history : History) (merge : Merge) : History :=
  history ++ (history[merge.place]?.map fun table => table.overridden merge.given).toList

/-- All merges are made, one after the other. -/
def makeAll (history : History) (merges : List Merge) : History := merges.foldl make history

/-- What was made is left as it is. -/
theorem made_prefix (history : History) (merges : List Merge) :
    history <+: history.makeAll merges := by
  induction merges generalizing history with
  | nil => exact List.prefix_rfl
  | cons merge merges ih => exact (List.prefix_append _ _).trans (ih (history.make merge))

end History

/-- Merging is associative, with the names in their order, and tables without functions change
    nothing.  A name is looked up first among the functions that were put over the others.  The
    names keep their places, and the new ones come last.  No merge changes a table that is there. -/
theorem merge_laws (a b c : FunctionTable) :
    (a.merge b).merge c = a.merge (b.merge c) ∧
    a.overridden none = a ∧ a.merge .empty = a ∧ OrderedMap.empty.merge a = a ∧
    (∀ name, (a.merge b).get? name = (b.get? name).or (a.get? name)) ∧
    (∀ name, (a.merge b).get? name = none ↔ name ∉ a.keys ∧ name ∉ b.keys) ∧
    (a.merge b).keys = a.keys ++ b.keys.filter (· ∉ a.keys) ∧
    (∀ tables : List FunctionTable,
      tables.foldl OrderedMap.merge a = a.merge (tables.foldl OrderedMap.merge .empty)) ∧
    ∀ (history : History) (merges : List Merge), history <+: history.makeAll merges := by
  refine ⟨OrderedMap.merge_assoc a b c, a.merge_empty, a.merge_empty, OrderedMap.empty_merge a,
    OrderedMap.get?_merge a b, fun name => ?_, OrderedMap.keys_merge a b,
    OrderedMap.foldl_merge a, History.made_prefix⟩
  rw [OrderedMap.get?_eq_none_iff, OrderedMap.mem_keys_merge, not_or]

end FunctionTable

end DiceNotation
