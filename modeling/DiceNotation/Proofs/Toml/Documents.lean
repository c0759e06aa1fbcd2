import DiceNotation.Proofs.Toml.Scalars
import DiceNotation.Toml.Document

/-! # Reading documents

What is read is put into tables, at whatever path, and never changed into something else.  So
the integers of a document that are not positive are those that were read (`parse_reportable`), and
a document that is not read because an integer is too long holds such an integer
(`hasLongInteger_of_parse`). -/

namespace DiceNotation.Toml

open Reader

/-- All numbers in a table are reportable. -/
def Entries.AreReportable (entries : Entries) : Prop := ∀ entry ∈ entries, entry.2.IsReportable

variable {text : List Char}

/-! ## Tables -/

namespace Entries

variable {entries changed : Entries} {key : String} {value : Value}

/-- No entries at all are reportable. -/
theorem AreReportable.nil : AreReportable [] := nofun

/-- Adding a reportable entry at the end keeps the entries reportable. -/
private theorem AreReportable.append_singleton (h : entries.AreReportable)
    (reportable : value.IsReportable) : AreReportable (entries ++ [(key, value)]) := by
  intro entry hentry
  rcases List.mem_append.mp hentry with old | new
  · exact h entry old
  · obtain rfl := List.mem_singleton.mp new
    exact reportable

/-- What is found among reportable entries is reportable. -/
theorem AreReportable.lookup (h : entries.AreReportable) (found : entries.lookup key = some value) :
    value.IsReportable := by
  induction entries with
  | nil => cases found
  | cons entry entries ih =>
    rw [List.lookup_cons] at found
    split at found
    · cases found
      exact h entry List.mem_cons_self
    · exact ih (fun entry hentry => h entry (List.mem_cons_of_mem _ hentry)) found

/-- Putting a reportable value under a key keeps the entries reportable. -/
private theorem AreReportable.put (h : entries.AreReportable) (reportable : value.IsReportable) :
    AreReportable (Entries.put key value entries) := by
  -- The entry is replaced where it stands or added at the end.
  induction entries with
  | nil =>
    rintro _ hentry
    obtain rfl := List.mem_singleton.mp hentry
    exact reportable
  | cons entry entries ih =>
    have others : AreReportable entries :=
      fun entry hentry => h entry (List.mem_cons_of_mem _ hentry)
    unfold Entries.put
    split
    · rintro _ (_ | ⟨_, hentry⟩)
      · exact reportable
      · exact others _ hentry
    · rintro _ (_ | ⟨_, hentry⟩)
      · exact h entry List.mem_cons_self
      · exact ih others _ hentry

/-- Adding a reportable value under a new key keeps the entries reportable. -/
private theorem AreReportable.add? (h : entries.AreReportable) (reportable : value.IsReportable)
    (added : Entries.add? key value entries = some changed) : changed.AreReportable := by
  unfold Entries.add? at added
  split at added
  · cases added
  · cases added
    exact h.append_singleton reportable

/-- Extending the table under a key keeps the entries reportable. -/
private theorem AreReportable.extend? (h : entries.AreReportable)
    (extended : Entries.extend? key entries = some changed) : changed.AreReportable := by
  have empty : (Value.table []).IsReportable := .table nofun
  unfold Entries.extend? at extended
  -- A new array is begun, or the one that is there gets another table.
  split at extended
  · cases extended
    refine h.append_singleton (.array ?_)
    rintro _ (_ | ⟨_, ⟨⟩⟩)
    exact empty
  · next items found =>
    cases extended
    refine h.put (.array ?_)
    cases h.lookup found with
    | array old =>
      intro item hitem
      -- The items that were there are reportable, and the new table is empty.
      rcases List.mem_append.mp hitem with former | new
      · exact old item former
      · obtain rfl := List.mem_singleton.mp new
        exact empty
  · cases extended

/-- A change that keeps numbers reportable does so at any path. -/
private theorem AreReportable.update? {throughArrays : Bool} {change : Entries → Option Entries}
    (keeps : ∀ table table' : Entries, table.AreReportable → change table = some table' →
      table'.AreReportable)
    {path : Path} (h : entries.AreReportable)
    (updated : Entries.update? throughArrays change path entries = some changed) :
    changed.AreReportable := by
  -- The path leads through tables, which are made where there are none, and through the last tables
  -- of arrays.
  induction path generalizing entries changed with
  | nil => exact keeps entries changed h updated
  | cons key path ih =>
    unfold Entries.update? at updated
    split at updated
    · obtain ⟨table, inner, rfl⟩ := Option.map_eq_some_iff.mp updated
      exact h.append_singleton (.table (ih .nil inner))
    · next table found =>
      obtain ⟨table', inner, rfl⟩ := Option.map_eq_some_iff.mp updated
      cases h.lookup found with
      | table old => exact h.put (.table (ih old inner))
    · next items found =>
      cases h.lookup found with
      | array old =>
        split at updated
        · next table last =>
          obtain ⟨table', inner, rfl⟩ := Option.map_eq_some_iff.mp updated
          cases old _ (List.mem_of_getLast? last) with
          | table lastOld =>
            refine h.put (.array ?_)
            intro item hitem
            rcases List.mem_append.mp hitem with former | new
            · exact old item (List.mem_of_mem_dropLast former)
            · obtain rfl := List.mem_singleton.mp new
              exact .table (ih lastOld inner)
        · cases updated
    · cases updated

end Entries

/-! ## Keys and values -/

/-- A part of a key is read from the front of the text. -/
private theorem reads_keyPart : Reads text keyPart fun _ => True := by
  -- A part of a key is quoted in one way or the other, or it is bare.
  apply (reads_accept _).bind
  intro _ rest _
  split
  · exact reads_basic false
  apply (reads_accept _).bind
  intro _ rest _
  split
  · exact reads_literal false
  apply (reads_takeWhile _).bind
  intro part rest _
  split
  · exact .fail
  · exact .pure trivial

/-- The parts behind the first one are read, however many there may be. -/
private theorem reads_keyTail (steps : Nat) : Reads text (keyTail steps) fun _ => True := by
  -- Nothing is taken unless a dot was read, so the recursion may stop anywhere.
  induction steps generalizing text with
  | zero => exact .pure trivial
  | succ steps ih =>
    apply reads_spaces.bind
    intro _ rest _
    apply (reads_accept _).bind
    intro _ rest _
    split
    · apply reads_spaces.bind
      intro _ rest _
      apply reads_keyPart.bind
      intro part rest _
      exact ih.bind fun _ _ _ => .pure trivial
    · exact .pure trivial

/-- A dotted key is read from the front of the text. -/
private theorem reads_key : Reads text key fun _ => True := by
  apply reads_keyPart.bind
  intro first rest _
  apply Reads.remaining_bind
  exact (reads_keyTail _).bind fun _ _ _ => .pure trivial

section

variable {inner : Reader Value} (h : ∀ rest, Reads rest inner Value.IsReportable)
include h

/-- A key with a value has a reportable value if the reader inside finds such values. -/
private theorem reads_keyValue : Reads text (keyValue inner) fun found => found.2.IsReportable := by
  apply reads_key.bind
  intro path rest _
  apply (reads_expect _).bind
  intro _ rest _
  apply reads_spaces.bind
  intro _ rest _
  exact (h rest).bind fun value _ reportable => .pure reportable

/-- The items of an array are reportable if the reader inside finds such values. -/
private theorem reads_itemsWithin (steps : Nat) :
    Reads text (itemsWithin inner steps) fun items => ∀ item ∈ items, item.IsReportable := by
  induction steps generalizing text with
  | zero => exact .fail
  | succ steps ih =>
    apply reads_layout.bind
    intro _ rest _
    apply (reads_accept _).bind
    intro _ rest _
    -- An array may end at once, behind an item, or behind the comma that follows an item.
    split
    · exact .pure nofun
    apply (h rest).bind
    intro item rest reportable
    apply reads_layout.bind
    intro _ rest _
    apply (reads_accept _).bind
    intro _ rest _
    split
    · -- The items behind the comma are read by the recursion.
      apply ih.bind
      intro items rest others
      exact .pure (List.forall_mem_cons.mpr ⟨reportable, others⟩)
    · apply (reads_expect _).bind
      intro _ rest _
      exact .pure (List.forall_mem_singleton.mpr reportable)

/-- Reading on in an inline table keeps its entries reportable. -/
private theorem reads_inlineWithin (steps : Nat) (marks : Marks) {entries : Entries}
    (before : entries.AreReportable) :
    Reads text (inlineWithin inner steps marks entries) Entries.AreReportable := by
  -- The entries read so far are carried along and stay reportable.
  induction steps generalizing text marks entries with
  | zero => exact .fail
  | succ steps ih =>
    apply (reads_keyValue h).bind
    rintro ⟨path, value⟩ rest reportable
    dsimp only
    split
    · exact .fail_bind
    split
    · exact .fail
    · next changed updated =>
      -- The value that was read is reportable, and so is each one that was there.
      have after : changed.AreReportable :=
        before.update? (fun _ _ table added => table.add? reportable added) updated
      apply reads_spaces.bind
      intro _ rest _
      apply (reads_accept _).bind
      intro _ rest _
      split
      · exact .pure after
      apply (reads_expect _).bind
      intro _ rest _
      apply reads_spaces.bind
      intro _ rest _
      exact ih _ after

/-- The entries of an inline table are reportable if the reader inside finds such values. -/
private theorem reads_inlineTable : Reads text (inlineTable inner) Entries.AreReportable := by
  apply reads_spaces.bind
  intro _ rest _
  apply (reads_accept _).bind
  intro _ rest _
  split
  · exact .pure .nil
  · exact .remaining_bind (reads_inlineWithin h _ _ .nil)

/-- A value is reportable if the reader inside finds such values. -/
private theorem reads_value : Reads text (value inner) Value.IsReportable := by
  -- The kinds of values are tried in turn; what is none of them is malformed.
  apply reads_string?.bind
  intro found rest _
  cases found with
  | some s => exact .pure .string
  | none =>
    apply (reads_accept _).bind
    intro _ rest _
    split
    · exact .pure .boolean
    apply (reads_accept _).bind
    intro _ rest _
    split
    · exact .pure .boolean
    apply (reads_accept _).bind
    intro _ rest _
    split
    · apply Reads.remaining_bind
      -- Items and entries are values one level further down.
      exact (reads_itemsWithin h _).bind fun items rest reportable => .pure (.array reportable)
    apply (reads_accept _).bind
    intro _ rest _
    split
    · exact (reads_inlineTable h).bind fun entries rest reportable => .pure (.table reportable)
    apply reads_dateTime?.bind
    intro found rest reportable
    cases found with
    | some v => exact .pure (reportable v rfl)
    | none =>
      apply reads_number?.bind
      intro found rest reportable
      cases found with
      | some n => exact .pure (.number (reportable n rfl))
      | none =>
        apply reads_special?.bind
        intro found rest reportable
        cases found with
        | some n => exact .pure (.number (reportable n rfl))
        | none => exact .fail

end

/-- Every value is reportable, by induction on how deep values are nested. -/
private theorem reads_valueWithin (levels : Nat) :
    Reads text (valueWithin levels) Value.IsReportable := by
  induction levels generalizing text with
  | zero => exact .fail
  | succ levels ih => exact reads_value fun _ => ih

/-! ## Statements -/

namespace Document

/-- All numbers in the document are reportable. -/
def IsReportable (document : Document) : Prop := document.entries.AreReportable

variable {document : Document}

/-- A document is reportable if the entries it is given are. -/
private theorem reads_withEntries {changed : Option Entries}
    (h : ∀ entries ∈ changed, entries.AreReportable) :
    Reads text (document.withEntries changed) IsReportable := by
  cases changed with
  | none => exact .fail
  | some entries => exact .pure (h entries rfl)

/-- The header of a table keeps the document reportable. -/
private theorem reads_table (h : document.IsReportable) :
    Reads text document.table IsReportable := by
  apply reads_spaces.bind
  intro _ rest _
  apply reads_key.bind
  intro path rest _
  split
  · exact .fail_bind
  -- A header only opens a table and stores no value.
  have changed : ∀ entries ∈ document.entries.update? true some path, entries.AreReportable := by
    intro entries updated
    refine Entries.AreReportable.update? ?_ h updated
    rintro _ _ table ⟨⟩
    exact table
  apply (reads_withEntries changed).bind
  intro document' rest reportable
  exact (reads_expect _).bind fun _ _ _ => .pure reportable

/-- The header of an array of tables keeps the document reportable. -/
private theorem reads_arrayTable (h : document.IsReportable) :
    Reads text document.arrayTable IsReportable := by
  apply reads_spaces.bind
  intro _ rest _
  apply reads_key.bind
  intro path rest _
  split
  · exact .fail_bind
  -- The array that the header names gets an empty table.
  have changed : ∀ entries ∈ document.entries.update? true
      (Entries.extend? (path.getLastD "")) path.dropLast, entries.AreReportable :=
    fun entries updated => h.update? (fun _ _ table extended => table.extend? extended) updated
  apply (reads_withEntries changed).bind
  intro document' rest reportable
  exact (reads_expect _).bind fun _ _ _ => .pure reportable

/-- An entry keeps the document reportable. -/
private theorem reads_entry (h : document.IsReportable) :
    Reads text document.entry IsReportable := by
  apply Reads.remaining_bind
  apply (reads_keyValue fun _ => reads_valueWithin _).bind
  rintro ⟨path, value⟩ rest reportable
  dsimp only
  split
  · exact .fail_bind
  split
  · exact .fail_bind
  -- The value is added to the table of the last header.
  have changed : ∀ entries ∈ document.entries.update? true
      (Entries.add? (path.getLastD "") value) (document.header ++ path.dropLast),
      entries.AreReportable :=
    fun entries updated => h.update? (fun _ _ table added => table.add? reportable added) updated
  apply (reads_withEntries changed).bind
  intro document' rest reportable'
  exact .pure reportable'

/-- Each statement keeps the document reportable. -/
private theorem reads_statement (h : document.IsReportable) :
    Reads text document.statement IsReportable := by
  -- The double bracket is tried before the single one.
  apply (reads_accept _).bind
  intro _ rest _
  split
  · exact reads_arrayTable h
  apply (reads_accept _).bind
  intro _ rest _
  split
  · exact reads_table h
  apply Reads.peek_bind
  split
  · exact .pure h
  · split
    · exact .pure h
    · exact reads_entry h

/-- Reading on line by line keeps the document reportable. -/
private theorem reads_linesWithin (steps : Nat) (h : document.IsReportable) :
    Reads text (linesWithin steps document) IsReportable := by
  -- Each line leaves a reportable document for the next one.
  induction steps generalizing text document with
  | zero => exact .fail
  | succ steps ih =>
    apply reads_spaces.bind
    intro _ rest _
    apply (reads_statement h).bind
    intro document' rest reportable
    apply reads_spaces.bind
    intro _ rest _
    apply reads_comment.bind
    intro _ rest _
    apply Reads.peek_bind
    split
    · exact .pure reportable
    apply (reads_expect _).bind
    intro _ rest _
    exact ih reportable

end Document

/-! ## Whole documents -/

section

variable {text : String}

/-- Reading all lines of a text gives a reportable document. -/
private theorem reads_lines (text : String) : Reads text.toList
    (Document.linesWithin (text.toList.length + 1) .empty) Document.IsReportable :=
  Document.reads_linesWithin _ Entries.AreReportable.nil

/-- A text is parsed by reading its lines into an empty document. -/
theorem parse_eq (text : String) : parse text =
    (Document.linesWithin (text.toList.length + 1) .empty text.toList).map fun result =>
      result.1.entries := rfl

/-- An integer of a document that is not positive can be written. -/
theorem parse_reportable {entries : Entries} (h : parse text = .ok entries) :
    entries.AreReportable := by
  have met := (reads_lines text).met
  rw [parse_eq] at h
  revert met h
  cases Document.linesWithin (text.toList.length + 1) .empty text.toList with
  | ok found =>
    rintro ⟨⟩ met
    exact met.2
  | error e => nofun

/-- If an integer of a document is too long, it stands in the text. -/
theorem hasLongInteger_of_parse (h : parse text = .error .tooManyDigits) :
    HasLongInteger text.toList := by
  have met := (reads_lines text).met
  rw [parse_eq] at h
  revert met h
  cases Document.linesWithin (text.toList.length + 1) .empty text.toList with
  | ok found => nofun
  | error e =>
    rintro ⟨⟩ met
    exact met

end

end DiceNotation.Toml
