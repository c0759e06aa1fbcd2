import DiceNotation.Number.Numeral
import DiceNotation.Toml.Reader
import Mathlib.Data.List.TakeDrop

/-! # Contracts of reading steps

A step reads from the front of a text: what it leaves is an end of the text.  It fails for one of
two reasons, and only a run of more decimal digits than are read is one of them
(`HasLongInteger`).  `Reads text step post` says so of a step that starts at `text`, and that what
it finds is as `post` says.

There is a rule for each way to compose steps and for each primitive step, so that a reading
function is followed from its first line to its last. -/

namespace DiceNotation.Toml

open DiceNotation.Numeral (maxDigits)

/-- There is a run of digits, which may have underscores between them, with more digits than are
    read. -/
def HasLongInteger (text : List Char) : Prop :=
  ∃ run, run <:+: text ∧ (∀ c ∈ run, c.isDigit ∨ c = '_') ∧ maxDigits < run.countP Char.isDigit

/-- A long integer at the end of a text is one in the text. -/
private theorem HasLongInteger.of_suffix {text rest : List Char} (h : HasLongInteger rest)
    (behind : rest <:+ text) : HasLongInteger text := by
  obtain ⟨run, inside, digits, long⟩ := h
  exact ⟨run, inside.trans behind.isInfix, digits, long⟩

/-- The step reads from the front of the text and finds something as `post` says, or it fails; if it
    does so because of an integer that is too long, there is one in the text. -/
structure Reads {α : Type} (text : List Char) (step : Reader α) (post : α → Prop) : Prop where
  met : match step text with
    | .ok (a, rest) => rest <:+ text ∧ post a
    | .error .malformed => True
    | .error .tooManyDigits => HasLongInteger text

namespace Reads

variable {α β : Type} {text rest : List Char} {step : Reader α} {post : α → Prop}
  {post' : β → Prop}

/-! ## Composing steps -/

/-- Returning a value reads nothing. -/
theorem pure {a : α} (h : post a) : Reads text (Pure.pure a) post :=
  ⟨⟨List.suffix_refl _, h⟩⟩

/-- Failing meets any condition. -/
theorem fail : Reads text (Reader.fail : Reader α) post := ⟨trivial⟩

/-- A second step that reads on from where the first one stopped reads from the text as well. -/
theorem bind {next : α → Reader β} (h : Reads text step post)
    (hnext : ∀ a rest, post a → Reads rest (next a) post') :
    Reads text (step >>= next) post' := by
  have met := h.met
  have ran : (step >>= next) text = (step text).bind fun found => next found.1 found.2 := rfl
  constructor
  rw [ran]
  revert met
  -- What the second step leaves is a suffix of what the first one left, and so of the text; a long
  -- integer in it is one of the text.
  cases step text with
  | error e => cases e <;> exact id
  | ok found =>
    obtain ⟨a, rest⟩ := found
    rintro ⟨behind, found⟩
    have met' := (hnext a rest found).met
    show match next a rest with
      | .ok (a, rest) => rest <:+ text ∧ post' a
      | .error .malformed => True
      | .error .tooManyDigits => HasLongInteger text
    revert met'
    cases next a rest with
    | ok found' => exact fun met' => ⟨met'.1.trans behind, met'.2⟩
    | error e =>
      cases e with
      | malformed => exact id
      | tooManyDigits => exact fun long => long.of_suffix behind

/-- Nothing is read after a failure. -/
theorem fail_bind {next : α → Reader β} : Reads text (Reader.fail >>= next) post' := ⟨trivial⟩

/-! ## Primitive steps -/

/-- Looking at the text reads nothing. -/
theorem get_bind {next : List Char → Reader β} (h : Reads text (next text) post') :
    Reads text (get >>= next) post' :=
  ⟨h.met⟩

/-- Looking at the next character reads nothing. -/
theorem peek_bind {next : Option Char → Reader β} (h : Reads text (next text.head?) post') :
    Reads text (Reader.peek >>= next) post' :=
  ⟨h.met⟩

/-- Asking how much is left reads nothing. -/
theorem remaining_bind {next : Nat → Reader β} (h : Reads text (next text.length) post') :
    Reads text (Reader.remaining >>= next) post' :=
  ⟨h.met⟩

/-- Reading can go on from any later place in the text. -/
theorem set_bind {next : PUnit → Reader β} (behind : rest <:+ text)
    (h : Reads rest (next ⟨⟩) post') : Reads text (MonadStateOf.set rest >>= next) post' := by
  have met := h.met
  have ran : (MonadStateOf.set rest >>= next : Reader β) text = next ⟨⟩ rest := rfl
  constructor
  rw [ran]
  revert met
  cases next ⟨⟩ rest with
  | ok found => exact fun met => ⟨met.1.trans behind, met.2⟩
  | error e =>
    cases e with
    | malformed => exact id
    | tooManyDigits => exact fun long => long.of_suffix behind

end Reads

open Reader

section

variable {text : List Char}

/-- Taking characters reads from the front of the text. -/
theorem reads_takeWhile (p : Char → Bool) :
    Reads text (takeWhile p) fun _ => True := by
  unfold takeWhile
  apply Reads.get_bind
  rw [List.span_eq_takeWhile_dropWhile]
  exact .set_bind (List.dropWhile_suffix p) (.pure trivial)

/-- Skipping characters reads from the front of the text. -/
theorem reads_skipWhile (p : Char → Bool) :
    Reads text (skipWhile p) fun _ => True :=
  (reads_takeWhile p).bind fun _ _ _ => .pure trivial

/-- Accepting an expected text reads it or nothing. -/
theorem reads_accept (expected : String) : Reads text (accept expected) fun _ => True := by
  unfold accept
  apply Reads.get_bind
  split
  · exact .set_bind (List.drop_suffix _ _) (.pure trivial)
  · exact .pure trivial

/-- Accepting one of several expected texts reads it or nothing. -/
theorem reads_acceptAny (expected : List String) :
    Reads text (acceptAny expected) fun _ => True := by
  induction expected generalizing text with
  | nil => exact .pure trivial
  | cons first others ih =>
    apply (reads_accept first).bind
    intro accepted rest _
    split
    · exact .pure trivial
    · exact ih

/-- Expecting a text reads it or fails. -/
theorem reads_expect (expected : String) : Reads text (expect expected) fun _ => True := by
  apply (reads_accept expected).bind
  intro accepted rest _
  split
  · exact .fail
  · exact .pure trivial

/-- What a function finds at the front of the text is read, if it finds anything. -/
theorem attempt_eq {α : Type} (find : List Char → Option (α × List Char)) (text : List Char) :
    attempt find text = .ok (match find text with
      | none => (none, text)
      | some (a, rest) => (some a, rest)) := by
  unfold attempt
  simp only [bind, StateT.bind, get, getThe, MonadStateOf.get, StateT.get, Except.bind, pure,
    Except.pure]
  cases find text <;> rfl

/-- An attempt reads what was found, or fails. -/
theorem reads_attempt {α : Type} {find : List Char → Option (α × List Char)}
    (shorter : ∀ a rest, find text = some (a, rest) → rest <:+ text) :
    Reads text (attempt find) fun _ => True := by
  constructor
  rw [attempt_eq]
  cases found : find text with
  | none => exact ⟨List.suffix_refl _, trivial⟩
  | some result => exact ⟨shorter result.1 result.2 found, trivial⟩

/-- Spaces are read from the front of the text. -/
theorem reads_spaces : Reads text spaces fun _ => True := reads_skipWhile _

/-- A comment is read from the front of the text. -/
theorem reads_comment : Reads text comment fun _ => True := by
  apply (reads_accept "#").bind
  intro accepted rest _
  split
  · apply (reads_takeWhile _).bind
    intro line rest' _
    split
    · exact .fail
    · exact .pure trivial
  · exact .pure trivial

/-- Layout is read from the front of the text, however many steps it may take. -/
private theorem reads_layoutWithin (steps : Nat) : Reads text
    (layoutWithin steps) fun _ => True := by
  induction steps generalizing text with
  | zero => exact reads_skipWhile _
  | succ steps ih =>
    apply (reads_skipWhile _).bind
    intro _ rest _
    apply Reads.peek_bind
    split
    · exact reads_comment.bind fun _ _ _ => ih
    · exact .pure trivial

/-- Layout is read from the front of the text. -/
theorem reads_layout : Reads text layout fun _ => True :=
  .remaining_bind (reads_layoutWithin _)

end

end DiceNotation.Toml
