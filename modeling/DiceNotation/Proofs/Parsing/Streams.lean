import Mathlib.Data.List.Basic
import DiceNotation.Token.Stream

/-! # Histories of token streams

A stream is looked at, read and cut, in any order and as often as one likes.  Such a history
(`performAll`) loses no token and no character, and what was read stays as it was read.

The stream is seen here as the list of all its tokens and the index of the next one.  Reading moves
the index and leaves the list alone; cutting leaves the index alone and puts two tokens in the place
of one.  The invariant is therefore about the list only (`Intact`): it ends with the end of the
input, its texts put together are those that were given, and what stood in a text at its position
still does.

* `Intact.cut`                  a stream stays intact when its next token is cut
* `Intact.serves`               what each operation does with an intact stream
* `Intact.already_performAll`   what was read are the tokens that were handed out
* `stream_losesNothing`         all of this after any history -/

namespace DiceNotation

/-! ## Slices of a text -/

namespace Text

/-- The place in a text of `count` characters that a position stands for; a negative position
    counts from the end. -/
def place (count : Nat) (position : Int) : Nat :=
  (if position < 0 then position + count else position).toNat

/-- The characters from one position up to another one. -/
def slice (cs : List Char) (start stop : Int) : List Char :=
  (cs.drop (place cs.length start)).take (place cs.length stop - place cs.length start)

/-- Where a slice is as long as its positions are apart, positions and places run in step. -/
private theorem exists_place {cs : List Char} {position : Int} {n : Nat}
    (full : (slice cs position (position + n)).length = n) (positive : 0 < n) :
    ∃ i, ∀ k ≤ n, place cs.length (position + k) = i + k := by
  refine ⟨place cs.length position, fun k le => ?_⟩
  simp only [slice, List.length_take, List.length_drop] at full
  simp only [place] at full ⊢
  split at full <;> split at full <;> split <;> omega

end Text

namespace Token

/-- The token stands in the text at its position. -/
def IsSliceOf (text : String) (token : Token) : Prop :=
  Text.slice text.toList token.position (token.position + token.length) = token.text.toList

variable {text : String} {token : Token} {n : Nat}

/-- A token without characters stands everywhere. -/
private theorem isSliceOf_of_text_eq_empty (h : token.text = "") : token.IsSliceOf text := by
  simp [IsSliceOf, Text.slice, length, h]

/-- The parts of a token that stands in a text stand there as well. -/
private theorem IsSliceOf.splitAt (h : token.IsSliceOf text) (lt : n < token.length) :
    (token.splitAt n).1.IsSliceOf text ∧ (token.splitAt n).2.IsSliceOf text := by
  have full : (Text.slice text.toList token.position (token.position + token.length)).length =
      token.length := by
    rw [h, String.length_toList, length]
  -- The places of the characters of a token follow each other in the text.
  obtain ⟨i, inStep⟩ := Text.exists_place full (Nat.zero_lt_of_lt lt)
  have start : Text.place text.toList.length token.position = i := by
    simpa using inStep 0 (Nat.zero_le _)
  have cut := inStep n (Nat.le_of_lt lt)
  have stop := inStep token.length (Nat.le_refl _)
  have stands : (text.toList.drop i).take token.length = token.text.toList := by
    rw [← h, Text.slice, start, stop, Nat.add_sub_cancel_left]
  -- The first part is a slice up to the cut, and the second one goes on from there.
  constructor
  · rw [IsSliceOf, length_splitAt_fst (Nat.le_of_lt lt)]
    simp only [Token.splitAt, String.toList_ofList, Text.slice]
    rw [start, cut, Nat.add_sub_cancel_left, ← stands, List.take_take,
      Nat.min_eq_left (Nat.le_of_lt lt)]
  · have goesOn : token.position + n + ((token.length - n : Nat) : Int) =
        token.position + token.length := by omega
    rw [IsSliceOf, length_splitAt_snd]
    simp only [Token.splitAt, String.toList_ofList, Text.slice]
    rw [goesOn, cut, stop, ← stands, List.drop_take, List.drop_drop, Nat.add_sub_add_left]

end Token

namespace TokenStream

/-! ## Operations -/

/-- What can be done with a stream: look at the next token, read it, or cut it. -/
inductive Operation where
  | peek
  | get
  | split (n : Int)
deriving DecidableEq, Repr

/-- What a stream answers: a token, that it is done, or that it cannot be done. -/
inductive Answer where
  | token (token : Token)
  | done
  | refused (message : String)
deriving DecidableEq, Repr

/-- The answer to an operation. -/
def answer (s : TokenStream) : Operation → Answer
  | .peek | .get => .token s.next
  | .split n => if (s.split? n).isSome then .done else .refused (splitMessage s.next n)

/-- The stream behind an operation. -/
def perform (s : TokenStream) : Operation → TokenStream
  | .peek => s
  | .get => s.advance
  | .split n => (s.split? n).getD s

/-- The stream behind a history. -/
def performAll (s : TokenStream) (history : List Operation) : TokenStream :=
  history.foldl perform s

/-- The index of the next token among all tokens. -/
def index (s : TokenStream) : Nat := s.read.length

/-- The tokens before the index. -/
def already (s : TokenStream) : List Token := s.tokens.take s.index

/-- The tokens that a history reads.  The end of the input stays in place, so that it is not counted
    among them. -/
def handedOut (s : TokenStream) : List Operation → List Token
  | [] => []
  | operation :: history =>
    (if operation = .get ∧ s.next.kind ≠ .endOfInput then [s.next] else []) ++
      (s.perform operation).handedOut history

variable {given : List Token} {s t : TokenStream}
  {operation : Operation} {history : List Operation}

/-- What was read, from the first token to the last. -/
private theorem already_eq (s : TokenStream) : s.already = s.read.reverse := by
  rw [already, tokens, index, ← List.length_reverse, List.take_left]

/-- There is always a token at the index. -/
private theorem index_lt (s : TokenStream) : s.index < s.tokens.length := by
  simp [index, tokens, upcoming]

/-- The token at the index is the next one. -/
private theorem getElem?_index (s : TokenStream) : s.tokens[s.index]? = some s.next := by
  simp [index, tokens, upcoming]

/-- Tokens with an end behind them are not none. -/
private theorem withEnd_ne_nil (given : List Token) : withEnd given ≠ [] := by
  unfold withEnd
  split
  · simp
  · next last h =>
    split
    · rintro rfl
      cases h
    · simp

/-- A stream has the tokens that it is made of, with an end behind them. -/
private theorem tokens_ofTokens (given : List Token) : (ofTokens given).tokens = withEnd given := by
  unfold ofTokens
  split
  · next h => exact absurd h (withEnd_ne_nil given)
  · next h => rw [h, tokens, upcoming, List.reverse_nil, List.nil_append]

/-! ## The invariant -/

/-- What a stream made of the given tokens keeps of them. -/
structure Intact (given tokens : List Token) : Prop where
  /-- The last token is the end of the input. -/
  ends : ∃ last, tokens.getLast? = some last ∧ last.kind = .endOfInput
  /-- The end of the input has no characters. -/
  empty : ∀ token ∈ tokens, token.kind = .endOfInput → token.text = ""
  /-- The texts put together are the texts that were given. -/
  text : String.join (tokens.map Token.text) = String.join (given.map Token.text)
  /-- Where the given tokens stand in a text, these stand in it as well. -/
  slices : ∀ text, (∀ token ∈ given, token.IsSliceOf text) →
    ∀ token ∈ tokens, token.IsSliceOf text

/-- Tokens that end with the end of the input are intact. -/
private theorem intact_self (ends : ∃ last, given.getLast? = some last ∧ last.kind = .endOfInput)
    (empty : ∀ token ∈ given, token.kind = .endOfInput → token.text = "") :
    Intact given given :=
  ⟨ends, empty, rfl, fun _ slices => slices⟩

/-- Tokens with the end of the input behind them are intact. -/
private theorem intact_endAt (position : Int)
    (empty : ∀ token ∈ given, token.kind = .endOfInput → token.text = "") :
    Intact given (given ++ [Token.endAt position]) where
  ends := ⟨Token.endAt position, by simp, rfl⟩
  empty := by
    simp only [List.mem_append, List.mem_singleton]
    rintro token (mem | rfl) kind
    · exact empty token mem kind
    · rfl
  -- The token that is added has no text, so the texts joined are the same.
  text := by simp [Token.endAt, String.join_append]
  slices := by
    simp only [List.mem_append, List.mem_singleton]
    rintro text slices token (mem | rfl)
    · exact slices token mem
    · exact Token.isSliceOf_of_text_eq_empty rfl

/-- The tokens of a new stream are intact. -/
private theorem intact_withEnd
    (empty : ∀ token ∈ given, token.kind = .endOfInput → token.text = "") :
    Intact given (withEnd given) := by
  unfold withEnd
  split
  · next h =>
    obtain rfl := List.getLast?_eq_none_iff.mp h
    exact intact_endAt 0 empty
  · next last h =>
    split
    · next kind => exact intact_self ⟨last, h, kind⟩ empty
    · exact intact_endAt _ empty

/-- A stream stays intact when its next token is cut. -/
theorem Intact.cut (h : Intact given s.tokens) {n : Int} (bounds : 0 < n ∧ n < s.next.length)
    (cut : s.split? n = some t) : Intact given t.tokens := by
  have text := text_split? cut
  obtain rfl := Option.some.inj ((split?_of_lt bounds).symm.trans cut)
  have lt : n.toNat < s.next.length := by omega
  have nextMem : s.next ∈ s.tokens := by simp [tokens, upcoming]
  refine ⟨?_, ?_, text.trans h.text, ?_⟩
  · -- The last token is the same one, unless it is the token that is cut.
    obtain ⟨last, eq, kind⟩ := h.ends
    rw [tokens, upcoming] at eq
    cases later : s.later with
    | nil =>
      obtain rfl : s.next = last := by simpa [later] using eq
      exact ⟨(s.next.splitAt n.toNat).2, by simp [tokens, upcoming], kind⟩
    | cons next behind =>
      refine ⟨last, ?_, kind⟩
      simpa [tokens, upcoming, later, List.getLast?_append, List.getLast?_cons_cons] using eq
  · -- The end of the input has no characters to be cut.
    have goesOn : s.next.kind ≠ .endOfInput := by
      intro kind
      rw [Token.length, h.empty s.next nextMem kind] at lt
      exact Nat.not_lt_zero _ lt
    simp only [tokens, upcoming, List.mem_append, List.mem_cons]
    rintro other (mem | rfl | rfl | mem) kind
    · exact h.empty other (by simp [tokens, mem]) kind
    · exact absurd kind goesOn
    · exact absurd kind goesOn
    · exact h.empty other (by simp [tokens, upcoming, mem]) kind
  · intro text slices other mem
    have whole := h.slices text slices
    have parts := (whole s.next nextMem).splitAt lt
    simp only [tokens, upcoming, List.mem_append, List.mem_cons] at mem
    rcases mem with mem | rfl | rfl | mem
    · exact whole other (by simp [tokens, mem])
    · exact parts.1
    · exact parts.2
    · exact whole other (by simp [tokens, upcoming, mem])

/-- Every operation keeps the tokens intact. -/
private theorem Intact.perform (h : Intact given s.tokens) (operation : Operation) :
    Intact given (s.perform operation).tokens := by
  cases operation with
  | peek => exact h
  | get => rwa [TokenStream.perform, tokens_advance]
  | split n =>
    rw [TokenStream.perform]
    by_cases bounds : 0 < n ∧ n < s.next.length
    · rw [split?_of_lt bounds, Option.getD_some]
      exact h.cut bounds (split?_of_lt bounds)
    · rwa [split?_eq_none_iff.mpr bounds, Option.getD_none]

/-- Every history keeps the tokens intact, by induction on its operations. -/
theorem Intact.performAll (h : Intact given s.tokens) (history : List Operation) :
    Intact given (s.performAll history).tokens := by
  induction history generalizing s with
  | nil => exact h
  | cons operation history ih => exact ih (h.perform operation)

/-! ## What the operations do -/

/-- Behind a token other than the end of the input there is another one. -/
private theorem Intact.exists_later (h : Intact given s.tokens)
    (goesOn : s.next.kind ≠ .endOfInput) : ∃ next later, s.later = next :: later := by
  obtain ⟨last, eq, kind⟩ := h.ends
  cases hlater : s.later with
  | nil =>
    obtain rfl : s.next = last := by simpa [tokens, upcoming, hlater] using eq
    exact absurd kind goesOn
  | cons next later => exact ⟨next, later, rfl⟩

/-- What each operation answers, and what it does with the list of tokens and with the index. -/
structure Serves (s : TokenStream) : Prop where
  within : s.index < s.tokens.length
  /-- The next token is the one at the index. -/
  next : s.tokens[s.index]? = some s.next
  /-- A peek shows the next token and changes nothing. -/
  peek : s.answer .peek = .token s.next ∧ s.perform .peek = s
  /-- A read hands out the next token and goes one further, except at the end of the input. -/
  get : s.answer .get = .token s.next ∧ (s.perform .get).tokens = s.tokens ∧
    (s.perform .get).index = if s.next.kind = .endOfInput then s.index else s.index + 1
  /-- A cut inside the next token puts its two parts in its place. -/
  cut : ∀ n : Int, 0 < n ∧ n < s.next.length →
    s.answer (.split n) = .done ∧ (s.perform (.split n)).index = s.index ∧
      (s.perform (.split n)).tokens =
        s.already ++ [(s.next.splitAt n.toNat).1, (s.next.splitAt n.toNat).2] ++
          s.tokens.drop (s.index + 1)
  /-- Every other cut is refused and changes nothing. -/
  refusal : ∀ n : Int, ¬ (0 < n ∧ n < s.next.length) →
    s.answer (.split n) = .refused (splitMessage s.next n) ∧ s.perform (.split n) = s

/-- An intact stream does what each operation promises. -/
theorem Intact.serves (h : Intact given s.tokens) : s.Serves where
  within := s.index_lt
  next := s.getElem?_index
  peek := ⟨rfl, rfl⟩
  get := by
    refine ⟨rfl, s.tokens_advance, ?_⟩
    rw [TokenStream.perform]
    -- At the end nothing moves; before it the next token becomes one of those already handed out.
    split
    · next kind => rw [advance_of_endOfInput kind]
    · next goesOn =>
      obtain ⟨next, later, hlater⟩ := h.exists_later goesOn
      simp only [advance, if_neg goesOn, hlater, index, List.length_cons]
  cut := by
    intro n bounds
    rw [TokenStream.perform, answer, split?_of_lt bounds]
    refine ⟨rfl, rfl, ?_⟩
    -- Nothing but the word itself is changed by a cut.
    have behind : s.tokens.drop (s.index + 1) = s.later := by
      simp [tokens, upcoming, index, List.drop_append]
    rw [already_eq, behind]
    simp [tokens, upcoming]
  refusal := by
    intro n outside
    rw [TokenStream.perform, answer, split?_eq_none_iff.mpr outside]
    exact ⟨rfl, rfl⟩

/-- One operation adds to what was read the token that it hands out. -/
private theorem Intact.already_perform (h : Intact given s.tokens) (operation : Operation) :
    (s.perform operation).already =
      s.already ++ if operation = .get ∧ s.next.kind ≠ .endOfInput then [s.next] else [] := by
  cases operation with
  | peek => simp [TokenStream.perform]
  | get =>
    by_cases kind : s.next.kind = .endOfInput
    · simp [TokenStream.perform, advance_of_endOfInput kind, kind]
    · obtain ⟨next, later, hlater⟩ := h.exists_later kind
      simp [TokenStream.perform, advance, kind, hlater, already_eq]
  | split n =>
    rw [TokenStream.perform, split?]
    split <;> simp [already_eq]

/-- What was read are the tokens that were handed out. -/
theorem Intact.already_performAll (h : Intact given s.tokens) (history : List Operation) :
    (s.performAll history).already = s.already ++ s.handedOut history := by
  induction history generalizing s with
  | nil => simp [TokenStream.performAll, handedOut]
  | cons operation history ih =>
    have step := ih (h.perform operation)
    rw [h.already_perform operation, List.append_assoc] at step
    exact step

/-- A peek, or a cut that is refused. -/
def IsIdle (s : TokenStream) (operation : Operation) : Prop :=
  operation = .peek ∨ ∃ message, s.answer operation = .refused message

/-- An idle operation changes nothing. -/
private theorem perform_of_idle (h : s.IsIdle operation) : s.perform operation = s := by
  rcases h with rfl | ⟨message, refused⟩
  · rfl
  · cases operation with
    | peek => rfl
    | get => cases refused
    | split n =>
      cases hsplit : s.split? n with
      | none => rw [perform, hsplit, Option.getD_none]
      | some t => simp [answer, hsplit] at refused

/-- Idle operations change nothing. -/
private theorem performAll_of_idle (h : ∀ operation ∈ history, s.IsIdle operation) :
    s.performAll history = s := by
  induction history with
  | nil => rfl
  | cons operation history ih =>
    rw [performAll, List.foldl_cons, perform_of_idle (h operation List.mem_cons_self)]
    exact ih fun other mem => h other (List.mem_cons_of_mem _ mem)

/-- At the end of the input nothing happens any more: there is no token behind it to go to, and it
    has no characters to be cut. -/
private theorem Intact.performAll_of_end (h : Intact given s.tokens)
    (kind : s.next.kind = .endOfInput) (history : List Operation) : s.performAll history = s := by
  have noText : s.next.length = 0 := by
    rw [Token.length, h.empty s.next (by simp [tokens, upcoming]) kind]
    rfl
  have stays (operation : Operation) : s.perform operation = s := by
    cases operation with
    | peek => rfl
    | get => exact advance_of_endOfInput kind
    | split n => rw [TokenStream.perform, split?_eq_none_iff.mpr (by omega), Option.getD_none]
  induction history with
  | nil => rfl
  | cons operation history ih => rwa [TokenStream.performAll, List.foldl_cons, stays]

/-- Token streams lose nothing.  After any history, the list still holds all that was given and
    ends with the end of the input, and the index lies within it.  Whatever follows, what was read
    before stays as it was, and what is read behind it are the tokens handed out.  A peek shows the
    token of the next read, and from the end of the input on nothing changes. -/
theorem stream_losesNothing
    (empty : ∀ token ∈ given, token.kind = .endOfInput → token.text = "")
    (earlier : List Operation) :
    let s := (ofTokens given).performAll earlier
    Intact given s.tokens ∧ s.Serves ∧
      (∀ later, (s.performAll later).already = s.already ++ s.handedOut later) ∧
      (∀ idle, (∀ operation ∈ idle, s.IsIdle operation) →
        (s.performAll idle).answer .get = s.answer .peek) ∧
      ∀ last, s.answer .get = .token last → last.kind = .endOfInput →
        ∀ later, (s.performAll (.get :: later)).answer .peek = .token last ∧
          (s.performAll (.get :: later)).answer .get = .token last := by
  intro s
  -- What is intact at the start is intact after any operations.
  have intact : Intact given s.tokens := by
    have start := intact_withEnd empty
    rw [← tokens_ofTokens] at start
    exact start.performAll earlier
  refine ⟨intact, intact.serves, intact.already_performAll, ?_, ?_⟩
  · intro idle h
    rw [performAll_of_idle h]
    rfl
  · intro last answered kind later
    obtain rfl : s.next = last := Answer.token.inj answered
    rw [intact.performAll_of_end kind]
    exact ⟨rfl, rfl⟩

/-- A numeral and a word: the word is cut between `dF` and `kh`, the first part is read, and a cut
    behind its end is refused. -/
theorem stream_losesNothing_words :
    let given : List Token := [⟨.integer, 0, "12"⟩, ⟨.identifier, 3, "dFkh"⟩]
    (∀ token ∈ given, token.kind = .endOfInput → token.text = "") ∧
      let s := (ofTokens given).performAll [.get, .split 2, .get, .split 9]
      s.already = [⟨.integer, 0, "12"⟩, ⟨.identifier, 3, "dF"⟩] ∧
        s.answer .get = .token ⟨.identifier, 5, "kh"⟩ ∧
        ∀ token ∈ s.tokens, token.IsSliceOf "12 dFkh" := by
  intro given
  have empty : ∀ token ∈ given, token.kind = .endOfInput → token.text = "" := by decide
  have slices : ∀ token ∈ given, token.IsSliceOf "12 dFkh" := by
    intro token mem
    simp only [given, List.mem_cons, List.not_mem_nil, or_false] at mem
    rcases mem with rfl | rfl <;> unfold Token.IsSliceOf <;> decide +kernel
  obtain ⟨intact, -⟩ := stream_losesNothing empty [.get, .split 2, .get, .split 9]
  refine ⟨empty, ?_, ?_, intact.slices _ slices⟩
  · decide +kernel
  · decide +kernel

end TokenStream

end DiceNotation
