import DiceNotation.Token
import DiceNotation.Text.Quoted

/-! # Token streams

A `TokenStream` is a list of tokens with a reading position: the tokens already read, the next
token, and the tokens behind it.  There is always a next token; at the end of the input it is
the `endOfInput` token, which stays in place when it is read.

A word such as `khdl` holds two modifiers.  `split?` cuts the next token in two so that the
parts can be read one after the other.

* `tokens_advance`   reading loses no token
* `text_split?`      cutting loses no character -/

namespace DiceNotation

namespace Token

/-- The token that marks the end of the input. -/
def endAt (position : Int) : Token := ⟨.endOfInput, position, ""⟩

/-- The two parts of a token, cut after `n` characters. -/
def splitAt (token : Token) (n : Nat) : Token × Token :=
  (⟨token.kind, token.position, String.ofList (token.text.toList.take n)⟩,
    ⟨token.kind, token.position + n, String.ofList (token.text.toList.drop n)⟩)

/-- The first part of a token has as many characters as are cut off. -/
theorem length_splitAt_fst {token : Token} {n : Nat} (le : n ≤ token.length) :
    (token.splitAt n).1.length = n := by
  simp only [length, splitAt, String.length_ofList, List.length_take, String.length_toList]
  exact Nat.min_eq_left le

/-- The second part of a token has the characters that are left. -/
theorem length_splitAt_snd {token : Token} {n : Nat} :
    (token.splitAt n).2.length = token.length - n := by
  simp only [length, splitAt, String.length_ofList, List.length_drop, String.length_toList]

end Token

/-- Tokens with a reading position. -/
structure TokenStream where
  /-- The tokens read so far, the latest first. -/
  read : List Token
  /-- The token to be read next. -/
  next : Token
  /-- The tokens behind the next one. -/
  later : List Token
deriving DecidableEq, Repr, Inhabited

namespace TokenStream

/-- End a list of tokens with an `endOfInput` token behind its last token, unless it has one. -/
def withEnd (tokens : List Token) : List Token :=
  match tokens.getLast? with
  | none => [Token.endAt 0]
  | some last =>
    if last.kind = .endOfInput then tokens
    else tokens ++ [Token.endAt (last.position + last.length)]

/-- The stream over a list of tokens, of which none is read. -/
def ofTokens (tokens : List Token) : TokenStream :=
  match withEnd tokens with
  | [] => ⟨[], Token.endAt 0, []⟩
  | next :: later => ⟨[], next, later⟩

/-- The tokens still to be read. -/
def upcoming (s : TokenStream) : List Token := s.next :: s.later

/-- All tokens, in order. -/
def tokens (s : TokenStream) : List Token := s.read.reverse ++ s.upcoming

/-- Step over the next token; the end of the input stays. -/
def advance (s : TokenStream) : TokenStream :=
  if s.next.kind = .endOfInput then s
  else
    match s.later with
    | [] => s
    | next :: later => ⟨s.next :: s.read, next, later⟩

/-- Cut the next token after `n` characters; both parts keep its kind.  Neither may be empty. -/
def split? (s : TokenStream) (n : Int) : Option TokenStream :=
  if 0 < n ∧ n < s.next.length then
    let parts := s.next.splitAt n.toNat
    some ⟨s.read, parts.1, parts.2 :: s.later⟩
  else none

/-- What is said of a token that cannot be cut after `n` characters. -/
def splitMessage (token : Token) (n : Int) : String :=
  s!"cannot split {Text.quote token.text} at {n}"

/-- A bound on how often the stream can still be read: each token to come counts for its length
    and one more.  Reading and cutting-then-reading both lower it. -/
def weight (s : TokenStream) : Nat :=
  s.upcoming.foldr (fun token rest => token.length + 1 + rest) 0

/-- At the end of the input, reading changes nothing. -/
theorem advance_of_endOfInput {s : TokenStream} (h : s.next.kind = .endOfInput) :
    s.advance = s := by
  rw [advance, if_pos h]

/-- A cut inside the next token puts its two parts in its place. -/
theorem split?_of_lt {s : TokenStream} {n : Int} (h : 0 < n ∧ n < s.next.length) :
    s.split? n =
      some ⟨s.read, (s.next.splitAt n.toNat).1, (s.next.splitAt n.toNat).2 :: s.later⟩ := by
  rw [split?, if_pos h]

/-- Only a cut inside the next token is made. -/
theorem split?_eq_none_iff {s : TokenStream} {n : Int} :
    s.split? n = none ↔ ¬(0 < n ∧ n < s.next.length) := by
  rw [split?]
  split <;> simp [*]

/-- Reading loses no token. -/
@[simp] theorem tokens_advance (s : TokenStream) : s.advance.tokens = s.tokens := by
  unfold advance
  split
  · rfl
  · split
    · rfl
    · next h => simp [tokens, upcoming, h]

/-- The two parts of a token have its text between them. -/
theorem text_splitAt (token : Token) (n : Nat) :
    (token.splitAt n).1.text ++ (token.splitAt n).2.text = token.text := by
  simp [Token.splitAt, ← String.ofList_append]

/-- Cutting the next token leaves the text of the stream as it is. -/
theorem text_split? {s t : TokenStream} {n : Int} (h : s.split? n = some t) :
    String.join (t.tokens.map Token.text) = String.join (s.tokens.map Token.text) := by
  unfold split? at h
  split at h
  · cases h
    have := text_splitAt s.next n.toNat
    simp only [tokens, upcoming, List.map_append, List.map_cons, String.join_append,
      String.join_cons]
    rw [← this]
    simp only [String.append_assoc]
  · cases h

end TokenStream

end DiceNotation
