import DiceNotation.Number.Basic

/-! # Attribute values

What a node of an expression tree can hold under a name: a number or a text, a truth value,
which counts as one or zero, or nothing at all.  The sides of fate dice are the text `fate`. -/

namespace DiceNotation

/-- The value of an attribute. -/
inductive Value where
  | number (n : Number)
  | text (s : String)
  | truth (b : Bool)
  | nothing

namespace Value

instance : Inhabited Value := ⟨number 0⟩
instance : Coe Number Value := ⟨number⟩
instance : Coe String Value := ⟨text⟩

/-- An integer as an attribute value. -/
abbrev int (n : Int) : Value := number (.int n)

/-- The sides of dice with the faces minus one, zero and one. -/
def fate : Value := text "fate"

/-- The number that the value is or counts as. -/
def number? : Value → Option Number
  | number n => some n
  | truth b => some (.int (if b then 1 else 0))
  | _ => none

/-- Whether the value is the given text. -/
def isText (value : Value) (s : String) : Bool :=
  match value with
  | text t => t == s
  | _ => false

/-- Whether the value marks fate dice. -/
def isFate (value : Value) : Bool := value.isText "fate"

/-- Whether the value is nothing. -/
def isNothing : Value → Bool
  | nothing => true
  | _ => false

/-- Whether two values are equal: numbers by value, texts letter by letter. -/
def agree (a b : Value) : Bool :=
  match a, b with
  | text s, text t => s == t
  | nothing, nothing => true
  | a, b =>
    match a.number?, b.number? with
    | some m, some n => m.agree n
    | _, _ => false

/-- Whether the value is NaN. -/
def isUndefined : Value → Bool
  | number (.real x) => x.isNaN
  | _ => false

/-- Whether two values are the same: equal, or both NaN, so that every value is the same as
    itself. -/
def same (a b : Value) : Bool := a.agree b || (a.isUndefined && b.isUndefined)

/-- An integer in place of a double without fractional part. -/
def normalize : Value → Value
  | number n => number n.normalize
  | value => value

/-- The text of a value. -/
def toText : Value → String
  | number n => n.text
  | text s => s
  | truth b => if b then "True" else "False"
  | nothing => "None"

/-- Whether a value may be written into a text. -/
def isWritable : Value → Bool
  | number n => n.isWritable
  | _ => true

/-- The text of a value that may be absent: an absent one is written like nothing. -/
def optionText (value : Option Value) : String := (value.getD nothing).toText

end Value

end DiceNotation
