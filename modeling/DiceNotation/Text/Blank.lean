/-! # Blank characters

The characters that may surround an integer numeral: the space, tab, line feed, vertical tab,
form feed and carriage return, and the spaces and line separators beyond ASCII. -/

namespace DiceNotation.Text

/-- Whether a character may surround a numeral. -/
def isBlank (c : Char) : Bool :=
  let code := c.toNat
  code == 32 || (9 ≤ code && code ≤ 13) || code == 0x85 || code == 0xA0 || code == 0x1680 ||
    (0x2000 ≤ code && code ≤ 0x200A) || code == 0x2028 || code == 0x2029 || code == 0x202F ||
    code == 0x205F || code == 0x3000

end DiceNotation.Text
