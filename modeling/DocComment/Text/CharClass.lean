/-!
# Classes of characters

A property of characters is written down as a list of closed intervals of code points, in rising
order; `covers` looks a character up.

White space (`isBlank`) is what Unicode sees as such, together with the four information separators:
tab to carriage return, U+001C to the plain space, next line, the no-break space and the other space
separators, the line and the paragraph separator. The zero-width space and the byte order mark are
no blanks. Decimal digits (`isDecimalDigit`) are the characters of the general category *decimal
number* (`Nd`) of Unicode 14. They come in blocks of ten that run from zero to nine, so the place
inside its block is a digit's value (`decimalValue?`).

- `isBlank` - white space; `isInlineBlank` leaves the two line-end characters out.
- `trim` - a text without the blanks at either end.
- `isDecimalDigit` - the digits of all scripts; `decimalValue?` - what a digit stands for.
- `digitLimit` - how long numbers may be; `hasTooManyDigits` - the numbers beyond.
-/

namespace DocComment.Text

/-- A closed interval of code points, first and last. -/
abbrev CodeRange := Nat × Nat

/-- Whether one of the intervals of `table` holds the code point of `c`. -/
def covers (table : List CodeRange) (c : Char) : Bool :=
  table.any fun r => r.1 <= c.toNat && c.toNat <= r.2

/-! ### Blanks -/

/-- The intervals of blank characters. -/
def blankRanges : List CodeRange :=
  [(0x09, 0x0D), (0x1C, 0x20), (0x85, 0x85), (0xA0, 0xA0), (0x1680, 0x1680), (0x2000, 0x200A),
   (0x2028, 0x2029), (0x202F, 0x202F), (0x205F, 0x205F), (0x3000, 0x3000)]

/-- Whether `c` is white space, by the `blankRanges`. -/
def isBlank (c : Char) : Bool :=
  covers blankRanges c

/-- Whether `c` is white space that may stand inside a line: neither line feed nor
carriage return. -/
def isInlineBlank (c : Char) : Bool :=
  isBlank c && c != '\n' && c != '\r'

/-- Whether `cs` holds nothing but blanks. -/
def allBlank (cs : List Char) : Bool :=
  cs.all isBlank

/-- `cs` without its longest tail of characters in the class `p`. -/
def dropTrailing (p : Char → Bool) (cs : List Char) : List Char :=
  (cs.reverse.dropWhile p).reverse

/-- `cs` without the characters of the class `p` at either end, for `trimChars`. -/
def stripChars (p : Char → Bool) (cs : List Char) : List Char :=
  dropTrailing p (cs.dropWhile p)

/-- `cs` without the blanks at either end. -/
def trimChars (cs : List Char) : List Char :=
  stripChars isBlank cs

/-- A text **without the blanks at either end**. -/
def trim (s : String) : String :=
  String.ofList (trimChars s.toList)

@[simp] theorem toList_trim (s : String) : (trim s).toList = trimChars s.toList := by
  simp [trim]

@[simp] theorem trimChars_nil : trimChars [] = [] := rfl

/-! ### Decimal digits -/

/-- The intervals of decimal digits; the length of each is a multiple of ten. -/
def decimalDigitRanges : List CodeRange :=
  [(0x30, 0x39), (0x660, 0x669), (0x6F0, 0x6F9), (0x7C0, 0x7C9), (0x966, 0x96F), (0x9E6, 0x9EF),
   (0xA66, 0xA6F), (0xAE6, 0xAEF), (0xB66, 0xB6F), (0xBE6, 0xBEF), (0xC66, 0xC6F),
   (0xCE6, 0xCEF), (0xD66, 0xD6F), (0xDE6, 0xDEF), (0xE50, 0xE59), (0xED0, 0xED9),
   (0xF20, 0xF29), (0x1040, 0x1049), (0x1090, 0x1099), (0x17E0, 0x17E9), (0x1810, 0x1819),
   (0x1946, 0x194F), (0x19D0, 0x19D9), (0x1A80, 0x1A89), (0x1A90, 0x1A99), (0x1B50, 0x1B59),
   (0x1BB0, 0x1BB9), (0x1C40, 0x1C49), (0x1C50, 0x1C59), (0xA620, 0xA629), (0xA8D0, 0xA8D9),
   (0xA900, 0xA909), (0xA9D0, 0xA9D9), (0xA9F0, 0xA9F9), (0xAA50, 0xAA59), (0xABF0, 0xABF9),
   (0xFF10, 0xFF19), (0x104A0, 0x104A9), (0x10D30, 0x10D39), (0x11066, 0x1106F),
   (0x110F0, 0x110F9), (0x11136, 0x1113F), (0x111D0, 0x111D9), (0x112F0, 0x112F9),
   (0x11450, 0x11459), (0x114D0, 0x114D9), (0x11650, 0x11659), (0x116C0, 0x116C9),
   (0x11730, 0x11739), (0x118E0, 0x118E9), (0x11950, 0x11959), (0x11C50, 0x11C59),
   (0x11D50, 0x11D59), (0x11DA0, 0x11DA9), (0x16A60, 0x16A69), (0x16AC0, 0x16AC9),
   (0x16B50, 0x16B59), (0x1D7CE, 0x1D7FF), (0x1E140, 0x1E149), (0x1E2F0, 0x1E2F9),
   (0x1E950, 0x1E959), (0x1FBF0, 0x1FBF9)]

/-- Whether `c` is a decimal digit of any script, by the `decimalDigitRanges`. -/
def isDecimalDigit (c : Char) : Bool :=
  covers decimalDigitRanges c

/-- The **value of a digit**: its distance from the zero of its block. -/
def decimalValue? (c : Char) : Option Nat :=
  (decimalDigitRanges.find? fun r => r.1 <= c.toNat && c.toNat <= r.2).map
    fun r => (c.toNat - r.1) % 10

/-- How many digits a whole number may have when it is read or written. -/
def digitLimit : Nat := 4300

/-- Whether a whole number is too long to be written: it has more digits than the `digitLimit`. -/
def hasTooManyDigits (n : Int) : Bool :=
  -- The sign does not count.
  Nat.pow 10 digitLimit <= n.natAbs

/-- That a number is too long, in words. -/
def tooManyDigitsText : String :=
  s!"Exceeds the limit ({digitLimit} digits) for integer string conversion; " ++
    "use sys.set_int_max_str_digits() to increase the limit"

end DocComment.Text
