/-!
# Places in a settings document

A cursor is what is left of a document together with the place reached: how many characters were
passed, the line and the column. Besides the line feed, three further characters end a line; the two
separators among them are kept where lines are folded, the others count as a line feed.

- `Cursor.next`, `Cursor.skip` - moving on.
- `Cursor.fold` - the text that a line end and further empty lines leave in a scalar.
-/

namespace DocComment.Yaml

/-- Whether `c` ends a line. -/
def isLineEnd (c : Char) : Bool :=
  c == '\n' || c == '\x85' || c == '\u2028' || c == '\u2029'

/-- Whether `c`, or the end of the document, may follow a single indicator. -/
def endsIndicator : Option Char → Bool
  | none => true
  | some c => c == ' ' || c == '\t' || isLineEnd c

/-- Whether a document separator, three dashes or three points, starts `cs`. -/
def startsSeparator (mark : Char) (cs : List Char) : Bool :=
  [mark, mark, mark].isPrefixOf cs && endsIndicator (cs.drop 3).head?

/-- Whether either document separator starts `cs` (`startsSeparator`). -/
def atSeparator (cs : List Char) : Bool :=
  startsSeparator '-' cs || startsSeparator '.' cs

/-- A line end as scalars keep it. -/
def keptLineEnd (c : Char) : Char :=
  if c == '\x85' then '\n' else c

/-- The text that a line end and the line ends of further empty lines leave in a **folded** scalar:
a single line end becomes a space, of several the first is dropped. -/
def foldLines (first : Char) (more : List Char) : List Char :=
  -- A line or paragraph separator is kept as it is.
  if keptLineEnd first != '\n' then keptLineEnd first :: more
  else if more.isEmpty then [' ']
  else more

/-- What is left of a document, and the place reached. -/
structure Cursor where
  /-- The characters still to come. -/
  rest : List Char
  /-- How many characters were passed. -/
  index : Nat := 0
  /-- The line reached. -/
  line : Nat := 0
  /-- The column reached. -/
  column : Nat := 0
  deriving Repr

namespace Cursor

/-- The next character. -/
def peek (c : Cursor) : Option Char :=
  c.rest.head?

/-- The character after the next. -/
def peekSecond (c : Cursor) : Option Char :=
  c.rest.tail.head?

/-- The `Cursor` one character further on; a byte order mark takes no column. -/
def next (c : Cursor) : Cursor :=
  match c.rest with
  | [] => c
  | ch :: rest =>
    if isLineEnd ch then ⟨rest, c.index + 1, c.line + 1, 0⟩
    else ⟨rest, c.index + 1, c.line, if ch == '\ufeff' then c.column else c.column + 1⟩

/-- The cursor `n` characters further on, one `next` after another. -/
def skip (c : Cursor) : Nat → Cursor
  | 0 => c
  | n + 1 => c.next.skip n

/-- The cursor behind the characters of the class `p` that come next. -/
def skipWhile (p : Char → Bool) (c : Cursor) : Cursor :=
  c.skip (c.rest.takeWhile p).length

end Cursor

end DocComment.Yaml
