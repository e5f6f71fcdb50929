import DocComment.Yaml.Cursor

/-!
# Plain scalars

A plain scalar runs on over blanks and line ends, as long as the lines stay deeper than the block
around it, until something ends it: a comment, a colon that announces a value, or, between brackets,
the signs that separate items.

- `readPlain` - the text of a plain scalar and the place behind it.
-/

namespace DocComment.Yaml

/-- Whether `c` is one of the signs that separate items between brackets. -/
def isFlowSign (c : Char) : Bool :=
  c == ',' || c == '[' || c == ']' || c == '\x7b' || c == '\x7d'

/-- Whether a plain scalar ends before `c`, which `after` follows; `flow` tells whether it stands
between brackets. -/
def endsPlain (flow : Bool) (c : Char) (after : Option Char) : Bool :=
  c == ' ' || c == '\t' || isLineEnd c ||
    (c == ':' && (endsIndicator after || (flow && (after.map isFlowSign).getD false))) ||
    (flow && (isFlowSign c || c == '?'))

/-- The characters up to the end of a plain scalar or to a blank in it (`endsPlain`). -/
def plainWord (flow : Bool) : List Char → List Char
  | [] => []
  | c :: rest => if endsPlain flow c rest.head? then [] else c :: plainWord flow rest

/-- What stands between two words of a plain scalar. -/
structure Gap where
  /-- The text that it leaves in the scalar; none ends the scalar. -/
  text : List Char
  /-- The place behind it. -/
  cursor : Cursor
  /-- Whether it crosses a line end. -/
  crosses : Bool

/-- The line ends of the empty lines that come next, unless a document separator comes first, and
the place behind them. -/
def gapLines : Nat → Cursor → Option (List Char) × Cursor
  | 0, c => (some [], c)
  | fuel + 1, c =>
    match c.peek with
    | none => (some [], c)
    | some ch =>
      if ch == ' ' then gapLines fuel c.next
      else if isLineEnd ch then
        if atSeparator c.next.rest then (none, c.next)
        else
          let (ends, behind) := gapLines fuel c.next
          (ends.map (keptLineEnd ch :: ·), behind)
      else (some [], c)

/-- The `Gap` at the cursor, behind a word of a plain scalar. -/
def readGap (c : Cursor) : Gap :=
  let spaces := c.rest.takeWhile (· == ' ')
  let c := c.skip spaces.length
  match c.peek with
  | none => ⟨spaces, c, false⟩
  | some ch =>
    if !isLineEnd ch then ⟨spaces, c, false⟩
    -- Without a text the gap ends the scalar.
    else if atSeparator c.next.rest then ⟨[], c.next, true⟩
    else
      match gapLines (c.rest.length + 1) c.next with
      | (some ends, behind) => ⟨foldLines ch ends, behind, true⟩
      | (none, behind) => ⟨[], behind, true⟩

/-- The words of a plain scalar from the cursor on, the place behind it, and whether a line end was
crossed since the last word. `before` is the gap that leads up to the next word. -/
def plainWords (flow : Bool) (least : Int) : Nat → List Char → Bool → Cursor →
    List Char × Cursor × Bool
  | 0, _, crossed, c => ([], c, crossed)
  | fuel + 1, before, crossed, c =>
    let word := plainWord flow c.rest
    if word.isEmpty || c.peek == some '#' then ([], c, crossed)
    else
      let gap := readGap (c.skip word.length)
      -- The scalar ends with this word, and the place behind it is behind the gap.
      if gap.text.isEmpty || gap.cursor.peek == some '#' ||
          (!flow && (gap.cursor.column : Int) < least) then
        (before ++ word, gap.cursor, gap.crosses)
      else
        let (more, behind, crossed) := plainWords flow least fuel gap.text gap.crosses gap.cursor
        (before ++ word ++ more, behind, crossed)

/-- The **text of a plain scalar** at the cursor, the place behind it, and whether it is followed by
a line end. Its further lines must not start before the column `least`. -/
def readPlain (flow : Bool) (least : Int) (c : Cursor) : List Char × Cursor × Bool :=
  plainWords flow least (c.rest.length + 1) [] false c

end DocComment.Yaml
