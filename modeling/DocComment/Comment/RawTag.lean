import DocComment.Comment.Margin
import DocComment.Text.Line

/-!
# Raw tags

The text of a comment falls into tags. A *tag line* starts, after blanks inside the line, with the
marker `@` and a character that is not blank; a marker elsewhere in a line (an address, a piece of
code) starts nothing. A tag reaches from its marker to the next tag line: its title is the run of
characters before the first blank, its text is what follows.

- `RawTag` - a title and the text behind it, before any dictionary is asked.
- `RawTag.ofText` - the tags of a text; `RawTag.ofComment` - the tags of a comment.
-/

namespace DocComment

open DocComment.Text

/-- A tag as the comment writes it. -/
structure RawTag where
  /-- The characters behind the marker, up to the first blank. -/
  title : String
  /-- The text behind the title, if there is any. -/
  text : Option String
  deriving DecidableEq, Repr

namespace RawTag

/-- What follows the marker of a **tag line**; nothing if the line is none. -/
def afterMarker? (line : List Char) : Option (List Char) :=
  match line.dropWhile isInlineBlank with
  | '@' :: c :: rest => if isBlank c then none else some (c :: rest)
  | _ => none

/-- The indent of a tag line (`afterMarker?`) that has one. -/
def tagIndent? (line : List Char) : Option (List Char) :=
  let indent := line.takeWhile isInlineBlank
  if indent.isEmpty || (afterMarker? line).isNone then none else some indent

/-- Lines gathered into the text before the first tag line and one segment for each tag line,
without its marker. -/
def gather : List (List Char) → List Char × List (List Char)
  | [] => ([], [])
  | line :: more =>
    let (lead, segments) := gather more
    match afterMarker? line with
    -- What was gathered as the lead so far belongs to this tag.
    | some start => ([], (start ++ lead) :: segments)
    | none => (line ++ lead, segments)

/-- The **segments** of a text: those that `gather` makes and that are not blank throughout. -/
def segments (text : List Char) : List (List Char) :=
  let (lead, rest) := gather (lines text)
  (lead :: rest).filter fun s => !allBlank s

/-- Whether `cs`, read from the end of a line on, holds only blank lines. -/
def onlyBlankLines : List Char → Bool
  | [] => true
  | '\n' :: rest => onlyBlankLines rest
  | '\r' :: '\n' :: rest => onlyBlankLines rest
  | c :: rest => isInlineBlank c && onlyBlankLines rest

/-- Whether `cs` is a line end followed by blank lines only (`onlyBlankLines`). -/
def isBlankTail : List Char → Bool
  | '\n' :: rest => onlyBlankLines rest
  | '\r' :: '\n' :: rest => onlyBlankLines rest
  | _ => false

/-- `cs` without the blank lines at its end (`isBlankTail`); blanks at the end of the last line that
stays are kept. -/
def dropBlankTail : List Char → List Char
  | [] => []
  | c :: rest => if isBlankTail (c :: rest) then [] else c :: dropBlankTail rest

/-- Recognises `indent` at the start of a line, for `outdent`. -/
def indentAt (indent : List Char) : Recogniser := fun before cs =>
  if startsLine before && indent.isPrefixOf cs then indent.length else 0

/-- `cs` with `indent` removed from every line that starts with it. -/
def outdent (indent cs : List Char) : List Char :=
  substitute (indentAt indent) (fun _ => []) cs

/-- The tag that a segment spells, its further lines freed of `indent`; nothing when the segment
starts with a blank. -/
def ofSegment? (indent segment : List Char) : Option RawTag :=
  let title := segment.takeWhile fun c => !isBlank c
  -- Line ends are blanks here: the text may start on a line of its own.
  let body := (segment.drop title.length).dropWhile isBlank
  if title.isEmpty then none
  else
    some {
      title := String.ofList title
      text :=
        if body.isEmpty then none
        else some (String.ofList (outdent indent (dropBlankTail body))) }

/-- The **tags of a text** from which delimiters and margin are gone. The first indented tag line
sets the indent that every tag's text is freed of. -/
def ofText (text : String) : List RawTag :=
  let indent := ((lines text.toList).findSome? tagIndent?).getD []
  (segments text.toList).filterMap (ofSegment? indent)

/-- The **tags of a comment**: those of its text (`Comment.unwrap`), where leading free text is
tagged as the description (`Comment.withDescription`). -/
def ofComment (source : String) : List RawTag :=
  ofText (Comment.withDescription (Comment.unwrap source))

end RawTag

end DocComment
