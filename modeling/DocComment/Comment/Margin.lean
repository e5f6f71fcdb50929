import DocComment.Text.CharClass
import DocComment.Text.Scan

/-!
# Delimiters and margin of a comment

A doc comment opens with a slash and at least two stars, closes with at least one star and a slash,
and most often carries a star at the left of each line. `unwrap` takes these away and keeps the rest
as it stands, blanks at the ends of lines included.

The closing delimiter is first swapped for a mark, the two characters of `endMark`. The margin pass
then removes the mark together with the indent of the last line, exactly as it removes a star; a
mark that shares its line with text goes at the end, with the blanks before it. Text that spells the
mark out is treated as a mark.

- `unwrap` - the text inside a comment.
- `withDescription` - the same with leading free text tagged as the description.
-/

namespace DocComment.Comment

open DocComment.Text

/-- The mark that stands for the closing delimiter. -/
def endMark : List Char := ['\\', 'Z']

/-- `cs` without an opening delimiter; extra stars belong to it. -/
def dropOpening : List Char → List Char
  | '/' :: '*' :: '*' :: rest => rest.dropWhile (· == '*')
  | cs => cs

/-- `cs` with a closing delimiter, the blanks behind it and extra stars swapped for `endMark`. -/
def markClosing (cs : List Char) : List Char :=
  match cs.reverse.dropWhile isBlank with
  | '/' :: '*' :: before => (before.dropWhile (· == '*')).reverse ++ endMark
  | _ => cs

/-- The length of the **margin** that `cs` starts with: blanks, line ends among them, and then a
star with at most one space behind it, or `endMark`. -/
def marginLength (cs : List Char) : Nat :=
  let blanks := (cs.takeWhile isBlank).length
  match cs.dropWhile isBlank with
  | '*' :: ' ' :: _ => blanks + 2
  | '*' :: _ => blanks + 1
  | '\\' :: 'Z' :: _ => blanks + 2
  | _ => 0

/-- Recognises a margin, of `marginLength`, at the start of a line. -/
def margin : Recogniser := fun before cs =>
  if startsLine before then marginLength cs else 0

/-- `cs` without its margins, on every line that has a `margin`. -/
def dropMargins (cs : List Char) : List Char :=
  substitute margin (fun _ => []) cs

/-- `cs` without an `endMark` at its end and the blanks before that mark. -/
def dropEndMark (cs : List Char) : List Char :=
  match cs.reverse with
  | 'Z' :: '\\' :: before => (before.dropWhile isBlank).reverse
  | _ => cs

/-- The text inside a comment, character by character: what `unwrap` is made of. -/
def unwrapChars (cs : List Char) : List Char :=
  -- The order matters: the mark must be there before margins go, as it is one.
  dropEndMark (dropMargins (markClosing (dropOpening cs)))

/-- The **text inside a comment**, without delimiters and margin. -/
def unwrap (source : String) : String :=
  String.ofList (unwrapChars source.toList)

/-- Whether `cs` starts, after blanks, with a tag marker and a character that is not blank. -/
def startsWithTag (cs : List Char) : Bool :=
  match cs.dropWhile isBlank with
  | '@' :: c :: _ => !isBlank c
  | _ => false

/-- The marker that `withDescription` puts before leading free text. -/
def descriptionMarker : String := "@description "

/-- The text with its leading free text **tagged as the description**. -/
def withDescription (text : String) : String :=
  -- Text that is blank throughout is a description too, an empty one.
  if startsWithTag text.toList then text else descriptionMarker ++ text

end DocComment.Comment
