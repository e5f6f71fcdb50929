import DocComment.Log.Record
import DocComment.Tag.Dictionary

/-!
# Reading tags

A raw tag is read with the help of a dictionary. The `Definition` behind its title says how the text
is trimmed and whether it has parts; it may also have something to say about the text.

- `Tag.read` - the tag that a title and a text make.
- `Tag.remarks` - what the definition of a tag has to say about its text.
-/

namespace DocComment

open DocComment.Text

namespace Tag

/-- Whether `c` ends a line or a page. -/
def isBreak (c : Char) : Bool :=
  c == '\n' || c == '\r' || c == '\x0c'

/-- The text of a tag without the blanks at either end, or, where blanks are kept, without line and
page ends (`isBreak`) there. -/
def trimText (keepsBlanks : Bool) (text : String) : String :=
  if keepsBlanks then String.ofList (stripChars isBreak text.toList) else trim text

/-- The value of a trimmed text under a `Definition`: its parts (`TypedValue.read`) if it may have
any. -/
def valueOf (definition : Definition) (text : String) : Value :=
  if text.isEmpty || !(definition.canHaveType || definition.canHaveName) then .plain text
  else .typed (TypedValue.read definition.canHaveType definition.canHaveName text)

/-- The **tag** that a title and a text make, under the definition that `Dictionary.find?` has for
the title. -/
def read (dictionary : Dictionary) (title text : String) : Tag :=
  match dictionary.find? title with
  | none => ⟨title, title, trim text, .plain (trim text), false⟩
  | some definition =>
    let text := trimText definition.keepsBlanks text
    ⟨definition.title, title, text, valueOf definition text, true⟩

/-- The place of a tag, as a message ends with it. -/
def place (origin : Origin) : String :=
  let location := origin.location
  if location.isEmpty then "" else s!" ({location})"

/-- What a definition **has to say about the text** of a tag: that it lacks one, or that it should
have none. -/
def remarks (definition : Definition) (origin : Origin) (t : Tag) : List Log.Remark :=
  if definition.needsValue && t.text.isEmpty then
    [⟨.warning, Log.logger "tags", s!"The @{t.title} tag requires a value{place origin}"⟩]
  else if definition.refusesValue && !t.text.isEmpty then
    [⟨.warning, Log.logger "tags",
      s!"The @{t.title} tag does not take a value, got {quoted t.text}{place origin}"⟩]
  else []

/-- The tag that a title and a text make (`read`), with the `remarks` on it. -/
def readWithRemarks (dictionary : Dictionary) (origin : Origin) (title text : String) :
    Tag × List Log.Remark :=
  let t := read dictionary title text
  match dictionary.find? title with
  | none => (t, [])
  | some definition => (t, remarks definition origin t)

end Tag

end DocComment
