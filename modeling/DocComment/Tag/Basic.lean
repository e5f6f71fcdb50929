import DocComment.Json
import DocComment.Origin
import DocComment.Tag.TypedValue

/-!
# Tags

A tag of a comment as a dictionary reads it: its title is the canonical one if the dictionary knows
it, its text is trimmed, and its `Tag.value` has the parts that its definition allows. `Tag.read` of
`DocComment.Tag.Reading` makes one from a title and a text.

- `Tag` - titles, text and value; `Tag.display` - a tag as messages show it.
- `TypedValue.toJson`, `Tag.toJson` - the printed forms.
-/

namespace DocComment

open DocComment.Text

/-- The value of a tag: its text, or the parts of its text. -/
inductive Tag.Value where
  /-- The text as a whole. -/
  | plain (s : String)
  /-- Type, name and description. -/
  | typed (v : TypedValue)
  deriving DecidableEq, Repr

/-- A tag of a comment. -/
structure Tag where
  /-- The canonical title, or the title as written if the tag is unknown. -/
  title : String
  /-- The title as written. -/
  writtenTitle : String
  /-- The trimmed text. -/
  text : String
  /-- The value. -/
  value : Tag.Value
  /-- Whether the dictionary knows the tag. -/
  known : Bool
  deriving DecidableEq, Repr

/-- A `Tag` as messages show it. -/
def Tag.display (t : Tag) : String :=
  s!"Tag(title={quoted t.title}, text={quoted t.text})"

/-! ### Printed forms -/

/-- The members of a `TypedValue` behind its types: the parts that are there. -/
def TypedValue.partMembers (name description : Option String) (optional : Bool)
    (defaultValue : Option String) : List (String × Json) :=
  (match name with
    | some name => [("name", .string name)]
    | none => []) ++
  (match presentText description with
    | some description => [("description", .string description)]
    | none => []) ++
  (if optional then [("optional", .bool true)] else []) ++
  (match defaultValue with
    | some value => [("defaultvalue", .string value)]
    | none => [])

/-- The printed form of a `TypedValue`: the parts that are there. -/
def TypedValue.toJson (v : TypedValue) : Json :=
  .object <|
    (if v.types.isEmpty then [] else [("type", .array (v.types.map .string))]) ++
      partMembers v.name v.description v.optional v.defaultValue

/-- The members of a tag in front of its value: the title, the title as written if it differs, and
the text unless it is empty. -/
def Tag.headMembers (t : Tag) : List (String × Json) :=
  [("title", .string t.title)] ++
  (if t.writtenTitle == t.title then [] else [("originalTitle", .string t.writtenTitle)]) ++
  (if t.text.isEmpty then [] else [("text", .string t.text)])

/-- The printed form of a tag: `Tag.headMembers`, and the value unless it is empty. -/
def Tag.toJson (t : Tag) : Json :=
  .object <| t.headMembers ++
    (match t.value with
      | .typed v => [("value", v.toJson)]
      | .plain s => if s.isEmpty then [] else [("value", .string s)])

end DocComment
