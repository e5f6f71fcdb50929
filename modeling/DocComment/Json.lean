import DocComment.Text.Quoted

/-!
# JSON

The values that the program prints, and their text: two spaces of indent for each level, members
sorted by key, and nothing outside the plain alphabet; characters beyond it are written as UTF-16
code units.

- `Json` - values.
- `Json.render` - the text of a value.
-/

namespace DocComment

open DocComment.Text

/-- A JSON value. -/
inductive Json where
  /-- The null value. -/
  | null
  /-- A truth value. -/
  | bool (b : Bool)
  /-- A whole number. -/
  | number (n : Int)
  /-- A number with a point, as it is shown. -/
  | decimal (shown : String)
  /-- A text. -/
  | string (s : String)
  /-- A list of values. -/
  | array (items : List Json)
  /-- Named members. -/
  | object (members : List (String × Json))
  deriving Repr

namespace Json

/-- A code unit in hexadecimal. -/
def escapeUnit (n : Nat) : List Char :=
  ['\\', 'u'] ++ hexDigits 4 n

/-- A character by its UTF-16 code units (`escapeUnit`): one, or a pair of surrogates. -/
def escapeUnits (c : Char) : List Char :=
  if c.toNat < 0x10000 then escapeUnit c.toNat
  else
    let n := c.toNat - 0x10000
    escapeUnit (0xD800 + n / 0x400) ++ escapeUnit (0xDC00 + n % 0x400)

/-- One character inside a text. -/
def escapeChar (c : Char) : List Char :=
  if c == doubleQuote || c == '\\' then ['\\', c]
  else if c == '\n' then ['\\', 'n']
  else if c == '\r' then ['\\', 'r']
  else if c == '\t' then ['\\', 't']
  else if c == '\x08' then ['\\', 'b']
  else if c == '\x0c' then ['\\', 'f']
  -- Five characters have short forms; all others outside the plain alphabet go by number.
  else if ' ' <= c && c <= '~' then [c]
  else escapeUnits c

/-- A text in double quotes, each character by `escapeChar`. -/
def renderString (s : String) : String :=
  String.ofList ([doubleQuote] ++ s.toList.flatMap escapeChar ++ [doubleQuote])

/-- A line break and the indent of the level `depth`. -/
def newline (depth : Nat) : String :=
  "\n" ++ String.ofList (List.replicate (2 * depth) ' ')

/-- Rendered items between a pair of brackets, each on a line of its own. -/
def enclose (opening closing : String) (depth : Nat) (items : List String) : String :=
  if items.isEmpty then opening ++ closing
  else
    opening ++ newline (depth + 1) ++ (("," ++ newline (depth + 1)).intercalate items) ++
      newline depth ++ closing

/-- The text of a number with a point; those that are none have words of their own. -/
def decimalText (shown : String) : String :=
  if shown == "nan" then "NaN"
  else if shown == "inf" then "Infinity"
  else if shown == "-inf" then "-Infinity"
  else shown

mutual

/-- The text of a value at the level `depth`, for `render`. -/
def renderAt (depth : Nat) : Json → String
  | .null => "null"
  | .bool true => "true"
  | .bool false => "false"
  | .number n => toString n
  | .decimal shown => decimalText shown
  | .string s => renderString s
  | .array items => enclose "[" "]" depth (renderItems (depth + 1) items)
  | .object members =>
    -- Members are rendered first and sorted then, which keeps the recursion on the value.
    let sorted := (renderMembers (depth + 1) members).mergeSort fun a b => decide (a.1 ≤ b.1)
    enclose "\x7b" "\x7d" depth (sorted.map fun m => renderString m.1 ++ ": " ++ m.2)

/-- The texts of list items. -/
def renderItems (depth : Nat) : List Json → List String
  | [] => []
  | item :: more => renderAt depth item :: renderItems depth more

/-- The keys of members with the texts of their values. -/
def renderMembers (depth : Nat) : List (String × Json) → List (String × String)
  | [] => []
  | (key, value) :: more => (key, renderAt depth value) :: renderMembers depth more

end

/-- The **text of a value**. -/
def render (j : Json) : String :=
  renderAt 0 j

/-- A `string`, or `null`. -/
def ofText? : Option String → Json
  | some s => .string s
  | none => .null

end Json

end DocComment
