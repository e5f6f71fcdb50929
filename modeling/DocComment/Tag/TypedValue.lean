import DocComment.Text.CharClass

/-!
# Typed values

The text of some tags has a form of its own: a type in braces, then a name, then a description, each
of them optional. The type lists alternatives between bars. A name in brackets is optional and may
carry a default value behind an equals sign.

- `TypedValue` - the parts of such a text.
- `TypedValue.peelTypes` - the types in front of a text and the text behind them.
- `TypedValue.peelName` - the name in front of a text and the text behind it.
- `TypedValue.read` - the parts of a text.
-/

namespace DocComment

open DocComment.Text

/-- The parts of a text that carries a type, a name or both. -/
structure TypedValue where
  /-- The alternatives of the type. -/
  types : List String := []
  /-- The name. -/
  name : Option String := none
  /-- What follows type and name. -/
  description : Option String := none
  /-- Whether the name stood in brackets. -/
  optional : Bool := false
  /-- The default value of an optional name. -/
  defaultValue : Option String := none
  deriving DecidableEq, Repr

namespace TypedValue

/-- The pieces of `cs` between the separators `sep`. -/
def splitAt (sep : Char) : List Char → List (List Char)
  | [] => [[]]
  | c :: rest =>
    if c == sep then [] :: splitAt sep rest
    else
      match splitAt sep rest with
      | [] => [[c]]
      | piece :: more => (c :: piece) :: more

/-! ### Types -/

/-- What stands **inside a pair of braces**, of which the opening one is already passed, and what
follows the closing one; `depth` counts the inner braces still open. -/
def insideBraces : Nat → List Char → Option (List Char × List Char)
  | _, [] => none
  | depth, c :: rest =>
    if c == '\x7b' then (insideBraces (depth + 1) rest).map fun r => (c :: r.1, r.2)
    else if c == '\x7d' then
      match depth with
      | 0 => some ([], rest)
      -- An inner brace closes, and stays inside.
      | depth + 1 => (insideBraces depth rest).map fun r => (c :: r.1, r.2)
    else (insideBraces depth rest).map fun r => (c :: r.1, r.2)

/-- `cs` without one enclosing pair of parentheses. -/
def withoutParens (cs : List Char) : List Char :=
  if cs.head? == some '(' && cs.getLast? == some ')' then cs.tail.dropLast else cs

/-- The alternatives of a type expression, between bars (`splitAt`), blank ones left out. -/
def alternatives (inner : List Char) : List (List Char) :=
  ((splitAt '|' (withoutParens (trimChars inner))).map trimChars).filter fun p => !p.isEmpty

/-- The **types in front of a text** and what follows them. A text whose braces do not close has
none. -/
def peelTypes (text : List Char) : List (List Char) × List Char :=
  match text with
  | '\x7b' :: rest =>
    match insideBraces 0 rest with
    | some (inner, after) => (alternatives inner, trimChars after)
    | none => ([], text)
  | _ => ([], text)

/-! ### Names -/

/-- The name in front of a text, and what follows it. -/
structure Named where
  /-- The name. -/
  name : Option (List Char)
  /-- Whether it stood in brackets. -/
  optional : Bool
  /-- Its default value. -/
  defaultValue : Option (List Char)
  /-- What follows. -/
  rest : List Char
  deriving DecidableEq, Repr

/-- What a pair of brackets holds: a name, and a default value behind the first equals sign. -/
def bracketed (inner rest : List Char) : Named :=
  let inner := trimChars inner
  let name := inner.takeWhile (· != '=')
  match inner.drop name.length with
  | _ :: value => ⟨some (trimChars name), true, some (trimChars value), rest⟩
  | [] => ⟨some inner, true, none, rest⟩

/-- The **name in front of a text**: all up to the first closing bracket if the text starts with an
opening one, or else the characters before the first blank. -/
def peelName (text : List Char) : Named :=
  match text with
  | [] => ⟨none, false, none, text⟩
  | c :: rest =>
    let inner := rest.takeWhile (· != ']')
    match c == '[', rest.drop inner.length with
    -- A bracket that does not close is part of a plain word.
    | true, _ :: after => bracketed inner (after.dropWhile isBlank)
    | _, _ =>
      let word := text.takeWhile fun c => !isBlank c
      if word.isEmpty then ⟨none, false, none, text⟩
      else ⟨some word, false, none, (text.drop word.length).dropWhile isBlank⟩

/-! ### The whole text -/

/-- The description in a text: a dash in front of it is dropped. -/
def describe (text : List Char) : Option String :=
  let body :=
    match text with
    | '-' :: rest => trimChars (rest.dropWhile isBlank)
    | _ => trimChars text
  if body.isEmpty then none else some (String.ofList body)

/-- The **parts of a text** that may carry a type (`withType`) and a name (`withName`). -/
def read (withType withName : Bool) (text : String) : TypedValue :=
  let (types, rest) := if withType then peelTypes text.toList else ([], text.toList)
  let named := if withName then peelName rest else ⟨none, false, none, rest⟩
  { types := types.map String.ofList
    name := named.name.map String.ofList
    description := describe named.rest
    optional := named.optional
    defaultValue := named.defaultValue.map String.ofList }

end TypedValue

end DocComment
