import DocComment.Doclet.Field
import DocComment.Tag.Basic

/-!
# Values of fields

What a field of a doclet can hold: nothing, a text, a truth value, a number, a typed value, a tag, a
pair of borrowed names, a list or a record. Hooks and callers may write any of these to any field,
so all fields share one type of values.

A list can be held in several places at once: whoever reads a list from one field and writes it to
another makes both fields hold *the same* list, and what is added through one of them shows in both.
So every list that a doclet keeps carries a `ListKey`, and `FieldValue.extend` adds to the list with
a key wherever it occurs: in a field, in another list, in a record, or as the types of a typed value
or a tag. A list without a key is a new one; `FieldValue.settle` gives it a key when it comes into
the keeping of a doclet.

- `FieldValue` - the values; `ListKey` - which list a list is.
- `FieldValue.extend` - a value after an item was added to one of the lists in it.
- `FieldValue.keys` - the lists in a value; `FieldValue.settle` - a value whose new lists have got
  their keys.
- `FieldValue.isEmpty` - the values that count as nothing.
- `FieldValue.display` - a value as a message shows it; `FieldValue.toJson` - its printed form.
-/

namespace DocComment

open DocComment.Text

/-- **Which list** of a doclet a list is. -/
structure ListKey where
  /-- The place that it was started in. -/
  home : Slot
  /-- How many lists had been started there before. -/
  place : Nat
  deriving DecidableEq, Repr

/-- How many lists count as started in the place `home`, of which there were `n`, once the list with
the key `key` is kept. -/
def ListKey.past (key : ListKey) (home : Slot) (n : Nat) : Nat :=
  if key.home = home then max n (key.place + 1) else n

/-- What a field can hold. -/
inductive FieldValue where
  /-- Nothing. -/
  | absent
  /-- A text. -/
  | text (s : String)
  /-- A truth value. -/
  | flag (b : Bool)
  /-- A whole number. -/
  | number (n : Int)
  /-- A number with a point, as it is shown. -/
  | decimal (shown : String)
  /-- Types, name and description, as a tag gives them; the types are a list of their own. -/
  | typed (types : FieldValue) (name description : Option String) (optional : Bool)
      (defaultValue : Option String)
  /-- A tag, with its value. -/
  | tag (t : Tag) (value : FieldValue)
  /-- An unknown tag whose title is no text. -/
  | strayTag (title : FieldValue) (text : String)
  /-- A symbol that is reused, and the name it gets. -/
  | borrowed (source target : FieldValue)
  /-- A list of values, with its key if a doclet keeps it. -/
  | list (key : Option ListKey) (items : List FieldValue)
  /-- Named values. -/
  | record (members : List (String × FieldValue))
  deriving Repr

/-- The kinds of values that a `DocletFault` tells apart. -/
inductive ValueKind where
  /-- Nothing at all. -/
  | nothing
  /-- Texts. -/
  | text
  /-- Truth values. -/
  | flag
  /-- Whole numbers. -/
  | number
  /-- Numbers with a point. -/
  | decimal
  /-- Types with names and descriptions. -/
  | typed
  /-- Tags. -/
  | tag
  /-- Pairs of borrowed names. -/
  | borrowed
  /-- Lists. -/
  | list
  /-- Records. -/
  | record
  deriving DecidableEq, Repr

/-- The word for a `ValueKind` in messages. -/
def ValueKind.word : ValueKind → String
  | nothing => "NoneType"
  | text => "str"
  | flag => "bool"
  | number => "int"
  | decimal => "float"
  | typed => "TagValue"
  | tag => "Tag"
  | borrowed => "Borrowed"
  | list => "list"
  | record => "dict"

namespace FieldValue

instance : Inhabited FieldValue := ⟨.absent⟩

/-- A `text`, or `absent`. -/
def ofText? : Option String → FieldValue
  | some s => .text s
  | none => .absent

/-- A list of texts that is still new: it has no `ListKey`. -/
def ofTexts (texts : List String) : FieldValue :=
  .list none (texts.map .text)

/-- The `Tag.Value` of a tag as the value of a field. -/
def ofTagValue : Tag.Value → FieldValue
  | .plain s => .text s
  | .typed v => .typed (ofTexts v.types) v.name v.description v.optional v.defaultValue

/-- A `Tag` as the value of a field. -/
def ofTag (t : Tag) : FieldValue :=
  .tag t (ofTagValue t.value)

/-- The kind of a value. -/
def kind : FieldValue → ValueKind
  | absent => .nothing
  | text _ => .text
  | flag _ => .flag
  | number _ => .number
  | decimal _ => .decimal
  | typed .. => .typed
  | tag _ _ => .tag
  | strayTag _ _ => .tag
  | borrowed _ _ => .borrowed
  | list _ _ => .list
  | record _ => .record

/-- Whether a value **counts as nothing**: absent, an empty text, false, zero, or an empty list or
record. -/
def isEmpty : FieldValue → Bool
  | absent => true
  | text s => s.isEmpty
  | flag b => !b
  | number n => n == 0
  | decimal shown => shown == "0.0" || shown == "-0.0"
  | list _ items => items.isEmpty
  | record members => members.isEmpty
  | _ => false

/-- Whether a value is absent. -/
def isAbsent : FieldValue → Bool
  | absent => true
  | _ => false

/-- Why a value cannot be looked up among titles, kinds and scopes: it can be added to, or is made
of what can. -/
def unkeyed? : FieldValue → Option ValueKind
  | typed .. => some .typed
  | list _ _ => some .list
  | record _ => some .record
  | borrowed source target => (unkeyed? source).or (unkeyed? target)
  | _ => none

/-- Whether a value can be looked up among titles, kinds and scopes: nothing makes it `unkeyed?`. -/
def isKey (v : FieldValue) : Bool :=
  v.unkeyed?.isNone

/-- The items of a list; other values have none. -/
def items : FieldValue → List FieldValue
  | list _ items => items
  | _ => []

/-! ### Adding to a list -/

mutual

/-- A value **after `item` was added** to the list with the key `key`, wherever that list occurs in
it. -/
def extend (key : ListKey) (item : FieldValue) : FieldValue → FieldValue
  | list k items =>
    -- The items take the addition in as well: a list may be among its own items.
    .list k (extendItems key item items ++ (if k = some key then [item] else []))
  | typed types name description optional defaultValue =>
    .typed (extend key item types) name description optional defaultValue
  | tag t value => .tag t (extend key item value)
  | strayTag title s => .strayTag (extend key item title) s
  | borrowed source target => .borrowed (extend key item source) (extend key item target)
  | record members => .record (extendMembers key item members)
  | v => v

/-- The items of a list after `item` was added to the list with the key `key`, each by `extend`. -/
def extendItems (key : ListKey) (item : FieldValue) : List FieldValue → List FieldValue
  | [] => []
  | v :: more => extend key item v :: extendItems key item more

/-- The members of a record after `item` was added to the list with the key `key`. -/
def extendMembers (key : ListKey) (item : FieldValue) :
    List (String × FieldValue) → List (String × FieldValue)
  | [] => []
  | (name, v) :: more => (name, extend key item v) :: extendMembers key item more

end

/-! ### Keys of lists -/

mutual

/-- The **keys of the lists in a value**. -/
def keys : FieldValue → List ListKey
  | list key items => key.toList ++ keysOfItems items
  | typed types _ _ _ _ => keys types
  | tag _ value => keys value
  | strayTag title _ => keys title
  | borrowed source target => keys source ++ keys target
  | record members => keysOfMembers members
  | _ => []

/-- The keys of the lists in the items of a list. -/
def keysOfItems : List FieldValue → List ListKey
  | [] => []
  | v :: more => keys v ++ keysOfItems more

/-- The keys of the lists in the members of a record. -/
def keysOfMembers : List (String × FieldValue) → List ListKey
  | [] => []
  | (_, v) :: more => keys v ++ keysOfMembers more

end

mutual

/-- A value whose **new lists have got keys** of the place `home`, in which `n` lists were started
before, and how many there are then. A list that has a key keeps it. -/
def settle (home : Slot) (n : Nat) : FieldValue → FieldValue × Nat
  | list key items =>
    let own := key.getD ⟨home, n⟩
    -- The list takes its key before the lists in it do.
    let settled := settleItems home (own.past home n) items
    (.list (some own) settled.1, settled.2)
  | typed types name description optional defaultValue =>
    let settled := settle home n types
    (.typed settled.1 name description optional defaultValue, settled.2)
  | tag t value =>
    let settled := settle home n value
    (.tag t settled.1, settled.2)
  | strayTag title s =>
    let settled := settle home n title
    (.strayTag settled.1 s, settled.2)
  | borrowed source target =>
    let settledSource := settle home n source
    let settledTarget := settle home settledSource.2 target
    (.borrowed settledSource.1 settledTarget.1, settledTarget.2)
  | record members =>
    let settled := settleMembers home n members
    (.record settled.1, settled.2)
  | v => (v, n)

/-- The items of a list with keys for the new lists in them, each by `settle`. -/
def settleItems (home : Slot) (n : Nat) : List FieldValue → List FieldValue × Nat
  | [] => ([], n)
  | v :: more =>
    let first := settle home n v
    let rest := settleItems home first.2 more
    (first.1 :: rest.1, rest.2)

/-- The members of a record with keys for the new lists in them. -/
def settleMembers (home : Slot) (n : Nat) :
    List (String × FieldValue) → List (String × FieldValue) × Nat
  | [] => ([], n)
  | (name, v) :: more =>
    let first := settle home n v
    let rest := settleMembers home first.2 more
    ((name, first.1) :: rest.1, rest.2)

end

/-! ### As messages show values -/

/-- A truth value as messages show it. -/
def displayFlag (b : Bool) : String :=
  if b then "True" else "False"

/-- A text in quotes, or the word for none. -/
def quotedText? : Option String → String
  | some s => quoted s
  | none => "None"

mutual

/-- A value inside another one, texts in quotes; `display` is for one by itself. -/
def displayQuoted : FieldValue → String
  | absent => "None"
  | text s => quoted s
  | flag b => displayFlag b
  | number n => toString n
  | decimal shown => shown
  | typed types name description optional defaultValue =>
    "TagValue(type=" ++ displayQuoted types ++ s!", name={quotedText? name}, " ++
      s!"description={quotedText? description}, optional={displayFlag optional}, " ++
      s!"default_value={quotedText? defaultValue})"
  | tag t _ => t.display
  | strayTag title s => "Tag(title=" ++ displayQuoted title ++ ", text=" ++ quoted s ++ ")"
  | borrowed source target =>
    "Borrowed(from_=" ++ displayQuoted source ++ ", as_=" ++ displayQuoted target ++ ")"
  | list _ items => "[" ++ ", ".intercalate (displayItems items) ++ "]"
  | record members => "\x7b" ++ ", ".intercalate (displayMembers members) ++ "\x7d"

/-- The items of a list, texts in quotes. -/
def displayItems : List FieldValue → List String
  | [] => []
  | item :: more => displayQuoted item :: displayItems more

/-- The members of a record, texts in quotes. -/
def displayMembers : List (String × FieldValue) → List String
  | [] => []
  | (key, value) :: more => (quoted key ++ ": " ++ displayQuoted value) :: displayMembers more

end

/-- A value **as messages show it**; a text is shown as it is. -/
def display : FieldValue → String
  | text s => s
  | v => v.displayQuoted

/-! ### Printed form -/

mutual

/-- The **printed form** of a value. -/
def toJson : FieldValue → Json
  | absent => .null
  | text s => .string s
  | flag b => .bool b
  | number n => .number n
  | decimal shown => .decimal shown
  | typed types name description optional defaultValue =>
    .object <|
      (if types.isEmpty then [] else [("type", types.toJson)]) ++
        TypedValue.partMembers name description optional defaultValue
  | tag t value =>
    .object <| t.headMembers ++ (if value.isEmpty then [] else [("value", value.toJson)])
  | strayTag title s =>
    .object <|
      [("title", title.toJson)] ++
        (if s.isEmpty then [] else [("text", .string s), ("value", .string s)])
  | borrowed source target => .object [("from", source.toJson), ("as", target.toJson)]
  | list _ items => .array (itemsToJson items)
  | record members => .object (membersToJson members)

/-- The printed forms of the items of a list. -/
def itemsToJson : List FieldValue → List Json
  | [] => []
  | item :: more => item.toJson :: itemsToJson more

/-- The printed forms of the members of a record. -/
def membersToJson : List (String × FieldValue) → List (String × Json)
  | [] => []
  | (key, value) :: more => (key, value.toJson) :: membersToJson more

end

/-! ### Small facts -/

@[simp] theorem isEmpty_text (s : String) : (FieldValue.text s).isEmpty = s.isEmpty := rfl

@[simp] theorem isEmpty_absent : FieldValue.absent.isEmpty = true := rfl

@[simp] theorem display_text (s : String) : (FieldValue.text s).display = s := by
  simp [display]

@[simp] theorem extend_absent (key : ListKey) (item : FieldValue) :
    extend key item .absent = .absent := by
  simp [extend]

@[simp] theorem extend_text (key : ListKey) (item : FieldValue) (s : String) :
    extend key item (.text s) = .text s := by
  simp [extend]

/-- By `extend` an item is added at the end of a list, after its items have taken the addition in.
-/
@[simp] theorem extend_list_same (key : ListKey) (item : FieldValue) (items : List FieldValue) :
    extend key item (.list (some key) items) =
      .list (some key) (extendItems key item items ++ [item]) := by
  simp [extend]

end FieldValue

end DocComment
