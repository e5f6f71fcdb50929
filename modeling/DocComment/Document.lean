import DocComment.Text.CharClass

/-!
# Documents

Settings are written in a document. How documents are written is not the program's business: a
`Reader` makes a `Value` of the text of a document, or says what is wrong. The program asks a value
only for what settings need, and a value keeps no more than that. Of numbers with a point, dates and
sets it has the text that shows them; of bytes the numbers they are as well.

Texts are made of characters. Where a reader lets half of a surrogate pair into a text, the null
character stands for it: neither of them can be in a path.

- `Scalar`, `Value` - what documents hold; `Value.scalars` - all single values in one.
- `Fault` - why there is no value; `Reader` - what reads documents.
- `Scalar.toText?` - a single value as text.
-/

namespace DocComment.Document

/-- A **single value**. -/
inductive Scalar where
  /-- No value. -/
  | null
  /-- A truth value. -/
  | flag (b : Bool)
  /-- A whole number. -/
  | number (n : Int)
  /-- A number with a point, as it is shown. -/
  | decimal (shown : String)
  /-- A text. -/
  | text (s : String)
  /-- Bytes, and how they are shown. -/
  | bytes (bytes : List UInt8) (shown : String)
  /-- Anything else, such as a date, as it is shown. -/
  | other (shown : String)
  deriving DecidableEq, Repr

/-- A **value**: what a document says. -/
inductive Value where
  /-- A single value. -/
  | scalar (s : Scalar)
  /-- A list. -/
  | list (items : List Value)
  /-- Keys and values. -/
  | mapping (entries : List (Scalar × Value))
  deriving Repr

/-- Why a text has no `Value`. -/
inductive Fault where
  /-- It is no document, for a reason that the reader gives. -/
  | malformed (reason : String)
  /-- The reader failed in another way, which the program does not reckon with. -/
  | raised (reason : String)
  deriving DecidableEq, Repr

/-- What **reads documents**: a text becomes a `Value`, or there is a `Fault`. -/
abbrev Reader := String → Except Fault Value

namespace Scalar

/-- A single value **as text**; a number that is too long (`Text.hasTooManyDigits`) has none. -/
def toText? : Scalar → Option String
  | null => some "None"
  | flag b => some (if b then "True" else "False")
  | number n => if Text.hasTooManyDigits n then none else some (toString n)
  | decimal shown => some shown
  | text s => some s
  | bytes _ shown => some shown
  | other shown => some shown

/-- Whether a single value may stand for a text: it is one, or a number, or a truth value. -/
def isWord : Scalar → Bool
  | flag _ | number _ | decimal _ | text _ => true
  | _ => false

/-- Whether a single value is the text `key`. -/
def isKey (key : String) : Scalar → Bool
  | text s => s == key
  | _ => false

end Scalar

namespace Value

mutual

/-- All **single values in a value**, the keys of mappings among them. -/
def scalars : Value → List Scalar
  | scalar s => [s]
  | list items => scalarsOfItems items
  | mapping entries => scalarsOfEntries entries

/-- The single values in the items of a list. -/
def scalarsOfItems : List Value → List Scalar
  | [] => []
  | item :: more => item.scalars ++ scalarsOfItems more

/-- The single values in the entries of a mapping. -/
def scalarsOfEntries : List (Scalar × Value) → List Scalar
  | [] => []
  | (key, value) :: more => key :: value.scalars ++ scalarsOfEntries more

end

/-- The entries of a value that is a `mapping`; all others have none. -/
def entriesOf : Option Value → List (Scalar × Value)
  | some (mapping entries) => entries
  | _ => []

/-- The value at a key of entries; keys that are no texts are passed over (`Scalar.isKey`). -/
def valueAt? (entries : List (Scalar × Value)) (key : String) : Option Value :=
  (entries.find? fun e => e.1.isKey key).map (·.2)

end Value

end DocComment.Document
