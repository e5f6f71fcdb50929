import DocComment.Tag.Dictionary

/-!
# Rules of the standard tags

A standard tag changes a doclet only through operations, and these depend on nothing but the tag,
the dictionary and the file that the comment was found in.

- `Rule.operations` - the operations of a rule.
-/

namespace DocComment

open DocComment.Text

namespace Rule

/-- The name that the value of a tag gives: the name among its parts, or the whole text. -/
def valueName? : Tag.Value → Option String
  | .typed v => presentText v.name
  | .plain s => presentText (some s)

/-- The types that a `Tag.Value` lists. -/
def valueTypes : Tag.Value → List String
  | .typed v => v.types
  | .plain _ => []

/-- Whether `c` is a brace. -/
def isBrace (c : Char) : Bool :=
  c == '\x7b' || c == '\x7d'

/-- What the text of a tag borrows, and under what name: a word, and behind the word *as* another
one. -/
def borrowedNames? (text : List Char) : Option (List Char × Option (List Char)) :=
  let word := fun cs : List Char => cs.takeWhile fun c => !isBlank c
  let source := word text
  if source.isEmpty then none
  else
    let rest := text.drop source.length
    match rest.dropWhile isBlank with
    | 'a' :: 's' :: behind =>
      let target := word (behind.dropWhile isBlank)
      -- Behind *as* there must be a blank, or it is the start of another word.
      if (behind.head?.map isBlank).getD false && !target.isEmpty then some (source, some target)
      else some (source, none)
    | _ => some (source, none)

/-- The `Operation`s of a rule, for a tag in a doclet read with `dictionary` and found in the file
`filename`. -/
def operations (dictionary : Dictionary) (filename : Option String) (t : Tag) :
    Rule → List Operation
  | .kindFromTitle => [.set .kind (.text t.title)]
  | .nameFromValue =>
    match valueName? t.value with
    | some name => [.set .name (.text name)]
    | none => []
  | .quotedNameFromValue =>
    let value := FieldValue.ofTagValue t.value
    if value.isEmpty then [] else [.set .name (.text (dictionary.quoteName t.title value.display))]
  | .scopeFromTitle => [.set .scope (.text t.title)]
  | .accessFromTitle => [.set .access (.text t.title)]
  | .accessFromValue =>
    let value := FieldValue.ofTagValue t.value
    if value.isEmpty then [] else [.set .access (.text (lower value.display))]
  | .typeFromValue =>
    let types := valueTypes t.value
    if types.isEmpty then [] else [.set .type (.list none (types.map .text))]
  | .memberofFromValue =>
    let value := FieldValue.ofTagValue t.value
    if value.isEmpty then [] else [.memberof (.text value.display)]
  | .makeGlobal => [.set .scope (.text "global"), .memberof .absent]
  | .augmentFromValue =>
    let value := FieldValue.ofTagValue t.value
    if value.isEmpty then []
    else [.append .augments (.text (String.ofList (stripChars isBrace value.display.toList)))]
  | .borrowFromText =>
    match borrowedNames? t.text.toList with
    | some (source, target) =>
      [.borrowing (.text (String.ofList source)) (.ofText? (target.map String.ofList))]
    | none => []
  | .markIgnored => [.set .ignore (.flag true)]
  | .markDeprecated =>
    let value := FieldValue.ofTagValue t.value
    [.set .deprecated (if value.isEmpty then .flag true else value)]
  | .describeFile =>
    let value := FieldValue.ofTagValue t.value
    [.set .kind (.text "file")] ++
      (match presentText filename with
        | some file => [.set .name (.text file)]
        | none => []) ++
      (if value.isEmpty then [] else [.set .description value])
  | .fieldFromValue f =>
    let value := FieldValue.ofTagValue t.value
    if value.isEmpty then [] else [.set f value]
  | .appendValue f => [.append f (FieldValue.ofTagValue t.value)]

/-- Whether a `Rule` keeps the name of the symbol as it is. -/
def keepsName : Rule → Bool
  | .describeFile => true
  | _ => false

end Rule

end DocComment
