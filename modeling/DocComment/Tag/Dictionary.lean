import DocComment.Namepath.Namespaced
import DocComment.Table
import DocComment.Tag.Hook

/-!
# The tag dictionary

A dictionary knows tags by their titles. A synonym leads to a canonical title
(`Dictionary.normalize`); a canonical title leads to a `Definition`. The dictionary also knows which
kinds of symbols have a name space of their own (`Dictionary.isNamespace`).

- `Definition` - how a tag is read and what it does.
- `Dictionary.lookup` - what a title leads to; `Dictionary.find?` - the definition behind a title.
- `Dictionary.define`, `Dictionary.addSynonym`, `Dictionary.addNamespace` - ways to extend it;
  `Dictionary.Change` - one of them.
-/

namespace DocComment

/-- How a tag is recognised, how its text is read, and what it does to a doclet. -/
structure Definition where
  /-- The canonical title. -/
  title : String
  /-- What the tag does. -/
  hook : Option Hook := none
  /-- Other titles for the same tag. -/
  synonyms : List String := []
  /-- The text may start with a type. -/
  canHaveType : Bool := false
  /-- The text may hold a name. -/
  canHaveName : Bool := false
  /-- Blanks at the ends of the text are kept, line ends apart. -/
  keepsBlanks : Bool := false
  /-- A tag without text is remarked upon. -/
  needsValue : Bool := false
  /-- A tag with text is remarked upon. -/
  refusesValue : Bool := false
  /-- The title is a kind with a name space of its own. -/
  hasNamespace : Bool := false
  /-- Names of this kind are quoted where they have to be. -/
  quotesName : Bool := false

/-- What a title leads to. -/
inductive Lookup where
  /-- The definition of a tag. -/
  | known (definition : Definition)
  /-- Nothing; the title is kept as it was written. -/
  | unknown (title : String)

namespace Lookup

/-- The canonical title of a known tag, or the unknown title itself. -/
def title : Lookup → String
  | known definition => definition.title
  | unknown title => title

/-- The definition of a known tag. -/
def definition? : Lookup → Option Definition
  | known definition => some definition
  | unknown _ => none

/-- Whether there is a definition. -/
def isKnown : Lookup → Bool
  | known _ => true
  | unknown _ => false

end Lookup

/-- What the code of an extension raised. -/
structure Raised where
  /-- What it says. -/
  message : String
  /-- Whether it is of the kinds that settings, dictionaries and files raise. -/
  isExpected : Bool
  deriving DecidableEq, Repr

/-- Why no usable dictionary could be made. -/
inductive DictionaryError where
  /-- A synonym was to lead to a title that is not defined. -/
  | undefinedTitle (synonym title : String)
  /-- An extension could not be loaded. -/
  | extensionFailed (name reason : String)
  /-- An extension is no definer of tags. -/
  | extensionNotCallable (name : String)
  /-- An extension raised something of its own. -/
  | extensionRaised (e : Raised)
  /-- Something else was given in place of a dictionary. -/
  | notDictionary (found : String)
  deriving DecidableEq, Repr

/-- A **dictionary** of tags. -/
structure Dictionary where
  /-- The definitions, each at its title. -/
  definitions : Table String Definition
  /-- The canonical title behind each synonym. -/
  synonyms : Table String String
  /-- The kinds with a name space of their own. -/
  namespaces : List String

namespace Dictionary

/-- The dictionary that knows nothing. -/
def empty : Dictionary := ⟨.empty, .empty, []⟩

/-- The **canonical title** behind a title; an unknown title is its own. -/
def normalize (d : Dictionary) (title : String) : String :=
  (d.synonyms.get? title).getD title

/-- The **definition** behind a title. -/
def find? (d : Dictionary) (title : String) : Option Definition :=
  d.definitions.get? (d.normalize title)

/-- What a title **leads to**. -/
def lookup (d : Dictionary) (title : String) : Lookup :=
  match d.find? title with
  | some definition => .known definition
  | none => .unknown title

/-- Whether a title is known: `find?` has a definition for it. -/
def contains (d : Dictionary) (title : String) : Bool :=
  (d.find? title).isSome

/-- The dictionary with the kind `kind` given a name space. -/
def addNamespace (d : Dictionary) (kind : String) : Dictionary :=
  if d.namespaces.contains kind then d else { d with namespaces := d.namespaces ++ [kind] }

/-- The dictionary with `definition` registered, and its synonyms; an earlier one of the same title
is replaced. -/
def define (d : Dictionary) (definition : Definition) : Dictionary :=
  let d := { d with
    definitions := d.definitions.insert definition.title definition
    synonyms := definition.synonyms.foldl (fun t s => t.insert s definition.title) d.synonyms }
  -- A name space is never taken away again, even if the new definition has none.
  if definition.hasNamespace then d.addNamespace definition.title else d

/-- The dictionary with a further synonym, which must lead to a known title; the title may be a
synonym itself (`normalize`). -/
def addSynonym (d : Dictionary) (synonym title : String) : Except DictionaryError Dictionary :=
  let canonical := d.normalize title
  if d.definitions.contains canonical then
    .ok { d with synonyms := d.synonyms.insert synonym canonical }
  else .error (.undefinedTitle synonym title)

/-- Whether symbols of a kind carry the kind in front of their names: it is among the `namespaces`.
-/
def isNamespace (d : Dictionary) (kind : String) : Bool :=
  !kind.isEmpty && d.namespaces.contains kind

/-- A name of a symbol of the kind `kind`, quoted if the kind asks for it and the name needs it
(`Namepath.quoteUnsafe`). -/
def quoteName (d : Dictionary) (kind name : String) : String :=
  match d.find? kind with
  | some definition => if definition.quotesName then Namepath.quoteUnsafe name else name
  | none => name

/-- The canonical titles in the order of their definition. -/
def titles (d : Dictionary) : List String :=
  d.definitions.keys

/-- The canonical titles in alphabetic order. -/
def sortedTitles (d : Dictionary) : List String :=
  d.titles.mergeSort fun a b => decide (a ≤ b)

/-- The number of definitions. -/
def size (d : Dictionary) : Nat :=
  d.definitions.size

/-- The dictionary with several definitions registered by `define`, one after another. -/
def defineAll (d : Dictionary) (definitions : List Definition) : Dictionary :=
  definitions.foldl define d

/-- A change of a dictionary. -/
inductive Change where
  /-- A definition is registered. -/
  | define (definition : Definition)
  /-- A synonym is added. -/
  | addSynonym (synonym title : String)
  /-- A kind is given a name space. -/
  | addNamespace (kind : String)

/-- The dictionary that a `Change` makes, unless it is refused. -/
def Change.run (d : Dictionary) : Change → Except DictionaryError Dictionary
  | define definition => .ok (d.define definition)
  | addSynonym synonym title => d.addSynonym synonym title
  | addNamespace kind => .ok (d.addNamespace kind)

/-- The dictionary **after a change**; one that is refused leaves it as it is. -/
def after (d : Dictionary) (c : Change) : Dictionary :=
  (c.run d).toOption.getD d

end Dictionary

end DocComment
