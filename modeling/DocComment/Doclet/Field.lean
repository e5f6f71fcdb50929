/-!
# Fields of a doclet

A doclet has fifteen fields that hold one value each (`Field.scalars`) and eight that hold lists
(`Field.lists`). Their keys (`Field.key`) are the words by which the printed form names them.
Besides its fields a doclet has two switches, and a `Slot` is either.
-/

namespace DocComment

/-- A field of a doclet. -/
inductive Field where
  | name
  | longname
  | memberof
  | scope
  | kind
  | description
  | variation
  | access
  | type
  | since
  | version
  | author
  | deprecated
  | ignore
  | otherName
  | tags
  | borrowed
  | augments
  | params
  | returns
  | examples
  | see
  | requires
  deriving DecidableEq, Repr

namespace Field

/-- The word for a `Field` in the printed form. -/
def key : Field → String
  | name => "name"
  | longname => "longname"
  | memberof => "memberof"
  | scope => "scope"
  | kind => "kind"
  | description => "description"
  | variation => "variation"
  | access => "access"
  | type => "type"
  | since => "since"
  | version => "version"
  | author => "author"
  | deprecated => "deprecated"
  | ignore => "ignore"
  | otherName => "alias"
  | tags => "tags"
  | borrowed => "borrowed"
  | augments => "augments"
  | params => "params"
  | returns => "returns"
  | examples => "examples"
  | see => "see"
  | requires => "requires"

/-- The fields that hold one value. -/
def scalars : List Field :=
  [name, longname, memberof, scope, kind, description, variation, access, type, since, version,
   author, deprecated, ignore, otherName]

/-- The fields that hold a list. -/
def lists : List Field :=
  [tags, borrowed, augments, params, returns, examples, see, requires]

/-- All fields, the `scalars` before the `lists`. -/
def all : List Field :=
  scalars ++ lists

/-- The field that a word names, by its `key`. -/
def ofKey? (s : String) : Option Field :=
  all.find? fun f => f.key == s

@[simp] theorem ofKey?_key (f : Field) : ofKey? f.key = some f := by
  cases f <;> rfl

end Field

/-- A place that can hold a value: a field, or one of the doclet's two switches. -/
inductive Slot where
  /-- A field. -/
  | field (f : Field)
  /-- Whether the name is kept as it is. -/
  | preserveName
  /-- Whether unknown tags are remarked upon. -/
  | warnUnknown
  deriving DecidableEq, Repr

instance : Coe Field Slot := ⟨.field⟩

end DocComment
