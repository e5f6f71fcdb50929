import DocComment.Doclet.Operation

/-!
# What a tag does to a doclet

The standard tags follow a list of `Rule`s. Tags defined elsewhere carry a `Program`: whatever may
be done with a tag and a doclet as long as the doclet is changed through its own methods only. A
program is a function that says what to do next (`Program.next`), given the tag, the doclet as it
was found, and what every request so far has led to (`Sight`). So it may branch, loop, compute
texts, write lists that it read or made, add further tags, and go on after a request that failed.

- `Rule` - what a standard tag does.
- `View` - all of a doclet that a program can look at.
- `Request`, `Move`, `Program` - what a program can ask for, its next move, and the program itself;
  `Program.inOrder` - the simplest kind.
- `Hook` - rules or a program.
-/

namespace DocComment

/-- What a standard tag does to the doclet it stands in. -/
inductive Rule where
  /-- The title becomes the kind. -/
  | kindFromTitle
  /-- The name in the value, or the value itself, becomes the name. -/
  | nameFromValue
  /-- The value, quoted where it has to be, becomes the name. -/
  | quotedNameFromValue
  /-- The title becomes the scope. -/
  | scopeFromTitle
  /-- The title becomes the access. -/
  | accessFromTitle
  /-- The value in small letters becomes the access. -/
  | accessFromValue
  /-- The types in the value become the type. -/
  | typeFromValue
  /-- The value becomes the owner. -/
  | memberofFromValue
  /-- The scope becomes global and the owner is dropped. -/
  | makeGlobal
  /-- The value, freed of braces, is added to the bases. -/
  | augmentFromValue
  /-- The text tells what is borrowed, and under what name. -/
  | borrowFromText
  /-- The doclet is to be ignored. -/
  | markIgnored
  /-- The value, if there is one, says why the symbol is deprecated. -/
  | markDeprecated
  /-- The doclet describes a whole file, whose name is kept as it is. -/
  | describeFile
  /-- The value is written to a field, unless it is empty. -/
  | fieldFromValue (f : Field)
  /-- The value is added to a list. -/
  | appendValue (f : Field)
  deriving DecidableEq, Repr

/-- What a program **sees of a doclet**. The dictionary is the same all the time, so it is left
out. -/
structure View where
  /-- The comment it was made from. -/
  comment : String
  /-- Where the comment was found. -/
  origin : Origin
  /-- Whether the name is kept as it is. -/
  preserveName : FieldValue
  /-- Whether unknown tags are remarked upon. -/
  warnUnknown : FieldValue
  /-- The values of the fields. -/
  fields : Field → FieldValue
  /-- Whether operations are logged. -/
  recording : Bool
  /-- The operations logged so far. -/
  operations : List Operation

/-- What a program can **ask of a doclet**. -/
inductive Request where
  /-- A setter makes an operation. -/
  | change (op : Operation)
  /-- A further tag is added. -/
  | addTag (title text : FieldValue)
  /-- A value is assigned past the log. -/
  | assign (slot : Slot) (value : FieldValue)

/-- What a program learns from a request: the result or the fault, and the doclet as it is then. -/
structure Sight where
  /-- How the request ended. -/
  outcome : Except DocletFault FieldValue
  /-- The doclet afterwards. -/
  view : View

/-- The next move of a `Program`. -/
inductive Move where
  /-- It is done, and leaves the tag as `t`. -/
  | stop (t : Tag)
  /-- It gives up. -/
  | fail (fault : DocletFault)
  /-- It makes a request. -/
  | ask (request : Request)

/-- A **program** that runs when a doclet meets a tag. -/
structure Program where
  /-- The next move, given the tag, the doclet as it was found, and what was seen since. -/
  next : Tag → View → List Sight → Move

/-- A `Program` that makes its requests **in order**, each in view of the doclet as it is then, and
gives up with the first that fails. -/
def Program.inOrder (requests : List (Tag → View → Request)) : Program where
  next t found seen :=
    match seen.getLast? with
    | some ⟨.error fault, _⟩ => .fail fault
    | last =>
      -- What was seen tells how far the program is.
      match requests[seen.length]? with
      | some request => .ask (request t ((last.map (·.view)).getD found))
      | none => .stop t

/-- What happens when a doclet meets a tag. -/
inductive Hook where
  /-- The rules of a standard tag. -/
  | rules (rs : List Rule)
  /-- The program of a tag defined elsewhere. -/
  | program (p : Program)

end DocComment
