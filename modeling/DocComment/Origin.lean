import DocComment.Text.Lowercase

/-!
# Origin of a comment

Where a comment was found, and what code follows it. Facts arrive in patches; a fact that a patch
leaves out, or leaves empty, stays as it was.

- `Origin` - file, line and code.
- `Origin.merge` - an origin with a patch applied.
- `Origin.location` - file and line as messages show them.
- `Code.kindOfType` - the kind of symbol that a type of code suggests.
-/

namespace DocComment

/-- A text, unless it is missing or empty. -/
def presentText (s : Option String) : Option String :=
  s.filter fun t => !t.isEmpty

/-- What is known of the code behind a comment. -/
structure Code where
  /-- The identifier of its node. -/
  id : Option String := none
  /-- Its name. -/
  name : Option String := none
  /-- Its syntactic type. -/
  type : Option String := none
  /-- Its value. -/
  val : Option String := none
  deriving DecidableEq, Repr

namespace Code

/-- Whether nothing is known of the code: no fact of it is a `presentText`. -/
def isEmpty (c : Code) : Bool :=
  (presentText c.id).isNone && (presentText c.name).isNone && (presentText c.type).isNone &&
    (presentText c.val).isNone

/-- `c` with every fact that `d` holds; a fact that is no `presentText` is not held. -/
def merge (c d : Code) : Code where
  id := (presentText d.id).or c.id
  name := (presentText d.name).or c.name
  type := (presentText d.type).or c.type
  val := (presentText d.val).or c.val

/-- The types of callable code, in small letters. -/
def callableTypes : List String :=
  ["function", "functiondeclaration", "functionexpression", "arrowfunctionexpression"]

/-- The **kind of symbol** that a type of code suggests: a function if the code can be called, a
property otherwise. -/
def kindOfType (type : Option String) : String :=
  if callableTypes.contains (Text.lower (type.getD "")) then "function" else "property"

end Code

/-- Where a comment was found and what code follows it. -/
structure Origin where
  /-- The line. -/
  lineno : Option Int := none
  /-- The file. -/
  filename : Option String := none
  /-- The code behind the comment. -/
  code : Code := {}
  deriving DecidableEq, Repr

namespace Origin

/-- Facts to be written over those of an `Origin`. The identifier of the code may be given beside
the code. -/
structure Patch where
  /-- The line. -/
  lineno : Option Int := none
  /-- The file. -/
  filename : Option String := none
  /-- The identifier of the code. -/
  id : Option String := none
  /-- The code. -/
  code : Code := {}
  deriving DecidableEq, Repr

/-- The line of an origin, unless it is missing or zero. -/
def presentLine (n : Option Int) : Option Int :=
  n.filter fun n => n != 0

/-- An origin **with a patch applied**; an identifier inside the code wins over one beside it. -/
def merge (o : Origin) (p : Patch) : Origin where
  lineno := (presentLine p.lineno).or o.lineno
  filename := (presentText p.filename).or o.filename
  -- Beside the code first, so that an identifier inside it is written over that.
  code := (o.code.merge { id := p.id }).merge p.code

/-- All facts of an origin as a `Patch`. -/
def toPatch (o : Origin) : Patch where
  lineno := o.lineno
  filename := o.filename
  id := o.code.id
  code := { o.code with id := none }

/-- File and line as messages show them; nothing without a file. -/
def location (o : Origin) : String :=
  match presentText o.filename, presentLine o.lineno with
  | none, _ => ""
  | some file, some line => s!"{file}:{line}"
  | some file, none => file

end Origin

end DocComment
