import DocComment.Doclet.FieldValue

/-!
# Operations on fields

Every change that tags make to the fields of a doclet is an `Operation`. A step on a doclet can
fail: a hook can give up or never end, and a value can stand where one of another kind is needed. A
`DocletFault` says what was the matter and, in the latter cases, of what kind the value was.

- `Operation` - a change of a field; `Operation.field`, `Operation.value` - what it changes, and to
  what.
- `DocletFault` - why a step failed; `DocletFault.message` - the same in words.
-/

namespace DocComment

/-- A change of a field. -/
inductive Operation where
  /-- Writes a field. -/
  | set (f : Field) (value : FieldValue)
  /-- Adds to a list. -/
  | append (f : Field) (value : FieldValue)
  /-- Sets the owner. -/
  | memberof (value : FieldValue)
  /-- Sets the name path, with the name space of the kind. -/
  | longname (value : FieldValue)
  deriving Repr

namespace Operation

/-- The field that an operation changes. -/
def field : Operation → Field
  | set f _ => f
  | append f _ => f
  | memberof _ => .memberof
  | longname _ => .longname

/-- The value that an operation writes. -/
def value : Operation → FieldValue
  | set _ v => v
  | append _ v => v
  | memberof v => v
  | longname v => v

/-- The operation with another `value`. -/
def withValue (v : FieldValue) : Operation → Operation
  | set f _ => .set f v
  | append f _ => .append f v
  | memberof _ => .memberof v
  | longname _ => .longname v

/-- Whether an operation adds to a list: it is an `append`. -/
def isAppend : Operation → Bool
  | append _ _ => true
  | _ => false

/-- The operation that borrows `source`, under the name `target` if that is not empty. -/
def borrowing (source target : FieldValue) : Operation :=
  .append .borrowed (.borrowed source (if target.isEmpty then source else target))

/-- The operation that adds a base, to the field `augments`. -/
def augmenting (base : FieldValue) : Operation :=
  .append .augments base

@[simp] theorem field_withValue (op : Operation) (v : FieldValue) :
    (op.withValue v).field = op.field := by
  cases op <;> rfl

@[simp] theorem value_withValue (op : Operation) (v : FieldValue) :
    (op.withValue v).value = v := by
  cases op <;> rfl

@[simp] theorem withValue_value (op : Operation) : op.withValue op.value = op := by
  cases op <;> rfl

@[simp] theorem withValue_withValue (op : Operation) (v w : FieldValue) :
    (op.withValue v).withValue w = op.withValue w := by
  cases op <;> rfl

end Operation

/-- Why a step on a doclet failed. -/
inductive DocletFault where
  /-- A hook gave up. -/
  | raised (message : String)
  /-- A hook never ends. -/
  | endless
  /-- An item was to be added to what is no list. -/
  | cannotGrow (kind : ValueKind)
  /-- The text of a tag is none, and so cannot be trimmed. -/
  | cannotTrim (kind : ValueKind)
  /-- A text was to be searched, and there is none. -/
  | notText (kind : ValueKind)
  /-- A value was to be looked up that cannot be. -/
  | notKey (kind : ValueKind)
  /-- A name path was to be put together with what is no text. -/
  | notJoinable (kind : ValueKind)
  /-- The items of what has none were to be printed. -/
  | notListed (kind : ValueKind)
  /-- A value was to be printed that has no printed form. -/
  | notPrintable (kind : ValueKind)
  /-- A number was to be printed that has too many digits. -/
  | tooLong
  /-- A list was to be printed that is among its own items. -/
  | circular
  deriving DecidableEq, Repr

/-- A `DocletFault` in words. -/
def DocletFault.message : DocletFault → String
  | raised message => message
  | endless => "maximum recursion depth exceeded"
  | cannotGrow kind => s!"'{kind.word}' object has no attribute 'append'"
  | cannotTrim kind => s!"'{kind.word}' object has no attribute 'strip'"
  | notText kind => s!"expected string or bytes-like object, got '{kind.word}'"
  | notKey kind => s!"unhashable type: '{kind.word}'"
  | notJoinable kind => s!"can only concatenate str (not \"{kind.word}\") to str"
  | notListed kind => s!"'{kind.word}' object is not iterable"
  | notPrintable kind => s!"Object of type {kind.word} is not JSON serializable"
  | tooLong => Text.tooManyDigitsText
  | circular => "Circular reference detected"

end DocComment
