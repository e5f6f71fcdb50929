import DocComment.Doclet.Basic

/-!
# Steps on a doclet

A step on a doclet may fail. What it did before stays done, so a `DocletStep` carries the doclet
along with its fault. An operation is refused when its values are not of the kinds it needs
(`Doclet.refusal?`); it is in the log all the same.

- `DocletStep` - steps.
- `Doclet.refusal?` - why an operation is refused, if it is.
- `Doclet.attempt` - an operation performed, unless it is refused.
-/

namespace DocComment

/-- A step on a doclet that may fail; the doclet is carried on either way. -/
abbrev DocletStep := EStateM DocletFault Doclet

namespace Doclet

/-- Why a value cannot be the new name path: there is one, and the kind cannot be looked up, or has
a name space that only a text can take. -/
def longnameRefusal? (d : Doclet) (value : FieldValue) : Option DocletFault :=
  let kind := d.fields .kind
  if value.isEmpty then none
  -- The kind is looked up first, so its fault comes first.
  else if !kind.isKey && !kind.isEmpty then kind.unkeyed?.map .notKey
  else if d.hasNamespaceKind && value.kind != .text then some (.notText value.kind)
  else none

/-- Why nothing can be added to a value: it is there and no list. -/
def growthRefusal? : FieldValue → Option DocletFault
  | .absent => none
  | .list _ _ => none
  | v => some (.cannotGrow v.kind)

/-- **Why an operation is refused**, if it is. -/
def refusal? (d : Doclet) : Operation → Option DocletFault
  | .append f _ => growthRefusal? (d.fields f)
  | .longname value => d.longnameRefusal? value
  | _ => none

/-- An **operation performed**, unless it is refused by `refusal?`. -/
def attempt (op : Operation) : DocletStep Unit := do
  let d ← get
  match d.refusal? op with
  | none => set (d.perform op)
  | some fault =>
    -- What is refused is in the log all the same.
    set (d.record op)
    throw fault

/-- Operations performed by `attempt`, one after another; the first that is refused ends it. -/
def attemptAll : List Operation → DocletStep Unit
  | [] => pure ()
  | op :: more => do
    attempt op
    attemptAll more

/-! ### Setters -/

/-- A field written, by `Operation.set`. -/
def setField (f : Field) (value : FieldValue) : DocletStep Unit :=
  attempt (.set f value)

/-- An item added to a list, by `Operation.append`. -/
def appendField (f : Field) (value : FieldValue) : DocletStep Unit :=
  attempt (.append f value)

/-- The owner set, by `Operation.memberof`. -/
def setMemberof (value : FieldValue) : DocletStep Unit :=
  attempt (.memberof value)

/-- The name path set, by `Operation.longname`. -/
def setLongname (value : FieldValue) : DocletStep Unit :=
  attempt (.longname value)

/-- The documentation of `source` reused. -/
def borrow (source target : FieldValue) : DocletStep Unit :=
  attempt (.borrowing source target)

/-- One more base. -/
def augment (base : FieldValue) : DocletStep Unit :=
  attempt (.augmenting base)

/-! ### What an attempt comes to -/

/-- By `attempt` an operation that is not refused is performed. -/
theorem attempt_of_not_refused (d : Doclet) (op : Operation) (h : d.refusal? op = none) :
    attempt op d = .ok () (d.perform op) := by
  change (match d.refusal? op with
    | none => (set (d.perform op) : DocletStep Unit)
    | some fault => do
      set (d.record op)
      throw fault) d = _
  rw [h]
  rfl

/-- Writing a field is never refused. -/
@[simp] theorem refusal?_set (d : Doclet) (f : Field) (v : FieldValue) :
    d.refusal? (.set f v) = none := rfl

/-- Setting the owner is never refused. -/
@[simp] theorem refusal?_memberof (d : Doclet) (v : FieldValue) :
    d.refusal? (.memberof v) = none := rfl

end Doclet

end DocComment
