import DocComment.Doclet.Operation
import DocComment.Log.Record
import DocComment.Tag.Dictionary

/-!
# Doclets

A doclet is the record of one documented symbol: the comment and its origin, and the fields that the
tags of the comment fill. Every change that the tags make is an `Operation`; operations are logged
in the order in which they happen, and applied as they are logged, so the last write wins.

The doclet gives a key to every list that comes into its keeping (`Doclet.adopt`). Adding to a list
shows wherever the list is held (`Doclet.extend`): in any field, in a logged operation, and in the
two switches.

- `Doclet` - the record; `Doclet.fields` - the values of its fields.
- `Doclet.perform` - a doclet after an operation, with the operation in its log.
- `Doclet.push` - a doclet with an item added to the list in a field.
- `Doclet.assign` - a doclet with a value assigned past the log.
- `Doclet.view` - what programs see of a doclet.
-/

namespace DocComment

/-! ### The record -/

/-- The **record of one documented symbol**. -/
structure Doclet where
  /-- The dictionary that its tags are read with. -/
  dictionary : Dictionary
  /-- The comment it was made from. -/
  comment : String
  /-- Where the comment was found. -/
  origin : Origin
  /-- Whether the name is kept as it is: it is unless this counts as nothing. -/
  preserveName : FieldValue
  /-- Whether unknown tags are remarked upon: they are unless this counts as nothing. -/
  warnUnknown : FieldValue
  /-- The fields that were written, with their values. -/
  written : Table Field FieldValue
  /-- How many lists were started in each place. -/
  started : Slot → Nat
  /-- Whether operations are logged. -/
  recording : Bool
  /-- The operations logged so far. -/
  operations : List Operation
  /-- The remarks made so far. -/
  remarks : List Log.Remark

namespace Doclet

/-- A doclet whose `fields` are all unset, with nothing in its log. -/
def blank (dictionary : Dictionary) (comment : String) (origin : Origin)
    (preserveName warnUnknown : Bool) : Doclet where
  dictionary := dictionary
  comment := comment
  origin := origin
  preserveName := .flag preserveName
  warnUnknown := .flag warnUnknown
  written := .empty
  started := fun _ => 0
  recording := false
  operations := []
  remarks := []

/-- The **value of a field**; one that was never written is unset. -/
def fields (d : Doclet) (f : Field) : FieldValue :=
  (d.written.get? f).getD .absent

/-- The doclet with a field written, without a trace in the log. -/
def put (d : Doclet) (f : Field) (value : FieldValue) : Doclet :=
  { d with written := d.written.insert f value }

/-- The doclet with a further `Log.Remark`, by the logger of its area. -/
def remark (d : Doclet) (level : Log.Level) (area message : String) : Doclet :=
  { d with remarks := d.remarks ++ [⟨level, Log.logger area, message⟩] }

/-- Whether the name is kept as it is, by the value of `preserveName`. -/
def keepsName (d : Doclet) : Bool :=
  !d.preserveName.isEmpty

/-- Whether unknown tags are remarked upon, by the value of `warnUnknown`. -/
def warnsUnknown (d : Doclet) : Bool :=
  !d.warnUnknown.isEmpty

/-- Whether the present kind has a name space of its own (`Dictionary.isNamespace`). -/
def hasNamespaceKind (d : Doclet) : Bool :=
  match d.fields .kind with
  | .text kind => d.dictionary.isNamespace kind
  | _ => false

/-- A name path as the doclet takes it: with the name space of its kind, if the kind has one
(`hasNamespaceKind`). -/
def namespaced (d : Doclet) (value : FieldValue) : FieldValue :=
  if !value.isEmpty && d.hasNamespaceKind then
    .text (Namepath.withNamespace value.display (d.fields .kind).display)
  else value

/-! ### Lists -/

/-- A new list in the keeping of the doclet, started in the place `home`, and the doclet that counts
it. -/
def startList (d : Doclet) (home : Slot) (items : List FieldValue) : FieldValue × Doclet :=
  (.list (some ⟨home, d.started home⟩) items,
    { d with
      started := fun slot => if slot = home then d.started home + 1 else d.started slot })

/-- A value on its way to the place `home`: the new lists in it are started there
(`FieldValue.settle`). -/
def adopt (d : Doclet) (home : Slot) (value : FieldValue) : FieldValue × Doclet :=
  let settled := value.settle home (d.started home)
  (settled.1,
    { d with started := fun slot => if slot = home then settled.2 else d.started slot })

/-- The doclet with `item` added to the list with the key `key`, **wherever it is held**. -/
def extend (d : Doclet) (key : ListKey) (item : FieldValue) : Doclet :=
  { d with
    preserveName := FieldValue.extend key item d.preserveName
    warnUnknown := FieldValue.extend key item d.warnUnknown
    written := d.written.map (FieldValue.extend key item)
    operations := d.operations.map fun op => op.withValue (FieldValue.extend key item op.value) }

/-- The doclet with an **item added to the list in a field**. Where there is nothing yet a list is
started; to what is no list nothing can be added. -/
def push (d : Doclet) (f : Field) (item : FieldValue) : Doclet :=
  match d.fields f with
  | .absent =>
    let (value, d) := d.startList f [item]
    d.put f value
  -- The list may be held elsewhere too, and grows there as well.
  | .list (some key) _ => d.extend key item
  | .list none items => d.put f (.list none (items ++ [item]))
  | _ => d

/-! ### Operations -/

/-- The doclet after the change that an `Operation` is, whether or not it is logged. -/
def apply (d : Doclet) : Operation → Doclet
  | .set f value => d.put f value
  | .append f value => d.push f value
  | .memberof value => d.put .memberof value
  | .longname value => d.put .longname (d.namespaced value)

/-- The doclet with an operation in its log, if it keeps one (`recording`). -/
def log (d : Doclet) (op : Operation) : Doclet :=
  if d.recording then { d with operations := d.operations ++ [op] } else d

/-- An operation **as it is logged**: the new lists in its value have their keys (`adopt`). -/
def logged (d : Doclet) (op : Operation) : Operation :=
  op.withValue (d.adopt op.field op.value).1

/-- The doclet with the value of an operation in its keeping, and the operation in its log. -/
def record (d : Doclet) (op : Operation) : Doclet :=
  (d.adopt op.field op.value).2.log (d.logged op)

/-- The doclet **after an operation**, with the operation in its log. -/
def perform (d : Doclet) (op : Operation) : Doclet :=
  -- Logged first: a list that the operation writes is the one that the log holds.
  (d.record op).apply (d.logged op)

/-- The doclet after several operations, one `perform` after another. -/
def performAll (d : Doclet) (ops : List Operation) : Doclet :=
  ops.foldl perform d

/-- The doclet with a value **assigned** to a `Slot`, without a trace in the log. -/
def assign (d : Doclet) (slot : Slot) (value : FieldValue) : Doclet :=
  let (value, d) := d.adopt slot value
  match slot with
  | .field f => d.put f value
  | .preserveName => { d with preserveName := value }
  | .warnUnknown => { d with warnUnknown := value }

/-- What programs **see** of a doclet: all but the dictionary, the remarks and the count of lists.
-/
def view (d : Doclet) : View where
  comment := d.comment
  origin := d.origin
  preserveName := d.preserveName
  warnUnknown := d.warnUnknown
  fields := d.fields
  recording := d.recording
  operations := d.operations

/-! ### Reading back -/

@[simp] theorem fields_blank (dictionary : Dictionary) (comment : String) (origin : Origin)
    (preserveName warnUnknown : Bool) (f : Field) :
    (blank dictionary comment origin preserveName warnUnknown).fields f = .absent := rfl

@[simp] theorem fields_put_same (d : Doclet) (f : Field) (v : FieldValue) :
    (d.put f v).fields f = v := by
  simp [put, fields, Table.get?_insert]

theorem fields_put_ne (d : Doclet) {f g : Field} (v : FieldValue) (h : g ≠ f) :
    (d.put f v).fields g = d.fields g := by
  simp [put, fields, Table.get?_insert, h.symm]

@[simp] theorem fields_log (d : Doclet) (op : Operation) (f : Field) :
    (d.log op).fields f = d.fields f := by
  simp only [log]
  split <;> rfl

@[simp] theorem fields_startList (d : Doclet) (home : Slot) (g : Field) (items : List FieldValue) :
    (d.startList home items).2.fields g = d.fields g := rfl

@[simp] theorem fields_adopt (d : Doclet) (home : Slot) (g : Field) (v : FieldValue) :
    (d.adopt home v).2.fields g = d.fields g := rfl

@[simp] theorem fields_record (d : Doclet) (op : Operation) (f : Field) :
    (d.record op).fields f = d.fields f := by
  rw [record, fields_log, fields_adopt]

@[simp] theorem fields_extend (d : Doclet) (key : ListKey) (item : FieldValue) (f : Field) :
    (d.extend key item).fields f = FieldValue.extend key item (d.fields f) := by
  cases h : d.written.get? f <;> simp [extend, fields, h]

/-- **An operation that adds to no list writes its own field**: `perform` leaves all others as they
were. -/
theorem fields_perform_ne (d : Doclet) (op : Operation) {g : Field} (h : g ≠ op.field)
    (hop : op.isAppend = false) : (d.perform op).fields g = d.fields g := by
  cases op with
  | append f v => cases hop
  | set f v => exact (fields_put_ne _ _ h).trans (d.fields_record _ g)
  | memberof v => exact (fields_put_ne _ _ h).trans (d.fields_record _ g)
  | longname v => exact (fields_put_ne _ _ h).trans (d.fields_record _ g)

@[simp] theorem performAll_nil (d : Doclet) : d.performAll [] = d := rfl

@[simp] theorem performAll_cons (d : Doclet) (op : Operation) (ops : List Operation) :
    d.performAll (op :: ops) = (d.perform op).performAll ops := rfl

/-- By `performAll` operations may be performed in two runs. -/
theorem performAll_append (d : Doclet) (ops more : List Operation) :
    d.performAll (ops ++ more) = (d.performAll ops).performAll more := by
  simp [performAll]

end Doclet

end DocComment
