import DocComment.Doclet.Basic

/-!
# The printed form of a doclet

A doclet is printed with its comment, every field that is set, and its origin. A list field is
printed as the list of its items.

Not every doclet can be printed. A tag, its value or a pair of borrowed names has a printed form as
an item of a list field (`FieldValue.itemFault?`), and nowhere else (`FieldValue.printFault?`); a
number may be too long; and a list may be among its own items (`FieldValue.holdsItself`). Printing
stops at the first fault, and members come in the order of their keys (`firstFault?`).

- `Doclet.toJson` - the printed form, should there be one; `Doclet.print` - the same, or the fault.
- `Doclet.stateToJson` - the printed form without the comment.
- `Operation.toJson` - an operation as a triple of action, field and value.
-/

namespace DocComment

open DocComment.Text

/-- A member for a text that is there (`presentText`). -/
def presentMember (key : String) (s : Option String) : List (String × Json) :=
  match presentText s with
  | some t => [(key, .string t)]
  | none => []

/-- The printed form of code: the facts that are known. -/
def Code.toJson (c : Code) : Json :=
  .object <|
    presentMember "id" c.id ++ presentMember "name" c.name ++ presentMember "type" c.type ++
      presentMember "val" c.val

/-- The printed form of an `Origin`; the code is there even if nothing is known of it. -/
def Origin.toJson (o : Origin) : Json :=
  .object <|
    (match presentLine o.lineno with
      | some n => [("lineno", .number n)]
      | none => []) ++
    presentMember "filename" o.filename ++ [("code", o.code.toJson)]

/-- The word for what an `Operation` does. -/
def Operation.word : Operation → String
  | set _ _ => "set"
  | append _ _ => "append"
  | memberof _ => "memberof"
  | longname _ => "longname"

/-- An operation as a triple of action, field and value. -/
def Operation.toJson (op : Operation) : Json :=
  .array [.string op.word, .string op.field.key, op.value.toJson]

/-! ### What cannot be printed -/

/-- The first fault among members, in the order of their keys. -/
def firstFault? (members : List (String × Option DocletFault)) : Option DocletFault :=
  (members.mergeSort fun a b => decide (a.1 ≤ b.1)).findSome? (·.2)

namespace FieldValue

/-- Whether a list with the key `key` is among its own items, or in one of them. -/
def holdsItself (key : Option ListKey) (items : List FieldValue) : Bool :=
  key.any (keysOfItems items).contains

mutual

/-- Why a value **cannot be printed**, if it cannot. -/
def printFault? : FieldValue → Option DocletFault
  | number n => if hasTooManyDigits n then some .tooLong else none
  | typed .. => some (.notPrintable .typed)
  | tag _ _ => some (.notPrintable .tag)
  | strayTag _ _ => some (.notPrintable .tag)
  | borrowed _ _ => some (.notPrintable .borrowed)
  | list key items => if holdsItself key items then some .circular else itemsFault? items
  | record members => firstFault? (memberFaults members)
  | _ => none

/-- The first `printFault?` among values. -/
def itemsFault? : List FieldValue → Option DocletFault
  | [] => none
  | v :: more => (printFault? v).or (itemsFault? more)

/-- The faults of the members of a record. -/
def memberFaults : List (String × FieldValue) → List (String × Option DocletFault)
  | [] => []
  | (key, v) :: more => (key, printFault? v) :: memberFaults more

end

/-- Why an item of a list field cannot be printed, if it cannot: tags, their values and pairs of
borrowed names are taken apart there. -/
def itemFault? : FieldValue → Option DocletFault
  | typed types _ _ _ _ => printFault? types
  | tag _ (typed types _ _ _ _) => printFault? types
  | tag _ value => printFault? value
  | strayTag title _ => printFault? title
  -- The members *as* and *from* come in the order of their keys.
  | borrowed source target => (printFault? target).or (printFault? source)
  | v => printFault? v

end FieldValue

namespace Doclet

/-- The items that a list field shows: those of a list, the letters of a text, the keys of a record.
What has no items is a fault. -/
def shownItems (v : FieldValue) : Except DocletFault (List FieldValue) :=
  match v with
  | .list _ items => .ok items
  | .text s => .ok (s.toList.map fun c => .text (String.singleton c))
  | .record members => .ok (members.map fun m => .text m.1)
  | v => .error (.notListed v.kind)

/-- The printed form of the value of a field; one for lists shows its `shownItems`. -/
def fieldToJson (f : Field) (v : FieldValue) : Except DocletFault Json :=
  if Field.lists.contains f then
    (shownItems v).map fun items => .array (FieldValue.itemsToJson items)
  else .ok v.toJson

/-- The members for some fields: those that are set, by `fieldToJson`. -/
def fieldMembers (d : Doclet) : List Field → Except DocletFault (List (String × Json))
  | [] => .ok []
  | f :: more => do
    if (d.fields f).isAbsent then fieldMembers d more
    else
      let shown ← fieldToJson f (d.fields f)
      return (f.key, shown) :: (← fieldMembers d more)

/-- The fields that are set, and the origin. -/
def stateMembers (d : Doclet) : Except DocletFault (List (String × Json)) :=
  (d.fieldMembers Field.all).map fun members => members ++ [("meta", d.origin.toJson)]

/-- The printed form of the `stateMembers`, without the comment. -/
def stateToJson (d : Doclet) : Except DocletFault Json :=
  d.stateMembers.map .object

/-- The **printed form** of a doclet: its comment and its `stateMembers`. -/
def toJson (d : Doclet) : Except DocletFault Json :=
  d.stateMembers.map fun members => .object (("comment", .string d.comment) :: members)

/-- Why the value of a field cannot be printed, if it cannot. What has no items to show is a fault
already. -/
def fieldFault? (f : Field) (v : FieldValue) : Option DocletFault :=
  if Field.lists.contains f then
    match v with
    | .list key items =>
      if FieldValue.holdsItself key items then some .circular
      else items.findSome? FieldValue.itemFault?
    | _ => none
  else v.printFault?

/-- Why an origin cannot be printed, if it cannot: its line is too long a number. -/
def originFault? (o : Origin) : Option DocletFault :=
  o.lineno.bind fun n => FieldValue.printFault? (.number n)

/-- Why a doclet **cannot be printed**, if it cannot: the first `fieldFault?` or `originFault?`. -/
def printFault? (d : Doclet) : Option DocletFault :=
  firstFault? (("meta", originFault? d.origin) ::
    Field.all.map fun f => (f.key, fieldFault? f (d.fields f)))

/-- A doclet **printed**, unless it cannot be. -/
def print (d : Doclet) : Except DocletFault Json := do
  -- What has no items fails while the members are put together, before any of them is written.
  let printed ← d.toJson
  match d.printFault? with
  | none => return printed
  | some fault => throw fault

/-- A doclet as messages show it. -/
def display (d : Doclet) : String :=
  "Doclet(longname=" ++ (d.fields .longname).displayQuoted ++ ", kind=" ++
    (d.fields .kind).displayQuoted ++ ")"

end Doclet

end DocComment
