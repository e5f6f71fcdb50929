import DocComment.Doclet.Step

/-!
# Resolving names

The tags of a comment may give the name of a symbol in full, or its owner and its name apart, or
both. Resolving brings name, owner, scope, variation and name path into line: it puts a path
together from what is given, cuts it, and writes the parts back. A name path that is set already
stays.

- `Doclet.resolve` - names brought into line.
- `Doclet.knownParts` - the parts that name and owner give, if they suffice.
-/

namespace DocComment.Doclet

open DocComment.Text
open DocComment.Namepath (Parts)

/-- The text of a name with every `.prototype` shortened; an empty value has none. -/
def namePath (v : FieldValue) : List Char :=
  if v.isEmpty then [] else Namepath.shortenPrototypes v.display.toList

/-- The text of an owner with every `.prototype` shortened; an empty value has none, and an owner
that is no text is a fault. -/
def ownerPath (v : FieldValue) : Except DocletFault (List Char) :=
  match v with
  | .text s => .ok (Namepath.shortenPrototypes s.toList)
  | v => if v.isEmpty then .ok [] else .error (.notText v.kind)

/-- Whether a path ends in a mark (`Scope.isMark`); a line feed may follow the mark. -/
def endsInMark (path : List Char) : Bool :=
  match path.reverse with
  | '\n' :: c :: _ => Scope.isMark c
  | c :: _ => Scope.isMark c
  | [] => false

/-- The scope that a value names, if it is one of the three scopes of members. -/
def scopeOf? : FieldValue → Option Scope
  | .text s => Scope.ofWord? s
  | _ => none

/-- Whether only the scope can tell the mark between an owner and a name: `knownParts` has no other
way to join them. -/
def needsScope (name memberof : List Char) : Bool :=
  !(memberof.isEmpty || memberof.isPrefixOf name || endsInMark memberof)

/-- Why a scope cannot be looked up: it is there and `FieldValue.unkeyed?`. -/
def scopeRefusal? (scope : FieldValue) : Option DocletFault :=
  if scope.isEmpty then none else scope.unkeyed?.map .notKey

/-- The **parts that name and owner give**. A name that starts with its owner is a path by itself;
an owner that ends in a mark is followed by the name; otherwise the scope tells the mark. An owner
without any of these gives no parts. -/
def knownParts (name memberof : List Char) (scope : Option Scope) : Option Parts :=
  if memberof.isEmpty || memberof.isPrefixOf name then some (Namepath.cut (String.ofList name))
  else if endsInMark memberof then some (Namepath.cut (String.ofList (memberof ++ name)))
  else scope.map fun s => Namepath.cut (String.ofList (memberof ++ s.mark :: name))

/-- The remark that a name has to wait for a scope, for `findParts`. -/
def remarkDeferred (d : Doclet) (name memberof : List Char) : Doclet :=
  d.remark .debug "name"
    (s!"Deferring resolution of {quoted (String.ofList name)}: " ++
      s!"{quoted (String.ofList memberof)} carries no scope")

/-- The name, the owner and, if there is none yet, the name path of `parts` written. -/
def takeNames (parts : Parts) : DocletStep Unit := do
  unless parts.name.isEmpty do modify fun d => d.put .name (.text parts.name)
  -- Parts that are empty tell nothing, and what was there stays.
  unless parts.memberof.isEmpty do setMemberof (.text parts.memberof)
  let d ← get
  if !parts.longname.isEmpty && (d.fields .longname).isEmpty then
    setLongname (.text parts.longname)

/-- Whether the scope is global. -/
def isGlobal (d : Doclet) : Bool :=
  match d.fields .scope with
  | .text s => s == "global"
  | _ => false

/-- Whether there are a name and an owner, but no name path. -/
def lacksPath (d : Doclet) : Bool :=
  !(d.fields .name).isEmpty && !(d.fields .memberof).isEmpty && (d.fields .longname).isEmpty

/-- The path of a static member; a name that is no text is a fault. -/
def staticPath (memberof name : FieldValue) : Except DocletFault String :=
  match name with
  | .text s => .ok (memberof.display ++ String.ofList [Scope.static.mark] ++ s)
  | v => .error (.notJoinable v.kind)

/-- A static member made of the name and the owner, with their `staticPath`. -/
def makeStatic : DocletStep Unit := do
  -- The scope is written even if there turns out to be no path.
  modify fun d => d.put .scope (.text Scope.static.word)
  let d ← get
  match staticPath (d.fields .memberof) (d.fields .name) with
  | .ok path => setLongname (.text path)
  | .error fault => throw fault

/-- The scope settled: a global symbol has its name for a path and no owner; else the cut tells the
scope; else a name and an owner without a path make a static member. -/
def settleScope (parts : Parts) : DocletStep Unit := do
  let d ← get
  if d.isGlobal then
    setLongname (d.fields .name)
    setMemberof .absent
  else
    match parts.scope with
    | some s => set (d.put .scope (.text s.word))
    | none => if d.lacksPath then makeStatic

/-- The doclet with the variation of `parts`, if they have one (`presentText`). -/
def takeVariation (parts : Parts) (d : Doclet) : Doclet :=
  match presentText parts.variation with
  | some v => d.put .variation (.text v)
  | none => d

/-- The `knownParts` that a doclet gives; without them a remark says so. -/
def findParts : DocletStep Parts := do
  let d ← get
  let scope := d.fields .scope
  match ownerPath (d.fields .memberof) with
  | .error fault => throw fault
  | .ok memberof =>
    let name := namePath (d.fields .name)
    -- A scope that cannot be looked up is a fault only where it is looked up.
    match needsScope name memberof, scopeRefusal? scope with
    | true, some fault => throw fault
    | _, _ =>
      match knownParts name memberof (scopeOf? scope) with
      | some parts => return parts
      | none =>
        set (d.remarkDeferred name memberof)
        return {}

/-- **Names brought into line**: the parts are found (`findParts`), then taken one after another. -/
def resolve : DocletStep Unit := do
  let parts ← findParts
  takeNames parts
  settleScope parts
  modify (takeVariation parts)

end DocComment.Doclet
