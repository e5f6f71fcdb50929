import DocComment.Comment.RawTag
import DocComment.Doclet.Resolve
import DocComment.Doclet.Rule
import DocComment.Tag.Reading

/-!
# Building a doclet

The tags of a comment are applied in order. A tag is read with the dictionary (`Doclet.openTag`);
then its hook runs, or, if the dictionary does not know it, it is kept in the list of tags; and the
four tags named like a field write that field (`Doclet.writeDirect`). When all tags are in, names
are resolved and a kind is inferred from the code.

A program may add tags whose programs add tags in turn, to any depth. `Doclet.runFrom` follows it
without a bound of its own, and has no result where there is no end.

- `Doclet.runProgram` - the program of a tag run.
- `Doclet.addTag` - a tag applied.
- `Doclet.postProcess` - what is left to do when all tags are in.
- `Doclet.buildFrom` - the doclet that raw tags make; `Doclet.build` - the doclet of a comment.
-/

namespace DocComment

open DocComment.Text

namespace Doclet

/-! ### Rules -/

/-- A rule followed: its `Rule.operations`, attempted in order. -/
def follow (t : Tag) (r : Rule) : DocletStep Unit := do
  if r.keepsName then modify fun d => { d with preserveName := .flag true }
  let d ← get
  attemptAll (r.operations d.dictionary d.origin.filename t)

/-- Rules followed (`follow`), one after another. -/
def followAll (t : Tag) : List Rule → DocletStep Unit
  | [] => pure ()
  | r :: more => do
    follow t r
    followAll t more

/-! ### A tag opened and closed -/

/-- An unknown tag kept, and remarked upon if that is asked for (`warnsUnknown`). -/
def keepUnknown (title : String) (tag : FieldValue) : DocletStep Unit := do
  let d ← get
  if d.warnsUnknown then
    set (d.remark .warning "doclet" s!"Unknown tag @{title} {d.origin.location}")
  appendField .tags tag

/-- What a hook does by itself, and the program that it leaves to run. -/
def startHook (t : Tag) : Option Hook → DocletStep (Option Program)
  | none => return none
  | some (.rules rs) => do
    followAll t rs
    return none
  | some (.program p) => return some p

/-- A tag **read**, with the remarks on it, and kept if it is unknown; the rules of its hook are
followed, and a program is left to run. -/
def openTag (title text : String) : DocletStep (Tag × Option Program) := do
  let d ← get
  let (t, remarks) := Tag.readWithRemarks d.dictionary d.origin title text
  -- Remarks on the tag come before anything that its hook does.
  set { d with remarks := d.remarks ++ remarks }
  match d.dictionary.find? title with
  | none =>
    keepUnknown title (.ofTag t)
    return (t, none)
  | some definition => return (t, ← startHook t definition.hook)

/-- The field that a title writes directly. -/
def directField? (title : String) : Option Field :=
  [Field.name, .kind, .description, .scope].find? fun f => f.key == title

/-- The value of a tag as a plain field takes it: of the parts, the name or else the description. -/
def plainValue : Tag.Value → FieldValue
  | .plain s => .text s
  | .typed v => .ofText? ((presentText v.name).or v.description)

/-- The `directField?` written that the tag is named for, if there is one. -/
def writeDirect (t : Tag) : DocletStep Unit :=
  match directField? t.title with
  | some f => setField f (plainValue t.value)
  | none => pure ()

/-- A tag **closed** by `writeDirect`, once its hook is done. -/
def closeTag (t : Tag) : DocletStep Tag := do
  writeDirect t
  return t

/-- The text that a value gives a tag under a title: an empty value gives none, and a value that is
no text is a fault. -/
def tagText (dictionary : Dictionary) (title : String) (v : FieldValue) :
    Except DocletFault String :=
  match v with
  | .text s => .ok s
  | v =>
    if v.isEmpty then .ok ""
    -- Where blanks are kept the text is searched, and otherwise it is trimmed.
    else if ((dictionary.find? title).map (·.keepsBlanks)).getD false then
      .error (.notText v.kind)
    else .error (.cannotTrim v.kind)

/-- A tag kept whose title is no text, as a `FieldValue.strayTag`. -/
def keepStray (title text : FieldValue) : DocletStep FieldValue := do
  if let some kind := title.unkeyed? then throw (.notKey kind)
  match tagText .empty "" text with
  | .ok body =>
    let stray := FieldValue.strayTag title (trim body)
    keepUnknown title.display stray
    return stray
  | .error fault => throw fault

/-- A tag added whose title and text are any values, given how one with texts is added. A title that
is no text is unknown. -/
def addTagOf {α : Type} (addTag : String → String → DocletStep α) (kept : FieldValue → α)
    (title text : FieldValue) : DocletStep α := do
  let d ← get
  match title with
  | .text s =>
    match tagText d.dictionary s text with
    | .ok body => addTag s body
    | .error fault => throw fault
  | title => return kept (← keepStray title text)

/-! ### Programs -/

/-- The doclet that a `DocletStep` leaves, whether or not it failed. -/
def left {α : Type} : EStateM.Result DocletFault Doclet α → Doclet
  | .ok _ d => d
  | .error _ d => d

/-- What a program sees of a step that it asked for: its outcome, and the `view` of the doclet then.
-/
def sight (r : EStateM.Result DocletFault Doclet FieldValue) : Sight where
  outcome :=
    match r with
    | .ok value _ => .ok value
    | .error fault _ => .error fault
  view := (left r).view

/-- A request, as far as it goes without running a further program: its result, or the tag whose
program has to run now. -/
def begin : Request → DocletStep (FieldValue ⊕ Tag × Program)
  | .change op => do
    attempt op
    return .inl .absent
  | .assign slot value => do
    modify fun d => d.assign slot value
    return .inl .absent
  | .addTag title text =>
    addTagOf (fun title text => do
      match ← openTag title text with
      | (t, some p) => return .inr (t, p)
      | (t, none) => return .inl (.ofTag (← closeTag t))) .inl title text

/-- The end of a request whose program has run: its tag is closed (`closeTag`). -/
def finish : EStateM.Result DocletFault Doclet Tag → EStateM.Result DocletFault Doclet FieldValue
  | .ok t d => ((fun t => .ofTag t) <$> closeTag t).run d
  | .error fault d => .error fault d

/-- A program **run to its end**, given the tag, the doclet as it was found and what was seen since;
the tag is left as the program leaves it. There is no result if it never ends, be it that it goes on
for ever or that the programs of the tags it adds do. -/
def runFrom (p : Program) (t : Tag) (found : View) (seen : List Sight) (d : Doclet) :
    Option (EStateM.Result DocletFault Doclet Tag) :=
  match p.next t found seen with
  | .stop t => some (.ok t d)
  | .fail fault => some (.error fault d)
  | .ask request =>
    match begin request d with
    | .ok (.inl value) d' => d' |>.runFrom p t found (seen ++ [sight (.ok value d')])
    -- The program sees the fault, and may go on.
    | .error fault d' => d' |>.runFrom p t found (seen ++ [sight (.error fault d')])
    | .ok (.inr (u, q)) d' => do
      -- The tag that was added has a program of its own, which runs now.
      let r ← d' |>.runFrom q u d'.view []
      left (finish r) |>.runFrom p t found (seen ++ [sight (finish r)])
partial_fixpoint monotonicity by
  -- A run that has an end keeps it when more of the runs within it have one.
  intro run run' hrun p t found seen d
  dsimp only
  cases p.next t found seen with
  | stop t => exact .refl
  | fail fault => exact .refl
  | ask request =>
    dsimp only
    cases begin request d with
    | error fault d' => exact hrun ..
    | ok result d' =>
      cases result with
      | inl value => exact hrun ..
      | inr opened =>
        have hinner := hrun opened.2 opened.1 d'.view [] d'
        dsimp only
        generalize run opened.2 opened.1 d'.view [] d' = r at hinner ⊢
        generalize run' opened.2 opened.1 d'.view [] d' = r' at hinner ⊢
        cases hinner with
        | bot => exact .bot
        | refl =>
          cases r with
          | none => exact .refl
          | some r => exact hrun ..

/-- A program run by `runFrom`; one that never ends is a fault. -/
def runProgram (p : Program) (t : Tag) : DocletStep Tag := fun d =>
  (runFrom p t d.view [] d).getD (.error .endless d)

/-- The program run that a hook has left (`startHook`), if there is one. -/
def runLeft (t : Tag) : Option Program → DocletStep Tag
  | none => pure t
  | some p => runProgram p t

/-- A **tag applied**: opened (`openTag`), its program run, and closed (`closeTag`). -/
def addTag (title text : String) : DocletStep Tag := do
  let (t, program) ← openTag title text
  closeTag (← runLeft t program)

/-- Raw tags applied by `addTag`, one after another. -/
def addTags : List RawTag → DocletStep Unit
  | [] => pure ()
  | raw :: more => do
    let _ ← addTag raw.title (raw.text.getD "")
    addTags more

/-! ### When all tags are in -/

/-- Names brought into line: resolved (`resolve`) unless the name is kept, and with the name for a
path if there is none. -/
def completeNames : DocletStep Unit := do
  unless (← get).keepsName do resolve
  let d ← get
  if !(d.fields .name).isEmpty && (d.fields .longname).isEmpty then setLongname (d.fields .name)

/-- The remark that a kind was inferred, for `postProcess`. -/
def remarkInferred (kind : String) (d : Doclet) : Doclet :=
  d.remark .debug "doclet"
    (s!"Inferred kind {quoted kind} for {(d.fields .name).display} " ++
      s!"from code type {FieldValue.quotedText? d.origin.code.type}")

/-- **What is left to do** when all tags are in: names are brought into line, and a missing kind is
inferred from the code. -/
def postProcess : DocletStep Unit := do
  completeNames
  let d ← get
  if (d.fields .kind).isEmpty && !d.origin.code.isEmpty then
    let kind := Code.kindOfType d.origin.code.type
    modify (remarkInferred kind)
    -- A tag, and not just a write: so the kind is what the dictionary makes of it.
    let _ ← addTag "kind" kind

/-- The doclet with the remark that it is built. -/
def remarkBuilt (d : Doclet) : Doclet :=
  d.remark .debug "doclet"
    s!"Built doclet {(d.fields .longname).display} ({(d.fields .kind).display})"

/-- Raw tags applied with the log on (`addTags`), and what is left to do afterwards (`postProcess`).
-/
def applyTags (tags : List RawTag) : DocletStep Unit := do
  modify fun d => { d with recording := true }
  addTags tags
  modify fun d => { d with recording := false }
  postProcess
  modify remarkBuilt

/-- The **doclet that raw tags make**, with the comment that it carries; if a script failed, the
fault and the doclet as it stood then. -/
def buildFrom (dictionary : Dictionary) (comment : String) (patch : Origin.Patch)
    (preserveName warnUnknown : Bool) (tags : List RawTag) :
    EStateM.Result DocletFault Doclet Unit :=
  (applyTags tags).run
    (blank dictionary comment (({} : Origin).merge patch) preserveName warnUnknown)

/-- The **doclet of a comment**: the one that the tags of the comment (`RawTag.ofComment`) make. -/
def build (dictionary : Dictionary) (comment : String) (patch : Origin.Patch)
    (preserveName warnUnknown : Bool) : EStateM.Result DocletFault Doclet Unit :=
  buildFrom dictionary comment patch preserveName warnUnknown (RawTag.ofComment comment)

end Doclet

end DocComment
