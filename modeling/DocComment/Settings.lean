import DocComment.Document
import DocComment.File.Tree
import DocComment.Tag.Extension
import DocComment.Text.CharClass
import DocComment.Text.Lowercase

/-!
# Settings

Settings come from a small document: further synonyms and kinds with a name space for the
dictionary, whether unknown tags are remarked upon, and a log file. What the document leaves out, or
says in a form that makes no sense, is as if it were not there; only a synonym without a title is an
error.

- `Settings` - the settings.
- `Settings.ofDocument` - the settings that a document makes.
- `Settings.load` - the settings at a path.
- `SettingsError` - why there are none; `SettingsError.isExpected` - the errors that the program
  reckons with.
-/

namespace DocComment

open DocComment.Document (Scalar Value Reader)
open DocComment.Text

/-- The settings of a run. -/
structure Settings where
  /-- The directory that the settings are for. -/
  root : Path
  /-- Changes to the dictionary. -/
  adjustments : Adjustments := {}
  /-- Whether unknown tags are remarked upon. -/
  warnUnknown : Bool := false
  /-- The log file. -/
  logFile : Option Path := none

/-- The name of the settings document in a directory. -/
def settingsFileName : String := ".doclets.yml"

/-- Why there are no settings. -/
inductive SettingsError where
  /-- The document is malformed. -/
  | malformed (file reason : String)
  /-- The reader of documents failed in another way. -/
  | raised (reason : String)
  /-- The document is no mapping. -/
  | notMapping
  /-- A synonym leads to no title. -/
  | untitledSynonym (synonym : String)
  /-- A number was to be written that has too many digits. -/
  | tooManyDigits
  /-- The path starts in the home of a user who has none. -/
  | noHome
  /-- The document could not be read. -/
  | unreadable (e : FileError)
  /-- The bytes of the document are no text. -/
  | undecodable (e : DecodeError)
  deriving DecidableEq, Repr

namespace SettingsError

/-- A `SettingsError` in words. -/
def message : SettingsError → String
  | malformed file reason => s!"Failed to parse {file}: {reason}"
  | raised reason => reason
  | notMapping => s!"{settingsFileName} must contain a mapping at the root"
  | untitledSynonym synonym => s!"Synonym '{synonym}' must map to a tag title"
  | tooManyDigits => tooManyDigitsText
  | noHome => "Could not determine home directory."
  | unreadable e => e.message
  | undecodable e => e.message

/-- Whether the program **reckons with a failure**: what it says of a document, and what the system
says of a file. -/
def isExpected : SettingsError → Bool
  | raised _ | tooManyDigits | noHome | undecodable _ => false
  | unreadable e => e.isExpected
  | _ => true

/-- The failure to read the document, by the `ReadError` of the file. -/
def ofReadError : ReadError → SettingsError
  | .file e => unreadable e
  | .decode e => undecodable e

end SettingsError

namespace Settings

/-! ### Reading values -/

/-- A single value written as text (`Scalar.toText?`); there is nothing to put in the place of a
number that is too long. -/
def written (s : Scalar) : Except SettingsError String :=
  match s.toText? with
  | some text => .ok text
  | none => .error .tooManyDigits

/-- The text of a value that may stand for one (`Scalar.isWord`). -/
def textOf? : Value → Except SettingsError (Option String)
  | .scalar s => if s.isWord then (written s).map some else .ok none
  | _ => .ok none

/-- The texts of items that may stand for one; `textOf?` passes over the others. -/
def textsOfItems : List Value → Except SettingsError (List String)
  | [] => .ok []
  | item :: more => do
    let text ← textOf? item
    return text.toList ++ (← textsOfItems more)

/-- The texts of a value: a text by itself, those of a list, or the numbers that bytes are. -/
def textsOf : Option Value → Except SettingsError (List String)
  | some (.scalar (.text s)) => .ok [s]
  | some (.scalar (.bytes bytes _)) => .ok (bytes.map fun b => toString b.toNat)
  | some (.list items) => textsOfItems items
  | _ => .ok []

/-- Whether a value says yes: a truth value, or one of a few words in any case. -/
def saysYes : Option Value → Bool
  | some (.scalar (.flag b)) => b
  | some (.scalar (.text s)) => ["true", "yes", "1"].contains (lower (trim s))
  | _ => false

/-! ### From a document to settings -/

/-- The synonyms with one more, which must lead to a title. -/
def addSynonym (table : Table String String) (e : Scalar × Value) :
    Except SettingsError (Table String String) := do
  let title ← textOf? e.2
  -- The synonym is written even if there is no title: the error names it.
  let synonym ← written e.1
  match title with
  | some title => return table.insert synonym title
  | none => throw (.untitledSynonym synonym)

/-- The synonyms among entries, added one after another by `addSynonym`. -/
def synonymsOf (entries : List (Scalar × Value)) : Except SettingsError (Table String String) :=
  entries.foldlM addSynonym .empty

/-- The path of the log file, seen from `root`; without a value, or with an empty text, there is
none. -/
def logFileOf (root : Path) (value : Option Value) : Except SettingsError (Option Path) := do
  let text ← textOf? (value.getD (.scalar .null))
  return (text.filter fun s => !s.isEmpty).map fun s => root.join (Path.ofString s)

/-- The **settings that a document makes**, for the directory `root`. -/
def ofDocument (root : Path) (document : Value) : Except SettingsError Settings := do
  match document with
  | .mapping entries =>
    let dictionary := Value.entriesOf (Value.valueAt? entries "dictionary")
    let synonyms ← synonymsOf (Value.entriesOf (Value.valueAt? dictionary "synonyms"))
    let kinds ← textsOf (Value.valueAt? dictionary "namespace_kinds")
    -- A section that is missing, or is no mapping, has no entries.
    let tags := Value.entriesOf (Value.valueAt? entries "tags")
    let logging := Value.entriesOf (Value.valueAt? entries "logging")
    let logFile ← logFileOf root (Value.valueAt? logging "file")
    return {
      root := root
      adjustments := ⟨synonyms, kinds⟩
      warnUnknown := saysYes (Value.valueAt? tags "warn_unknown")
      logFile := logFile }
  | _ => throw .notMapping

/-- The settings in a text that a `Reader` reads; a blank one, or one that says null, asks for
nothing. -/
def ofText (reader : Reader) (root : Path) (file text : String) : Except SettingsError Settings :=
  if allBlank text.toList then .ok { root := root }
  else
    match reader text with
    | .error (.malformed reason) => .error (.malformed file reason)
    | .error (.raised reason) => .error (.raised reason)
    | .ok (.scalar .null) => .ok { root := root }
    | .ok document => ofDocument root document

/-! ### Finding the document -/

/-- The homes of users by their names; whoever runs the program has the empty name. -/
abbrev Homes := String → Option String

/-- A path with the **home in place of a tilde**. -/
def expandHome (homes : Homes) (p : Path) : Except SettingsError Path :=
  match p.homeOwner? with
  | none => .ok p
  | some owner =>
    -- The name of a user with the null character cannot even be looked up.
    if owner.toList.contains '\x00' then .error (.unreadable ⟨.nullCharacter, p.toText⟩)
    else
      match homes owner with
      | some home => if home.toList.head? == some '~' then .error .noHome else .ok (p.inHome home)
      | none => .error .noHome

/-- The document that a path stands for: in a directory the one with the usual name
(`settingsFileName`), otherwise the file itself. -/
def documentAt (tree : FileTree) (here p : Path) : Except SettingsError Path := do
  match ← (tree.entryAt here p).mapError .unreadable with
  | some .directory => return Path.normal here (p.join (Path.ofString settingsFileName))
  | _ =>
    if FileTree.holdsNull p then throw (.unreadable ⟨.nullCharacter, p.toText⟩)
    return Path.normal here p

/-- The document that a path stands for (`documentAt`), once its tilde is a home (`expandHome`). -/
def documentPath (homes : Homes) (tree : FileTree) (here p : Path) : Except SettingsError Path := do
  documentAt tree here (← expandHome homes p)

/-- The text of a document; without a document there is none. -/
def documentText (tree : FileTree) (here file : Path) : Except SettingsError (Option String) := do
  match ← (tree.entryAt here file).mapError .unreadable with
  | none => return none
  | some _ => return some (← (tree.readText here file).mapError .ofReadError)

/-- The **settings at a path**: those that `ofText` makes of the `documentText`. Without a document
they are the usual ones. -/
def load (reader : Reader) (homes : Homes) (tree : FileTree) (here p : Path) :
    Except SettingsError Settings := do
  let file ← documentPath homes tree here p
  match ← documentText tree here file with
  | none => return { root := file.parent }
  | some text => ofText reader file.parent file.name text

end Settings

end DocComment
