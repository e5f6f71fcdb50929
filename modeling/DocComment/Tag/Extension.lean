import DocComment.Tag.Standard
import DocComment.Text.Quoted

/-!
# Building a dictionary

A dictionary starts with the standard tags. Extensions change it in turn (`Dictionary.extend`), each
by code of its own (`Extension.Code`); the first one that cannot be used, or raises something, ends
the work. Then come the synonyms and the kinds with a name space that the settings ask for
(`Dictionary.adjust`).

- `Extension` - a source of further tags.
- `Dictionary.build` - the dictionary for given extensions and settings.
- `DictionaryError.message` - a failure in words.
-/

namespace DocComment

/-- The **code of an extension**, as far as it concerns the dictionary: it makes changes one after
another, sees what each of them led to, and may raise something of its own. -/
inductive Extension.Code where
  /-- It is done. -/
  | done
  /-- It raises something. -/
  | raises (e : Raised)
  /-- It makes a change, and goes on with the dictionary that this makes, or with the refusal. -/
  | change (c : Dictionary.Change) (next : Except DictionaryError Dictionary → Code)

/-- What loading an extension yields. -/
inductive Extension.Content where
  /-- Code to be run with the dictionary. -/
  | callable (code : Dictionary → Extension.Code)
  /-- Something that cannot be run. -/
  | notCallable
  /-- Nothing, for a reason. -/
  | fails (reason : String)
  /-- Nothing, and all work is to end. -/
  | breaksOff (message : String)

/-- A named source of further tags. -/
structure Extension where
  /-- The name under which it is registered. -/
  name : String
  /-- What loading it yields. -/
  content : Extension.Content

/-- `Extension.Code` that defines tags, one after another. -/
def Extension.defining : List Definition → Extension.Code
  | [] => .done
  | definition :: more => .change (.define definition) fun _ => defining more

/-- Changes to a dictionary that the settings ask for. -/
structure Adjustments where
  /-- Further synonyms with the titles they lead to. -/
  synonyms : Table String String := .empty
  /-- Further kinds with a name space. -/
  namespaceKinds : List String := []
  deriving Repr

namespace DictionaryError

/-- A failed synonym in words. -/
def undefinedTitleText (synonym title : String) : String :=
  s!"Cannot alias '{synonym}' to undefined tag '{title}'"

/-- A `DictionaryError` **in words**; a failed synonym is shown as quoted text. -/
def message : DictionaryError → String
  | undefinedTitle synonym title => Text.quoted (undefinedTitleText synonym title)
  | extensionFailed name reason => s!"Failed to load tag entry point '{name}': {reason}"
  | extensionNotCallable name =>
    s!"Tag entry point '{name}' must be a callable taking the dictionary"
  | extensionRaised e => e.message
  | notDictionary found => s!"Expected a TagDictionary, got {found}"

end DictionaryError

namespace Dictionary

/-- The dictionary that the `Extension.Code` makes of `d`. -/
def runCode (d : Dictionary) : Extension.Code → Except DictionaryError Dictionary
  | .done => .ok d
  | .raises e => .error (.extensionRaised e)
  -- A change that is refused does not end the code: it sees the refusal and may go on.
  | .change c next => runCode (d.after c) (next (c.run d))

/-- The dictionary with what an extension makes of it, by its `runCode`. -/
def extend (d : Dictionary) (e : Extension) : Except DictionaryError Dictionary :=
  match e.content with
  | .callable code => d.runCode (code d)
  | .notCallable => .error (.extensionNotCallable e.name)
  | .fails reason => .error (.extensionFailed e.name reason)
  | .breaksOff message => .error (.extensionRaised ⟨message, false⟩)

/-- The dictionary with the `Adjustments` of the settings; every synonym must lead to a known title.
-/
def adjust (d : Dictionary) (a : Adjustments) : Except DictionaryError Dictionary := do
  let d ← a.synonyms.entries.foldlM (fun d s => d.addSynonym s.1 s.2) d
  return a.namespaceKinds.foldl addNamespace d

/-- The **dictionary** for given extensions and adjustments: the standard one, with the extensions
in turn (`extend`), and adjusted (`adjust`). -/
def build (extensions : List Extension) (a : Adjustments) : Except DictionaryError Dictionary := do
  let d ← extensions.foldlM extend standard
  d.adjust a

end Dictionary

end DocComment
