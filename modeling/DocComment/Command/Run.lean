import DocComment.Command.Arguments
import DocComment.Doclet.Build
import DocComment.Doclet.Output
import DocComment.Log.Outlet
import DocComment.Settings

/-!
# Running a command

A run sees a tree of files, a directory to stand in, the homes of users, a reader of documents, the
extensions that are installed, the bytes on standard input and a clock. It ends with an exit code,
the text on standard output and on standard error, and the tree as it left it. The command `parse`
prints the doclet of a comment, the command `shorten` the parts of a name path.

The command `parse` goes through five stages (`parseSteps`), each of which can fail with a
`ParseFailure`. It reckons with most failures (`ParseFailure.isExpected`) and then ends with a
message; the others interrupt it, and there is no outcome.

- `World` - what a run sees; `Outcome` - what it leaves behind.
- `run` - the outcome of a command line, or the failure that interrupts it.
-/

namespace DocComment.Command

/-- What a run sees. -/
structure World where
  /-- The files. -/
  files : FileTree
  /-- The directory that it stands in. -/
  here : Path
  /-- The homes of users. -/
  homes : Settings.Homes
  /-- What reads the settings document. -/
  reader : Document.Reader
  /-- The extensions that are installed. -/
  extensions : List Extension
  /-- The bytes on standard input. -/
  input : List UInt8
  /-- When each record is logged, as a log file shows it. -/
  clock : Nat → String

/-- What a run leaves behind. -/
structure Outcome where
  /-- The exit code. -/
  code : Nat
  /-- The text on standard output. -/
  output : String
  /-- The text on standard error. -/
  errors : String
  /-- The files. -/
  files : FileTree

/-- Why the command `parse` failed. -/
inductive ParseFailure where
  /-- There are no settings. -/
  | settings (e : SettingsError)
  /-- The log file cannot be set. -/
  | logFile (e : FileError)
  /-- There is no dictionary. -/
  | dictionary (e : DictionaryError)
  /-- The comment could not be read. -/
  | comment (e : ReadError)
  /-- The doclet could not be built or printed. -/
  | doclet (fault : DocletFault)
  deriving DecidableEq, Repr

namespace ParseFailure

/-- A `ParseFailure` in words. -/
def message : ParseFailure → String
  | settings e => e.message
  | logFile e => e.message
  | dictionary e => e.message
  | comment (.file e) => e.message
  | comment (.decode e) => e.message
  | doclet fault => fault.message

/-- Whether the command **reckons with a failure**. Those of a doclet are never expected, nor are
bytes that are no text. -/
def isExpected : ParseFailure → Bool
  | settings e => e.isExpected
  | logFile e => e.isExpected
  | dictionary (.extensionRaised e) => e.isExpected
  | dictionary _ => true
  | comment (.file e) => e.isExpected
  | comment (.decode _) => false
  | doclet _ => false

end ParseFailure

/-! ### The stages of `parse` -/

/-- A stage of the command; the outlets are carried on whether or not it fails. -/
abbrev Stage := EStateM ParseFailure Log.Outlets

/-- A result, or a failure of the `Stage`. -/
def orFail {ε α : Type} (failure : ε → ParseFailure) : Except ε α → Stage α
  | .ok a => pure a
  | .error e => throw (failure e)

/-- The settings (`Settings.load`), or the first failure that there can be. -/
def loadSettings (w : World) (r : ParseRequest) : Stage Settings :=
  orFail .settings (Settings.load w.reader w.homes w.files w.here (.ofString r.config))

/-- The outlets set (`Log.Outlets.configure`) as the settings want them. -/
def setOutlets (w : World) (verbose : Bool) (s : Settings) : Stage Unit := do
  set (← orFail .logFile ((← get).configure w.here verbose s.logFile))

/-- The dictionary (`Dictionary.build`) of the extensions and the settings. -/
def buildDictionary (w : World) (s : Settings) : Stage Dictionary :=
  orFail .dictionary (Dictionary.build w.extensions s.adjustments)

/-- The record that a comment is read; it is the first that a run logs. -/
def readingRecord (w : World) (path : String) : Log.Record :=
  ⟨⟨.debug, Log.logger "cli", s!"Reading comment from {path}"⟩, w.clock 0⟩

/-- The comment that a path leads to; a dash is for the standard input. -/
def readComment (w : World) (path : String) : Stage String := do
  if path == "-" then orFail (fun e => .comment (.decode e)) (textOfBytes w.input)
  else
    -- It is logged that the file is read before it turns out whether it can be.
    modify fun o => o.emit w.here (readingRecord w path)
    orFail .comment ((← get).files.readText w.here (.ofString path))

/-- What a request says of the `Origin` of the comment. -/
def ParseRequest.patch (r : ParseRequest) : Origin.Patch where
  lineno := r.lineno
  filename := r.filename
  code := { name := r.name, type := r.codeType }

/-- The doclet of a comment (`Doclet.build`) in its printed form (`Doclet.print`), and the remarks
that were made. -/
def describe (r : ParseRequest) (s : Settings) (dictionary : Dictionary) (comment : String) :
    Except DocletFault (Json × List Log.Remark) :=
  match Doclet.build dictionary comment r.patch false s.warnUnknown with
  | .error fault _ => .error fault
  | .ok _ d => d.print.map fun printed => (printed, d.remarks)

/-- The printed form of the doclet, with the remarks passed on. -/
def printDoclet (w : World) (r : ParseRequest) (s : Settings) (dictionary : Dictionary)
    (comment : String) : Stage Json := do
  let (printed, remarks) ← orFail .doclet (describe r s dictionary comment)
  -- Remarks are passed on only when there is a printed form.
  modify fun o => o.emitAll w.here (Log.stamp w.clock 1 remarks)
  return printed

/-- **All stages** of the command, one after another. -/
def parseSteps (w : World) (verbose : Bool) (r : ParseRequest) : Stage Json := do
  let s ← loadSettings w r
  setOutlets w verbose s
  let dictionary ← buildDictionary w s
  let comment ← readComment w r.path
  printDoclet w r s dictionary comment

/-- How the command ends, given how its stages did: with the printed form, with a message if it
reckons with the failure (`ParseFailure.isExpected`), or without an outcome. -/
def concluded : EStateM.Result ParseFailure Log.Outlets Json → Except ParseFailure Outcome
  | .ok printed o => .ok ⟨0, printed.render ++ "\n", o.console, o.files⟩
  | .error failure o =>
    if failure.isExpected then
      .ok ⟨1, "", s!"{o.console}doclets parse failed: {failure.message}\n", o.files⟩
    else .error failure

/-- The outcome of `parse` after its `parseSteps`, or the failure that interrupts it. -/
def runParse (w : World) (verbose : Bool) (r : ParseRequest) : Except ParseFailure Outcome :=
  concluded ((parseSteps w verbose r).run { files := w.files })

/-! ### The program -/

/-- The printed form of the parts of a name path. -/
def partsToJson (p : Namepath.Parts) : Json :=
  .object
    [("longname", .string p.longname), ("memberof", .string p.memberof),
     ("scope", .string p.scopeMark), ("name", .string p.name),
     ("variation", .ofText? p.variation)]

/-- The outcome of `shorten`: the parts that `Namepath.cut` finds. -/
def runShorten (w : World) (longname : String) : Outcome :=
  ⟨0, (partsToJson (Namepath.cut longname)).render ++ "\n", "", w.files⟩

/-- The answer to a request for help. -/
def helpText : String :=
  "usage: doclets [-h] [-v] \x7bparse,shorten\x7d ...\n"

/-- The **outcome of a command line**, or the failure that interrupts it. -/
def run (w : World) (args : List String) : Except ParseFailure Outcome :=
  match Invocation.parse args with
  | .error .help => .ok ⟨0, helpText, "", w.files⟩
  | .error (.fault e) => .ok ⟨2, "", s!"error: {e.message}\n", w.files⟩
  | .ok ⟨verbose, .parse r⟩ => runParse w verbose r
  | .ok ⟨_, .shorten longname⟩ => .ok (runShorten w longname)

/-! ### What a run looks at -/

/-- The paths that `parse` looks at before the settings are known. -/
def ParseRequest.paths (homes : Settings.Homes) (r : ParseRequest) : List Path :=
  let config := (Settings.expandHome homes (.ofString r.config)).toOption.toList
  config ++ config.map (fun p => p.join (Path.ofString settingsFileName)) ++ [Path.ofString r.path]

/-- The paths that `parse` looks at when the settings are known. -/
def ParseRequest.logPaths (w : World) (r : ParseRequest) : List Path :=
  match Settings.load w.reader w.homes w.files w.here (.ofString r.config) with
  | .ok s => s.logFile.toList
  | .error _ => []

end DocComment.Command
