import DocComment.File.Tree
import DocComment.Log.Record
import DocComment.Text.Utf8

/-!
# Where log records go

Records go to the console and, if a log file is set, to that file. A record must reach the threshold
of the logger and then that of each outlet. Setting the outlets anew drops the ones before and opens
a new stream for the console; a log file takes everything, and while there is one the logger lets
everything through.

- `Outlets` - the outlets that are set, and what they hold.
- `Outlets.configure` - outlets set anew.
- `Outlets.emit` - a record passed on.
-/

namespace DocComment.Log

/-- A place that records go to. -/
inductive Sink where
  /-- The stream of a console, by its number. -/
  | stream (number : Nat)
  /-- The file at a path. -/
  | file (path : Path)
  deriving DecidableEq, Repr

/-- A `Sink` that records go to, with the least level that it takes. -/
structure Outlet where
  /-- The place. -/
  sink : Sink
  /-- The least level. -/
  threshold : Level
  deriving DecidableEq, Repr

/-- The outlets that are set, and what they hold. -/
structure Outlets where
  /-- The least level that the logger lets through; none is set at first. -/
  threshold : Option Level := none
  /-- The outlets. -/
  outlets : List Outlet := []
  /-- Whether records also go to loggers above. -/
  propagates : Bool := true
  /-- What is on the streams of the console, the first one first. -/
  streams : List String := []
  /-- The files. -/
  files : FileTree

/-- A `Record` as the console shows it, without its time. -/
def Record.consoleLine (r : Record) : String :=
  s!"[{rootLogger}] {r.level.word} {r.logger}: {r.message}\n"

/-- A `Record` as a log file holds it, with its time. -/
def Record.fileLine (r : Record) : String :=
  s!"{r.time} {r.level.word} {r.logger}: {r.message}\n"

namespace Outlets

/-- What is on the latest stream of the console. -/
def console (o : Outlets) : String :=
  o.streams.getLastD ""

/-- The least `Level` on the console. -/
def consoleLevel (verbose : Bool) : Level :=
  if verbose then .debug else .info

/-- Outlets **set anew**: a console with a new stream and, if one is given, a log file, seen from
`here`. The directories above the file are made, and so is the file. -/
def configure (here : Path) (verbose : Bool) (logFile : Option Path) (o : Outlets) :
    Except FileError Outlets :=
  let level := consoleLevel verbose
  let fresh := { o with
    threshold := some level
    outlets := [⟨.stream o.streams.length, level⟩]
    propagates := false
    streams := o.streams ++ [""] }
  match logFile with
  | none => .ok fresh
  | some path => do
    -- Any failure here leaves the outlets as they were: `fresh` is not set yet.
    let files ← o.files.makeDirectories here path.parent
    let place := Path.normal here path
    let files ← files.append here place []
    return { fresh with
      threshold := some .debug
      outlets := [⟨.stream o.streams.length, level⟩, ⟨.file place, .debug⟩]
      files := files }

/-- Whether the logger lets a record through: it reaches the `threshold`, or a warning while none is
set. -/
def passes (o : Outlets) (r : Record) : Bool :=
  match o.threshold with
  | some level => r.level.reaches level
  | none => r.level.reaches .warning

/-- A record written to one `Outlet`, if it reaches its threshold. -/
def deliver (here : Path) (r : Record) (o : Outlets) (outlet : Outlet) : Outlets :=
  if r.level.reaches outlet.threshold then
    match outlet.sink with
    | .stream n => { o with streams := o.streams.modify n (· ++ r.consoleLine) }
    | .file path =>
      match o.files.append here path (Text.encodeUtf8 r.fileLine) with
      | .ok files => { o with files := files }
      -- A log file that cannot be written to is passed over in silence.
      | .error _ => o
  else o

/-- A record **passed on** to every outlet that takes it (`deliver`), if the logger lets it through
(`passes`). -/
def emit (here : Path) (o : Outlets) (r : Record) : Outlets :=
  if o.passes r then o.outlets.foldl (deliver here r) o else o

/-- Several records passed on by `emit`, in order. -/
def emitAll (here : Path) (o : Outlets) (rs : List Record) : Outlets :=
  rs.foldl (emit here) o

end Outlets

end DocComment.Log
