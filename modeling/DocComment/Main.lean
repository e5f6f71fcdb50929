import DocComment.Command.Run
import DocComment.Yaml.Draft

/-!
# The program

The outer layer: it looks up the files, the homes and the time that a run asks for, hands them to
the run, and carries out what the run leaves behind. Settings are read with `Yaml.reader`, and no
extensions are installed.
-/

namespace DocComment.Program

open DocComment

/-! ### Files -/

/-- The bytes that are left on a stream. -/
partial def readAll (stream : IO.FS.Stream) (done : ByteArray) : IO ByteArray := do
  let chunk ← stream.read 65536
  if chunk.isEmpty then return done else readAll stream (done ++ chunk)

/-- The text of a place in the file system. -/
def placeText (names : List String) : String :=
  "/" ++ "/".intercalate names

/-- What stands at a place in the file system. -/
def lookUp (names : List String) : IO (Option FileEntry) := do
  let file := (← IO.currentDir) / placeText names
  if ← file.isDir then return some .directory
  else if ← file.pathExists then return some (.file (← IO.FS.readBinFile file).toList)
  else return none

/-- The tree with what stands along some paths (`Path.places`): all that a run can look at is in it.
-/
def snapshot (here : Path) (paths : List Path) (tree : FileTree) : IO FileTree :=
  (paths.flatMap (Path.places here)).foldlM (fun tree names => do
    match ← lookUp names with
    | some entry => return tree.put names entry
    | none => return tree) tree

/-- Adds bytes to the end of the file at a place, for `store`. -/
def addTo (names : List String) (bytes : List UInt8) : IO Unit := do
  let handle ← IO.FS.Handle.mk ((← IO.currentDir) / placeText names) .append
  handle.write ⟨bytes.toArray⟩

/-- Carries a new or changed entry over to the file system. -/
def store (old : FileTree) (names : List String) (entry : FileEntry) : IO Unit := do
  match old.find? names, entry with
  | none, .directory => IO.FS.createDir ((← IO.currentDir) / placeText names)
  -- A run only appends to files, so what is new stands behind what was there.
  | some (.file before), .file bytes => addTo names (bytes.drop before.length)
  | none, .file bytes => addTo names bytes
  | _, _ => pure ()

/-! ### Homes and time -/

/-- The lines of a file of the system; a file that cannot be read has none. -/
def linesOf (file : String) : IO (List String) := do
  try return (← IO.FS.readFile file).splitOn "\n" catch _ => return []

/-- The number of the user who runs the program. -/
def userNumber : IO (Option String) := do
  let status ← linesOf "/proc/self/status"
  return (status.find? (·.startsWith "Uid:")).bind fun line => (line.splitOn "\t")[1]?

/-- The homes of the users that the system knows. -/
def homes : IO Settings.Homes := do
  let users := (← linesOf "/etc/passwd").map (·.splitOn ":")
  let own ← IO.getEnv "HOME"
  let number ← userNumber
  return fun owner =>
    if owner.isEmpty then own <|> (users.find? (·[2]? == number)).bind (·[5]?)
    else (users.find? (·[0]? == some owner)).bind (·[5]?)

/-- The day with a number, counted from the first day of the year 1970. -/
def dayOf (number : Nat) : Yaml.Day :=
  -- Years are counted from March on here, in cycles of four hundred of them.
  let shifted := number + 719468
  let inCycle := shifted % 146097
  let year := (inCycle - inCycle / 1460 + inCycle / 36524 - inCycle / 146096) / 365
  let inYear := inCycle - (365 * year + year / 4 - year / 100)
  let month := (5 * inYear + 2) / 153
  { year := year + 400 * (shifted / 146097) + (if 10 <= month then 1 else 0)
    month := if month < 10 then month + 3 else month - 9
    day := inYear - (153 * month + 2) / 5 + 1 }

/-- A time as log files show it, with the day that `dayOf` counts. -/
def timeText (seconds millis : Nat) : String :=
  let clock : Yaml.Clock := ⟨seconds / 3600 % 24, seconds / 60 % 60, seconds % 60, 0⟩
  s!"{(dayOf (seconds / 86400)).toText} {clock.toText},{Yaml.Day.padded 3 millis}"

/-- The time now: a file that is made now carries it. -/
def now : IO String := do
  let (_, file) ← IO.FS.createTempFile
  let time := (← file.metadata).modified
  IO.FS.removeFile file
  return timeText time.sec.toNat (time.nsec.toNat / 1000000)

/-! ### Runs -/

/-- Whether an invocation reads the standard input. -/
def readsInput (args : List String) : Bool :=
  match Command.Invocation.parse args with
  | .ok ⟨_, .parse r⟩ => r.path == "-"
  | _ => false

/-- The world with the files that an invocation looks at: the log file is known only once the
settings are. -/
def withFiles (w : Command.World) (args : List String) : IO Command.World := do
  let tree ← snapshot w.here [w.here] .empty
  match Command.Invocation.parse args with
  | .ok ⟨_, .parse r⟩ =>
    let tree ← snapshot w.here (r.paths w.homes) tree
    return { w with files := ← snapshot w.here (r.logPaths { w with files := tree }) tree }
  | _ => return { w with files := tree }

/-- What an invocation sees; all records of a run have the time at which it starts. -/
def worldFor (args : List String) : IO Command.World := do
  let bytes ← if readsInput args then readAll (← IO.getStdin) .empty else pure .empty
  let time ← now
  withFiles {
    files := .empty
    here := Path.ofString (← IO.currentDir).toString
    homes := ← homes
    reader := Yaml.reader
    extensions := []
    input := bytes.toList
    clock := fun _ => time } args

/-- Runs a command line by `Command.run`, in the world of `worldFor`. -/
def run (args : List String) : IO UInt32 := do
  let w ← worldFor args
  match Command.run w args with
  | .error e =>
    (← IO.getStderr).putStr (e.message ++ "\n")
    return 1
  | .ok r =>
    -- Directories come before what stands in them, as they were put into the tree.
    r.files.places.entries.forM fun e => store w.files e.1 e.2
    (← IO.getStdout).putStr r.output
    (← IO.getStderr).putStr r.errors
    return r.code.toUInt32

end DocComment.Program

/-- The program. -/
def main (args : List String) : IO UInt32 :=
  DocComment.Program.run args
