import DocComment.File.Path
import DocComment.Table
import DocComment.Text.Line
import DocComment.Text.Quoted
import DocComment.Text.Utf8

/-!
# File trees

The files that a run can see and write: directories and files with their bytes, by their names from
the root on. Reading, making directories and appending fail in the ways that an operating system
has.

- `FileTree` - the tree.
- `FileTree.read`, `FileTree.makeDirectories`, `FileTree.append` - what can be done with it.
- `FileError.message` - a failure in words.
- `FileTree.readText` - the text of a file: it is read as UTF-8, and all line ends in it become line
  feeds.
-/

namespace DocComment

/-- Why an operation on files failed. -/
inductive FileFault where
  /-- There is nothing there. -/
  | notFound
  /-- Something is there already. -/
  | occupied
  /-- A file stands where a directory is needed. -/
  | notDirectory
  /-- A directory stands where a file is needed. -/
  | isDirectory
  /-- A name is longer than a directory can hold. -/
  | nameTooLong
  /-- The path holds the null character, and so is none. -/
  | nullCharacter
  deriving DecidableEq, Repr

namespace FileFault

/-- The number that the system gives a fault; what is no path never gets to the system. -/
def number : FileFault → Nat
  | notFound => 2
  | occupied => 17
  | notDirectory => 20
  | isDirectory => 21
  | nameTooLong => 36
  | nullCharacter => 0

/-- A `FileFault` in words. -/
def reason : FileFault → String
  | notFound => "No such file or directory"
  | occupied => "File exists"
  | notDirectory => "Not a directory"
  | isDirectory => "Is a directory"
  | nameTooLong => "File name too long"
  | nullCharacter => "embedded null byte"

end FileFault

/-- A failed operation: the `FileFault` and the path it was met at. -/
structure FileError where
  /-- The fault. -/
  fault : FileFault
  /-- The path, as it was given. -/
  path : String
  deriving DecidableEq, Repr

/-- A failed operation in words. -/
def FileError.message (e : FileError) : String :=
  if e.fault == .nullCharacter then e.fault.reason
  else s!"[Errno {e.fault.number}] {e.fault.reason}: {Text.quoted e.path}"

/-- Whether a failure is one that the system reports; what is no path (`FileFault.nullCharacter`)
never gets to the system. -/
def FileError.isExpected (e : FileError) : Bool :=
  e.fault != .nullCharacter

/-- What stands at a place of a tree. -/
inductive FileEntry where
  /-- A directory. -/
  | directory
  /-- A file with its bytes. -/
  | file (bytes : List UInt8)
  deriving DecidableEq, Repr

/-- A **tree of files**. -/
structure FileTree where
  /-- What stands where, by the names from the root on. The root itself is always a directory. -/
  places : Table (List String) FileEntry
  deriving Repr

namespace FileTree

/-- The tree that holds only the root. -/
def empty : FileTree := ⟨.empty⟩

/-- What stands at the place `names`. -/
def find? (t : FileTree) (names : List String) : Option FileEntry :=
  if names.isEmpty then some .directory else t.places.get? names

/-- The tree with `entry` at the place `names`. -/
def put (t : FileTree) (names : List String) (entry : FileEntry) : FileTree :=
  ⟨t.places.insert names entry⟩

/-- What is `put` at a place is found there, and all other places stay as they were. -/
theorem find?_put (t : FileTree) (names other : List String) (entry : FileEntry)
    (h : other ≠ []) :
    (t.put names entry).find? other = if names = other then some entry else t.find? other := by
  simp [find?, put, h, Table.get?_insert]

/-- The tree with directories at `names` and at every place above. -/
def putDirectories (t : FileTree) (names : List String) : FileTree :=
  (List.range names.length).foldl (fun t i =>
    let place := names.take (i + 1)
    if (t.find? place).isSome then t else t.put place .directory) t

/-- How many bytes a name may have. -/
def nameLimit : Nat := 255

/-- Whether a name is longer than a directory can hold, by the `nameLimit`. -/
def isTooLong (name : String) : Bool :=
  nameLimit < name.utf8ByteSize

/-- The place that a walk along `parts` from the place `here` ends at. -/
def walk (t : FileTree) : List String → List String → Except FileFault (List String)
  | here, [] => .ok here
  | here, p :: more =>
    match t.find? here with
    | none => .error .notFound
    | some (.file _) => .error .notDirectory
    | some .directory =>
      -- Only a directory can be left again: a file in the way is a fault even before double points.
      if p == ".." then walk t here.dropLast more
      else if isTooLong p then .error .nameTooLong
      else if (t.find? (here ++ [p])).isNone then .error .notFound
      else walk t (here ++ [p]) more

/-- Whether a path holds the null character. -/
def holdsNull (p : Path) : Bool :=
  p.parts.any fun name => name.toList.contains '\x00'

/-- The place that a path, seen from the directory `here`, ends at. -/
def locate (t : FileTree) (here p : Path) : Except FileFault (List String) :=
  if holdsNull p then .error .nullCharacter else t.walk [] (here.join p).parts

/-- What a path leads to, by `locate`; a name that is too long is a fault, and any other fault means
that there is nothing. -/
def entryAt (t : FileTree) (here p : Path) : Except FileError (Option FileEntry) :=
  match t.locate here p with
  | .ok place => .ok (t.find? place)
  | .error .nameTooLong => .error ⟨.nameTooLong, p.toText⟩
  | .error _ => .ok none

/-- Whether a path leads to a directory. -/
def isDirectory (t : FileTree) (here p : Path) : Bool :=
  match t.entryAt here p with
  | .ok (some .directory) => true
  | _ => false

/-- The **bytes of a file**. -/
def read (t : FileTree) (here p : Path) : Except FileError (List UInt8) :=
  match t.locate here p with
  | .error fault => .error ⟨fault, p.toText⟩
  | .ok place =>
    match t.find? place with
    | some (.file bytes) => .ok bytes
    | some .directory => .error ⟨.isDirectory, p.toText⟩
    | none => .error ⟨.notFound, p.toText⟩

/-- The place of a new entry in what stands at the place `around`, which must be a directory. -/
def placeIn (t : FileTree) (around : List String) (name? : Option String) :
    Except FileFault (List String) :=
  match t.find? around, name? with
  | some .directory, some name =>
    -- Double points, and a path without names, lead to what is there already.
    if name == ".." then .error .occupied
    else if isTooLong name then .error .nameTooLong
    else .ok (around ++ [name])
  | some .directory, none => .error .occupied
  | some (.file _), _ => .error .notDirectory
  | none, _ => .error .notFound

/-- The place at which a path would make something new: the place of the directory around it, and
the last name (`placeIn`). -/
def newPlace (t : FileTree) (here p : Path) : Except FileFault (List String) :=
  let parts := (here.join p).parts
  if holdsNull p then .error .nullCharacter
  else (t.walk [] parts.dropLast).bind fun around => t.placeIn around parts.getLast?

/-- The tree with a new directory at its `newPlace`. -/
def makeDirectory (t : FileTree) (here p : Path) : Except FileError FileTree :=
  match t.newPlace here p with
  | .error fault => .error ⟨fault, p.toText⟩
  | .ok place =>
    if (t.find? place).isSome then .error ⟨.occupied, p.toText⟩ else .ok (t.put place .directory)

/-- The tree after an attempt to make a directory (`makeDirectory`) that may be there already. -/
def ensureDirectory (t : FileTree) (here p : Path) : Except FileError FileTree :=
  match t.makeDirectory here p with
  | .ok t => .ok t
  | .error e =>
    if e.fault != .notFound && t.isDirectory here p then .ok t else .error e

/-- The tree with a directory and the `above` directories above it, where they are missing; for
`makeDirectories`. -/
def makeDirectoriesWithin (here : Path) : Nat → FileTree → Path → Except FileError FileTree
  | 0, t, p => t.ensureDirectory here p
  | above + 1, t, p =>
    match t.ensureDirectory here p with
    | .ok t => .ok t
    | .error e =>
      if e.fault == .notFound && p.parent != p then do
        -- Something is missing above: it is made first, and then the directory is tried again.
        let t ← makeDirectoriesWithin here above t p.parent
        t.ensureDirectory here p
      else .error e

/-- The tree with a directory **and all those above it**. -/
def makeDirectories (t : FileTree) (here p : Path) : Except FileError FileTree :=
  makeDirectoriesWithin here p.parts.length t p

/-- The tree with `bytes` **at the end of a file**, which is made if it is missing. -/
def append (t : FileTree) (here p : Path) (bytes : List UInt8) : Except FileError FileTree :=
  match t.newPlace here p with
  | .error .occupied => .error ⟨.isDirectory, p.toText⟩
  | .error fault => .error ⟨fault, p.toText⟩
  | .ok place =>
    match t.find? place with
    | some (.file old) => .ok (t.put place (.file (old ++ bytes)))
    | none => .ok (t.put place (.file bytes))
    | some .directory => .error ⟨.isDirectory, p.toText⟩

/-- The files of the tree with their bytes. -/
def files (t : FileTree) : List (List String × List UInt8) :=
  t.places.entries.filterMap fun e =>
    match e.2 with
    | .file bytes => some (e.1, bytes)
    | .directory => none

end FileTree

/-! ### Text files -/

/-- Why a text file could not be read. -/
inductive ReadError where
  /-- The file could not be read at all. -/
  | file (e : FileError)
  /-- Its bytes are no UTF-8. -/
  | decode (e : Text.DecodeError)
  deriving DecidableEq, Repr

/-- The text of bytes (`Text.decodeUtf8`), with its line ends unified (`Text.unifyBreaks`). -/
def textOfBytes (bytes : List UInt8) : Except Text.DecodeError String :=
  (Text.decodeUtf8 bytes).map fun s => String.ofList (Text.unifyBreaks s.toList)

/-- The **text of a file**: its bytes (`FileTree.read`) as `textOfBytes` reads them. -/
def FileTree.readText (t : FileTree) (here p : Path) : Except ReadError String :=
  match t.read here p with
  | .error e => .error (.file e)
  | .ok bytes => (textOfBytes bytes).mapError .decode

end DocComment
