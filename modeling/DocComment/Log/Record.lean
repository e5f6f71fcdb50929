/-!
# Log records

What the library has to say is a `Remark`: a level, the logger that makes it, and a message. All
loggers stand below the one named by `rootLogger`. A remark becomes a `Record` when it is logged:
then it also has a time. The time is told by whoever runs the library, as the text that a log file
shows.
-/

namespace DocComment.Log

/-- How grave a remark is. -/
structure Level where
  /-- The place of a level among the levels. -/
  rank : Nat
  deriving DecidableEq, Repr

namespace Level

/-- Steps taken, for troubleshooting. -/
def debug : Level := ⟨10⟩

/-- Ordinary news. -/
def info : Level := ⟨20⟩

/-- Something is odd but can be lived with. -/
def warning : Level := ⟨30⟩

/-- Something failed. -/
def error : Level := ⟨40⟩

/-- Nothing works any more. -/
def critical : Level := ⟨50⟩

/-- The levels that have a word of their own. -/
def named : List (Level × String) :=
  [(debug, "DEBUG"), (info, "INFO"), (warning, "WARNING"), (error, "ERROR"),
   (critical, "CRITICAL")]

/-- The word for a level; between the `named` levels it tells the rank. -/
def word (l : Level) : String :=
  ((named.find? fun entry => entry.1 == l).map (·.2)).getD s!"Level {l.rank}"

/-- The level that a word names, if it is one of the `named`. -/
def ofWord? (s : String) : Option Level :=
  (named.find? fun entry => entry.2 == s).map (·.1)

/-- Whether `l` is at least as grave as `threshold`. -/
def reaches (l threshold : Level) : Bool :=
  threshold.rank <= l.rank

end Level

/-- The logger above all others. -/
def rootLogger : String := "doclets"

/-- The logger for the area `name`; without an area the root itself. -/
def logger (name : String) : String :=
  if name.isEmpty then rootLogger else rootLogger ++ "." ++ name

/-- A remark. -/
structure Remark where
  /-- How grave it is. -/
  level : Level
  /-- The logger that makes it. -/
  logger : String
  /-- What it says. -/
  message : String
  deriving DecidableEq, Repr

/-- A `Remark` **that was logged**. -/
structure Record extends Remark where
  /-- When it was logged. -/
  time : String
  deriving DecidableEq, Repr

/-- Remarks logged one after another, the first of them as number `first` by the clock. -/
def stamp (clock : Nat → String) (first : Nat) (remarks : List Remark) : List Record :=
  (remarks.zipIdx first).map fun r => ⟨r.1, clock r.2⟩

end DocComment.Log
