import DocComment.Text.CharClass
import DocComment.Text.Quoted

/-!
# Command-line arguments

The command line names one of two commands and gives it options and at most one positional argument.
Long options may be cut short as long as they stay unambiguous, and take their value behind an
equals sign or as the next argument; short ones may be written together. Behind two dashes
everything is positional, and so is a single dash and what looks like a negative number.

Arguments are first sorted into options and others; then they are consumed from left to right. The
first fault ends the reading. Arguments that nobody wants are reported when all else is read.

- `Invocation` - what a command line asks for.
- `Invocation.parse` - the reading of a command line.
- `UsageError.message` - a fault in words.
-/

namespace DocComment.Command

open DocComment.Text

/-- An option. -/
inductive Opt where
  /-- Asks for help. -/
  | help
  /-- Asks for more remarks. -/
  | verbose
  /-- Gives the name of the code. -/
  | name
  /-- Gives the type of the code. -/
  | codeType
  /-- Gives the line. -/
  | lineno
  /-- Gives the file. -/
  | filename
  /-- Gives the settings. -/
  | config
  deriving DecidableEq, Repr

namespace Opt

/-- The flags of an option. -/
def flags : Opt → List String
  | help => ["-h", "--help"]
  | verbose => ["-v", "--verbose"]
  | name => ["--name"]
  | codeType => ["--code-type"]
  | lineno => ["--lineno"]
  | filename => ["--filename"]
  | config => ["--config"]

/-- Whether an option takes a value. -/
def takesValue : Opt → Bool
  | help => false
  | verbose => false
  | _ => true

/-- An option as a `UsageError` names it. -/
def title (o : Opt) : String :=
  "/".intercalate o.flags

end Opt

/-- A fault of a command line. -/
inductive UsageError where
  /-- A shortened option could be several. -/
  | ambiguous (written : String) (flags : List String)
  /-- An option lacks its value. -/
  | missingValue (o : Opt)
  /-- An option that takes no value was given one. -/
  | unwantedValue (o : Opt) (value : String)
  /-- A line is no number. -/
  | invalidLine (value : String)
  /-- There is no such command. -/
  | unknownCommand (value : String)
  /-- A positional argument is missing. -/
  | missing (title : String)
  /-- Arguments are left over. -/
  | leftOver (values : List String)
  deriving DecidableEq, Repr

/-- A `UsageError` in words. -/
def UsageError.message : UsageError → String
  | ambiguous written flags =>
    "ambiguous option: " ++ written ++ " could match " ++ ", ".intercalate flags
  | missingValue o => s!"argument {o.title}: expected one argument"
  | unwantedValue o value => s!"argument {o.title}: ignored explicit argument {quoted value}"
  | invalidLine value => s!"argument {Opt.lineno.title}: invalid int value: {quoted value}"
  | unknownCommand value =>
    s!"argument command: invalid choice: {quoted value} (choose from 'parse', 'shorten')"
  | missing title => s!"the following arguments are required: {title}"
  | leftOver values => "unrecognized arguments: " ++ " ".intercalate values

/-! ### Sorting arguments -/

/-- What an argument looks like. -/
inductive Shape where
  /-- An option of the command, the flag it was recognised by, and a value written with it. -/
  | option (o : Opt) (flag : String) (value : Option String)
  /-- An option that the command does not have. -/
  | unknownOption
  /-- The two dashes behind which all is positional. -/
  | dashes
  /-- Anything else. -/
  | other
  deriving DecidableEq, Repr

/-- An argument and its `Shape`. -/
abbrev Sorted := String × Shape

/-- All `Opt.flags` of some options, with the option that each belongs to. -/
def flagTable (options : List Opt) : List (String × Opt) :=
  options.flatMap fun o => o.flags.map fun f => (f, o)

/-- An argument cut at its first equals sign. -/
def splitValue (cs : List Char) : List Char × Option (List Char) :=
  let flag := cs.takeWhile (· != '=')
  match cs.drop flag.length with
  | _ :: value => (flag, some value)
  | [] => (flag, none)

/-- Whether an argument looks like a negative number; a line feed may follow. -/
def isNegativeNumber (cs : List Char) : Bool :=
  match cs with
  | '-' :: rest =>
    -- Digits of any script, with at most one point among them.
    let rest := if rest.getLast? == some '\n' then rest.dropLast else rest
    let whole := rest.takeWhile isDecimalDigit
    match rest.drop whole.length with
    | [] => !whole.isEmpty
    | '.' :: part => !part.isEmpty && part.all isDecimalDigit
    | _ => false
  | _ => false

/-- The options that a shortened or joined argument can stand for: the flag in full, its option, and
the value written with it. -/
def candidates (options : List Opt) (cs : List Char) : List (String × Opt × Option String) :=
  match cs with
  | '-' :: '-' :: _ =>
    let (flag, value) := splitValue cs
    (flagTable options).filterMap fun e =>
      if flag.isPrefixOf e.1.toList then some (e.1, e.2, value.map String.ofList) else none
  | _ =>
    (flagTable options).filterMap fun e =>
      -- A short flag with something right behind it, or a long one behind one dash cut short.
      if e.1.toList == cs.take 2 then some (e.1, e.2, some (String.ofList (cs.drop 2)))
      else if cs.isPrefixOf e.1.toList then some (e.1, e.2, none)
      else none

/-- The **`Shape` of an argument** for a command with some options. A flag in full comes before one
with a value, and both come before the `candidates`. -/
def shapeOf (options : List Opt) (arg : String) : Except UsageError Shape :=
  let cs := arg.toList
  let table := flagTable options
  if cs.head? != some '-' then .ok .other
  else
    match table.lookup arg with
    | some o => .ok (.option o arg none)
    | none =>
      -- A single dash is no option.
      if cs.length == 1 then .ok .other
      else
        let (flag, value) := splitValue cs
        match table.lookup (String.ofList flag), value with
        | some o, some v => .ok (.option o (String.ofList flag) (some (String.ofList v)))
        | _, _ =>
          match candidates options cs with
          | [(flag, o, value)] => .ok (.option o flag value)
          | [] =>
            -- What holds a blank was hardly meant as an option.
            if isNegativeNumber cs || cs.contains ' ' then .ok .other else .ok .unknownOption
          | several => .error (.ambiguous arg (several.map (·.1)))

/-- Arguments sorted by `shapeOf`; behind two dashes nothing is an option. -/
def sort (options : List Opt) : List String → Except UsageError (List Sorted)
  | [] => .ok []
  | arg :: more =>
    if arg == "--" then .ok ((arg, .dashes) :: more.map fun a => (a, .other))
    else do
      let shape ← shapeOf options arg
      let rest ← sort options more
      return (arg, shape) :: rest

/-! ### Values -/

/-- The number that decimal digits of any script spell, with single underscores between them;
`inside` tells whether a digit stands right before. -/
def spelledNumber? (n : Nat) (inside : Bool) : List Char → Option Nat
  | [] => if inside then some n else none
  | c :: rest =>
    if c == '_' then if inside then spelledNumber? n false rest else none
    else
      match decimalValue? c with
      | some d => spelledNumber? (n * 10 + d) true rest
      | none => none

/-- Whether `c` is a blank that may stand around a number: any but the four
information separators. -/
def isOuterBlank (c : Char) : Bool :=
  isBlank c && !('\x1c' <= c && c <= '\x1f')

/-- The `spelledNumber?` behind a sign, unless it has more than `digitLimit` digits. -/
def signedNumber? (negative : Bool) (digits : List Char) : Option Int :=
  if (digits.filter (· != '_')).length <= digitLimit then
    (spelledNumber? 0 false digits).map fun (n : Nat) => if negative then -(n : Int) else n
  else none

/-- The **number that a text spells**: blanks around it, a sign, and digits. -/
def number? (s : String) : Option Int :=
  match stripChars isOuterBlank s.toList with
  -- At most one sign: a second one is no digit.
  | '-' :: digits => signedNumber? true digits
  | '+' :: digits => signedNumber? false digits
  | digits => signedNumber? false digits

/-! ### Consuming arguments -/

/-- Why the reading of a command line ends early. -/
inductive Halt where
  /-- It has a fault. -/
  | fault (e : UsageError)
  /-- It asks for help. -/
  | help
  deriving DecidableEq, Repr

/-- The options met, each with its value if it takes one (`Opt.takesValue`). -/
abbrev Given := List (Opt × Option String)

/-- An option as it is met: help ends the reading, and a line must be a `number?`. -/
def accept (o : Opt) (value : Option String) : Except Halt (Opt × Option String) :=
  match o, value with
  | .help, _ => .error .help
  | .lineno, some s =>
    if (number? s).isSome then .ok (o, value) else .error (.fault (.invalidLine s))
  | _, _ => .ok (o, value)

/-- The options that a short flag stands for when a text is written right behind it: each letter is
a flag again. -/
def joinedFlags (options : List Opt) (o : Opt) : List Char → Except UsageError (List Opt)
  | [] => .ok [o]
  | c :: rest =>
    match (flagTable options).lookup (String.ofList ['-', c]) with
    | some next => (joinedFlags options next rest).map (o :: ·)
    | none => .error (.unwantedValue o (String.ofList (c :: rest)))

/-- The options that an argument stands for when a value is written with its flag. If the option
takes none, the value may be further short flags (`joinedFlags`). -/
def withValue (options : List Opt) (o : Opt) (flag value : String) : Except UsageError Given :=
  if o.takesValue then .ok [(o, some value)]
  else if flag.toList.take 2 == ['-', '-'] || value.isEmpty then .error (.unwantedValue o value)
  else (joinedFlags options o value.toList).map fun os => os.map fun o => (o, none)

/-- What the arguments of a command come to. -/
structure Reading where
  /-- The options. -/
  given : Given := []
  /-- The positional argument. -/
  positional : Option String := none
  /-- The arguments that nobody wants. -/
  extras : List String := []

/-- Whether an option is among sorted arguments. -/
def hasOption (args : List Sorted) : Bool :=
  args.any fun a =>
    match a.2 with
    | .option _ _ _ => true
    | .unknownOption => true
    | _ => false

/-- Whether an argument is the two dashes (`Shape.dashes`). -/
def isDashes (a : Sorted) : Bool :=
  a.2 == .dashes

/-- The positional argument among arguments of which none is an option; two dashes before or behind
it belong to it. If it may be missing (`optional`), two dashes alone stand for none. -/
def takePositional (optional : Bool) (args : List Sorted) : Reading :=
  match args.dropWhile isDashes with
  | (arg, _) :: rest => { positional := some arg, extras := (rest.dropWhile isDashes).map (·.1) }
  | [] => { extras := if optional then [] else args.map (·.1) }

/-- The **reading of sorted arguments**, from left to right; `taken` is the positional argument met
so far. -/
def consume (options : List Opt) (optional : Bool) :
    Option String → List Sorted → Except Halt Reading
  | taken, [] => .ok { positional := taken }
  | taken, (_, .option o flag (some value)) :: rest => do
    -- The value is written with the flag.
    let met ← (withValue options o flag value).mapError .fault
    let met ← met.mapM fun g => accept g.1 g.2
    let r ← consume options optional taken rest
    return { r with given := met ++ r.given }
  | taken, (_, .option o _ none) :: (value, .other) :: rest =>
    if o.takesValue then do
      let met ← accept o (some value)
      let r ← consume options optional taken rest
      return { r with given := met :: r.given }
    else do
      let met ← accept o none
      -- The next argument is not for this option.
      let r ← consume options optional taken ((value, .other) :: rest)
      return { r with given := met :: r.given }
  | taken, (_, .option o _ none) :: rest =>
    if o.takesValue then .error (.fault (.missingValue o))
    else do
      let met ← accept o none
      let r ← consume options optional taken rest
      return { r with given := met :: r.given }
  | taken, (arg, .unknownOption) :: rest => do
    let r ← consume options optional taken rest
    return { r with extras := arg :: r.extras }
  | taken, (arg, shape) :: rest =>
    -- Between options one argument is taken at a time; behind the last option all of them are.
    if hasOption rest then
      match taken with
      | none => consume options optional (some arg) rest
      | some _ => do
        let r ← consume options optional taken rest
        return { r with extras := arg :: r.extras }
    else
      match taken with
      | none => .ok (takePositional optional ((arg, shape) :: rest))
      | some _ => .ok { positional := taken, extras := arg :: rest.map (·.1) }

/-! ### Commands -/

/-- What the command `parse` is asked to do. -/
structure ParseRequest where
  /-- The file that holds the comment; a dash stands for the standard input. -/
  path : String := "-"
  /-- The name of the code. -/
  name : Option String := none
  /-- The type of the code. -/
  codeType : Option String := none
  /-- The line. -/
  lineno : Option Int := none
  /-- The file that the comment was found in. -/
  filename : Option String := none
  /-- The settings, or the directory that holds them. -/
  config : String := "."
  deriving DecidableEq, Repr

/-- What a command line asks for. -/
inductive Request where
  /-- The doclet of a comment. -/
  | parse (r : ParseRequest)
  /-- The parts of a name path. -/
  | shorten (longname : String)
  deriving DecidableEq, Repr

/-- A **command line understood**. -/
structure Invocation where
  /-- Whether more remarks are wanted. -/
  verbose : Bool
  /-- What is asked for. -/
  request : Request
  deriving DecidableEq, Repr

/-- The last value that `Given` holds for an option. -/
def lastValue (given : Given) (o : Opt) : Option String :=
  (given.reverse.lookup o).join

/-- Whether an option is in `Given`. -/
def wasGiven (given : Given) (o : Opt) : Bool :=
  given.any fun g => g.1 == o

/-- The options of the program as a whole. -/
def programOptions : List Opt := [.help, .verbose]

/-- The options of the command `parse`. -/
def parseOptions : List Opt :=
  [.help, .verbose, .name, .codeType, .lineno, .filename, .config]

/-- The options of the command `shorten`. -/
def shortenOptions : List Opt := [.help, .verbose]

/-- The reading of the arguments of a command: all are sorted (`sort`) before any is consumed
(`consume`), so a fault of the first kind comes first. -/
def readArguments (options : List Opt) (optional : Bool) (args : List String) :
    Except Halt Reading := do
  let sorted ← (sort options args).mapError .fault
  consume options optional none sorted

/-- The arguments of the command `parse`, as a `ParseRequest`; the last value of an option counts.
-/
def readParse (args : List String) : Except Halt (Invocation × List String) := do
  let r ← readArguments parseOptions true args
  let request : ParseRequest := {
    path := r.positional.getD "-"
    name := lastValue r.given .name
    codeType := lastValue r.given .codeType
    lineno := (lastValue r.given .lineno).bind number?
    filename := lastValue r.given .filename
    config := (lastValue r.given .config).getD "." }
  return (⟨wasGiven r.given .verbose, .parse request⟩, r.extras)

/-- The arguments of the command `shorten`, of which one is the path. -/
def readShorten (args : List String) : Except Halt (Invocation × List String) := do
  let r ← readArguments shortenOptions false args
  match r.positional with
  | some longname => return (⟨wasGiven r.given .verbose, .shorten longname⟩, r.extras)
  | none => .error (.fault (.missing "longname"))

/-- A command and its arguments: `readParse`, `readShorten`, or there is no such command. -/
def readCommand (command : String) (args : List String) : Except Halt (Invocation × List String) :=
  if command == "parse" then readParse args
  else if command == "shorten" then readShorten args
  else .error (.fault (.unknownCommand command))

/-- The reading of a command line: options of the program, then a command, to which all the rest
belongs. -/
def readProgram : List Sorted → Except Halt (Invocation × List String)
  | [] => .error (.fault (.missing "command"))
  | (_, .option o flag value) :: rest => do
    let met ←
      match value with
      | some v => (withValue programOptions o flag v).mapError .fault
      | none => pure [(o, none)]
    let met ← met.mapM fun g => accept g.1 g.2
    let (invocation, extras) ← readProgram rest
    return ({ invocation with verbose := invocation.verbose || wasGiven met .verbose }, extras)
  | (arg, .unknownOption) :: rest => do
    let (invocation, extras) ← readProgram rest
    return (invocation, arg :: extras)
  -- What follows the command was sorted with the options of the program, and is sorted again.
  | (arg, .other) :: rest => readCommand arg (rest.map (·.1))
  | (arg, .dashes) :: rest =>
    if rest.isEmpty then .error (.fault (.missing "command"))
    else .error (.fault (.unknownCommand arg))

/-- The **reading of a command line** by `readProgram`; arguments that nobody wants are reported
only when all else is read. -/
def Invocation.parse (args : List String) : Except Halt Invocation := do
  let sorted ← (sort programOptions args).mapError .fault
  let (invocation, extras) ← readProgram sorted
  if extras.isEmpty then return invocation else .error (.fault (.leftOver extras))

end DocComment.Command
