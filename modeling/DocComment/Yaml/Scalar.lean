import DocComment.Document
import DocComment.Yaml.Moment

/-!
# Scalars of a settings document

A plain scalar is read by its form: null, truth values in several spellings, whole numbers in four
bases and in base sixty, numbers with a point, dates; all else is text. Scalars are the keys of
mappings. Two keys are one when they are equal as values, so a number and a truth value may be one
key. A text can have the form of a number, a character or a moment, and be none (`Fault`).

- `Scalar.ofPlain` - the scalar that a plain text stands for.
- `Scalar.toDocument` - a scalar as settings see it.
- `Scalar.sameKey` - when two scalars are one key.
-/

namespace DocComment.Yaml

/-! ### Faults -/

/-- What is wrong with a document. -/
inductive Fault where
  /-- It is malformed. -/
  | malformed
  /-- A moment that the calendar does not have. -/
  | moment (f : MomentFault)
  /-- A number in the base `base` without digits. -/
  | noDigits (base : Nat)
  /-- A whole number with more digits than are read. -/
  | tooLong (digits : Nat)
  /-- A number in base sixty with more places than a number with a point can have. -/
  | tooManyPlaces
  /-- A code point beyond the last character. -/
  | noCharacter
  deriving DecidableEq, Repr

/-- A `Fault` in words. -/
def Fault.message : Fault → String
  | malformed => "the document is malformed"
  | moment f => f.message
  | noDigits base => s!"invalid literal for int() with base {base}: ''"
  | tooLong digits =>
    s!"Exceeds the limit ({Text.digitLimit} digits) for integer string conversion: value has " ++
      s!"{digits} digits; use sys.set_int_max_str_digits() to increase the limit"
  | tooManyPlaces => "int too large to convert to float"
  | noCharacter => "chr() arg not in range(0x110000)"

/-! ### Scalars -/

/-- A single value. -/
inductive Scalar where
  /-- No value. -/
  | null
  /-- A truth value. -/
  | bool (b : Bool)
  /-- A whole number. -/
  | int (n : Int)
  /-- A number with a point. -/
  | float (x : Float)
  /-- A day, or a time on a day. -/
  | moment (m : Moment)
  /-- A text. -/
  | text (s : String)

namespace Scalar

/-- A scalar **as settings see it**. -/
def toDocument : Scalar → Document.Scalar
  | null => .null
  | bool b => .flag b
  | int n => .number n
  | float x => .decimal (Decimal.Layout.standard.render x)
  | moment m => .other m.toText
  | text s => .text s

/-- The whole number that a scalar equals, if it does; for `sameKey`. -/
def toInt? : Scalar → Option Int
  | bool b => some (if b then 1 else 0)
  | int n => some n
  | float x => (Decimal.Binary.ofFloat x).toInt?
  | _ => none

/-- Whether two scalars **are one key**. -/
def sameKey (a b : Scalar) : Bool :=
  match a, b with
  | null, null => true
  | text s, text t => s == t
  | moment m, moment n => m.same n
  -- What is no number is one key all the same.
  | float x, float y => x == y || (x.isNaN && y.isNaN)
  | _, _ =>
    match a.toInt?, b.toInt? with
    | some m, some n => m == n
    | _, _ => false

/-! ### Plain scalars -/

/-- The words for null. -/
def nullWords : List String := ["", "~", "null", "Null", "NULL"]

/-- The words for true. -/
def trueWords : List String :=
  ["yes", "Yes", "YES", "true", "True", "TRUE", "on", "On", "ON"]

/-- The words for false. -/
def falseWords : List String :=
  ["no", "No", "NO", "false", "False", "FALSE", "off", "Off", "OFF"]

/-- A sign in front of a number, whether it is negative, and what follows. -/
def takeSign : List Char → Bool × List Char
  | '-' :: rest => (true, rest)
  | '+' :: rest => (false, rest)
  | cs => (false, cs)

/-- `cs` without underscores. -/
def withoutUnderscores (cs : List Char) : List Char :=
  cs.filter (· != '_')

/-- Whether `cs` holds digits of the class `p`, at least one, and underscores. -/
def areDigits (p : Char → Bool) (cs : List Char) : Bool :=
  !cs.isEmpty && cs.all fun c => p c || c == '_'

/-- The value of a digit, hexadecimal ones included. -/
def digitValue (c : Char) : Nat :=
  if c.isDigit then c.toNat - '0'.toNat
  else if 'a' <= c && c <= 'f' then c.toNat - 'a'.toNat + 10
  else if 'A' <= c && c <= 'F' then c.toNat - 'A'.toNat + 10
  else 0

/-- The number that digits (`digitValue`) spell in a base; underscores do not count. -/
def digitsValue (base : Nat) (cs : List Char) : Nat :=
  (withoutUnderscores cs).foldl (fun n c => n * base + digitValue c) 0

/-- Whether `c` is a hexadecimal digit. -/
def isHexDigit (c : Char) : Bool :=
  c.isDigit || ('a' <= c && c <= 'f') || ('A' <= c && c <= 'F')

/-- Whether `c` is an octal digit. -/
def isOctalDigit (c : Char) : Bool :=
  '0' <= c && c <= '7'

/-- Whether `cs` is a digit in base sixty: one or two digits below sixty. -/
def isSixtieth (cs : List Char) : Bool :=
  match cs with
  | [a] => a.isDigit
  | [a, b] => '0' <= a && a <= '5' && b.isDigit
  | _ => false

/-- The pieces of `cs` between colons. -/
def betweenColons : List Char → List (List Char)
  | [] => [[]]
  | c :: rest =>
    if c == ':' then [] :: betweenColons rest
    else
      match betweenColons rest with
      | [] => [[c]]
      | piece :: more => (c :: piece) :: more

/-- A whole number without its sign. -/
def magnitude? (cs : List Char) : Option Nat :=
  match cs with
  | '0' :: 'b' :: rest =>
    if areDigits (fun c => c == '0' || c == '1') rest then some (digitsValue 2 rest) else none
  | '0' :: 'x' :: rest => if areDigits isHexDigit rest then some (digitsValue 16 rest) else none
  -- A zero in front means base eight, unless it stands alone.
  | ['0'] => some 0
  | '0' :: rest => if areDigits isOctalDigit rest then some (digitsValue 8 rest) else none
  | c :: rest =>
    if !c.isDigit then none
    else if areDigits Char.isDigit (c :: rest) then some (digitsValue 10 (c :: rest))
    else
      -- In base sixty the first place may have any number of digits, and the others one or two.
      match betweenColons (c :: rest) with
      | first :: second :: more =>
        if areDigits Char.isDigit first && (second :: more).all isSixtieth then
          some ((second :: more).foldl (fun n p => n * 60 + digitsValue 10 p)
            (digitsValue 10 first))
        else none
      | _ => none
  | [] => none

/-- The **whole number** that a plain text spells: a sign and a `magnitude?`. -/
def int? (cs : List Char) : Option Int :=
  let (negative, rest) := takeSign cs
  (magnitude? rest).map fun n => if negative then -(n : Int) else n

/-- The exponent behind the digits of a number: a letter, a sign that must be there, and digits;
none at all is zero. -/
def exponent? (cs : List Char) : Option Int :=
  match cs with
  | [] => some 0
  | e :: sign :: digits =>
    if (e == 'e' || e == 'E') && (sign == '+' || sign == '-') && !digits.isEmpty &&
        digits.all Char.isDigit then
      let n := digitsValue 10 digits
      some (if sign == '-' then -(n : Int) else n)
    else none
  | _ => none

/-- The infinity. -/
def infinity : Float := 1.0 / 0.0

/-- The number with the digits `whole` before and `part` behind its point, times a power of ten.
What is far beyond all numbers is the infinity, and what is far below the least one is zero. -/
def scale (whole part : List Char) (exponent : Int) : Float :=
  let part := withoutUnderscores part
  let n := digitsValue 10 (whole ++ part)
  let e := exponent - part.length
  let size := e + (Nat.toDigits 10 n).length
  -- The size is told by the number of digits, so that no huge power is computed.
  if n == 0 || size < -400 then 0.0
  else if 400 < size then infinity
  else Float.ofScientific n (e < 0) e.natAbs

/-- The digits in base sixty before a point as one number. -/
def sixties (whole : List (List Char)) (last : Float) : Float :=
  let bases := (List.range whole.length).map fun i => Float.ofNat (Nat.pow 60 (i + 1))
  (whole.reverse.zip bases).foldl (fun x p => x + Float.ofNat (digitsValue 10 p.1) * p.2) last

/-- A number with a point, without its sign: digits before the point, in base ten or sixty
(`sixties`). -/
def pointed? (cs : List Char) : Option Float :=
  let whole := cs.takeWhile fun c => c.isDigit || c == '_'
  match cs.drop whole.length with
  | '.' :: rest =>
    let part := rest.takeWhile fun c => c.isDigit || c == '_'
    let startsDigit := ((whole.head?.map Char.isDigit).getD false)
    if startsDigit then (exponent? (rest.drop part.length)).map (scale whole part)
    else none
  | ':' :: _ =>
    let pieces := betweenColons cs
    match pieces.getLast?, pieces.dropLast with
    | some last, first :: more =>
      let lead := last.takeWhile (· != '.')
      match last.drop lead.length with
      | '.' :: part =>
        if areDigits Char.isDigit first && (first.head?.map Char.isDigit).getD false &&
            more.all isSixtieth && isSixtieth lead &&
            part.all fun c => c.isDigit || c == '_' then
          some (sixties (first :: more) (scale lead part 0))
        else none
      | _ => none
    | _, _ => none
  | _ => none

/-- A number that starts with its point; it takes no sign. -/
def startsPointed? (cs : List Char) : Option Float :=
  match cs with
  | '.' :: c :: rest =>
    let part := c :: rest.takeWhile fun c => c.isDigit || c == '_'
    if c.isDigit then (exponent? ((c :: rest).drop part.length)).map (scale [] part) else none
  | _ => none

/-- The **number with a point** that a plain text spells. -/
def float? (cs : List Char) : Option Float :=
  let (negative, rest) := takeSign cs
  let signed := fun x : Float => if negative then -x else x
  let s := String.ofList rest
  if [".inf", ".Inf", ".INF"].contains s then some (signed infinity)
  -- The infinity may have a sign, and what is no number may not.
  else if [".nan", ".NaN", ".NAN"].contains (String.ofList cs) then some (0.0 / 0.0)
  else
    match startsPointed? cs with
    | some x => some x
    | none => (pointed? rest).map signed

/-- What is wrong with a text that has the form of a whole number, if anything is: no digit follows
the mark of the base, or too many digits stand in a row. -/
def intFault? (cs : List Char) : Option Fault :=
  let digits := fun part : List Char => (withoutUnderscores part).length
  match (takeSign cs).2 with
  | '0' :: 'b' :: rest => if digits rest == 0 then some (.noDigits 2) else none
  | '0' :: 'x' :: rest => if digits rest == 0 then some (.noDigits 16) else none
  -- In bases that are powers of two any number of digits is read.
  | '0' :: _ => none
  | rest =>
    let size := digits (rest.takeWhile (· != ':'))
    if Text.digitLimit < size then some (.tooLong size) else none

/-- How many places a number with a point may have in base sixty. -/
def placeLimit : Nat := 174

/-- What is wrong with a text that has the form of a number with a point, if anything is: it has
more places in base sixty than the `placeLimit`. -/
def floatFault? (cs : List Char) : Option Fault :=
  if placeLimit < (betweenColons cs).length then some .tooManyPlaces else none

/-- The text that marks a key whose value is merged into the mapping around it. -/
def mergeMark : String := "<<"

/-- The text that stands for a default value; as a key it stands for itself. -/
def defaultMark : String := "="

/-- A scalar, unless there is a `Fault`. -/
def checked (fault : Option Fault) (s : Scalar) : Except Fault Scalar :=
  match fault with
  | some fault => .error fault
  | none => .ok s

/-- The **scalar that a plain text stands for**. The two texts that stand for merging and for a
default value stand for no scalar. -/
def ofPlain (s : String) : Except Fault Scalar :=
  let cs := s.toList
  if nullWords.contains s then .ok null
  else if trueWords.contains s then .ok (bool true)
  else if falseWords.contains s then .ok (bool false)
  else if s == mergeMark || s == defaultMark then .error .malformed
  else
    -- The first form that fits decides, even if the text then has a fault.
    match int? cs, float? cs, Moment.ofText? cs with
    | some n, _, _ => checked (intFault? cs) (int n)
    | none, some x, _ => checked (floatFault? cs) (float x)
    | none, none, some m => checked (m.fault?.map .moment) (moment m)
    | none, none, none => .ok (text s)

end Scalar

end DocComment.Yaml
