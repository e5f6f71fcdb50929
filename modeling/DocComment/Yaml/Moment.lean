import DocComment.Decimal.Shortest

/-!
# Moments

A moment is a day of the calendar, or a time on such a day. A time may be tied to a zone, which is
given by how many minutes it is ahead of the universal time; without one it is the time of some
place or other. Two times with zones are the same when they are at once, wherever that is.

A moment is read by its form alone. Whether the calendar has such a day, and the day such a time, is
a question of its own.

- `Moment.ofText?` - the moment that a text spells.
- `Moment.fault?` - what is wrong with a moment, if anything is.
- `Moment.toText` - a moment as text.
- `Moment.same` - when two moments are the same.
-/

namespace DocComment.Yaml

/-- A day of the calendar. -/
structure Day where
  /-- The year. -/
  year : Nat
  /-- The month, from one. -/
  month : Nat
  /-- The day of the month, from one. -/
  day : Nat
  deriving DecidableEq, Repr

/-- A time of day. -/
structure Clock where
  /-- The hour. -/
  hour : Nat
  /-- The minute. -/
  minute : Nat
  /-- The second. -/
  second : Nat
  /-- The millionths of a second. -/
  micros : Nat
  deriving DecidableEq, Repr

/-- A day, or a time on a day. -/
inductive Moment where
  /-- A day. -/
  | day (d : Day)
  /-- A time, with the minutes that its zone is ahead if it has one. -/
  | time (d : Day) (c : Clock) (zone : Option Int)
  deriving DecidableEq, Repr

/-- What is wrong with a moment. -/
inductive MomentFault where
  /-- There is no such year. -/
  | year (n : Nat)
  /-- There is no such month. -/
  | month
  /-- The month has no such day. -/
  | day
  /-- The day has no such hour. -/
  | hour
  /-- The hour has no such minute. -/
  | minute
  /-- The minute has no such second. -/
  | second
  /-- The zone is a day or more away. -/
  | zone (minutes : Int)
  deriving DecidableEq, Repr

namespace Day

/-- Whether a year has a leap day. -/
def isLeap (year : Nat) : Bool :=
  year % 4 == 0 && (year % 100 != 0 || year % 400 == 0)

/-- How many days the months of a year have. -/
def monthLengths (year : Nat) : List Nat :=
  [31, if isLeap year then 29 else 28, 31, 30, 31, 30, 31, 31, 30, 31, 30, 31]

/-- How many days a month has, by the `monthLengths`. -/
def monthLength (year month : Nat) : Nat :=
  (monthLengths year).getD (month - 1) 0

/-- How many days lie before the first day of a year. -/
def daysBefore (year : Nat) : Nat :=
  let past := year - 1
  365 * past + past / 4 - past / 100 + past / 400

/-- The number of a day, counted from the first day of the first year. -/
def number (d : Day) : Nat :=
  ((monthLengths d.year).take (d.month - 1)).foldl (· + ·) (daysBefore d.year) + d.day

/-- What is wrong with a day, if anything is. -/
def fault? (d : Day) : Option MomentFault :=
  -- Year, month and day in turn: the day is checked only once the month is one.
  if d.year == 0 then some (.year d.year)
  else if d.month == 0 || 12 < d.month then some .month
  else if d.day == 0 || monthLength d.year d.month < d.day then some .day
  else none

/-- A number with at least `width` digits. -/
def padded (width n : Nat) : String :=
  String.ofList (Decimal.padLeft width (Nat.toDigits 10 n))

/-- A `Day` as text. -/
def toText (d : Day) : String :=
  s!"{padded 4 d.year}-{padded 2 d.month}-{padded 2 d.day}"

end Day

namespace Clock

/-- What is wrong with a time of day, if anything is. -/
def fault? (c : Clock) : Option MomentFault :=
  if 23 < c.hour then some .hour
  else if 59 < c.minute then some .minute
  else if 59 < c.second then some .second
  else none

/-- The millionths of a second that have passed since midnight. -/
def elapsed (c : Clock) : Nat :=
  ((c.hour * 60 + c.minute) * 60 + c.second) * 1000000 + c.micros

/-- A `Clock` as text; a fraction of a second is written only where there is one. -/
def toText (c : Clock) : String :=
  s!"{Day.padded 2 c.hour}:{Day.padded 2 c.minute}:{Day.padded 2 c.second}" ++
    (if c.micros == 0 then "" else s!".{Day.padded 6 c.micros}")

end Clock

namespace MomentFault

/-- A span of minutes in words: whole days, and the seconds of what is left. -/
def spanText (minutes : Int) : String :=
  let days := minutes.fdiv 1440
  let seconds := 60 * minutes.fmod 1440
  s!"datetime.timedelta(days={days}" ++ (if seconds == 0 then ")" else s!", seconds={seconds})")

/-- A `MomentFault` in words. -/
def message : MomentFault → String
  | year n => s!"year {n} is out of range"
  | month => "month must be in 1..12"
  | day => "day is out of range for month"
  | hour => "hour must be in 0..23"
  | minute => "minute must be in 0..59"
  | second => "second must be in 0..59"
  | zone minutes =>
    "offset must be a timedelta strictly between -timedelta(hours=24) and timedelta(hours=24), " ++
      s!"not {spanText minutes}."

end MomentFault

namespace Moment

/-! ### Reading -/

/-- Whether `cs` holds digits, from `least` to `most` of them. -/
def isCount (least most : Nat) (cs : List Char) : Bool :=
  least <= cs.length && cs.length <= most && cs.all Char.isDigit

/-- The number that decimal digits spell. -/
def numberOf (cs : List Char) : Nat :=
  cs.foldl (fun n c => n * 10 + (c.toNat - '0'.toNat)) 0

/-- Whether `c` is a blank between the parts of a moment. -/
def isSpace (c : Char) : Bool :=
  c == ' ' || c == '\t'

/-- The pieces of `cs` between dashes, at most three. -/
def dashed (cs : List Char) : List Char × List Char × List Char :=
  let year := cs.takeWhile (· != '-')
  let rest := (cs.drop year.length).drop 1
  let month := rest.takeWhile (· != '-')
  (year, month, (rest.drop month.length).drop 1)

/-- The zone that `cs` spells: a letter for the universal time, or a signed distance. -/
def zone? (cs : List Char) : Option Int :=
  match cs with
  -- One letter, or a sign, one or two digits for the hours, and two for the minutes if there are
  -- any.
  | ['Z'] => some 0
  | sign :: rest =>
    let hours := rest.takeWhile Char.isDigit
    let minutes :=
      match rest.drop hours.length with
      | [] => some 0
      | ':' :: digits => if isCount 2 2 digits then some (numberOf digits) else none
      | _ => none
    match isCount 1 2 hours, minutes with
    | true, some n =>
      let distance : Int := numberOf hours * 60 + n
      if sign == '+' then some distance else if sign == '-' then some (-distance) else none
    | _, _ => none
  | [] => none

/-- A fraction of a second behind its point, cut or filled up to millionths. -/
def micros (digits : List Char) : Nat :=
  numberOf ((digits ++ List.replicate 6 '0').take 6)

/-- The time that `cs` spells, and its zone: hours, minutes and seconds, then a fraction and a zone
or neither. -/
def clock? (cs : List Char) : Option (Clock × Option Int) :=
  let hour := cs.takeWhile Char.isDigit
  match isCount 1 2 hour, cs.drop hour.length with
  | true, ':' :: m₁ :: m₂ :: ':' :: s₁ :: s₂ :: rest =>
    let fraction :=
      match rest with
      | '.' :: more => more.takeWhile Char.isDigit
      | _ => []
    let rest :=
      match rest with
      | '.' :: more => more.dropWhile Char.isDigit
      | _ => rest
    let clock : Clock := ⟨numberOf hour, numberOf [m₁, m₂], numberOf [s₁, s₂], micros fraction⟩
    -- Blanks may stand before the zone, but not at the end.
    if !([m₁, m₂, s₁, s₂].all Char.isDigit) then none
    else if rest.isEmpty then some (clock, none)
    else (zone? (rest.dropWhile isSpace)).map fun z => (clock, some z)
  | _, _ => none

/-- The time of day (`clock?`) that follows a day, behind a letter or blanks. -/
def afterDay? (cs : List Char) : Option (Clock × Option Int) :=
  match cs with
  | 'T' :: rest => clock? rest
  | 't' :: rest => clock? rest
  | c :: _ => if isSpace c then clock? (cs.dropWhile isSpace) else none
  | [] => none

/-- The **moment that a text spells**. A day by itself has two digits for the month and for the day;
with a time one digit will do. -/
def ofText? (cs : List Char) : Option Moment :=
  let (year, month, rest) := dashed cs
  let digits := rest.takeWhile Char.isDigit
  let after := rest.drop digits.length
  let d : Day := ⟨numberOf year, numberOf month, numberOf digits⟩
  if !(isCount 4 4 year && isCount 1 2 month && isCount 1 2 digits) then none
  else if after.isEmpty then
    if month.length == 2 && digits.length == 2 then some (.day d) else none
  else (afterDay? after).map fun r => .time d r.1 r.2

/-! ### Checking, writing, comparing -/

/-- What is wrong with a zone, if anything is: it must be less than a day away. -/
def zoneFault? (zone : Option Int) : Option MomentFault :=
  match zone with
  | some z => if z.natAbs < 1440 then none else some (.zone z)
  | none => none

/-- **What is wrong with a moment**, if anything is: first the zone, then the day, then the time. -/
def fault? : Moment → Option MomentFault
  | day d => d.fault?
  | time d c zone => ((zoneFault? zone).or d.fault?).or c.fault?

/-- A zone as text. -/
def zoneText (z : Int) : String :=
  let sign := if z < 0 then "-" else "+"
  s!"{sign}{Day.padded 2 (z.natAbs / 60)}:{Day.padded 2 (z.natAbs % 60)}"

/-- A moment **as text**. -/
def toText : Moment → String
  | day d => d.toText
  | time d c zone => s!"{d.toText} {c.toText}" ++ (zone.map zoneText).getD ""

/-- The millionths of a second from the first day on up to a time in a zone, for `same`. -/
def instant (d : Day) (c : Clock) (zone : Int) : Int :=
  ((d.number : Int) * 86400 - zone * 60) * 1000000 + c.elapsed

/-- Whether two moments **are the same**: two times with zones are when they are at once, all others
when they are written alike. -/
def same (a b : Moment) : Bool :=
  match a, b with
  | time d c (some z), time d' c' (some z') => instant d c z == instant d' c' z'
  | _, _ => a == b

end Moment

end DocComment.Yaml
