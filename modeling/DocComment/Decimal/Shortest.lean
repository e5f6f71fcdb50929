/-!
# Shortest decimals

A binary floating-point number stands for all reals that round to it. Its shortest decimal is the
one with the fewest digits among those reals, and of several the nearest. All is computed with whole
numbers: a positive finite number is `m * 2 ^ q`, and the reals that round to it reach half way to
its neighbours, the ends included when `m` is even.

- `Binary.ofFloat` - sign and parts of a floating-point number.
- `shortest` - digits and exponent of the shortest decimal.
- `Layout.render` - a number written by a given layout; `Layout.standard` - the usual one.
-/

namespace DocComment.Decimal

/-- A floating-point number taken apart. -/
inductive Binary where
  /-- Not a number. -/
  | nan
  /-- An infinity, negative or not. -/
  | infinite (negative : Bool)
  /-- The number `m * 2 ^ q`, negative or not. -/
  | finite (negative : Bool) (m : Nat) (q : Int)
  deriving DecidableEq, Repr

/-- Sign and parts of a floating-point number, as a `Binary`. -/
def Binary.ofFloat (x : Float) : Binary :=
  let bits := x.toBits.toNat
  let negative := bits / Nat.pow 2 63 == 1
  let exponent : Nat := bits / Nat.pow 2 52 % Nat.pow 2 11
  let fraction : Nat := bits % Nat.pow 2 52
  -- The greatest exponent is for what is no number, and the least for fractions without a leading
  -- bit.
  if exponent == 2047 then if fraction == 0 then .infinite negative else .nan
  else if exponent == 0 then .finite negative fraction (-1074)
  else .finite negative (fraction + Nat.pow 2 52) ((exponent : Int) - 1075)

/-- The whole number that a floating-point number is, if it is one. -/
def Binary.toInt? : Binary → Option Int
  | finite negative m q =>
    let size : Option Nat :=
      if 0 ≤ q then some (m * Nat.pow 2 q.toNat)
      else if m % Nat.pow 2 (-q).toNat == 0 then some (m / Nat.pow 2 (-q).toNat)
      else none
    size.map fun n => if negative then -(n : Int) else n
  | _ => none

/-- The fraction `n * 2 ^ q / 10 ^ u` as numerator and denominator. -/
def ratio (n : Nat) (q u : Int) : Nat × Nat :=
  (n * Nat.pow 2 q.toNat * Nat.pow 10 (-u).toNat, Nat.pow 2 (-q).toNat * Nat.pow 10 u.toNat)

/-- The exponent of the first decimal digit of `m * 2 ^ q`, for a positive `m`, by the number of
digits that its `ratio` has. -/
def leadingExponent (m : Nat) (q : Int) : Int :=
  -- No number is smaller than this power of ten, so its digits are all before the point.
  let (n, d) := ratio m q (-400)
  ((Nat.toDigits 10 (n / d)).length : Int) - 401

/-- Whether `k * 10 ^ u` rounds to `m * 2 ^ q`. -/
def rounds (m : Nat) (q : Int) (k : Nat) (u : Int) : Bool :=
  -- quarters of a unit: the lower neighbour is nearer where the exponent changes
  let below := if m == Nat.pow 2 52 && q != -1074 then 4 * m - 1 else 4 * m - 2
  let (low, lowUnit) := ratio below (q - 2) u
  let (high, highUnit) := ratio (4 * m + 2) (q - 2) u
  if m % 2 == 0 then low <= k * lowUnit && k * highUnit <= high
  else low < k * lowUnit && k * highUnit < high

/-- The decimal with digits down to `10 ^ u` that `rounds` to `m * 2 ^ q`, the nearer one if there
are two. -/
def nearestOn (m : Nat) (q u : Int) : Option Nat :=
  let (n, d) := ratio m q u
  let k := n / d
  match rounds m q k u, rounds m q (k + 1) u with
  | true, true =>
    -- compare twice the remainder with the unit; a tie goes to the even neighbour
    let twice := 2 * (n % d)
    some (if twice < d then k else if d < twice then k + 1 else if k % 2 == 0 then k else k + 1)
  | true, false => some k
  | false, true => some (k + 1)
  | false, false => none

/-- The first digit count from `17 - more` on whose grid holds a number that rounds to `m * 2 ^ q`
(`nearestOn`). -/
def searchShortest (m : Nat) (q leading : Int) : Nat → Nat × Int
  -- Seventeen digits tell any two numbers apart, so the search ends before this.
  | 0 => (0, 0)
  | more + 1 =>
    let u := leading - (16 - more : Nat)
    match nearestOn m q u with
    | some k => (k, u)
    | none => searchShortest m q leading more

/-- The **shortest decimal** `k * 10 ^ u` of a positive `m * 2 ^ q`, as `k` and `u`. -/
def shortest (m : Nat) (q : Int) : Nat × Int :=
  searchShortest m q (leadingExponent m q) 17

/-- How numbers are laid out: which exponents of the first digit are written without an exponent
mark, and how many digits the exponent has at least. -/
structure Layout where
  /-- The least exponent written in full. -/
  least : Int
  /-- The greatest exponent written in full. -/
  greatest : Int
  /-- The least number of digits of an exponent. -/
  exponentWidth : Nat

/-- The usual layout: numbers are written out from 0.0001 up to sixteen places before the point, and
with an exponent of at least two digits beyond. -/
def Layout.standard : Layout := ⟨-4, 15, 2⟩

/-- `cs` filled up with zeros on the left to `width` characters. -/
def padLeft (width : Nat) (cs : List Char) : List Char :=
  List.replicate (width - cs.length) '0' ++ cs

/-- Digits with the decimal point behind the first `places` of them, and at least one digit on
either side. -/
def positional (digits : List Char) (places : Int) : List Char :=
  if places <= 0 then
    ['0', '.'] ++ List.replicate (-places).toNat '0' ++ digits
  else
    let places := places.toNat
    let whole := digits.take places ++ List.replicate (places - digits.length) '0'
    let rest := digits.drop places
    whole ++ ['.'] ++ (if rest.isEmpty then ['0'] else rest)

/-- Digits with a point behind the first one and the exponent of that one. -/
def scientific (width : Nat) (digits : List Char) (exponent : Int) : List Char :=
  let mantissa :=
    match digits with
    | [] => []
    | [d] => [d]
    | d :: rest => d :: '.' :: rest
  let sign := if exponent < 0 then '-' else '+'
  mantissa ++ ['e', sign] ++ padLeft width (Nat.toDigits 10 exponent.natAbs)

/-- A positive decimal `k * 10 ^ u` in a layout: `positional`, or `scientific` beyond its bounds. -/
def Layout.renderPositive (l : Layout) (k : Nat) (u : Int) : List Char :=
  let written := Nat.toDigits 10 k
  -- Zeros at the end say nothing once the exponent is known.
  let digits := (written.reverse.dropWhile (· == '0')).reverse
  let exponent := u + written.length - 1
  if l.least <= exponent && exponent <= l.greatest then positional digits (exponent + 1)
  else scientific l.exponentWidth digits exponent

/-- A **number in a layout**: the digits of its `shortest` decimal, or a word for what is no number.
-/
def Layout.render (l : Layout) (x : Float) : String :=
  match Binary.ofFloat x with
  | .nan => "nan"
  | .infinite negative => if negative then "-inf" else "inf"
  | .finite negative m q =>
    let body := if m == 0 then ['0', '.', '0'] else let (k, u) := shortest m q; l.renderPositive k u
    String.ofList (if negative then '-' :: body else body)

end DocComment.Decimal
