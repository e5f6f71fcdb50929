import DocComment.Text.Quoted
import DocComment.Yaml.Cursor
import DocComment.Yaml.Scalar

/-!
# Quoted scalars

Between apostrophes everything stands for itself, and an apostrophe is written twice. Between double
quotes a backslash starts an escape. In both, blanks at a line end are dropped and lines are folded.

- `readQuoted` - the text of a quoted scalar and what follows it.
-/

namespace DocComment.Yaml

open DocComment.Text

/-- The characters that a letter behind a backslash stands for. -/
def escapeLetters : List (Char × Char) :=
  [('0', '\x00'), ('a', '\x07'), ('b', '\x08'), ('t', '\t'), ('\t', '\t'), ('n', '\n'),
   ('v', '\x0b'), ('f', '\x0c'), ('r', '\r'), ('e', '\x1b'), (' ', ' '), (doubleQuote, doubleQuote),
   ('\\', '\\'), ('/', '/'), ('N', '\x85'), ('_', '\xa0'), ('L', '\u2028'), ('P', '\u2029')]

/-- How many hexadecimal digits follow a letter behind a backslash. -/
def escapeWidth? (c : Char) : Option Nat :=
  if c == 'x' then some 2
  else if c == 'u' then some 4
  else if c == 'U' then some 8
  else none

/-- The code point that `width` hexadecimal digits spell, and what follows these. -/
def codePoint (width : Nat) (cs : List Char) : Except Fault (Nat × List Char) :=
  let digits := cs.take width
  if digits.length == width && digits.all Scalar.isHexDigit then
    .ok (Scalar.digitsValue 16 digits, cs.drop width)
  else .error .malformed

/-- The character with a `codePoint` of `width` hexadecimal digits, and what follows these. Half of
a surrogate pair is no character, and the null character stands for it. -/
def codeEscape (width : Nat) (cs : List Char) : Except Fault (Char × List Char) := do
  let (n, rest) ← codePoint width cs
  if 0x110000 <= n then throw .noCharacter
  return (if Nat.isValidChar n then Char.ofNat n else '\x00', rest)

/-- Whether `c` is a blank inside a line. -/
def isGap (c : Char) : Bool :=
  c == ' ' || c == '\t'

/-- The line ends of the empty lines that come next, and the text of the line that follows them. A
document separator must not come in between. -/
def emptyLines : Nat → List Char → Except Fault (List Char × List Char)
  | 0, _ => .error .malformed
  | fuel + 1, cs =>
    if atSeparator cs then .error .malformed
    else
      match cs.dropWhile isGap with
      | [] => .ok ([], [])
      | c :: rest =>
        if isLineEnd c then (emptyLines fuel rest).map fun r => (keptLineEnd c :: r.1, r.2)
        else .ok ([], c :: rest)

/-- What an escape stands for, and what follows it; the backslash is passed already. An escaped line
end leaves nothing but the `emptyLines` behind it. -/
def readEscape (cs : List Char) : Except Fault (List Char × List Char) :=
  match cs with
  | [] => .error .malformed
  | c :: rest =>
    match escapeLetters.lookup c, escapeWidth? c with
    | some meant, _ => .ok ([meant], rest)
    | none, some width => (codeEscape width rest).map fun r => ([r.1], r.2)
    | none, none => if isLineEnd c then emptyLines (rest.length + 1) rest else .error .malformed

/-- The text up to the closing quote, and what follows it. -/
def quotedFrom (double : Bool) : Nat → List Char → Except Fault (List Char × List Char)
  | 0, _ => .error .malformed
  | _, [] => .error .malformed
  | fuel + 1, c :: rest =>
    let quote := if double then doubleQuote else apostrophe
    let more := fun (s : List Char) (cs : List Char) =>
      (quotedFrom double fuel cs).map fun r => (s ++ r.1, r.2)
    if c == quote then
      if !double && rest.head? == some quote then more [quote] rest.tail else .ok ([], rest)
    else if double && c == '\\' then do
      let (s, cs) ← readEscape rest
      more s cs
    else
      -- Blanks are kept only if the line goes on behind them.
      let blanks := (c :: rest).takeWhile isGap
      match (c :: rest).drop blanks.length with
      | [] => .error .malformed
      | d :: after =>
        if isLineEnd d then do
          let (ends, cs) ← emptyLines (after.length + 1) after
          more (foldLines d ends) cs
        else if blanks.isEmpty then more [c] rest
        else more blanks (d :: after)

/-- The **text of a quoted scalar** and what follows it, by `quotedFrom`; the opening quote is
passed already. -/
def readQuoted (double : Bool) (cs : List Char) : Except Fault (List Char × List Char) :=
  quotedFrom double (cs.length + 1) cs

end DocComment.Yaml
