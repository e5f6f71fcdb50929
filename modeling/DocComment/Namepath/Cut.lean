import DocComment.Namepath.Scope
import DocComment.Text.CharClass
import DocComment.Text.Quoted
import DocComment.Text.Scan

/-!
# Cutting a name path

A name path such as `a.b#c(2)` tells where a symbol lives: the path of its owner, a punctuation mark
for its scope, its own name and, in parentheses, a variation. A quoted part such as `["x.y"]` is one
name, whatever stands inside the quotes.

The cut is made in four steps. Quoted parts give way to numbered stand-ins, each behind a point; a
point doubled by that is dropped; `.prototype` becomes the mark of instance members; then the path
is cut at its last mark, and a variation is taken off the name. At the end the quoted parts return,
the last one first, each in place of the first occurrence of its stand-in. Text that spells out a
stand-in is treated as one.

- `Namepath.cut` - the parts of a name path.
- `Namepath.Parts` - owner, scope, name, variation, and the path in its normal form.
-/

namespace DocComment.Namepath

open DocComment.Text

/-- The parts of a name path. -/
structure Parts where
  /-- The whole path, in its normal form. -/
  longname : String := ""
  /-- The path of the owner; empty without one. -/
  memberof : String := ""
  /-- How the symbol belongs to its owner. -/
  scope : Option Scope := none
  /-- The symbol's own name. -/
  name : String := ""
  /-- What tells symbols of one name apart. -/
  variation : Option String := none
  deriving DecidableEq, Repr

/-- The scope of the parts as the mark that the path shows (`Scope.mark`), or nothing. -/
def Parts.scopeMark (p : Parts) : String :=
  match p.scope with
  | some s => String.ofList [s.mark]
  | none => ""

/-! ### Quoted parts -/

/-- How many characters lead up to and through the next double quote, on one line. -/
def throughQuote : List Char → Option Nat
  | [] => none
  | c :: rest =>
    if c == doubleQuote then some 1
    else if c == '\n' then none
    else (throughQuote rest).map (· + 1)

/-- How many characters a quoted text takes behind its opening quote: at least one character,
whatever it is, and then all through the next quote (`throughQuote`), on one line. -/
def quotedTail : List Char → Option Nat
  | [] => none
  | c :: rest => if c == '\n' then none else (throughQuote rest).map (· + 1)

/-- The length of a `quotedTail` behind its opening quote, with a closing bracket right behind it.
-/
def tailLength (rest : List Char) : Nat :=
  match quotedTail rest with
  | some n => if (rest.drop n).head? == some ']' then n + 1 else n
  | none => 0

/-- The length of the **quoted part** that `cs` starts with; a bracket on either side belongs
to it. -/
def quotedLength : List Char → Nat
  | [] => 0
  | c :: rest =>
    if c == doubleQuote then
      match tailLength rest with
      | 0 => 0
      | n + 1 => n + 2
    else if c == '[' && rest.head? == some doubleQuote then
      match tailLength rest.tail with
      | 0 => 0
      | n + 1 => n + 3
    else 0

/-- Recognises a quoted part, of `quotedLength`. -/
def quotedPart : Recogniser := fun _ cs => quotedLength cs

/-- A quoted part without its brackets. -/
def withoutBrackets (s : List Char) : List Char :=
  let s := if s.head? == some '[' then s.tail else s
  if s.getLast? == some ']' then s.dropLast else s

/-- The **stand-in** of the quoted part with number `i`. -/
def standIn (i : Nat) : List Char :=
  ['@', '\x7b'] ++ Nat.toDigits 10 i ++ ['\x7d', '@']

/-- The text of the pieces with every quoted part replaced by a point and its `standIn`, and the
quoted parts themselves; `i` is the number of the next one. -/
def mask (i : Nat) : List Piece → List Char × List (List Char)
  | [] => ([], [])
  | .plain c :: more =>
    let (text, atoms) := mask i more
    (c :: text, atoms)
  | .hit s :: more =>
    let (text, atoms) := mask (i + 1) more
    ('.' :: standIn i ++ text, withoutBrackets s :: atoms)

/-- The length of the `standIn`, of any number, that `cs` starts with. -/
def standInLength : List Char → Nat
  | '@' :: '\x7b' :: rest =>
    let digits := rest.takeWhile isDecimalDigit
    match digits, rest.drop digits.length with
    | _ :: _, '\x7d' :: '@' :: _ => digits.length + 4
    | _, _ => 0
  | _ => 0

/-- The length of a mark, a point and a stand-in that `cs` starts with. -/
def pointBehindMark : List Char → Nat
  | c :: '.' :: rest =>
    if Scope.isMark c && standInLength rest != 0 then standInLength rest + 2 else 0
  | _ => 0

/-- Recognises the point before a stand-in when it is doubled: at the start of the text, or behind
another mark, which then belongs to the match. -/
def doubledPoint : Recogniser := fun before cs =>
  match before, cs with
  | none, '.' :: rest =>
    if standInLength rest != 0 then standInLength rest + 1 else pointBehindMark cs
  | _, _ => pointBehindMark cs

/-- A match of `doubledPoint` without the point. -/
def dropPoint : List Char → List Char
  | c :: '.' :: rest => c :: rest
  | '.' :: rest => rest
  | s => s

/-- `cs` with the quoted parts `atoms`, numbered from `i` on, put back for their stand-ins
(`standIn`), the last first. -/
def restoreFrom (i : Nat) : List (List Char) → List Char → List Char
  | [], cs => cs
  -- Only the first occurrence is replaced, be it in a quoted part that has returned already.
  | atom :: more, cs => replaceFirst (standIn i) atom (restoreFrom (i + 1) more cs)

/-! ### Marks and variations -/

/-- The text that stands for instance members in full. -/
def prototypeText : List Char := ".prototype".toList

/-- Recognises `.prototype`, with a point behind it. -/
def prototypePart : Recogniser := fun _ cs =>
  if prototypeText.isPrefixOf cs then
    if (cs.drop prototypeText.length).head? == some '.' then prototypeText.length + 1
    else prototypeText.length
  else 0

/-- `cs` with every `.prototype` written as the mark of instance members. -/
def shortenPrototypes (cs : List Char) : List Char :=
  substitute prototypePart (fun _ => ['#']) cs

/-- The text before the **last mark**, the mark, and the text behind it. -/
def splitLast : List Char → Option (List Char × Scope × List Char)
  | [] => none
  | c :: rest =>
    match splitLast rest with
    | some (before, scope, after) => some (c :: before, scope, after)
    | none => (Scope.ofMark? c).map fun scope => ([], scope, rest)

/-- Whether `cs` is the inside of a variation: not empty and without a closing parenthesis. -/
def isVariation (cs : List Char) : Bool :=
  !cs.isEmpty && !cs.contains ')'

/-- The longest name on one line that `cs` starts with such that an opening parenthesis and the
inside of a variation (`isVariation`) make up the rest. -/
def nameAndVariation? : List Char → Option (List Char × List Char)
  | [] => none
  | c :: rest =>
    if c == '\n' then none
    else
      match nameAndVariation? rest with
      | some (name, variation) => some (c :: name, variation)
      | none =>
        match rest with
        | '(' :: variation => if isVariation variation then some ([c], variation) else none
        | _ => none

/-- The first place of `cs` from which on it reads as a name and a variation (`nameAndVariation?`).
-/
def findVariation? : List Char → Option (List Char × List Char)
  | [] => none
  | c :: rest =>
    match nameAndVariation? (c :: rest) with
    | some found => some found
    | none => findVariation? rest

/-- The **name and the variation** of a last member that ends in a parenthesised text; a line feed
may follow. -/
def splitVariation? (cs : List Char) : Option (List Char × List Char) :=
  match cs.reverse with
  | ')' :: before => findVariation? before.reverse
  | '\n' :: ')' :: before => findVariation? before.reverse
  | _ => none

/-! ### The cut -/

/-- The path of `longname` with stand-ins for its quoted parts (`mask`), shortened, and these parts.
-/
def masked (longname : List Char) : List Char × List (List Char) :=
  let (text, atoms) := mask 0 (scan quotedPart longname)
  (shortenPrototypes (substitute doubledPoint dropPoint text), atoms)

/-- The **parts of a name path**. -/
def cut (longname : String) : Parts :=
  let (path, atoms) := masked longname.toList
  let (memberof, scope, last) :=
    match splitLast path with
    | some (before, scope, after) => (before, some scope, after)
    | none => ([], none, path)
  -- The mark is sought first, so a mark inside a variation cuts the variation.
  let (name, variation) :=
    match splitVariation? last with
    | some (name, variation) => (name, some variation)
    | none => (last, none)
  { longname := String.ofList (restoreFrom 0 atoms path)
    memberof := String.ofList (restoreFrom 0 atoms memberof)
    scope := scope
    name := String.ofList (restoreFrom 0 atoms name)
    variation := variation.map String.ofList }

end DocComment.Namepath
