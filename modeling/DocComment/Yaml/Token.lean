import DocComment.Yaml.Plain
import DocComment.Yaml.Quoted

/-!
# Tokens of a settings document

A document is first cut into tokens: scalars, indicators, and the starts and ends of blocks, which
indents give. A scalar or a bracketed collection may turn out to be a key only when a colon follows
it, on the same line and not too far away. Wherever a key could stand a *mark* is left, and the
colon turns the mark into a key.

A scan that meets a fault ends there. Then only the tokens in front of the first mark that still
waits for its colon can be told, for the mark may yet have become a key.

Documents with anchors, tags, directives or block scalars are not taken.

- `Token` - the tokens.
- `Scan` - what a scan comes to: tokens, and the fault that ended it if one did.
- `Scan.ofDocument` - the scan of a document.
-/

namespace DocComment.Yaml

open DocComment.Text

/-- A token. -/
inductive Token where
  /-- Three dashes. -/
  | documentStart
  /-- Three points. -/
  | documentEnd
  /-- The start of a block of items. -/
  | sequenceStart
  /-- The start of a block of keys and values. -/
  | mappingStart
  /-- The end of a block. -/
  | blockEnd
  /-- An opening bracket. -/
  | flowSequenceStart
  /-- A closing bracket. -/
  | flowSequenceEnd
  /-- An opening brace. -/
  | flowMappingStart
  /-- A closing brace. -/
  | flowMappingEnd
  /-- The dash before an item. -/
  | blockEntry
  /-- A comma. -/
  | flowEntry
  /-- What follows is a key. -/
  | key
  /-- What follows is a value. -/
  | value
  /-- A scalar, plain or quoted. -/
  | scalar (text : String) (plain : Bool)
  deriving DecidableEq, Repr

/-- What a **scan** comes to. -/
structure Scan where
  /-- The tokens that can be told. -/
  tokens : List Token
  /-- What ended the scan before the end of the document, if anything did. -/
  fault : Option Fault

/-- A place where a key may have started. -/
structure KeyMark where
  /-- The number of the mark. -/
  number : Nat
  /-- Whether a key must have started there. -/
  required : Bool
  /-- The place. -/
  cursor : Cursor

/-- Whether a `KeyMark` is still good at a place: on the same line and within reach. -/
def KeyMark.isGood (c : Cursor) (m : KeyMark) : Bool :=
  m.cursor.line == c.line && c.index - m.cursor.index <= 1024

/-- What a scan has put out: a token, or a numbered mark for a key. -/
inductive Slot where
  /-- A token. -/
  | token (t : Token)
  /-- A place that may become a key. -/
  | mark (number : Nat)

/-- A scan on its way. -/
structure Scanner where
  /-- The place reached. -/
  cursor : Cursor
  /-- The column of the block around it. -/
  indent : Int := -1
  /-- The columns of the blocks further out. -/
  outerIndents : List Int := []
  /-- Whether a key may start here. -/
  keyAllowed : Bool := true
  /-- Where a key may have started, on this level of brackets. -/
  keyMark : Option KeyMark := none
  /-- The same on the levels further out; there are as many as brackets are open. -/
  outerMarks : List (Option KeyMark) := []
  /-- What was put out, the latest first. -/
  output : List Slot := []
  /-- The marks that became keys, and whether a block of keys starts with them. -/
  keys : List (Nat × Bool) := []
  /-- The number of the next mark. -/
  nextMark : Nat := 0

namespace Scanner

/-- Whether the place is between brackets. -/
def inFlow (s : Scanner) : Bool :=
  !s.outerMarks.isEmpty

/-- The scan with one more token. -/
def emit (s : Scanner) (t : Token) : Scanner :=
  { s with output := .token t :: s.output }

/-- The scan with one more token (`emit`), which `n` characters spell. -/
def take (s : Scanner) (t : Token) (n : Nat) : Scanner :=
  { s.emit t with cursor := s.cursor.skip n }

/-- The scan behind blanks, comments and line ends. -/
def skipBlanks : Nat → Scanner → Scanner
  | 0, s => s
  | fuel + 1, s =>
    let c := s.cursor.skipWhile (· == ' ')
    let c := if c.peek == some '#' then c.skipWhile fun ch => !isLineEnd ch else c
    match c.peek with
    | none => { s with cursor := c }
    | some ch =>
      if isLineEnd ch then
        -- On a new line a key may start, unless the line is between brackets.
        skipBlanks fuel { s with cursor := c.next, keyAllowed := s.keyAllowed || !s.inFlow }
      else { s with cursor := c }

/-- A mark that is still good at the place reached. A mark that is not good is dropped, unless a key
was required there. -/
def freshMark (c : Cursor) : Option KeyMark → Except Fault (Option KeyMark)
  | none => .ok none
  | some m =>
    if m.isGood c then .ok (some m)
    else if m.required then .error .malformed
    else .ok none

/-- The scan without marks that are no longer good (`freshMark`), on all levels. -/
def dropStale (s : Scanner) : Except Fault Scanner := do
  let mark ← freshMark s.cursor s.keyMark
  let outer ← s.outerMarks.mapM (freshMark s.cursor)
  return { s with keyMark := mark, outerMarks := outer }

/-- The scan without a mark on this level; a key that was required there makes the document
malformed. -/
def dropMark (s : Scanner) : Except Fault Scanner :=
  match s.keyMark with
  | some m => if m.required then .error .malformed else .ok { s with keyMark := none }
  | none => .ok s

/-- The scan with a mark at the place reached, if a key may start there. -/
def leaveMark (s : Scanner) : Except Fault Scanner :=
  if s.keyAllowed then do
    -- What starts in the column of a block of keys has to be one.
    let required := !s.inFlow && s.indent == s.cursor.column
    let s ← s.dropMark
    return { s with
      keyMark := some ⟨s.nextMark, required, s.cursor⟩
      output := .mark s.nextMark :: s.output
      nextMark := s.nextMark + 1 }
  else .ok s

/-- The blocks deeper than `column`, closed: the indent and the outer indents that are left, and how
many blocks were closed. -/
def closeBlocks (column : Int) : Int → List Int → Int × List Int × Nat
  | indent, [] => (indent, [], 0)
  | indent, outer :: more =>
    if column < indent then
      let (i, is, n) := closeBlocks column outer more
      (i, is, n + 1)
    else (indent, outer :: more, 0)

/-- The scan with the blocks deeper than `column` ended (`closeBlocks`); between brackets no block
ends. -/
def unwind (column : Int) (s : Scanner) : Scanner :=
  if s.inFlow then s
  else
    let (indent, outer, n) := closeBlocks column s.indent s.outerIndents
    { s with
      indent := indent
      outerIndents := outer
      output := List.replicate n (.token .blockEnd) ++ s.output }

/-- Whether a block that starts in `column` is deeper than the one around it, and the scan with it
open. -/
def openBlock (s : Scanner) (column : Int) : Bool × Scanner :=
  if s.indent < column then
    (true, { s with indent := column, outerIndents := s.indent :: s.outerIndents })
  else (false, s)

/-- The scan with a block that `start` announces open at the place reached, if it is deeper. -/
def openBlockHere (s : Scanner) (start : Token) : Scanner :=
  match s.openBlock s.cursor.column with
  | (true, s) => s.emit start
  | (false, s) => s

/-- A document separator: all blocks end before it (`unwind`). -/
def separator (s : Scanner) (t : Token) : Except Fault Scanner := do
  let s ← (s.unwind (-1)).dropMark
  return { s with keyAllowed := false }.take t 3

/-- An opening bracket. -/
def openFlow (s : Scanner) (t : Token) : Except Fault Scanner := do
  let s ← s.leaveMark
  return { s with
    keyMark := none
    -- The bracket may itself start a key, so its mark waits on the level further out.
    outerMarks := s.keyMark :: s.outerMarks
    keyAllowed := true }.take t 1

/-- A closing bracket. -/
def closeFlow (s : Scanner) (t : Token) : Except Fault Scanner := do
  let s ← s.dropMark
  match s.outerMarks with
  | [] => throw .malformed
  | mark :: outer =>
    return { s with keyMark := mark, outerMarks := outer, keyAllowed := false }.take t 1

/-- A comma. -/
def comma (s : Scanner) : Except Fault Scanner := do
  let s ← s.dropMark
  return { s with keyAllowed := true }.take .flowEntry 1

/-- The dash before an item. -/
def dash (s : Scanner) : Except Fault Scanner :=
  if !s.inFlow && !s.keyAllowed then .error .malformed
  else do
    let s := if s.inFlow then s else s.openBlockHere .sequenceStart
    let s ← s.dropMark
    return { s with keyAllowed := true }.take .blockEntry 1

/-- A question mark before a key. -/
def explicitKey (s : Scanner) : Except Fault Scanner :=
  if !s.inFlow && !s.keyAllowed then .error .malformed
  else do
    let s := if s.inFlow then s else s.openBlockHere .mappingStart
    let s ← s.dropMark
    return { s with keyAllowed := !s.inFlow }.take .key 1

/-- A **colon before a value**. If a mark is there, it becomes a key. -/
def value (s : Scanner) : Except Fault Scanner :=
  match s.keyMark with
  | some m =>
    -- The block starts where the key did, which is behind us: `keys` notes that for `resolve`.
    let (starts, s) := if s.inFlow then (false, s) else s.openBlock m.cursor.column
    .ok ({ s with
      keyMark := none
      keys := (m.number, starts) :: s.keys
      keyAllowed := false }.take .value 1)
  | none =>
    if !s.inFlow && !s.keyAllowed then .error .malformed
    else
      let s := if s.inFlow then s else s.openBlockHere .mappingStart
      .ok ({ s with keyAllowed := !s.inFlow }.take .value 1)

/-- A quoted scalar (`readQuoted`). -/
def quoted (s : Scanner) (double : Bool) : Except Fault Scanner := do
  let s ← s.leaveMark
  let (text, rest) ← readQuoted double s.cursor.rest.tail
  let size := s.cursor.rest.length - rest.length
  return { s with keyAllowed := false }.take (.scalar (String.ofList text) false) size

/-- A plain scalar (`readPlain`); behind a line end a key may follow it. -/
def plain (s : Scanner) : Except Fault Scanner := do
  let s ← s.leaveMark
  let (text, behind, crossed) := readPlain s.inFlow (s.indent + 1) s.cursor
  return { s.emit (.scalar (String.ofList text) true) with cursor := behind, keyAllowed := crossed }

/-- The characters that start no plain scalar by themselves. -/
def indicators : List Char :=
  ['-', '?', ':', ',', '[', ']', '\x7b', '\x7d', '#', '&', '*', '!', '|', '>', apostrophe,
   doubleQuote, '%', '@', '\x60', '\t']

/-- Whether a plain scalar starts with `c`, which `after` follows: `c` is no indicator, or one that
does not stand alone. -/
def startsPlain (flow : Bool) (c : Char) (after : Option Char) : Bool :=
  !indicators.contains c ||
    (!endsIndicator after && (c == '-' || (!flow && (c == '?' || c == ':'))))

/-- One token, or more, at a place where one starts with `c`. -/
def step (s : Scanner) (c : Char) : Except Fault Scanner :=
  let after := s.cursor.peekSecond
  let alone := endsIndicator after
  let first := s.cursor.column == 0
  -- Separators count only at the start of a line, and before anything else.
  if first && startsSeparator '-' s.cursor.rest then s.separator .documentStart
  else if first && startsSeparator '.' s.cursor.rest then s.separator .documentEnd
  else if c == '[' then s.openFlow .flowSequenceStart
  else if c == '\x7b' then s.openFlow .flowMappingStart
  else if c == ']' then s.closeFlow .flowSequenceEnd
  else if c == '\x7d' then s.closeFlow .flowMappingEnd
  else if c == ',' then s.comma
  else if c == '-' && alone then s.dash
  else if c == '?' && (s.inFlow || alone) then s.explicitKey
  else if c == ':' && (s.inFlow || alone) then s.value
  else if c == apostrophe then s.quoted false
  else if c == doubleQuote then s.quoted true
  else if startsPlain s.inFlow c after then s.plain
  else .error .malformed

/-- One **round of a scan**, up to the next token and past it. At the end of the document all blocks
end. -/
def round (s : Scanner) : Except Fault Scanner := do
  let s ← (skipBlanks (s.cursor.rest.length + 1) s).dropStale
  let s := s.unwind s.cursor.column
  match s.cursor.peek with
  | none => (s.unwind (-1)).dropMark
  | some c => s.step c

/-- What was put out, with marks resolved: those that became `keys`, and no others, leave tokens. -/
def resolve (keys : List (Nat × Bool)) (slots : List Slot) : List Token :=
  slots.flatMap fun
    | .token t => [t]
    | .mark n =>
      match keys.lookup n with
      | some true => [.mappingStart, .key]
      | some false => [.key]
      | none => []

/-- The tokens put out so far, once marks are resolved (`resolve`). -/
def tokens (s : Scanner) : List Token :=
  resolve s.keys s.output.reverse

/-- Whether a slot is a mark that still **waits for its colon**. -/
def isWaiting (s : Scanner) : Slot → Bool
  | .token _ => false
  | .mark n =>
    (s.keyMark :: s.outerMarks).any fun
      | some m => m.number == n && m.isGood s.cursor
      | none => false

/-- The tokens that can be told so far: those in front of the first mark that waits (`isWaiting`).
-/
def settled (s : Scanner) : List Token :=
  resolve s.keys (s.output.reverse.takeWhile fun slot => !s.isWaiting slot)

/-- The **rest of a scan**. A round that fails leaves nothing behind. -/
def run : Nat → Scanner → Scan
  | 0, s => ⟨s.settled, some .malformed⟩
  | fuel + 1, s =>
    match s.round with
    -- The tokens are those before the round, whatever it put out itself.
    | .error fault => ⟨s.settled, some fault⟩
    | .ok next => if s.cursor.rest.isEmpty then ⟨next.tokens, none⟩ else run fuel next

end Scanner

/-- Whether a document may hold `c`. -/
def isAllowed (c : Char) : Bool :=
  c == '\t' || c == '\n' || c == '\r' || (' ' <= c && c <= '~') || c == '\x85' ||
    ('\xa0' <= c && c <= '\ufffd') || 0x10000 <= c.toNat

/-- The **scan of a document**. One that holds a character that is not allowed has no tokens. -/
def Scan.ofDocument (document : List Char) : Scan :=
  if document.all isAllowed then
    -- A byte order mark in front is passed over.
    let start : Cursor := ⟨document, 0, 0, 0⟩
    let start := if start.peek == some '\ufeff' then start.next else start
    Scanner.run (document.length + 2) { cursor := start }
  else ⟨[], some .malformed⟩

end DocComment.Yaml
