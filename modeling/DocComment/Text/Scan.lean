/-!
# Scanning from left to right

A scan looks for the parts of a text that a recogniser accepts: it goes from left to right, takes
the first match it meets, and goes on behind it. The text falls into *pieces*: single characters
that no match covers, and whole matches. Removing or replacing every match is a map over the pieces.

- `scan` - the pieces of a text.
- `substitute` - the text with every match written anew.
- `replaceFirst` - the text with one occurrence of a word written anew.
-/

namespace DocComment.Text

/-- A piece of a scanned text. -/
inductive Piece where
  /-- A character that belongs to no match. -/
  | plain (c : Char)
  /-- A whole match. -/
  | hit (s : List Char)
  deriving DecidableEq, Repr

/-- The characters that a piece stands for. -/
def Piece.chars : Piece → List Char
  | .plain c => [c]
  | .hit s => s

@[simp] theorem Piece.chars_plain (c : Char) : (Piece.plain c).chars = [c] := rfl

@[simp] theorem Piece.chars_hit (s : List Char) : (Piece.hit s).chars = s := rfl

/-- A **recogniser** is told the character before a place, if there is one, and the text from that
place on, and gives the length of the match that starts there; zero means that none does. -/
abbrev Recogniser := Option Char → List Char → Nat

/-- The pieces of a text, given the character before it and how many of its characters belong to a
match already taken. -/
def scanFrom (width : Recogniser) : Option Char → Nat → List Char → List Piece
  | _, _, [] => []
  | _, k + 1, c :: rest => scanFrom width (some c) k rest
  | before, 0, c :: rest =>
    match width before (c :: rest) with
    | 0 => .plain c :: scanFrom width (some c) 0 rest
    -- The match is taken whole, and its further characters are passed over one by one.
    | n + 1 => .hit ((c :: rest).take (n + 1)) :: scanFrom width (some c) n rest

/-- The **pieces** of a text, by `scanFrom` its start. -/
def scan (width : Recogniser) (cs : List Char) : List Piece :=
  scanFrom width none 0 cs

/-- The text with **every match written anew** by `write`. -/
def substitute (width : Recogniser) (write : List Char → List Char) (cs : List Char) : List Char :=
  (scan width cs).flatMap fun
    | .plain c => [c]
    | .hit s => write s

/-- Whether a place is the start of a line: the start of the text or right behind a line feed. -/
def startsLine : Option Char → Bool
  | none => true
  | some c => c == '\n'

/-- `cs` with the first occurrence of `word` replaced by `other`. -/
def replaceFirst (word other : List Char) : List Char → List Char
  | [] => []
  | c :: rest =>
    if word.isPrefixOf (c :: rest) then other ++ (c :: rest).drop word.length
    else c :: replaceFirst word other rest

/-! ### One step of a scan -/

@[simp] theorem scanFrom_nil (width : Recogniser) (before : Option Char) (k : Nat) :
    scanFrom width before k [] = [] := by
  simp [scanFrom]

/-- A character of a match already taken is passed over. -/
theorem scanFrom_succ (width : Recogniser) (before : Option Char) (k : Nat) (c : Char)
    (rest : List Char) :
    scanFrom width before (k + 1) (c :: rest) = scanFrom width (some c) k rest := by
  simp [scanFrom]

/-- Where no match starts, the scan moves on by one character. -/
theorem scanFrom_miss {width : Recogniser} {before : Option Char} {c : Char} {rest : List Char}
    (h : width before (c :: rest) = 0) :
    scanFrom width before 0 (c :: rest) = .plain c :: scanFrom width (some c) 0 rest := by
  simp [scanFrom, h]

/-- Where a match starts, it is taken whole. -/
theorem scanFrom_hit {width : Recogniser} {before : Option Char} {c : Char} {rest : List Char}
    {n : Nat} (h : width before (c :: rest) = n + 1) :
    scanFrom width before 0 (c :: rest) =
      .hit ((c :: rest).take (n + 1)) :: scanFrom width (some c) n rest := by
  simp [scanFrom, h]

/-! ### Nothing is lost -/

/-- The pieces of `scanFrom` put together give back what was still to be scanned. -/
theorem flatMap_chars_scanFrom (width : Recogniser) (before : Option Char) (k : Nat)
    (cs : List Char) : (scanFrom width before k cs).flatMap Piece.chars = cs.drop k := by
  induction cs generalizing before k with
  | nil => simp [scanFrom]
  | cons c rest ih =>
    cases k with
    | succ k => simp [scanFrom, ih]
    | zero =>
      rw [scanFrom]
      split
      · simp [ih]
      · simp [ih, List.take_append_drop]

/-- **The pieces of a `scan` put together give back the text.** -/
theorem flatMap_chars_scan (width : Recogniser) (cs : List Char) :
    (scan width cs).flatMap Piece.chars = cs := by
  simp [scan, flatMap_chars_scanFrom]

end DocComment.Text
