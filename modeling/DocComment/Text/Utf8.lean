/-!
# UTF-8

Bytes read as UTF-8, with the exact place and cause of the first fault. A fault covers the bytes
that a correct sequence could start with: one byte that can start none, the bytes up to the one that
should have continued the sequence, or the bytes up to the end.

- `decodeUtf8` - the characters of a byte sequence, or its first fault.
- `DecodeError.message` - the fault in words.
-/

namespace DocComment.Text

/-- What is wrong with a byte sequence. -/
inductive DecodeFault where
  /-- The byte can start no sequence. -/
  | invalidStart
  /-- A byte that should continue a sequence does not. -/
  | invalidContinuation
  /-- The bytes end inside a sequence. -/
  | unexpectedEnd
  deriving DecidableEq, Repr

/-- The words for a `DecodeFault`. -/
def DecodeFault.reason : DecodeFault → String
  | .invalidStart => "invalid start byte"
  | .invalidContinuation => "invalid continuation byte"
  | .unexpectedEnd => "unexpected end of data"

/-- The first fault of a byte sequence: its cause, where it starts, how many bytes it covers, and
the first of them. -/
structure DecodeError where
  /-- The cause. -/
  fault : DecodeFault
  /-- The place of the first byte that the fault covers. -/
  position : Nat
  /-- How many bytes it covers. -/
  size : Nat
  /-- The first of these bytes. -/
  byte : UInt8
  deriving DecidableEq, Repr

/-- The fault in words; a single byte is shown, several are only placed. -/
def DecodeError.message (e : DecodeError) : String :=
  let place :=
    if e.size == 1 then
      let hex := Nat.toDigits 16 e.byte.toNat
      let hex := List.replicate (2 - hex.length) '0' ++ hex
      s!"byte 0x{String.ofList hex} in position {e.position}"
    else s!"bytes in position {e.position}-{e.position + e.size - 1}"
  s!"'utf-8' codec can't decode {place}: {e.fault.reason}"

/-- The number of bytes that follow the start byte `b`, and the interval that the first of them lies
in; nothing when `b` starts no sequence. -/
def sequenceShape (b : UInt8) : Option (Nat × UInt8 × UInt8) :=
  if b < 0x80 then some (0, 0x80, 0xBF)
  else if b < 0xC2 then none
  else if b < 0xE0 then some (1, 0x80, 0xBF)
  -- The narrower intervals leave out what fewer bytes could spell, surrogates, and what is beyond
  -- the last code point.
  else if b == 0xE0 then some (2, 0xA0, 0xBF)
  else if b == 0xED then some (2, 0x80, 0x9F)
  else if b < 0xF0 then some (2, 0x80, 0xBF)
  else if b == 0xF0 then some (3, 0x90, 0xBF)
  else if b == 0xF4 then some (3, 0x80, 0x8F)
  else if b < 0xF4 then some (3, 0x80, 0xBF)
  else none

/-- How many of the first `n` bytes of `bs` continue a sequence, the first of them lying between
`lo` and `hi`. -/
def continuations (lo hi : UInt8) : Nat → List UInt8 → Nat
  | 0, _ => 0
  | _ + 1, [] => 0
  | n + 1, b :: bs => if lo <= b && b <= hi then continuations 0x80 0xBF n bs + 1 else 0

/-- The code point that a start byte and the bytes `following` it spell. -/
def codePoint (start : UInt8) (following : List UInt8) : Nat :=
  let lead :=
    match following.length with
    | 0 => start.toNat
    | 1 => start.toNat % 0x20
    | 2 => start.toNat % 0x10
    | _ => start.toNat % 0x08
  following.foldl (fun acc b => acc * 0x40 + b.toNat % 0x40) lead

/-- Reads bytes from the place `position` on; `skip` of them belong to a character already read. -/
def decodeFrom : Nat → Nat → List UInt8 → Except DecodeError (List Char)
  | _, _, [] => .ok []
  | position, skip + 1, _ :: rest => decodeFrom (position + 1) skip rest
  | position, 0, b :: rest =>
    match sequenceShape b with
    | none => .error ⟨.invalidStart, position, 1, b⟩
    | some (n, lo, hi) =>
      let found := continuations lo hi n rest
      if found == n then do
        let more ← decodeFrom (position + 1) n rest
        return Char.ofNat (codePoint b (rest.take n)) :: more
      -- All bytes that are left continue the sequence, and there are too few.
      else if found == rest.length then .error ⟨.unexpectedEnd, position, found + 1, b⟩
      else .error ⟨.invalidContinuation, position, found + 1, b⟩

/-- The **characters of a byte sequence**, or its first fault, by `decodeFrom` its start. -/
def decodeUtf8 (bytes : List UInt8) : Except DecodeError String :=
  (decodeFrom 0 0 bytes).map String.ofList

/-- The bytes of a text. -/
def encodeUtf8 (s : String) : List UInt8 :=
  s.toUTF8.toList

end DocComment.Text
