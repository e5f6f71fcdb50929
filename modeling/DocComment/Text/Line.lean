/-!
# Lines

A line ends behind its line feed; the last one may lack it.

- `lines` - the lines of a text, each with its line feed.
- `unifyBreaks` - line ends written in one way, as a single line feed.
-/

namespace DocComment.Text

/-- The **lines** of a text, each with the line feed that ends it; an empty text has none. -/
def lines : List Char → List (List Char)
  | [] => []
  | c :: rest =>
    if c == '\n' then [c] :: lines rest
    else
      -- The character goes to the first line of the rest, or is a line by itself.
      match lines rest with
      | [] => [[c]]
      | line :: more => (c :: line) :: more

/-- Every carriage return, alone or before a line feed, made a single line feed. -/
def unifyBreaks : List Char → List Char
  | [] => []
  | '\r' :: '\n' :: rest => '\n' :: unifyBreaks rest
  | '\r' :: rest => '\n' :: unifyBreaks rest
  | c :: rest => c :: unifyBreaks rest

@[simp] theorem lines_nil : lines [] = [] := rfl

/-- For `lines` a line feed ends a line of its own. -/
@[simp] theorem lines_newline (rest : List Char) : lines ('\n' :: rest) = ['\n'] :: lines rest := by
  simp [lines]

/-- **The lines of a text, put together, are the text.** -/
theorem flatten_lines (cs : List Char) : (lines cs).flatten = cs := by
  induction cs with
  | nil => rfl
  | cons c rest ih =>
    rw [lines]
    split
    · simp [ih]
    · split <;> simp_all

end DocComment.Text
