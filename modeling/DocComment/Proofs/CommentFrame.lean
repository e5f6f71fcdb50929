import DocComment.Proofs.Margins

/-!
# The frame of a comment comes off whole

A comment in its usual form is a *frame* around some lines: the opening delimiter on a line of its
own, then each line behind an indent, a star and a space, and the closing delimiter behind an indent
of its own. `unwrapChars_frame` says that unwrapping gives back exactly the lines, whatever they
hold: stars, delimiters, the mark that stands for the closing delimiter, carriage returns, blanks at
their ends. `unwrap_margin` says the same of texts.

The four passes are followed one by one. The opening delimiter goes (`dropOpening_stars`), the
closing one becomes the mark (`markClosing_stars`), and the margin pass then eats one margin a row
and the mark with its indent at the end (`substituteFrom_margin_rows`). It leaves the insides of the
lines alone, because a margin starts only at the start of a line. Nothing is left for the last pass,
since what remains is empty or ends in a line feed.
-/

namespace DocComment.Comment

open DocComment.Text

/-- A line of a comment and the indent before its star. -/
structure Row where
  /-- The blanks before the star. -/
  indent : List Char
  /-- The line, without its line feed. -/
  line : List Char
  /-- The indent holds nothing but blanks. -/
  blank_indent : ∀ c ∈ indent, isBlank c = true
  /-- The line is one line. -/
  one_line : '\n' ∉ line

namespace Row

/-- A `Row` as the comment writes it. -/
def framed (r : Row) : List Char :=
  r.indent ++ ['*', ' '] ++ (r.line ++ ['\n'])

/-- A `Row` without its margin. -/
def bare (r : Row) : List Char :=
  r.line ++ ['\n']

/-- The row with one more line feed before its indent. -/
def lowered (r : Row) : Row where
  indent := '\n' :: r.indent
  line := r.line
  blank_indent := List.forall_mem_cons.mpr ⟨by decide, r.blank_indent⟩
  one_line := r.one_line

@[simp] theorem framed_lowered (r : Row) : r.lowered.framed = '\n' :: r.framed := rfl

@[simp] theorem bare_lowered (r : Row) : r.lowered.bare = r.bare := rfl

end Row

/-- **A comment in its frame**: its rows, the indent `w` of the closing delimiter and the blanks
`w'` behind it. -/
def frame (rows : List Row) (w w' : List Char) : List Char :=
  ['/', '*', '*', '\n'] ++ rows.flatMap Row.framed ++ w ++ ['*', '/'] ++ w'

/-! ### The delimiters -/

/-- A run of stars is over where no star follows. -/
theorem dropWhile_stars (n : Nat) {cs : List Char} (hcs : cs.head? ≠ some '*') :
    (List.replicate n '*' ++ cs).dropWhile (· == '*') = cs := by
  rw [List.dropWhile_append_of_pos fun c hc => by rw [List.eq_of_mem_replicate hc]; rfl]
  cases cs with
  | nil => rfl
  | cons c rest =>
    have hc : c ≠ '*' := fun h => hcs (by rw [h, List.head?_cons])
    simp [hc]

/-- `dropOpening` takes the opening delimiter away, whatever its width. -/
theorem dropOpening_stars (k : Nat) {cs : List Char} (hcs : cs.head? ≠ some '*') :
    dropOpening ('/' :: (List.replicate (k + 2) '*' ++ cs)) = cs := by
  simpa [dropOpening, List.replicate_succ] using dropWhile_stars k hcs

/-- `markClosing` turns the closing delimiter into `endMark`, whatever its width; blanks behind it
go. -/
theorem markClosing_stars {body w' : List Char} (m : Nat) (hbody : body.getLast? ≠ some '*')
    (hw' : ∀ c ∈ w', isBlank c = true) :
    markClosing (body ++ List.replicate (m + 1) '*' ++ ['/'] ++ w') = body ++ endMark := by
  have hdrop : (body ++ List.replicate (m + 1) '*' ++ ['/'] ++ w').reverse.dropWhile isBlank =
      '/' :: '*' :: (List.replicate m '*' ++ body.reverse) := by
    rw [List.reverse_append, List.dropWhile_append_of_pos (by simpa using hw'), List.reverse_append,
      List.reverse_append, List.reverse_replicate, List.replicate_succ]
    simp [show isBlank '/' = false from by decide]
  -- The body does not end in a star, so all further stars are the delimiter's.
  have hstars : (List.replicate m '*' ++ body.reverse).dropWhile (· == '*') = body.reverse :=
    dropWhile_stars m (by rwa [List.head?_reverse])
  unfold markClosing
  rw [hdrop]
  simp [hstars]

/-- `markClosing` turns the closing delimiter of a usual comment into `endMark`. -/
theorem markClosing_append {body w' : List Char} (hbody : body.getLast? ≠ some '*')
    (hw' : ∀ c ∈ w', isBlank c = true) :
    markClosing (body ++ ['*', '/'] ++ w') = body ++ endMark := by
  simpa using markClosing_stars 0 hbody hw'

/-! ### The margin pass -/

/-- **One row loses its margin** and nothing else: what `Row.framed` puts before the line goes. -/
theorem substituteFrom_margin_row {before : Option Char} (h : startsLine before = true) (r : Row)
    (rest : List Char) :
    substituteFrom margin (fun _ => []) before (r.framed ++ rest) =
      r.bare ++ substituteFrom margin (fun _ => []) (some '\n') rest := by
  calc substituteFrom margin (fun _ => []) before (r.framed ++ rest)
      = substituteFrom margin (fun _ => []) before
          (r.indent ++ (['*', ' '] ++ (r.line ++ '\n' :: rest))) := by simp [Row.framed]
    _ = substituteFrom margin (fun _ => []) (some ' ') (r.line ++ '\n' :: rest) :=
          substituteFrom_margin_sign h r.blank_indent rfl
    _ = r.bare ++ substituteFrom margin (fun _ => []) (some '\n') rest := by
          rw [substituteFrom_margin_line rfl r.one_line]
          simp [Row.bare]

/-- **The pass for `margin` over all rows**: each loses its margin, and `endMark` goes with its
indent. -/
theorem substituteFrom_margin_rows {before : Option Char} (h : startsLine before = true)
    (rows : List Row) {w : List Char} (hw : ∀ c ∈ w, isBlank c = true) :
    substituteFrom margin (fun _ => []) before (rows.flatMap Row.framed ++ w ++ endMark) =
      rows.flatMap Row.bare := by
  induction rows generalizing before with
  | nil =>
    rw [List.flatMap_nil, List.flatMap_nil, List.nil_append, substituteFrom_margin_endMark h hw]
  | cons r rows ih =>
    rw [List.flatMap_cons, List.append_assoc, List.append_assoc, substituteFrom_margin_row h,
      ← List.append_assoc, ih rfl, List.flatMap_cons]

/-! ### The whole frame -/

/-- For `dropMargins`, a frame without its first line feed can be read as rows again: the line feed
belongs to the first indent, or to that of the closing delimiter when there is no row. -/
theorem dropMargins_newline_rows (rows : List Row) {w : List Char}
    (hw : ∀ c ∈ w, isBlank c = true) :
    dropMargins ('\n' :: (rows.flatMap Row.framed ++ w ++ endMark)) = rows.flatMap Row.bare := by
  unfold dropMargins
  rw [substitute_eq_substituteFrom]
  cases rows with
  | nil =>
    have hw' : ∀ c ∈ '\n' :: w, isBlank c = true := List.forall_mem_cons.mpr ⟨by decide, hw⟩
    simpa using substituteFrom_margin_rows rfl [] hw'
  | cons r rows => simpa using substituteFrom_margin_rows rfl (r.lowered :: rows) hw

/-- Bare rows leave no `endMark` at the end. -/
theorem dropEndMark_rows (rows : List Row) :
    dropEndMark (rows.flatMap Row.bare) = rows.flatMap Row.bare := by
  rcases List.eq_nil_or_concat rows with rfl | ⟨rows, r, rfl⟩
  · rfl
  · simp [dropEndMark, Row.bare]

/-- The text before the closing delimiter does not end in a star. -/
theorem getLast?_newline_rows_ne (rows : List Row) {w : List Char}
    (hw : ∀ c ∈ w, isBlank c = true) :
    ('\n' :: (rows.flatMap Row.framed ++ w)).getLast? ≠ some '*' := by
  intro hlast
  -- The last character is that of the indent, else the line feed of the last row.
  rcases List.eq_nil_or_concat w with rfl | ⟨w, c, rfl⟩
  · rcases List.eq_nil_or_concat rows with rfl | ⟨rows, r, rfl⟩
    · simp at hlast
    · simp [Row.framed, List.getLast?_cons] at hlast
  · have hc : c = '*' := by simpa [List.getLast?_cons] using hlast
    have hblank := hw c (by simp)
    rw [hc] at hblank
    exact absurd hblank (by decide)

/-- **A frame comes off whole.** `unwrapChars` gives the lines of a comment in its `frame`, each
with its line feed, and nothing else. -/
theorem unwrapChars_frame (rows : List Row) {w w' : List Char} (hw : ∀ c ∈ w, isBlank c = true)
    (hw' : ∀ c ∈ w', isBlank c = true) :
    unwrapChars (frame rows w w') = rows.flatMap Row.bare := by
  have hopen : dropOpening (frame rows w w') =
      '\n' :: (rows.flatMap Row.framed ++ w) ++ ['*', '/'] ++ w' := by
    have hstars := dropOpening_stars 0
      (show ('\n' :: (rows.flatMap Row.framed ++ w ++ ['*', '/'] ++ w')).head? ≠ some '*' by simp)
    simpa [frame] using hstars
  unfold unwrapChars
  rw [hopen, markClosing_append (getLast?_newline_rows_ne rows hw) hw', List.cons_append,
    dropMargins_newline_rows rows hw, dropEndMark_rows]

/-! ### Indents and lines as texts -/

/-- An indent and a line as they stand in a comment. -/
def marginRow (indent line : String) : String :=
  indent ++ "* " ++ line ++ "\n"

/-- Indents of blanks and texts of one line each make up rows, in the form of `Row.framed` and of
`Row.bare`. -/
theorem exists_rows (pairs : List (String × String))
    (hindent : ∀ p ∈ pairs, ∀ c ∈ p.1.toList, isBlank c = true)
    (hline : ∀ p ∈ pairs, '\n' ∉ p.2.toList) :
    ∃ rows : List Row,
      rows.flatMap Row.framed = (String.join (pairs.map fun p => marginRow p.1 p.2)).toList ∧
      rows.flatMap Row.bare = (String.join (pairs.map fun p => p.2 ++ "\n")).toList := by
  induction pairs with
  | nil => exact ⟨[], rfl, rfl⟩
  | cons p pairs ih =>
    rw [List.forall_mem_cons] at hindent hline
    obtain ⟨rows, hframed, hbare⟩ := ih hindent.2 hline.2
    refine ⟨⟨p.1.toList, p.2.toList, hindent.1, hline.1⟩ :: rows, ?_, ?_⟩
    · rw [List.flatMap_cons, hframed]
      simp [Row.framed, marginRow, String.toList_join]
    · rw [List.flatMap_cons, hbare]
      simp [Row.bare, String.toList_join]

/-- **A margin is undone verbatim.** Whatever the lines of a comment hold, and whatever blanks stand
before the stars, before the closing delimiter and behind it, `unwrap` gives back the lines, each
with its line feed. -/
theorem unwrap_margin (pairs : List (String × String)) (w w' : String)
    (hindent : ∀ p ∈ pairs, ∀ c ∈ p.1.toList, isBlank c = true)
    (hline : ∀ p ∈ pairs, '\n' ∉ p.2.toList) (hw : ∀ c ∈ w.toList, isBlank c = true)
    (hw' : ∀ c ∈ w'.toList, isBlank c = true) :
    unwrap ("/**\n" ++ String.join (pairs.map fun p => marginRow p.1 p.2) ++ w ++ "*/" ++ w') =
      String.join (pairs.map fun p => p.2 ++ "\n") := by
  obtain ⟨rows, hframed, hbare⟩ := exists_rows pairs hindent hline
  have hframe : ("/**\n" ++ String.join (pairs.map fun p => marginRow p.1 p.2) ++ w ++ "*/" ++
      w').toList = frame rows w.toList w'.toList := by
    simp [frame, hframed]
  rw [unwrap, hframe, unwrapChars_frame rows hw hw', hbare, String.ofList_toList]

/-- Lines that hold delimiters, `endMark`, stars and blanks, and lines that hold nothing, behind
indents of unusual blanks. -/
theorem unwrap_margin_imitating :
    let pairs := [(" ", "*/ a \\Z"), ("\t\u2003", " * /** \r"), ("", ""), ("\r ", "\\Z*/ ")]
    (∀ p ∈ pairs, p.1.toList.all isBlank = true ∧ '\n' ∉ p.2.toList) ∧
      unwrap ("/**\n" ++ String.join (pairs.map fun p => marginRow p.1 p.2) ++ "\t " ++ "*/" ++
          " \n") =
        "*/ a \\Z\n * /** \r\n\n\\Z*/ \n" := by
  intro pairs
  have hpairs : ∀ p ∈ pairs, p.1.toList.all isBlank = true ∧ '\n' ∉ p.2.toList := by decide
  refine ⟨hpairs, ?_⟩
  rw [unwrap_margin pairs "\t " " \n" (fun p hp => List.all_eq_true.mp (hpairs p hp).1)
    (fun p hp => (hpairs p hp).2) (List.all_eq_true.mp (by decide))
    (List.all_eq_true.mp (by decide))]
  decide

end DocComment.Comment
