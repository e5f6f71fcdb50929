import DocComment.Text.Line

/-!
# Two ways to cut a text into lines

`List.splitOn` cuts a text *between* its lines: the line feeds go, and every text has at least one
line. `Text.lines` cuts it *behind* each line feed: nothing goes, and the empty text has no line. A
text that ends in a line feed is where the two meet, `lines_append_newline_eq_map`: the lines with
their line feeds are the lines without, each with a line feed put back.

The rest are the facts about `List.splitOn` at the line feed that statements about single lines
need: what is put in front of a text goes to its first line, the last line of a text is the last
line of what follows a line feed, and lines hold no line feed.
-/

namespace DocComment.Text

/-! ### Cutting between the lines -/

/-- No line of `List.splitOn` holds a line feed. -/
theorem newline_notMem_of_mem_splitOn {cs line : List Char} (h : line ∈ cs.splitOn '\n') :
    '\n' ∉ line := by
  induction cs generalizing line with
  | nil => simp_all
  | cons c cs ih =>
    -- A line feed starts a new line, and any other character goes to the first one.
    rw [List.splitOn_cons_eq_if_modifyHead] at h
    by_cases hc : c = '\n'
    · rw [if_pos (by simpa using hc), List.mem_cons] at h
      rcases h with rfl | h
      · simp
      · exact ih h
    · rw [if_neg (by simpa using hc)] at h
      obtain ⟨first, more, hsplit⟩ := List.exists_cons_of_ne_nil (List.splitOn_ne_nil '\n' cs)
      rw [hsplit, List.modifyHead_cons, List.mem_cons] at h
      rw [hsplit] at ih
      rcases h with rfl | h
      · rw [List.mem_cons, not_or]
        exact ⟨Ne.symm hc, ih List.mem_cons_self⟩
      · exact ih (List.mem_cons_of_mem _ h)

/-- **A text is its lines with a line feed behind each**, up to the line feed at its end. -/
theorem flatMap_splitOn_newline (cs : List Char) :
    (cs.splitOn '\n').flatMap (· ++ ['\n']) = cs ++ ['\n'] := by
  induction cs with
  | nil => rfl
  | cons c cs ih =>
    rw [List.splitOn_cons_eq_if_modifyHead]
    by_cases hc : c = '\n'
    · rw [if_pos (by simpa using hc), List.flatMap_cons, ih, hc]
      rfl
    · rw [if_neg (by simpa using hc)]
      -- The character goes to the first line of the rest.
      obtain ⟨first, more, hsplit⟩ := List.exists_cons_of_ne_nil (List.splitOn_ne_nil '\n' cs)
      rw [hsplit, List.flatMap_cons] at ih
      rw [hsplit, List.modifyHead_cons, List.flatMap_cons, List.cons_append, List.cons_append, ih]
      rfl

/-- The characters of a line of `List.splitOn` are characters of the text. -/
theorem mem_of_mem_splitOn {cs line : List Char} {c : Char} (h : line ∈ cs.splitOn '\n')
    (hc : c ∈ line) : c ∈ cs := by
  have hmem : c ∈ cs ++ ['\n'] := by
    rw [← flatMap_splitOn_newline, List.mem_flatMap]
    exact ⟨line, h, List.mem_append_left _ hc⟩
  rcases List.mem_append.mp hmem with hcs | hnl
  · exact hcs
  · rw [List.mem_singleton.mp hnl] at hc
    exact absurd hc (newline_notMem_of_mem_splitOn h)

/-- For `List.splitOn`, what is put in front of a text goes to its first line, or to its first piece
between other separators. -/
theorem splitOn_append_of_notMem {sep : Char} {xs : List Char} (h : sep ∉ xs) (cs : List Char) :
    (xs ++ cs).splitOn sep = (cs.splitOn sep).modifyHead (xs ++ ·) := by
  obtain ⟨first, more, hsplit⟩ := List.exists_cons_of_ne_nil (List.splitOn_ne_nil sep cs)
  induction xs with
  | nil => rw [List.nil_append, hsplit]; rfl
  | cons x xs ih =>
    rw [List.mem_cons, not_or] at h
    rw [List.cons_append, List.splitOn_cons_eq_if_modifyHead,
      if_neg (by simpa using Ne.symm h.1), ih h.2, hsplit]
    rfl

/-- For `List.splitOn`, the first line feed parts the first line from the others. -/
theorem splitOn_append_newline {line : List Char} (h : '\n' ∉ line) (rest : List Char) :
    (line ++ '\n' :: rest).splitOn '\n' = line :: rest.splitOn '\n' := by
  rw [List.splitOn_append_cons_self, List.splitOn_eq_singleton h, List.singleton_append]

/-- **Induction over the pieces of a text** between separators. -/
theorem piece_induct {P : List Char → Prop} (sep : Char) (last : ∀ piece, sep ∉ piece → P piece)
    (step : ∀ piece rest, sep ∉ piece → P rest → P (piece ++ sep :: rest)) (cs : List Char) :
    P cs := by
  -- The characters before the first separator make up the first piece.
  suffices hstart : ∀ before, sep ∉ before → P (before ++ cs) from hstart [] List.not_mem_nil
  induction cs with
  | nil =>
    intro before hbefore
    rw [List.append_nil]
    exact last before hbefore
  | cons c cs ih =>
    intro before hbefore
    by_cases hc : c = sep
    · rw [hc]
      exact step before cs hbefore (ih [] List.not_mem_nil)
    · rw [← List.singleton_append, ← List.append_assoc]
      refine ih (before ++ [c]) ?_
      rw [List.mem_append, List.mem_singleton, not_or]
      exact ⟨hbefore, Ne.symm hc⟩

/-- **Induction over the lines of a text**, as `List.splitOn` cuts them. -/
theorem line_induct {P : List Char → Prop} (last : ∀ line, '\n' ∉ line → P line)
    (step : ∀ line rest, '\n' ∉ line → P rest → P (line ++ '\n' :: rest)) (cs : List Char) :
    P cs :=
  piece_induct '\n' last step cs

/-- The further lines of a text end like the lines of what follows a line feed. -/
theorem getLast?_tail_splitOn (ps qs : List Char) :
    ((ps ++ '\n' :: qs).splitOn '\n').tail.getLast? = (qs.splitOn '\n').getLast? := by
  obtain ⟨first, more, hsplit⟩ := List.exists_cons_of_ne_nil (List.splitOn_ne_nil '\n' ps)
  obtain ⟨last, hlast⟩ : ∃ last, (qs.splitOn '\n').getLast? = some last :=
    ⟨_, List.getLast?_eq_some_getLast (List.splitOn_ne_nil '\n' qs)⟩
  rw [List.splitOn_append_cons_self, hsplit, List.cons_append, List.tail_cons,
    List.getLast?_append, hlast, Option.some_or]

/-- **Where a line stands**: at the start of the text or behind a line feed, and a line feed or
nothing follows it. -/
theorem exists_of_mem_splitOn {cs line : List Char} (h : line ∈ cs.splitOn '\n') :
    ∃ ps after, cs = ps ++ (line ++ after) ∧ (∀ d ∈ ps.getLast?, d = '\n') ∧
      ∀ d ∈ after.head?, d = '\n' := by
  revert h
  refine line_induct (P := fun cs => line ∈ cs.splitOn '\n' →
    ∃ ps after, cs = ps ++ (line ++ after) ∧ (∀ d ∈ ps.getLast?, d = '\n') ∧
      ∀ d ∈ after.head?, d = '\n') ?_ ?_ cs
  · intro last hlast h
    rw [List.splitOn_eq_singleton hlast] at h
    obtain rfl := List.mem_singleton.mp h
    exact ⟨[], [], by simp, by simp, by simp⟩
  · intro first rest hfirst ih h
    rw [splitOn_append_newline hfirst] at h
    rcases List.mem_cons.mp h with rfl | h
    · exact ⟨[], '\n' :: rest, rfl, by simp, by simp⟩
    · obtain ⟨ps, after, rfl, hps, hafter⟩ := ih h
      refine ⟨first ++ '\n' :: ps, after, by simp, ?_, hafter⟩
      -- The part in front ends as `ps` does, or else in the line feed before it.
      cases hlast : ps.getLast? with
      | none => simp [List.getLast?_cons, hlast]
      | some e => simpa [List.getLast?_cons, hlast] using hps e hlast

/-- The lines of what follows a line feed are lines of the text, for `List.splitOn`. -/
theorem mem_splitOn_append {ps cs line : List Char} (hps : ∀ d ∈ ps.getLast?, d = '\n')
    (h : line ∈ cs.splitOn '\n') : line ∈ (ps ++ cs).splitOn '\n' := by
  rcases List.eq_nil_or_concat ps with rfl | ⟨ps, d, rfl⟩
  · exact h
  · obtain rfl : d = '\n' := hps d (by simp)
    rw [List.concat_eq_append, List.append_assoc, List.singleton_append,
      List.splitOn_append_cons_self]
    exact List.mem_append_right _ h

/-! ### Cutting behind the line feeds -/

/-- For `Text.lines`, the first line feed ends the first line. -/
theorem lines_append_newline {line : List Char} (h : '\n' ∉ line) (rest : List Char) :
    lines (line ++ '\n' :: rest) = (line ++ ['\n']) :: lines rest := by
  induction line with
  | nil => exact lines_newline rest
  | cons c line ih =>
    rw [List.mem_cons, not_or] at h
    rw [List.cons_append, lines, if_neg (by simpa using Ne.symm h.1), ih h.2]
    rfl

/-- For `Text.lines`, a text without a line feed is one line, unless it is empty. -/
theorem lines_of_notMem {cs : List Char} (h : '\n' ∉ cs) (hne : cs ≠ []) : lines cs = [cs] := by
  induction cs with
  | nil => exact absurd rfl hne
  | cons c cs ih =>
    rw [List.mem_cons, not_or] at h
    rw [lines, if_neg (by simpa using Ne.symm h.1)]
    by_cases hcs : cs = []
    · rw [hcs, lines_nil]
    · rw [ih h.2 hcs]

/-- A line of `Text.lines` is one of `List.splitOn`, up to its line feed. -/
theorem exists_of_mem_lines {cs row : List Char} (h : row ∈ lines cs) :
    ∃ line ∈ cs.splitOn '\n', row = line ∨ row = line ++ ['\n'] := by
  revert h
  refine line_induct (P := fun cs => row ∈ lines cs →
    ∃ line ∈ cs.splitOn '\n', row = line ∨ row = line ++ ['\n']) ?_ ?_ cs
  · intro line hline h
    -- The last line: there is none for `lines` if it is empty.
    by_cases hne : line = []
    · rw [hne] at h
      cases h
    · rw [lines_of_notMem hline hne] at h
      rw [List.splitOn_eq_singleton hline]
      exact ⟨row, h, .inl rfl⟩
  · intro line rest hline ih h
    rw [lines_append_newline hline] at h
    rw [splitOn_append_newline hline]
    rcases List.mem_cons.mp h with rfl | h
    · exact ⟨line, List.mem_cons_self, .inr rfl⟩
    · obtain ⟨l, hl, hrow⟩ := ih h
      exact ⟨l, List.mem_cons_of_mem _ hl, hrow⟩

/-- Lines written one after another, each with its line feed, are read back by `Text.lines` as they
were. -/
theorem lines_flatMap_newline {texts : List (List Char)} (h : ∀ l ∈ texts, '\n' ∉ l)
    (rest : List Char) :
    lines (texts.flatMap (· ++ ['\n']) ++ rest) = texts.map (· ++ ['\n']) ++ lines rest := by
  induction texts with
  | nil => rfl
  | cons line texts ih =>
    rw [List.flatMap_cons, List.append_assoc, List.append_assoc, List.singleton_append,
      lines_append_newline (h line List.mem_cons_self),
      ih fun l hl => h l (List.mem_cons_of_mem _ hl), List.map_cons, List.cons_append]

/-- **Where the two ways meet.** A text that ends in a line feed has the lines of what stands before
it, each with a line feed. -/
theorem lines_append_newline_eq_map (cs rest : List Char) :
    lines (cs ++ ['\n'] ++ rest) = (cs.splitOn '\n').map (· ++ ['\n']) ++ lines rest := by
  rw [← flatMap_splitOn_newline, lines_flatMap_newline fun _ => newline_notMem_of_mem_splitOn]

end DocComment.Text
