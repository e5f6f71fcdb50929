import DocComment.Comment.Margin
import DocComment.Proofs.Lines

/-!
# A text without its blanks

Reading a comment takes blanks away in many places: before a marker, behind a title, at the start
and at the end of lines. `solid` forgets the blanks of a text, so that "nothing but blanks went" is
one equation, `solid` before and after being the same. It goes through a text piece by piece
(`solid_append`) and line by line (`solid_eq_flatMap_splitOn`).

`firstSolidLine?` is the first line of a text that is not blank throughout. A text that starts,
after blanks, with a tag marker has such a line, and it reads: blanks, the marker, a character that
is not blank (`exists_firstSolidLine`). The blanks are of any kind; only line feeds are ruled out.
-/

namespace DocComment.Text

open DocComment.Comment

/-- A text **without its blanks**, the characters with `isBlank`. -/
def solid (cs : List Char) : List Char :=
  cs.filter fun c => !isBlank c

@[simp] theorem solid_nil : solid [] = [] := rfl

@[simp] theorem solid_append (cs ds : List Char) : solid (cs ++ ds) = solid cs ++ solid ds :=
  List.filter_append cs ds

@[simp] theorem solid_newline (cs : List Char) : solid ('\n' :: cs) = solid cs := rfl

theorem solid_cons_of_solid {c : Char} (h : isBlank c = false) (cs : List Char) :
    solid (c :: cs) = c :: solid cs :=
  List.filter_cons_of_pos (by simp [h])

theorem solid_eq_nil_iff {cs : List Char} : solid cs = [] ↔ allBlank cs = true := by
  simp [solid, allBlank]

theorem solid_of_blank {cs : List Char} (h : ∀ c ∈ cs, isBlank c = true) : solid cs = [] :=
  solid_eq_nil_iff.mpr (List.all_eq_true.mpr h)

/-- `solid` leaves a text that has no blank as it is. -/
theorem solid_eq_self {cs : List Char} (h : ∀ c ∈ cs, isBlank c = false) : solid cs = cs := by
  refine List.filter_eq_self.mpr fun c hc => ?_
  rw [h c hc]
  rfl

/-- For `solid`, blanks at the start may go. -/
@[simp] theorem solid_dropWhile (cs : List Char) : solid (cs.dropWhile isBlank) = solid cs := by
  have hblank : solid (cs.takeWhile isBlank) = [] :=
    solid_of_blank (List.all_eq_true.mp List.all_takeWhile)
  calc solid (cs.dropWhile isBlank)
      = solid (cs.takeWhile isBlank ++ cs.dropWhile isBlank) := by
        rw [solid_append, hblank, List.nil_append]
    _ = solid cs := by rw [List.takeWhile_append_dropWhile]

/-- A text that is not `allBlank` is some blanks and then a character that is none. -/
theorem exists_of_solid {cs : List Char} (h : allBlank cs = false) :
    ∃ blanks c rest, cs = blanks ++ c :: rest ∧ (∀ b ∈ blanks, isBlank b = true) ∧
      isBlank c = false := by
  have hblanks : ∀ b ∈ cs.takeWhile isBlank, isBlank b = true :=
    List.all_eq_true.mp List.all_takeWhile
  have hsplit := List.takeWhile_append_dropWhile (p := isBlank) (l := cs)
  -- Cut behind the leading blanks; if nothing is left, all is blank.
  have hfirst := List.head?_dropWhile_not isBlank cs
  cases hdrop : cs.dropWhile isBlank with
  | nil =>
    rw [allBlank, ← hsplit, hdrop, List.append_nil, List.all_eq_true.mpr hblanks] at h
    cases h
  | cons c rest =>
    rw [hdrop] at hsplit hfirst
    exact ⟨_, c, rest, hsplit.symm, hblanks, by simpa using hfirst⟩

/-- Line feeds are blanks, so `solid` can be read line by line. -/
theorem solid_eq_flatMap_splitOn (cs : List Char) : solid cs = (cs.splitOn '\n').flatMap solid := by
  refine line_induct (P := fun cs => solid cs = (cs.splitOn '\n').flatMap solid) ?_ ?_ cs
  · intro line hline
    rw [List.splitOn_eq_singleton hline, List.flatMap_singleton]
  · intro line rest hline ih
    rw [splitOn_append_newline hline, List.flatMap_cons, ← ih, solid_append, solid_newline]

/-! ### The first line that is not blank -/

/-- The **first line** of a text that is **not `allBlank`**. -/
def firstSolidLine? (cs : List Char) : Option (List Char) :=
  (cs.splitOn '\n').find? fun line => !allBlank line

theorem firstSolidLine?_of_blank {line : List Char} (hline : '\n' ∉ line)
    (h : allBlank line = true) : firstSolidLine? line = none := by
  simp [firstSolidLine?, List.splitOn_eq_singleton hline, h]

theorem firstSolidLine?_of_solid {line : List Char} (hline : '\n' ∉ line)
    (h : allBlank line = false) : firstSolidLine? line = some line := by
  simp [firstSolidLine?, List.splitOn_eq_singleton hline, h]

theorem firstSolidLine?_append_of_blank {line : List Char} (hline : '\n' ∉ line)
    (h : allBlank line = true) (rest : List Char) :
    firstSolidLine? (line ++ '\n' :: rest) = firstSolidLine? rest := by
  simp [firstSolidLine?, splitOn_append_newline hline, h]

theorem firstSolidLine?_append_of_solid {line : List Char} (hline : '\n' ∉ line)
    (h : allBlank line = false) (rest : List Char) :
    firstSolidLine? (line ++ '\n' :: rest) = some line := by
  simp [firstSolidLine?, splitOn_append_newline hline, h]

/-- Blanks before a text do not matter for `startsWithTag`. -/
theorem startsWithTag_append_of_blank {blanks : List Char} (h : ∀ b ∈ blanks, isBlank b = true)
    (cs : List Char) : startsWithTag (blanks ++ cs) = startsWithTag cs := by
  unfold startsWithTag
  rw [List.dropWhile_append_of_pos h]

/-- A line that is not blank decides on `startsWithTag`. -/
theorem exists_of_startsWithTag {line : List Char} (hsolid : allBlank line = false)
    (after : List Char) (hafter : ∀ d ∈ after.head?, isBlank d = true)
    (h : startsWithTag (line ++ after) = true) :
    ∃ blanks c rest, line = blanks ++ '@' :: c :: rest ∧ (∀ b ∈ blanks, isBlank b = true) ∧
      isBlank c = false := by
  obtain ⟨blanks, x, xs, rfl, hblanks, hx⟩ := exists_of_solid hsolid
  rw [List.append_assoc, startsWithTag_append_of_blank hblanks, startsWithTag, List.cons_append,
    List.dropWhile_cons_of_neg (by simp [hx])] at h
  split at h
  · next c rest heq =>
    obtain ⟨rfl, hrest⟩ := List.cons.inj heq
    have hc : isBlank c = false := by simpa using h
    cases xs with
    | nil =>
      -- The character behind the marker would be the one behind the line.
      rw [List.nil_append] at hrest
      rw [hafter c (by rw [hrest, List.head?_cons]; rfl)] at hc
      cases hc
    | cons d xs =>
      obtain ⟨rfl, -⟩ := List.cons.inj hrest
      exact ⟨blanks, d, xs, rfl, hblanks, hc⟩
  · cases h

/-- **The marker that `startsWithTag` sees is on the `firstSolidLine?`**, with nothing but blanks
before it. -/
theorem exists_firstSolidLine {cs : List Char} (h : startsWithTag cs = true) :
    ∃ blanks c rest, firstSolidLine? cs = some (blanks ++ '@' :: c :: rest) ∧
      (∀ b ∈ blanks, isBlank b = true) ∧ isBlank c = false := by
  revert h
  -- Line by line: a blank line is passed over, and any other one decides.
  refine line_induct (P := fun cs => startsWithTag cs = true →
    ∃ blanks c rest, firstSolidLine? cs = some (blanks ++ '@' :: c :: rest) ∧
      (∀ b ∈ blanks, isBlank b = true) ∧ isBlank c = false) ?_ ?_ cs
  · intro line hline h
    cases hblank : allBlank line with
    | true =>
      rw [← List.append_nil line, startsWithTag_append_of_blank (List.all_eq_true.mp hblank)] at h
      cases h
    | false =>
      obtain ⟨blanks, c, rest, heq, hblanks, hc⟩ :=
        exists_of_startsWithTag hblank [] (by simp) (by rwa [List.append_nil])
      exact ⟨blanks, c, rest, heq ▸ firstSolidLine?_of_solid hline hblank, hblanks, hc⟩
  · intro line rest hline ih h
    cases hblank : allBlank line with
    | true =>
      -- A blank line is blank with its line feed.
      have hfeed : ∀ b ∈ line ++ ['\n'], isBlank b = true :=
        List.forall_mem_append.mpr ⟨List.all_eq_true.mp hblank, List.forall_mem_singleton.mpr rfl⟩
      rw [firstSolidLine?_append_of_blank hline hblank]
      refine ih ?_
      rwa [← List.singleton_append, ← List.append_assoc, startsWithTag_append_of_blank hfeed] at h
    | false =>
      obtain ⟨blanks, c, after, heq, hblanks, hc⟩ :=
        exists_of_startsWithTag hblank ('\n' :: rest)
          (fun d hd => by rw [← Option.some.inj hd]; decide) h
      exact ⟨blanks, c, after, heq ▸ firstSolidLine?_append_of_solid hline hblank rest, hblanks, hc⟩

end DocComment.Text
