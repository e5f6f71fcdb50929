import DocComment.Comment.RawTag
import DocComment.Proofs.Lines

/-!
# Tag lines and the segments between them

A line is a *tag line* when it reads: blanks inside the line, the marker, a character that is not
blank. `TagLine` says so without reference to how lines are read, and `isSome_afterMarker?_iff` ties
it to `RawTag.afterMarker?`; so `TagLine` can be decided.

`gather` then runs over the lines from the last to the first. Lines that are no tag lines pile up
(`gather_append_plain`) until a tag line takes them into its segment (`gather_tag_block`). What
holds of all that is gathered is shown line by line, `gather_induct`.
-/

namespace DocComment.RawTag

open DocComment.Text

/-- A **tag line**: blanks inside the line, a marker and a character that is not blank. -/
def TagLine (line : List Char) : Prop :=
  ∃ indent c rest, line = indent ++ '@' :: c :: rest ∧ (∀ b ∈ indent, isInlineBlank b = true) ∧
    isBlank c = false

/-- `afterMarker?` reads a tag line from behind its marker on. -/
theorem afterMarker?_append {indent : List Char} {c : Char} (rest : List Char)
    (hindent : ∀ b ∈ indent, isInlineBlank b = true) (hc : isBlank c = false) :
    afterMarker? (indent ++ '@' :: c :: rest) = some (c :: rest) := by
  unfold afterMarker?
  rw [List.dropWhile_append_of_pos hindent]
  simp [show isInlineBlank '@' = false from by decide, hc]

/-- **`afterMarker?` reads a line exactly when it is a `TagLine`.** -/
theorem isSome_afterMarker?_iff {line : List Char} :
    (afterMarker? line).isSome = true ↔ TagLine line := by
  constructor
  · intro h
    -- What is dropped before the marker is the indent.
    have hsplit := List.takeWhile_append_dropWhile (p := isInlineBlank) (l := line)
    unfold afterMarker? at h
    split at h
    · next c rest hdrop =>
      rw [hdrop] at hsplit
      refine ⟨line.takeWhile isInlineBlank, c, rest, hsplit.symm, ?_, ?_⟩
      · exact fun b hb => List.all_eq_true.mp List.all_takeWhile b hb
      · simpa using h
    · simp at h
  · rintro ⟨indent, c, rest, rfl, hindent, hc⟩
    rw [afterMarker?_append rest hindent hc]
    rfl

instance (line : List Char) : Decidable (TagLine line) :=
  decidable_of_iff _ isSome_afterMarker?_iff

theorem afterMarker?_eq_none_iff {line : List Char} :
    afterMarker? line = none ↔ ¬ TagLine line := by
  rw [← isSome_afterMarker?_iff, Bool.not_eq_true, Option.isSome_eq_false_iff,
    Option.isNone_iff_eq_none]

/-- The line feed at the end of a line makes no difference for `TagLine`. -/
theorem tagLine_append_newline_iff {line : List Char} :
    TagLine (line ++ ['\n']) ↔ TagLine line := by
  constructor
  · rintro ⟨indent, c, rest, heq, hindent, hc⟩
    rcases List.eq_nil_or_concat rest with rfl | ⟨rest, d, rfl⟩
    · -- The character behind the marker would be the line feed.
      have hnewline : c = '\n' := by simpa using (congrArg List.getLast? heq).symm
      rw [hnewline] at hc
      exact absurd hc (by decide)
    · refine ⟨indent, c, rest, ?_, hindent, hc⟩
      have hconcat : line ++ ['\n'] = (indent ++ '@' :: c :: rest) ++ [d] := by simpa using heq
      exact (List.append_inj' hconcat rfl).1
  · rintro ⟨indent, c, rest, rfl, hindent, hc⟩
    exact ⟨indent, c, rest ++ ['\n'], by simp, hindent, hc⟩

/-! ### Indents -/

/-- Only tag lines have an indent that counts for `tagIndent?`. -/
theorem tagIndent?_of_not_tagLine {line : List Char} (h : ¬ TagLine line) :
    tagIndent? line = none := by
  simp [tagIndent?, afterMarker?_eq_none_iff.mpr h]

/-- A line that starts with the marker has no `tagIndent?`. -/
@[simp] theorem tagIndent?_marker (rest : List Char) : tagIndent? ('@' :: rest) = none := by
  simp [tagIndent?, show isInlineBlank '@' = false from by decide]

/-! ### Gathering -/

theorem gather_cons_tag {line start : List Char} (h : afterMarker? line = some start)
    (more : List (List Char)) :
    gather (line :: more) = ([], (start ++ (gather more).1) :: (gather more).2) := by
  simp [gather, h]

theorem gather_cons_plain {line : List Char} (h : ¬ TagLine line) (more : List (List Char)) :
    gather (line :: more) = (line ++ (gather more).1, (gather more).2) := by
  simp [gather, afterMarker?_eq_none_iff.mpr h]

/-- In `gather`, lines that are no tag lines pile up before what follows them. -/
theorem gather_append_plain {block : List (List Char)} (h : ∀ l ∈ block, ¬ TagLine l)
    (more : List (List Char)) :
    gather (block ++ more) = (block.flatten ++ (gather more).1, (gather more).2) := by
  induction block with
  | nil => rfl
  | cons line block ih =>
    rw [List.cons_append, gather_cons_plain (h line List.mem_cons_self),
      ih fun l hl => h l (List.mem_cons_of_mem _ hl), List.flatten_cons, List.append_assoc]

/-- **A tag line takes the lines up to the next one** into its segment of `gather`. -/
theorem gather_tag_block {line start : List Char} (hline : afterMarker? line = some start)
    {block : List (List Char)} (hblock : ∀ l ∈ block, ¬ TagLine l) (more : List (List Char)) :
    gather (line :: (block ++ more)) =
      ([], (start ++ (block.flatten ++ (gather more).1)) :: (gather more).2) := by
  rw [gather_cons_tag hline, gather_append_plain hblock]

/-- The `segments` of a text are its lead and what its tag lines gather, unless they are blank. -/
theorem segments_eq (cs : List Char) :
    segments cs =
      ((gather (lines cs)).1 :: (gather (lines cs)).2).filter fun s => !allBlank s := rfl

/-- **Induction over the lines of a text as they are gathered**: what holds of a text, of its lead
and of its segments follows from what a line in front does to the three. A line is a tag line or
none, and it is the last line or has a line feed behind it. -/
theorem gather_induct {P : List Char → List Char → List (List Char) → Prop}
    (last : ∀ line, '\n' ∉ line → ¬ TagLine line → P line line [])
    (tag_last : ∀ indent c after, '\n' ∉ indent ++ '@' :: c :: after →
      (∀ b ∈ indent, isInlineBlank b = true) → isBlank c = false →
      P (indent ++ '@' :: c :: after) [] [c :: after])
    (line : ∀ line rest lead segments, '\n' ∉ line → ¬ TagLine line → P rest lead segments →
      P (line ++ '\n' :: rest) (line ++ '\n' :: lead) segments)
    (tag_line : ∀ indent c after rest lead segments, '\n' ∉ indent ++ '@' :: c :: after →
      (∀ b ∈ indent, isInlineBlank b = true) → isBlank c = false → P rest lead segments →
      P (indent ++ '@' :: c :: after ++ '\n' :: rest) [] ((c :: after ++ '\n' :: lead) :: segments))
    (cs : List Char) : P cs (gather (lines cs)).1 (gather (lines cs)).2 := by
  -- Lines without their line feeds are the ones of `TagLine`; the line feed goes along with the
  -- text.
  refine line_induct (P := fun cs => P cs (gather (lines cs)).1 (gather (lines cs)).2) ?_ ?_ cs
  · intro row hrow
    by_cases hne : row = []
    · subst hne
      exact last [] hrow (by decide)
    rw [lines_of_notMem hrow hne]
    by_cases htag : TagLine row
    · obtain ⟨indent, c, after, rfl, hindent, hc⟩ := htag
      rw [gather_cons_tag (afterMarker?_append after hindent hc)]
      simpa [gather] using tag_last indent c after hrow hindent hc
    · rw [gather_cons_plain htag]
      simpa [gather] using last row hrow htag
  · intro row rest hrow ih
    rw [lines_append_newline hrow]
    by_cases htag : TagLine row
    · obtain ⟨indent, c, after, rfl, hindent, hc⟩ := htag
      -- The marker is found with the line feed still on the line.
      have hmarker : afterMarker? (indent ++ '@' :: c :: after ++ ['\n']) =
          some (c :: (after ++ ['\n'])) := by
        rw [List.append_assoc]
        exact afterMarker?_append (after ++ ['\n']) hindent hc
      rw [gather_cons_tag hmarker]
      simpa using tag_line indent c after rest _ _ hrow hindent hc ih
    · rw [gather_cons_plain (mt tagLine_append_newline_iff.mp htag)]
      simpa using line row rest _ _ hrow htag ih

end DocComment.RawTag
