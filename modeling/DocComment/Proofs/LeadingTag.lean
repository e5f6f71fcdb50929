import DocComment.Proofs.TagContents

/-!
# What a comment starts with

Before a text is cut into tags, `withDescription` sees to it that it starts with a tag: it puts the
marker of the description before a text that does not. Cutting then looks for tag lines. The two do
not agree on what may stand before a marker. `withDescription` passes over blanks of every kind; a
tag line has no carriage return there.

So the first line of a text that is not blank shows a marker behind blanks, and it is a tag line
exactly when there is no carriage return among these blanks (`tagLine_iff_return_notMem`). If it is
one, there are tags, and they hold the text. If not, the line belongs to the lead. The lead starts
with a blank (`isBlank_head_lead`), so it spells no tag, and the *leading text*, up to the first tag
line, is dropped; where no tag line follows, there is no tag at all. This is
`ofComment_leadingText`.
-/

namespace DocComment.RawTag

open DocComment.Text DocComment.Comment

/-- The **leading text**: the lines before the first tag line. -/
def leadingText (cs : List Char) : List Char :=
  ((lines cs).takeWhile fun line => !decide (TagLine line)).flatten

/-- The lead that `gather` leaves is the leading text. -/
theorem leadingText_eq (cs : List Char) : leadingText cs = (gather (lines cs)).1 := by
  unfold leadingText
  induction lines cs with
  | nil => rfl
  | cons line rows ih =>
    cases hmarker : afterMarker? line with
    | some start =>
      have htag : TagLine line := isSome_afterMarker?_iff.mp (by rw [hmarker]; rfl)
      rw [gather_cons_tag hmarker, List.takeWhile_cons_of_neg (by simpa using htag)]
      rfl
    | none =>
      have htag := afterMarker?_eq_none_iff.mp hmarker
      rw [gather_cons_plain htag, List.takeWhile_cons_of_pos (by simpa using htag),
        List.flatten_cons, ih]

/-- Of all the blanks that may stand before a marker, only a carriage return spoils the
`TagLine`. -/
theorem tagLine_iff_return_notMem {blanks rest : List Char} {c : Char}
    (hline : '\n' ∉ blanks ++ '@' :: c :: rest) (hblanks : ∀ b ∈ blanks, isBlank b = true)
    (hc : isBlank c = false) : TagLine (blanks ++ '@' :: c :: rest) ↔ '\r' ∉ blanks := by
  constructor
  · rintro ⟨indent, d, more, heq, hindent, -⟩ hreturn
    -- Both indents are what stands before the first character that is not blank.
    have hsame : blanks = indent := by
      have htake := congrArg (List.takeWhile isBlank) heq
      rw [List.takeWhile_append_of_pos hblanks, List.takeWhile_append_of_pos fun b hb =>
        isBlank_of_isInlineBlank (hindent b hb)] at htake
      simpa [show isBlank '@' = false from by decide] using htake
    rw [hsame] at hreturn
    have hinline := hindent _ hreturn
    cases hinline
  · intro hreturn
    refine ⟨blanks, c, rest, rfl, fun b hb => isInlineBlank_of_isBlank (hblanks b hb) ?_ ?_, hc⟩
    · rintro rfl
      exact hline (List.mem_append_left _ hb)
    · rintro rfl
      exact hreturn hb

/-- A line that is no `TagLine`, in a text with `startsWithTag`, starts with a blank: were the
marker its first character, nothing could spoil it. -/
theorem isBlank_head_of_not_tagLine {line : List Char} (htag : ¬TagLine line) (after : List Char)
    (hafter : ∀ d ∈ after.head?, isBlank d = true) (h : startsWithTag (line ++ after) = true) :
    ∀ c ∈ line.head?, isBlank c = true := by
  intro c hc
  obtain ⟨rest, rfl⟩ := List.head?_eq_some_iff.mp hc
  by_contra hblank
  have hsolid : allBlank (c :: rest) = false := by
    simp [allBlank, hblank]
  -- The marker is on this line, behind blanks; with none the line were a tag line.
  obtain ⟨blanks, d, more, heq, hblanks, hd⟩ := exists_of_startsWithTag hsolid after hafter h
  cases blanks with
  | nil => exact htag ⟨[], d, more, heq, List.forall_mem_nil _, hd⟩
  | cons b blanks =>
    obtain ⟨rfl, -⟩ := List.cons.inj heq
    exact hblank (hblanks c List.mem_cons_self)

/-- **The lead of a text with `startsWithTag` starts with a blank**, or there is none. -/
theorem isBlank_head_lead {cs : List Char} (h : startsWithTag cs = true) :
    ∀ c ∈ (gather (lines cs)).1.head?, isBlank c = true := by
  revert h
  refine gather_induct (P := fun cs lead _ => startsWithTag cs = true →
    ∀ c ∈ lead.head?, isBlank c = true) ?_ ?_ ?_ ?_ cs
  · intro line _ htag h
    exact isBlank_head_of_not_tagLine htag [] (by simp) (by rwa [List.append_nil])
  · intro indent c after _ _ _ _ d hd
    cases hd
  · intro line rest lead segments _ htag _ h c hc
    cases line with
    | nil =>
      -- The line is empty, and the lead starts with its line feed.
      rw [← Option.some.inj hc]
      decide
    | cons d line =>
      refine isBlank_head_of_not_tagLine htag ('\n' :: rest) (fun e he => ?_) h c hc
      rw [← Option.some.inj he]
      decide
  · intro indent c after rest lead segments _ _ _ _ _ d hd
    cases hd

/-- `ofText` gives no tag exactly when there is no `TagLine`. -/
theorem ofText_eq_nil_iff {text : String}
    (hlead : ∀ c ∈ (gather (lines text.toList)).1.head?, isBlank c = true) :
    ofText text = [] ↔ ∀ line ∈ text.toList.splitOn '\n', ¬TagLine line := by
  have hlength := (standsOn_of_lead hlead).1.length_eq
  rw [← List.length_eq_zero_iff, hlength, List.length_eq_zero_iff, List.filter_eq_nil_iff]
  simp

/-- What `withDescription` leaves starts with a tag. -/
theorem startsWithTag_withDescription (s : String) :
    startsWithTag (withDescription s).toList = true := by
  unfold withDescription
  split
  · next h => exact h
  · rw [String.toList_append]
    rfl

/-- **What a comment starts with.** In every comment, once `withDescription` has tagged leading free
text, there is a line that is not blank. If no carriage return is among the blanks at the start of
the first such line, it is a `TagLine`, there are tags, and they hold the text up to blanks.
Otherwise it is none, the text up to the first tag line is dropped and the tags hold the rest, and
there is no tag when there is no tag line. -/
theorem ofComment_leadingText (source : String) :
    ∃ line, firstSolidLine? (withDescription (unwrap source)).toList = some line ∧
      ('\r' ∉ line.takeWhile isBlank →
        TagLine line ∧ ofComment source ≠ [] ∧
          solid ((ofComment source).flatMap joined) =
            solid (withDescription (unwrap source)).toList) ∧
      ('\r' ∈ line.takeWhile isBlank →
        ¬TagLine line ∧
          solid (leadingText (withDescription (unwrap source)).toList) ≠ [] ∧
          solid (leadingText (withDescription (unwrap source)).toList) ++
              solid ((ofComment source).flatMap joined) =
            solid (withDescription (unwrap source)).toList ∧
          (ofComment source = [] ↔
            ∀ l ∈ (withDescription (unwrap source)).toList.splitOn '\n', ¬TagLine l)) := by
  have hstarts := startsWithTag_withDescription (unwrap source)
  unfold ofComment
  -- All that matters of the text is that it starts with a tag.
  generalize withDescription (unwrap source) = text at hstarts
  obtain ⟨blanks, c, rest, hfirst, hblanks, hc⟩ := exists_firstSolidLine hstarts
  have hmem : blanks ++ '@' :: c :: rest ∈ text.toList.splitOn '\n' :=
    List.mem_of_find?_eq_some hfirst
  have htag := tagLine_iff_return_notMem (newline_notMem_of_mem_splitOn hmem) hblanks hc
  have hindent : (blanks ++ '@' :: c :: rest).takeWhile isBlank = blanks := by
    rw [List.takeWhile_append_of_pos hblanks]
    simp [show isBlank '@' = false from by decide]
  have hlead := isBlank_head_lead hstarts
  have hholds := (standsOn_of_lead hlead).2
  -- The leading text is blank exactly when the line is a tag line.
  have hblank : solid (gather (lines text.toList)).1 = [] ↔
      TagLine (blanks ++ '@' :: c :: rest) := by
    rw [solid_eq_nil_iff, allBlank_lead_iff, hfirst]
    simp
  refine ⟨_, hfirst, ?_, ?_⟩
  · rw [hindent, ← htag]
    intro hline
    rw [hblank.mpr hline, List.nil_append] at hholds
    exact ⟨hline, fun hnil => (ofText_eq_nil_iff hlead).mp hnil _ hmem hline, hholds⟩
  · rw [hindent, leadingText_eq]
    intro hreturn
    have hline : ¬TagLine (blanks ++ '@' :: c :: rest) := fun hline => htag.mp hline hreturn
    exact ⟨hline, fun hnil => hline (hblank.mp hnil), hholds, ofText_eq_nil_iff hlead⟩

/-- A carriage return before the only marker of a comment: `startsWithTag` sees the marker and
`gather` does not find it again, and the comment has no tag. -/
theorem ofComment_leadingText_return :
    firstSolidLine? (withDescription (unwrap "/**\r@name x\r*/")).toList = some "\r@name x".toList ∧
      ¬TagLine "\r@name x".toList ∧ ofComment "/**\r@name x\r*/" = [] := by
  decide +kernel

end DocComment.RawTag
