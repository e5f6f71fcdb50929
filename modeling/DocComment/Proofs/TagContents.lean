import Mathlib.Data.List.Forall2
import DocComment.Proofs.Segments
import DocComment.Proofs.SolidText

/-!
# One tag for each tag line, and nothing lost

A text whose first line that is not blank is a tag line is all tags. Reading it gives one raw tag
for each tag line, in order, titled with the word behind the marker of that line, and the tags hold
the text: marker, title and text of each, one after another, are what the text says apart from its
blanks (`ofText_tagLines`).

Between the text and its tags stand the lead and the segments that gathering leaves.

* The segments answer to the tag lines one by one (`forall₂_opensOn`), and lead and segments
  together hold the text (`solid_gather`).
* A segment spells a tag, and on the way loses blanks only (`exists_ofSegment?`): those behind the
  title, the blank lines at its end (`solid_dropBlankTail`) and the indent of its lines
  (`solid_outdent`), whichever tag line that indent was taken from.
* The lead spells no tag as long as it starts with a blank or is empty (`ofText_eq`). It is
  blank throughout exactly when the first line that is not blank is a tag line
  (`allBlank_lead_iff`), and then nothing at all is lost.

Carriage returns need no care here: a line with one before its marker is no tag line, and then it
belongs to the text of the tag before it.
-/

namespace DocComment.RawTag

open DocComment.Text DocComment.Comment

/-! ### Segments and tag lines -/

/-- The segment `s` **opens on** a tag line: it starts with what the line shows behind its marker,
and goes on, if it does, behind a line feed. -/
def OpensOn (s line : List Char) : Prop :=
  ∃ indent c after more, line = indent ++ '@' :: c :: after ∧
    (∀ b ∈ indent, isInlineBlank b = true) ∧ isBlank c = false ∧ s = c :: after ++ more ∧
    ∀ d ∈ more.head?, d = '\n'

/-- The tag line `line` **is titled** `title`: behind its marker stand the characters of the title,
none of them blank, and then the line is over or goes on with a blank. -/
def IsTitled (line title : List Char) : Prop :=
  ∃ indent rest, line = indent ++ '@' :: (title ++ rest) ∧ (∀ b ∈ indent, isInlineBlank b = true) ∧
    title ≠ [] ∧ (∀ c ∈ title, isBlank c = false) ∧ ∀ d ∈ rest.head?, isBlank d = true

theorem tagLine_of_opening {indent : List Char} {c : Char} (after : List Char)
    (hindent : ∀ b ∈ indent, isInlineBlank b = true) (hc : isBlank c = false) :
    TagLine (indent ++ '@' :: c :: after) :=
  ⟨indent, c, after, rfl, hindent, hc⟩

/-- **There is one segment for each `TagLine`**, and it `OpensOn` that line. -/
theorem forall₂_opensOn (cs : List Char) :
    List.Forall₂ OpensOn (gather (lines cs)).2 ((cs.splitOn '\n').filter (TagLine ·)) := by
  -- Only a tag line adds to either side: one segment, and one line that passes the filter.
  refine gather_induct (P := fun cs _ segments =>
    List.Forall₂ OpensOn segments ((cs.splitOn '\n').filter (TagLine ·))) ?_ ?_ ?_ ?_ cs
  · intro line hline htag
    rw [List.splitOn_eq_singleton hline, List.filter_cons_of_neg (by simpa using htag)]
    exact .nil
  · intro indent c after hline hindent hc
    have htag := tagLine_of_opening after hindent hc
    rw [List.splitOn_eq_singleton hline, List.filter_cons_of_pos (by simpa using htag)]
    exact .cons ⟨indent, c, after, [], rfl, hindent, hc, (List.append_nil _).symm, by simp⟩ .nil
  · intro line rest lead segments hline htag ih
    rwa [splitOn_append_newline hline, List.filter_cons_of_neg (by simpa using htag)]
  · intro indent c after rest lead segments hline hindent hc ih
    have htag := tagLine_of_opening after hindent hc
    rw [splitOn_append_newline hline, List.filter_cons_of_pos (by simpa using htag)]
    exact .cons ⟨indent, c, after, '\n' :: lead, rfl, hindent, hc, rfl, by simp⟩ ih

/-- What `takeWhile` takes does not reach into a text that does not go on with such a character. -/
theorem takeWhile_append_of_head {p : Char → Bool} (xs : List Char) {ys : List Char}
    (h : ∀ d ∈ ys.head?, p d = false) : (xs ++ ys).takeWhile p = xs.takeWhile p := by
  induction xs with
  | nil =>
    cases ys with
    | nil => rfl
    | cons d ys => simp [h d rfl]
  | cons x xs ih => rw [List.cons_append, List.takeWhile_cons, List.takeWhile_cons, ih]

/-- The word that a segment starts with is the title of the line it `OpensOn`. -/
theorem OpensOn.isTitled {s line : List Char} (h : OpensOn s line) :
    IsTitled line (s.takeWhile fun c => !isBlank c) := by
  obtain ⟨indent, c, after, more, rfl, hindent, hc, rfl, hmore⟩ := h
  have hword := List.takeWhile_append_dropWhile (p := fun c => !isBlank c) (l := c :: after)
  -- The word does not reach over the end of the line.
  rw [takeWhile_append_of_head (c :: after) fun d hd => by rw [hmore d hd]; rfl]
  refine ⟨indent, (c :: after).dropWhile fun c => !isBlank c, by rw [hword], hindent, ?_, ?_, ?_⟩
  · simp [hc]
  · intro d hd
    simpa using List.all_eq_true.mp List.all_takeWhile d hd
  · intro d hd
    have hfirst := List.head?_dropWhile_not (fun c => !isBlank c) (c :: after)
    rw [hd] at hfirst
    simpa using hfirst

/-! ### The lead -/

/-- For `solid`, of what stands before the text of a tag line only the marker counts. -/
theorem solid_opening {indent : List Char} (hindent : ∀ b ∈ indent, isInlineBlank b = true)
    (s : List Char) : solid (indent ++ '@' :: s) = '@' :: solid s := by
  rw [solid_append, solid_of_blank fun b hb => isBlank_of_isInlineBlank (hindent b hb),
    solid_cons_of_solid (by decide), List.nil_append]

/-- **The two parts of `gather` hold the text**, a marker before each segment. -/
theorem solid_gather (cs : List Char) :
    solid (gather (lines cs)).1 ++ (gather (lines cs)).2.flatMap (fun s => '@' :: solid s) =
      solid cs := by
  -- What stays in the lead is still in front; a tag line puts its marker between itself and the
  -- lead.
  refine gather_induct (P := fun cs lead segments =>
    solid lead ++ segments.flatMap (fun s => '@' :: solid s) = solid cs) ?_ ?_ ?_ ?_ cs
  · intro line _ _
    rw [List.flatMap_nil, List.append_nil]
  · intro indent c after _ hindent _
    rw [solid_opening hindent, List.flatMap_singleton, solid_nil, List.nil_append]
  · intro line rest lead segments _ _ ih
    rw [solid_append, solid_append, solid_newline, solid_newline, List.append_assoc, ih]
  · intro indent c after rest lead segments _ hindent _ ih
    calc solid [] ++ ((c :: after ++ '\n' :: lead) :: segments).flatMap (fun s => '@' :: solid s)
        = '@' :: solid (c :: after) ++
            (solid lead ++ segments.flatMap fun s => '@' :: solid s) := by
          rw [List.flatMap_cons, solid_append, solid_newline]
          simp
      _ = '@' :: solid (c :: after) ++ solid rest := by rw [ih]
      _ = solid (indent ++ '@' :: c :: after ++ '\n' :: rest) := by
          rw [solid_append, solid_opening hindent, solid_newline]

/-- **The lead is `allBlank` exactly when the `firstSolidLine?` is a tag line**, or when there is no
such line. -/
theorem allBlank_lead_iff (cs : List Char) :
    allBlank (gather (lines cs)).1 = true ↔ ∀ line ∈ firstSolidLine? cs, TagLine line := by
  refine gather_induct (P := fun cs lead _ =>
    allBlank lead = true ↔ ∀ line ∈ firstSolidLine? cs, TagLine line) ?_ ?_ ?_ ?_ cs
  · intro line hline htag
    cases hblank : allBlank line with
    | true => simp [firstSolidLine?_of_blank hline hblank]
    | false => simpa [firstSolidLine?_of_solid hline hblank] using htag
  · intro indent c after hline hindent hc
    have hsolid : allBlank (indent ++ '@' :: c :: after) = false := by
      simp [allBlank, hc]
    simp [firstSolidLine?_of_solid hline hsolid, tagLine_of_opening after hindent hc, allBlank]
  · intro line rest lead segments hline htag ih
    cases hblank : allBlank line with
    | true =>
      rw [firstSolidLine?_append_of_blank hline hblank, ← ih, allBlank, List.all_append,
        show line.all isBlank = true from hblank]
      rfl
    | false =>
      -- The line is the first that is not blank, and it goes to the lead.
      rw [firstSolidLine?_append_of_solid hline hblank, allBlank, List.all_append,
        show line.all isBlank = false from hblank]
      simpa using htag
  · intro indent c after rest lead segments hline hindent hc ih
    have hsolid : allBlank (indent ++ '@' :: c :: after) = false := by
      simp [allBlank, hc]
    rw [firstSolidLine?_append_of_solid hline hsolid]
    simp [tagLine_of_opening after hindent hc, allBlank]

/-! ### The tag of a segment -/

/-- The marker, the title and the text of a `RawTag`, with nothing between them. -/
def joined (t : RawTag) : List Char :=
  '@' :: (t.title ++ t.text.getD "").toList

theorem solid_joined (t : RawTag) :
    solid t.joined = '@' :: (solid t.title.toList ++ solid (t.text.getD "").toList) := by
  rw [joined, solid_cons_of_solid (by decide), String.toList_append, solid_append]

/-- The tag `t` **stands on** the tag line `line`. -/
structure StandsOn (t : RawTag) (line : List Char) : Prop where
  /-- Its title is the one that the line shows. -/
  titled : IsTitled line t.title.toList
  /-- Its text, if it has one, starts with a character that is not blank. -/
  text_head : ∀ s ∈ t.text, ∃ c ∈ s.toList.head?, isBlank c = false

/-- The blank lines that `dropBlankTail` drops are blank. -/
theorem solid_dropBlankTail (cs : List Char) : solid (dropBlankTail cs) = solid cs := by
  obtain ⟨tail, htail, hends, -⟩ := exists_dropBlankTail cs
  have hblank : solid tail = [] := by
    rcases hends with rfl | hends
    · rfl
    · exact solid_of_blank (isBlank_of_onlyBlankLines (onlyBlankLines_of_isBlankTail hends))
  calc solid (dropBlankTail cs)
      = solid (dropBlankTail cs ++ tail) := by rw [solid_append, hblank, List.append_nil]
    _ = solid cs := by rw [← htail]

section Indent

variable {indent : List Char} (hindent : ∀ b ∈ indent, isInlineBlank b = true)
include hindent

/-- An indent is blank, wherever `outdent` takes it off. -/
theorem solid_outdent (cs : List Char) : solid (outdent indent cs) = solid cs := by
  by_cases hne : indent = []
  · rw [hne, outdent_nil]
  -- Line by line: what goes from a line is blank.
  have hline : ∀ line, solid (outdentLine indent line) = solid line := by
    intro line
    obtain ⟨before, hbefore, hblank⟩ := exists_outdentLine hindent line
    conv_rhs => rw [hbefore]
    rw [solid_append, solid_of_blank fun b hb => isBlank_of_isInlineBlank (hblank b hb),
      List.nil_append]
  rw [solid_eq_flatMap_splitOn, splitOn_outdent hindent hne, List.flatMap_map,
    solid_eq_flatMap_splitOn cs]
  exact congrArg (List.flatMap · (cs.splitOn '\n')) (funext hline)

/-- **What `dropBlankTail` and `outdent` leave of a body** that starts with a character that is not
blank: it starts with the same character, and only blanks are gone. -/
theorem exists_body {c : Char} (hc : isBlank c = false) (cs : List Char) :
    ∃ more, outdent indent (dropBlankTail (c :: cs)) = c :: more ∧
      solid (c :: more) = solid (c :: cs) := by
  obtain ⟨more, hmore⟩ := exists_outdent_cons hindent hc (dropBlankTail cs)
  rw [← dropBlankTail_cons hc] at hmore
  refine ⟨more, hmore, ?_⟩
  rw [← hmore, solid_outdent hindent, solid_dropBlankTail]

/-- **`ofSegment?` gives a tag for a segment that starts with a character that is not blank**: its
title is the first word, and the tag holds what the segment says. -/
theorem exists_ofSegment? {c : Char} (hc : isBlank c = false) (cs : List Char) :
    ∃ t, ofSegment? indent (c :: cs) = some t ∧
      t.title.toList = (c :: cs).takeWhile (fun d => !isBlank d) ∧
      (∀ s ∈ t.text, ∃ d ∈ s.toList.head?, isBlank d = false) ∧
      solid t.joined = '@' :: solid (c :: cs) := by
  have hword := List.takeWhile_append_dropWhile (p := fun d => !isBlank d) (l := c :: cs)
  have hsolid : ∀ d ∈ (c :: cs).takeWhile (fun d => !isBlank d), isBlank d = false := by
    intro d hd
    simpa using List.all_eq_true.mp List.all_takeWhile d hd
  have hne : ((c :: cs).takeWhile fun d => !isBlank d).isEmpty = false := by
    simp [hc]
  unfold ofSegment?
  dsimp only
  rw [hne]
  -- The segment is its title and a rest, and of the rest the text is what follows the blanks.
  generalize (c :: cs).takeWhile (fun d => !isBlank d) = title at hword hsolid
  generalize (c :: cs).dropWhile (fun d => !isBlank d) = rest at hword
  rw [← hword, List.drop_left, solid_append, solid_eq_self hsolid, ← solid_dropWhile rest]
  have hbody := List.head?_dropWhile_not isBlank rest
  cases hrest : rest.dropWhile isBlank with
  | nil =>
    refine ⟨⟨String.ofList title, none⟩, rfl, String.toList_ofList, by simp, ?_⟩
    rw [solid_joined, String.toList_ofList, solid_eq_self hsolid]
    rfl
  | cons d body =>
    have hd : isBlank d = false := by
      rw [hrest] at hbody
      simpa using hbody
    -- Taking the indent off the text changes blanks only.
    obtain ⟨more, hmore, hsame⟩ := exists_body hindent hd body
    refine ⟨⟨String.ofList title, some (String.ofList (d :: more))⟩, ?_,
      String.toList_ofList, ?_, ?_⟩
    · rw [← hmore]
      rfl
    · intro s hs
      obtain rfl := Option.some.inj hs
      exact ⟨d, by rw [String.toList_ofList, List.head?_cons]; rfl, hd⟩
    · rw [solid_joined, String.toList_ofList, solid_eq_self hsolid, Option.getD_some,
        String.toList_ofList, hsame]

end Indent

/-! ### All tags -/

/-- **A lead that does not start with a word spells no tag**, so the tags of `ofText` are those that
the tag lines gather. -/
theorem ofText_eq {text : String}
    (hlead : ∀ c ∈ (gather (lines text.toList)).1.head?, isBlank c = true) :
    ofText text = (gather (lines text.toList)).2.filterMap
      (ofSegment? (((lines text.toList).findSome? tagIndent?).getD [])) := by
  unfold ofText
  dsimp only
  generalize ((lines text.toList).findSome? tagIndent?).getD [] = indent
  have hsegments : (gather (lines text.toList)).2.filter (fun s => !allBlank s) =
      (gather (lines text.toList)).2 := by
    refine List.filter_eq_self.mpr fun s hs => ?_
    obtain ⟨c, rest, rfl, hc⟩ := (gathered_lines text.toList).starts s hs
    simp [allBlank, hc]
  rw [segments_eq, List.filter_cons, hsegments]
  split
  · -- The lead starts with a blank, so there is no word to be a title.
    refine List.filterMap_cons_none ?_
    cases hfirst : (gather (lines text.toList)).1 with
    | nil => rfl
    | cons c rest =>
      have hc : isBlank c = true := hlead c (by rw [hfirst, List.head?_cons]; rfl)
      simp [ofSegment?, hc]
  · rfl

/-- **One tag for each `TagLine`**, and the tags hold what the tag lines gather, whatever stands
before the first of them. -/
theorem standsOn_of_lead {text : String}
    (hlead : ∀ c ∈ (gather (lines text.toList)).1.head?, isBlank c = true) :
    List.Forall₂ StandsOn (ofText text) ((text.toList.splitOn '\n').filter (TagLine ·)) ∧
      solid (gather (lines text.toList)).1 ++ solid ((ofText text).flatMap joined) =
        solid text.toList := by
  have hindent : ∀ b ∈ ((lines text.toList).findSome? tagIndent?).getD [], isInlineBlank b = true :=
    isInlineBlank_of_mem_indent
  rw [ofText_eq hlead, ← solid_gather text.toList]
  have hopens := forall₂_opensOn text.toList
  generalize ((lines text.toList).findSome? tagIndent?).getD [] = indent at hindent
  generalize (gather (lines text.toList)).2 = segments at hopens
  generalize (text.toList.splitOn '\n').filter (TagLine ·) = rows at hopens
  -- The segments are read one by one, each beside the line that it opens on.
  suffices htags : List.Forall₂ StandsOn (segments.filterMap (ofSegment? indent)) rows ∧
      solid ((segments.filterMap (ofSegment? indent)).flatMap joined) =
        segments.flatMap fun s => '@' :: solid s from
    ⟨htags.1, by rw [htags.2]⟩
  induction hopens with
  | nil => exact ⟨.nil, rfl⟩
  | cons hopen _ ih =>
    have htitled := hopen.isTitled
    obtain ⟨indent', c, after, more, -, -, hc, rfl, -⟩ := hopen
    obtain ⟨t, ht, htitle, htext, hholds⟩ := exists_ofSegment? hindent hc (after ++ more)
    rw [List.cons_append] at htitled ⊢
    rw [List.filterMap_cons_some ht, List.flatMap_cons, List.flatMap_cons, solid_append, hholds,
      ih.2]
    exact ⟨.cons ⟨htitle ▸ htitled, htext⟩ ih.1, rfl⟩

/-- **One tag for each tag line, and nothing lost.** If the `firstSolidLine?` of a text is a
`TagLine`, reading the text gives one tag for each of its tag lines, in order; and marker, title and
text of the tags, one after another, are the text up to blanks. -/
theorem ofText_tagLines (text : String)
    (h : ∀ line ∈ firstSolidLine? text.toList, TagLine line) :
    List.Forall₂ StandsOn (ofText text) ((text.toList.splitOn '\n').filter (TagLine ·)) ∧
      solid ((ofText text).flatMap joined) = solid text.toList := by
  have hblank : ∀ c ∈ (gather (lines text.toList)).1, isBlank c = true :=
    List.all_eq_true.mp ((allBlank_lead_iff text.toList).mpr h)
  obtain ⟨hstands, hholds⟩ := standsOn_of_lead fun c hc => hblank c (List.mem_of_mem_head? hc)
  rw [solid_of_blank hblank, List.nil_append] at hholds
  exact ⟨hstands, hholds⟩

/-- A text for `ofText` with blank lines of several kinds, an indent that is taken off other tags'
lines too, markers inside lines, a marker behind a carriage return and one before a blank. -/
theorem ofText_tagLines_mixed :
    let text := "\r\n \u2003@a\u00a0x@y\r\n \u2003z\r\r\n\n@b@\n \r@c\n@ d\n@e"
    (∀ line ∈ firstSolidLine? text.toList, TagLine line) ∧
      List.Forall₂ StandsOn (ofText text)
        [" \u2003@a\u00a0x@y\r".toList, "@b@".toList, "@e".toList] ∧
      solid ((ofText text).flatMap joined) = "@ax@yz@b@@c@d@e".toList := by
  intro text
  have hfirst : ∀ line ∈ firstSolidLine? text.toList, TagLine line := by
    decide
  have hrows : (text.toList.splitOn '\n').filter (TagLine ·) =
      [" \u2003@a\u00a0x@y\r".toList, "@b@".toList, "@e".toList] := by
    decide
  have hsolid : solid text.toList = "@ax@yz@b@@c@d@e".toList := by
    decide
  rw [← hrows, ← hsolid]
  exact ⟨hfirst, ofText_tagLines text hfirst⟩

end DocComment.RawTag
