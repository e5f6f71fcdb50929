import Mathlib.Data.List.Basic
import DocComment.Proofs.CommentFrame
import DocComment.Proofs.Segments

/-!
# Raw tags survive the way through a comment

`render` writes raw tags as a comment in its usual form, one star a line. Reading that comment gives
the tags back, in order and with their texts verbatim (`ofComment_render`), for every list of
*well-formed* tags. Well-formed means no more than that the comment can tell the tag apart: the
title is a word, the text starts with a character that is not blank, none of its further lines
starts a tag, and it does not end in what reading takes for blank lines.

Both ways lead through one text: the tags spelled one after another, each with a line feed behind
it. The frame comes off whole, so unwrapping gives this text (`unwrap_renderBlocks`); a description
without its marker gets it back (`withDescription_lead`). Reading the text is the other half
(`ofText_spelled`): its lines fall into one block for each tag, a block is one segment, and a
segment spells its tag.
-/

namespace DocComment.RawTag

open DocComment.Text DocComment.Comment

/-! ### Well-formed tags -/

/-- A text that a comment carries verbatim behind a title. -/
structure Carried (text : List Char) : Prop where
  /-- It starts with a character that is not blank. -/
  head : ∃ c ∈ text.head?, isBlank c = false
  /-- It does not end in a carriage return. -/
  last : text.getLast? ≠ some '\r'
  /-- If it has several lines, the last one is not blank throughout. -/
  last_line : ∀ line ∈ (text.splitOn '\n').tail.getLast?, allBlank line = false
  /-- None of its further lines is a tag line. -/
  no_tag_line : ∀ line ∈ (text.splitOn '\n').tail, ¬ TagLine line

/-- A tag that a comment can carry: its title is a word, and its text, if it has one, is carried. -/
structure WellFormed (t : RawTag) : Prop where
  /-- There is a title. -/
  title_ne_nil : t.title.toList ≠ []
  /-- The title holds no blank. -/
  title_solid : ∀ c ∈ t.title.toList, isBlank c = false
  /-- The text can be carried. -/
  carried : ∀ s ∈ t.text, Carried s.toList

instance (text : List Char) : Decidable (Carried text) :=
  decidable_of_iff
    (text.head?.any (fun c => !isBlank c) = true ∧ text.getLast? ≠ some '\r' ∧
      (∀ line ∈ (text.splitOn '\n').tail.getLast?, allBlank line = false) ∧
      ∀ line ∈ (text.splitOn '\n').tail, ¬ TagLine line)
    ⟨fun ⟨h₁, h₂, h₃, h₄⟩ => ⟨by simpa [Option.any_eq_true] using h₁, h₂, h₃, h₄⟩,
      fun ⟨h₁, h₂, h₃, h₄⟩ => ⟨by simpa [Option.any_eq_true] using h₁, h₂, h₃, h₄⟩⟩

instance (t : RawTag) : Decidable t.WellFormed :=
  decidable_of_iff
    (t.title.toList ≠ [] ∧ t.title.toList.all (fun c => !isBlank c) = true ∧
      ∀ s ∈ t.text, Carried s.toList)
    ⟨fun ⟨h₁, h₂, h₃⟩ => ⟨h₁, by simpa using h₂, h₃⟩,
      fun ⟨h₁, h₂, h₃⟩ => ⟨h₁, by simpa using h₂, h₃⟩⟩

/-! ### Rendering -/

/-- The text of a tag as it follows the title. -/
def spelledText : Option String → List Char
  | none => []
  | some s => ' ' :: s.toList

/-- A tag as a comment spells it: the marker, the title, and the text behind a space. -/
def spelled (t : RawTag) : List Char :=
  '@' :: (t.title.toList ++ spelledText t.text)

/-- The comment around some texts: each of their lines behind a star and a space. -/
def renderBlocks (texts : List (List Char)) : String :=
  String.ofList
    ("/**\n".toList ++
      (texts.flatMap (·.splitOn '\n')).flatMap (fun line => " * ".toList ++ line ++ ['\n']) ++
      " */".toList)

/-- **The comment that spells some tags**, each as `spelled` has it. -/
def render (tags : List RawTag) : String :=
  renderBlocks (tags.map spelled)

/-- The comment that starts with a free text and then spells some tags. -/
def renderWithLead (lead : String) (tags : List RawTag) : String :=
  renderBlocks (lead.toList :: tags.map spelled)

/-! ### Unwrapping -/

/-- A line behind the margin that `renderBlocks` gives it. -/
def rowOfLine (line : List Char) (h : '\n' ∉ line) : Row where
  indent := [' ']
  line := line
  blank_indent := List.all_eq_true.mp (by decide)
  one_line := h

theorem flatMap_framed_rows {texts : List (List Char)} (h : ∀ l ∈ texts, '\n' ∉ l) :
    (texts.pmap rowOfLine h).flatMap Row.framed =
      texts.flatMap fun line => " * ".toList ++ line ++ ['\n'] := by
  induction texts with
  | nil => rfl
  | cons line texts ih =>
    rw [List.pmap_cons, List.flatMap_cons, List.flatMap_cons, ih]
    simp [Row.framed, rowOfLine]

theorem flatMap_bare_rows {texts : List (List Char)} (h : ∀ l ∈ texts, '\n' ∉ l) :
    (texts.pmap rowOfLine h).flatMap Row.bare = texts.flatMap (· ++ ['\n']) := by
  induction texts with
  | nil => rfl
  | cons line texts ih =>
    rw [List.pmap_cons, List.flatMap_cons, List.flatMap_cons, ih]
    rfl

/-- **`unwrap` gives back the texts of a rendered comment**, each with a line feed behind it. -/
theorem unwrap_renderBlocks (texts : List (List Char)) :
    unwrap (renderBlocks texts) = String.ofList (texts.flatMap (· ++ ['\n'])) := by
  have hlines : ∀ l ∈ texts.flatMap (·.splitOn '\n'), '\n' ∉ l := by
    intro l hl
    obtain ⟨text, -, hl⟩ := List.mem_flatMap.mp hl
    exact newline_notMem_of_mem_splitOn hl
  -- A rendered comment is a frame whose rows are the lines of the texts.
  have hframe : (renderBlocks texts).toList =
      frame ((texts.flatMap (·.splitOn '\n')).pmap rowOfLine hlines) [' '] [] := by
    unfold renderBlocks frame
    simp [flatMap_framed_rows]
  rw [unwrap, hframe, unwrapChars_frame _ (List.all_eq_true.mp (by decide)) (List.forall_mem_nil _),
    flatMap_bare_rows, List.flatMap_assoc]
  simp only [flatMap_splitOn_newline]

/-! ### Blank lines at the end of a text -/

/-- What follows a line feed of a `Carried` text is not blank throughout. -/
theorem Carried.exists_solid {ps qs : List Char} (h : Carried (ps ++ '\n' :: qs)) :
    ∃ c ∈ qs, isBlank c = false := by
  obtain ⟨line, hline⟩ : ∃ line, (qs.splitOn '\n').getLast? = some line :=
    ⟨_, List.getLast?_eq_some_getLast (List.splitOn_ne_nil '\n' qs)⟩
  have hsolid : allBlank line = false := by
    refine h.last_line line ?_
    rw [getLast?_tail_splitOn, hline]
    rfl
  obtain ⟨c, hc, hblank⟩ := List.all_eq_false.mp hsolid
  exact ⟨c, mem_of_mem_splitOn (List.mem_of_getLast? hline) hc, by simpa using hblank⟩

/-- No tail in the sense of `isBlankTail` starts inside a `Carried` text. -/
theorem Carried.isBlankTail_eq_false {ps qs : List Char} {c : Char} (h : Carried (ps ++ c :: qs)) :
    isBlankTail (c :: (qs ++ ['\n'])) = false := by
  rw [← Bool.not_eq_true]
  intro htail
  -- A blank tail starts with a line feed, or with a carriage return before one.
  by_cases hnewline : c = '\n'
  · subst hnewline
    obtain ⟨d, hd, hsolid⟩ := h.exists_solid
    have hblank := isBlank_of_onlyBlankLines htail d (List.mem_append_left _ hd)
    rw [hsolid] at hblank
    exact absurd hblank (by decide)
  · by_cases hreturn : c = '\r'
    · subst hreturn
      cases qs with
      | nil => exact h.last (by simp)
      | cons d qs =>
        by_cases hd : d = '\n'
        · subst hd
          have h' : Carried ((ps ++ ['\r']) ++ '\n' :: qs) := by simpa using h
          obtain ⟨e, he, hsolid⟩ := h'.exists_solid
          have hblank := isBlank_of_onlyBlankLines htail e (List.mem_append_left _ he)
          rw [hsolid] at hblank
          exact absurd hblank (by decide)
        · simp [isBlankTail, hd] at htail
    · simp [isBlankTail, hnewline, hreturn] at htail

/-- **`dropBlankTail` takes the line feed behind a `Carried` text away, and nothing else.** -/
theorem Carried.dropBlankTail_append {text : List Char} (h : Carried text) :
    dropBlankTail (text ++ ['\n']) = text := by
  -- The induction is on what is left of the text; `ps` is what stands before it.
  suffices hsuffix : ∀ ps qs, text = ps ++ qs → dropBlankTail (qs ++ ['\n']) = qs from
    hsuffix [] text rfl
  intro ps qs
  induction qs generalizing ps with
  | nil => intro _; rfl
  | cons c qs ih =>
    intro heq
    rw [List.cons_append, dropBlankTail, if_neg, ih (ps ++ [c]) (by simpa using heq)]
    rw [Bool.not_eq_true]
    exact Carried.isBlankTail_eq_false (heq ▸ h)

/-! ### One tag -/

/-- The segment of a tag: what its marker is followed by, up to the next tag line. -/
def segment (t : RawTag) : List Char :=
  t.title.toList ++ spelledText t.text ++ ['\n']

/-- The lines of a tag as the text of a comment shows them. -/
def block (t : RawTag) : List (List Char) :=
  (t.spelled.splitOn '\n').map (· ++ ['\n'])

theorem flatten_block (t : RawTag) : t.block.flatten = '@' :: t.segment := by
  rw [block, ← List.flatMap_def, flatMap_splitOn_newline]
  simp [spelled, segment]

namespace WellFormed

variable {t : RawTag}

/-- The first character of the title is not blank. -/
theorem exists_title (h : t.WellFormed) :
    ∃ c rest, t.title.toList = c :: rest ∧ isBlank c = false := by
  obtain ⟨c, rest, htitle⟩ := List.exists_cons_of_ne_nil h.title_ne_nil
  refine ⟨c, rest, htitle, h.title_solid c ?_⟩
  rw [htitle]
  exact List.mem_cons_self

theorem newline_notMem_title (h : t.WellFormed) : '\n' ∉ t.title.toList := by
  intro hmem
  have hsolid := h.title_solid '\n' hmem
  exact absurd hsolid (by decide)

/-- **A tag is one block**: a tag line that starts with the marker, and lines that are no tag
lines. -/
theorem exists_block (h : t.WellFormed) :
    ∃ start more, t.block = ('@' :: start) :: more ∧ afterMarker? ('@' :: start) = some start ∧
      (∀ l ∈ more, ¬ TagLine l) ∧ start ++ more.flatten = t.segment := by
  obtain ⟨c, rest, htitle, hc⟩ := h.exists_title
  have hmarker : ∀ xs, afterMarker? ('@' :: (t.title.toList ++ xs)) =
      some (t.title.toList ++ xs) := by
    intro xs
    rw [htitle]
    exact afterMarker?_append (rest ++ xs) (List.forall_mem_nil _) hc
  have hflat := flatten_block t
  -- The lines of the block are those of the text, with marker and title before the first.
  suffices hlines : ∃ xs more, t.block = ('@' :: (t.title.toList ++ xs)) :: more ∧
      ∀ l ∈ more, ¬ TagLine l by
    obtain ⟨xs, more, hblock, hmore⟩ := hlines
    refine ⟨t.title.toList ++ xs, more, hblock, hmarker xs, hmore, ?_⟩
    rw [hblock, List.flatten_cons, List.cons_append] at hflat
    exact (List.cons.inj hflat).2
  unfold block spelled
  cases htext : t.text with
  | none =>
    refine ⟨['\n'], [], ?_, List.forall_mem_nil _⟩
    rw [spelledText, List.append_nil, List.splitOn_eq_singleton]
    · rfl
    · simpa using h.newline_notMem_title
  | some s =>
    have hcarried := h.carried s htext
    obtain ⟨first, more, hsplit⟩ :=
      List.exists_cons_of_ne_nil (List.splitOn_ne_nil '\n' s.toList)
    -- A carried text has no tag line behind its first line, and this one follows the title.
    refine ⟨' ' :: (first ++ ['\n']), more.map (· ++ ['\n']), ?_, ?_⟩
    · rw [show '@' :: (t.title.toList ++ spelledText (some s)) =
          ('@' :: t.title.toList ++ [' ']) ++ s.toList by simp [spelledText],
        splitOn_append_of_notMem (by simpa using h.newline_notMem_title), hsplit]
      simp
    · intro l hl
      obtain ⟨line, hline, rfl⟩ := List.mem_map.mp hl
      rw [tagLine_append_newline_iff]
      refine hcarried.no_tag_line line ?_
      rw [hsplit]
      exact hline

/-- No line of a block has an indent that counts for `tagIndent?`. -/
theorem tagIndent?_block (h : t.WellFormed) : ∀ l ∈ t.block, tagIndent? l = none := by
  obtain ⟨start, more, hblock, -, hmore, -⟩ := h.exists_block
  rw [hblock]
  exact List.forall_mem_cons.mpr
    ⟨tagIndent?_marker start, fun l hl => tagIndent?_of_not_tagLine (hmore l hl)⟩

theorem allBlank_segment (h : t.WellFormed) : allBlank t.segment = false := by
  obtain ⟨c, rest, htitle, hc⟩ := h.exists_title
  simp [segment, allBlank, htitle, hc]

/-- The title of a `segment` is read up to the first blank. -/
theorem takeWhile_segment (h : t.WellFormed) :
    t.segment.takeWhile (fun c => !isBlank c) = t.title.toList := by
  rw [segment, List.append_assoc,
    List.takeWhile_append_of_pos (by simpa using h.title_solid)]
  cases t.text <;> simp [spelledText, show isBlank '\n' = true from by decide,
    show isBlank ' ' = true from by decide]

/-- Behind the title and the blanks stands the text. -/
theorem dropWhile_segment (h : t.WellFormed) :
    (t.segment.drop t.title.toList.length).dropWhile isBlank =
      t.text.elim [] fun s => s.toList ++ ['\n'] := by
  rw [segment, List.append_assoc, List.drop_left]
  cases htext : t.text with
  | none => simp [spelledText, show isBlank '\n' = true from by decide]
  | some s =>
    obtain ⟨c, hc, hsolid⟩ := (h.carried s htext).head
    obtain ⟨rest, hs⟩ := List.head?_eq_some_iff.mp hc
    simp [spelledText, hs, hsolid, show isBlank ' ' = true from by decide]

/-- **A `segment` spells its tag**: `ofSegment?` reads it back. -/
theorem ofSegment?_segment (h : t.WellFormed) : ofSegment? [] t.segment = some t := by
  have htitle : t.title.toList.isEmpty = false := by simpa using h.title_ne_nil
  unfold ofSegment?
  simp only [h.takeWhile_segment, h.dropWhile_segment, htitle, outdent_nil, String.ofList_toList]
  obtain ⟨title, text⟩ := t
  cases text with
  | none => rfl
  | some s => simp [(h.carried s rfl).dropBlankTail_append]

end WellFormed

/-! ### All tags -/

/-- The text that spells some tags, each with a line feed behind it. -/
def spelledAll (tags : List RawTag) : List Char :=
  tags.flatMap fun t => t.spelled ++ ['\n']

theorem lines_spelledAll (tags : List RawTag) : lines (spelledAll tags) = tags.flatMap block := by
  induction tags with
  | nil => rfl
  | cons t tags ih =>
    rw [spelledAll, List.flatMap_cons, lines_append_newline_eq_map, List.flatMap_cons]
    exact congrArg (t.block ++ ·) ih

/-- **`gather` turns the blocks of some tags into their segments**, with nothing before the
first. -/
theorem gather_blocks {tags : List RawTag} (h : ∀ t ∈ tags, t.WellFormed) :
    gather (tags.flatMap block) = ([], tags.map segment) := by
  induction tags with
  | nil => rfl
  | cons t tags ih =>
    obtain ⟨start, more, hblock, hstart, hmore, hsegment⟩ := (h t List.mem_cons_self).exists_block
    rw [List.flatMap_cons, hblock, List.cons_append, gather_tag_block hstart hmore,
      ih fun u hu => h u (List.mem_cons_of_mem _ hu), List.append_nil, hsegment, List.map_cons]

theorem segments_spelledAll {tags : List RawTag} (h : ∀ t ∈ tags, t.WellFormed) :
    segments (spelledAll tags) = tags.map segment := by
  unfold segments
  rw [lines_spelledAll, gather_blocks h]
  change ([] :: tags.map segment).filter (fun s => !allBlank s) = _
  rw [List.filter_cons_of_neg (by decide), List.filter_eq_self]
  intro s hs
  obtain ⟨t, ht, rfl⟩ := List.mem_map.mp hs
  rw [(h t ht).allBlank_segment]
  rfl

/-- **`ofText` reads spelled tags back.** -/
theorem ofText_spelled {tags : List RawTag} (h : ∀ t ∈ tags, t.WellFormed) :
    ofText (String.ofList (spelledAll tags)) = tags := by
  -- Every marker starts its line, so there is no indent to take off.
  have hindent : (lines (spelledAll tags)).findSome? tagIndent? = none := by
    rw [lines_spelledAll, List.findSome?_eq_none_iff]
    intro l hl
    obtain ⟨t, ht, hl⟩ := List.mem_flatMap.mp hl
    exact (h t ht).tagIndent?_block l hl
  unfold ofText
  simp only [String.toList_ofList, hindent, segments_spelledAll h, Option.getD_none]
  rw [List.filterMap_map]
  calc tags.filterMap (ofSegment? [] ∘ segment)
      = tags.filterMap some := List.filterMap_congr fun t ht => (h t ht).ofSegment?_segment
    _ = tags := List.filterMap_some

/-! ### The description -/

/-- `withDescription` leaves a text alone that starts with the marker of a tag. -/
theorem withDescription_spelledAll {tags : List RawTag} (hne : tags ≠ [])
    (h : ∀ t ∈ tags, t.WellFormed) :
    withDescription (String.ofList (spelledAll tags)) = String.ofList (spelledAll tags) := by
  obtain ⟨t, tags, rfl⟩ := List.exists_cons_of_ne_nil hne
  obtain ⟨c, rest, htitle, hc⟩ := (h t List.mem_cons_self).exists_title
  rw [withDescription, if_pos]
  simp [startsWithTag, spelledAll, spelled, htitle, hc, show isBlank '@' = false from by decide]

/-- `withDescription` tags free text at the start as the description, unless it looks like a tag. -/
theorem withDescription_lead {s : String} {tags : List RawTag} (hs : Carried s.toList)
    (hlead : ∀ c rest, s.toList = '@' :: c :: rest → isBlank c = true) :
    withDescription (String.ofList (s.toList ++ ['\n'] ++ spelledAll tags)) =
      String.ofList (spelledAll (⟨"description", some s⟩ :: tags)) := by
  obtain ⟨c, hc, hsolid⟩ := hs.head
  obtain ⟨rest, hcs⟩ := List.head?_eq_some_iff.mp hc
  have hstart : startsWithTag (s.toList ++ ['\n'] ++ spelledAll tags) = false := by
    rw [hcs]
    unfold startsWithTag
    rw [List.append_assoc, List.cons_append, List.dropWhile_cons_of_neg (by simp [hsolid])]
    split
    · next d more heq =>
      -- The text starts with the marker; what follows is blank, be it the line feed.
      obtain ⟨rfl, hrest⟩ := List.cons.inj heq
      cases rest with
      | nil =>
        rw [← (List.cons.inj hrest).1]
        decide
      | cons e rest =>
        rw [← (List.cons.inj hrest).1, hlead e rest hcs]
        rfl
    · rfl
  rw [withDescription, String.toList_ofList, hstart, ← String.toList_inj]
  simp [descriptionMarker, spelledAll, spelled, spelledText]

/-! ### There and back -/

/-- **Raw tags survive the way through a comment.** `ofComment` gives back the tags of a comment
that `render` makes of tags that are `WellFormed`. If the first one is the description, its marker
and title may be left out, unless its text looks like a tag itself. -/
theorem ofComment_render (tags : List RawTag) (hne : tags ≠ []) (hwf : ∀ t ∈ tags, t.WellFormed) :
    ofComment (render tags) = tags ∧
      ∀ s more, tags = ⟨"description", some s⟩ :: more →
        (∀ c rest, s.toList = '@' :: c :: rest → isBlank c = true) →
        ofComment (renderWithLead s more) = tags := by
  constructor
  · rw [ofComment, render, unwrap_renderBlocks, List.flatMap_map]
    change ofText (withDescription (String.ofList (spelledAll tags))) = tags
    rw [withDescription_spelledAll hne hwf, ofText_spelled hwf]
  · rintro s more rfl hlead
    have hs : Carried s.toList := (hwf _ List.mem_cons_self).carried s rfl
    rw [ofComment, renderWithLead, unwrap_renderBlocks, List.flatMap_cons, List.flatMap_map]
    change ofText (withDescription (String.ofList (s.toList ++ ['\n'] ++ spelledAll more))) = _
    rw [withDescription_lead hs hlead, ofText_spelled hwf]

/-- Texts with delimiters, `endMark`, stars, addresses, carriage returns and blanks at their
ends. -/
theorem ofComment_render_hard :
    let text := "*/ a\\Z \n\n * @b\r\n\t@ c \\Z"
    let more : List RawTag := [⟨"@x*/", none⟩, ⟨"see", some "@me\u2003"⟩]
    let tags : List RawTag := ⟨"description", some text⟩ :: more
    (∀ t ∈ tags, t.WellFormed) ∧ ofComment (render tags) = tags ∧
      ofComment (renderWithLead text more) = tags := by
  intro text more tags
  have hwf : ∀ t ∈ tags, t.WellFormed := by decide
  have hround := ofComment_render tags (by decide) hwf
  exact ⟨hwf, hround.1, hround.2 text more rfl (by simp [text])⟩

end DocComment.RawTag
