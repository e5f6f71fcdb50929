import DocComment.Proofs.CommentRoundTrip
import DocComment.Proofs.LeadingTag

/-!
# Reading what was read

Whatever a comment holds, the tags read from it are well-formed, as long as there is no carriage
return in it (`wellFormed_of_mem_ofText`). So the comment that spells them is read as these tags,
and reading a comment, writing its tags and reading them again gives nothing new
(`ofComment_reread`).

The argument follows a segment on its way to a tag. None of its further lines is a tag line, and
none becomes one; the blank lines at its end go, and what is left does not end in one
(`carried_dropBlankTail`); the indent goes, and makes no difference for either (`Carried.outdent`).

A carriage return would spoil the middle step: it is a blank, but a line that ends in one is not
counted among the blank lines.
-/

namespace DocComment.RawTag

open DocComment.Text DocComment.Comment

/-! ### Blank lines at the end -/

/-- The last of several lines of `List.splitOn` stands behind the last line feed. -/
theorem exists_of_getLast?_tail_splitOn {cs : List Char} :
    ∀ line ∈ (cs.splitOn '\n').tail.getLast?, ∃ ps, cs = ps ++ '\n' :: line := by
  refine line_induct (P := fun cs =>
    ∀ line ∈ (cs.splitOn '\n').tail.getLast?, ∃ ps, cs = ps ++ '\n' :: line) ?_ ?_ cs
  · intro line hline l hl
    rw [List.splitOn_eq_singleton hline] at hl
    cases hl
  · intro first rest hfirst ih line hline
    rw [splitOn_append_newline hfirst, List.tail_cons] at hline
    obtain ⟨next, more, hsplit⟩ := List.exists_cons_of_ne_nil (List.splitOn_ne_nil '\n' rest)
    rw [hsplit] at hline ih
    cases more with
    | nil =>
      -- What follows the first line feed is the last line.
      rw [List.getLast?_singleton] at hline
      obtain rfl := Option.some.inj hline
      have hrest := flatMap_splitOn_newline rest
      rw [hsplit, List.flatMap_singleton] at hrest
      exact ⟨first, by rw [List.append_cancel_right hrest]⟩
    | cons l more =>
      obtain ⟨ps, hps⟩ := ih line (by simpa using hline)
      exact ⟨first ++ '\n' :: ps, by rw [hps, List.append_assoc, List.cons_append]⟩

/-- **Without the blank lines at its end, an `Untagged` text can be `Carried`**, if it starts with a
character that is not blank and has no carriage return. -/
theorem carried_dropBlankTail {c : Char} {cs : List Char} (hc : isBlank c = false)
    (hreturn : '\r' ∉ c :: cs) (h : Untagged (c :: cs)) : Carried (dropBlankTail (c :: cs)) := by
  obtain ⟨tail, htail, hends, hearlier⟩ := exists_dropBlankTail (c :: cs)
  have hsubset : ∀ d ∈ dropBlankTail (c :: cs), d ∈ c :: cs := by
    intro d hd
    rw [htail]
    exact List.mem_append_left _ hd
  constructor
  case head =>
    rw [dropBlankTail_cons hc]
    exact ⟨c, rfl, hc⟩
  case last =>
    intro hlast
    exact hreturn (hsubset _ (List.mem_of_getLast? hlast))
  case last_line =>
    intro line hline
    obtain ⟨ps, hps⟩ := exists_of_getLast?_tail_splitOn line hline
    have hnewline : '\n' ∉ line :=
      newline_notMem_of_mem_splitOn (List.mem_of_mem_tail (List.mem_of_getLast? hline))
    rw [← Bool.not_eq_true]
    intro hblank
    -- A blank last line would have gone with the tail.
    have hinline : ∀ d ∈ line, isInlineBlank d = true := by
      intro d hd
      have hmem : d ∈ dropBlankTail (c :: cs) := by
        rw [hps]
        exact List.mem_append_right _ (List.mem_cons_of_mem _ hd)
      refine isInlineBlank_of_isBlank (List.all_eq_true.mp hblank d hd) ?_ ?_
      · rintro rfl
        exact hnewline hd
      · rintro rfl
        exact hreturn (hsubset _ hmem)
    have hrest : onlyBlankLines tail = true := by
      rcases hends with rfl | hends
      · rfl
      · exact onlyBlankLines_of_isBlankTail hends
    have hgone : isBlankTail ('\n' :: line ++ tail) = true := by
      change onlyBlankLines (line ++ tail) = true
      rw [onlyBlankLines_append hinline, hrest]
    rw [hearlier ps ('\n' :: line) hps (List.cons_ne_nil _ _)] at hgone
    cases hgone
  case no_tag_line =>
    rcases hends with rfl | hends
    · rw [List.append_nil] at htail
      rwa [← htail]
    · -- The tail starts with a line feed, as there is no carriage return.
      obtain ⟨rest, rfl⟩ : ∃ rest, tail = '\n' :: rest := by
        unfold isBlankTail at hends
        split at hends
        · exact ⟨_, rfl⟩
        · refine absurd ?_ hreturn
          rw [htail]
          exact List.mem_append_right _ List.mem_cons_self
        · cases hends
      rw [htail] at h
      exact h.of_append_newline

/-! ### Taking an indent off -/

/-- **A text stays `Carried` when `outdent` takes an indent off.** -/
theorem Carried.outdent {indent text : List Char} (h : Carried text)
    (hindent : ∀ b ∈ indent, isInlineBlank b = true) (hreturn : '\r' ∉ text) :
    Carried (outdent indent text) := by
  by_cases hne : indent = []
  · rwa [hne, outdent_nil]
  -- Each condition is one on the lines, and these lose the indent one by one.
  have hlines := splitOn_outdent hindent hne text
  constructor
  case head =>
    obtain ⟨c, hc, hsolid⟩ := h.head
    obtain ⟨rest, rfl⟩ := List.head?_eq_some_iff.mp hc
    obtain ⟨more, hmore⟩ := exists_outdent_cons hindent hsolid rest
    exact ⟨c, by rw [hmore, List.head?_cons]; rfl, hsolid⟩
  case last =>
    intro hlast
    rcases mem_of_mem_substitute (List.mem_of_getLast? hlast) with hmem | ⟨_, hmem⟩
    · exact hreturn hmem
    · cases hmem
  case last_line =>
    intro line hline
    rw [hlines, ← List.map_tail, List.getLast?_map] at hline
    obtain ⟨l, hl, rfl⟩ := Option.map_eq_some_iff.mp hline
    rw [allBlank_outdentLine hindent]
    exact h.last_line l hl
  case no_tag_line =>
    intro line hline htag
    rw [hlines, ← List.map_tail] at hline
    obtain ⟨l, hl, rfl⟩ := List.mem_map.mp hline
    exact h.no_tag_line l hl (htag.of_outdentLine hindent)

/-! ### The tags of a text -/

/-- **A segment spells a `WellFormed` tag**, or none. -/
theorem wellFormed_of_ofSegment? {indent cs : List Char} {t : RawTag}
    (hindent : ∀ b ∈ indent, isInlineBlank b = true) (hcs : Untagged cs) (hreturn : '\r' ∉ cs)
    (h : ofSegment? indent cs = some t) : t.WellFormed := by
  unfold ofSegment? at h
  dsimp only at h
  split at h
  · cases h
  · next htitle =>
    obtain rfl := Option.some.inj h
    constructor
    case title_ne_nil => simpa using htitle
    case title_solid =>
      intro c hc
      rw [String.toList_ofList] at hc
      simpa using List.all_eq_true.mp List.all_takeWhile c hc
    case carried =>
      intro s hs
      dsimp only at hs
      split at hs
      · cases hs
      · next hbody =>
        obtain rfl := Option.some.inj hs
        rw [String.toList_ofList]
        -- The body is a tail of the segment that starts with a character that is not blank.
        have hsuffix := (List.dropWhile_suffix isBlank).trans
          (List.drop_suffix (cs.takeWhile fun c => !isBlank c).length cs)
        have hfirst := List.head?_dropWhile_not isBlank
          (cs.drop (cs.takeWhile fun c => !isBlank c).length)
        generalize (cs.drop (cs.takeWhile fun c => !isBlank c).length).dropWhile isBlank = body
          at hsuffix hfirst hbody
        obtain ⟨c, rest, rfl⟩ := List.exists_cons_of_ne_nil (by simpa using hbody)
        have hc : isBlank c = false := by
          simpa using hfirst
        -- `carried_dropBlankTail` reads it before the indent is taken off, and this brings in no
        -- return.
        have hplain : '\r' ∉ c :: rest := fun hmem => hreturn (hsuffix.mem hmem)
        have hcarried := carried_dropBlankTail hc hplain (hcs.of_suffix hsuffix)
        refine hcarried.outdent hindent fun hmem => hplain ?_
        obtain ⟨tail, htail, -⟩ := exists_dropBlankTail (c :: rest)
        rw [htail]
        exact List.mem_append_left _ hmem

/-- **All tags of a text without a carriage return are `WellFormed`.** -/
theorem wellFormed_of_mem_ofText {text : String} (hreturn : '\r' ∉ text.toList) {t : RawTag}
    (h : t ∈ ofText text) : t.WellFormed := by
  obtain ⟨s, hs, ht⟩ := List.mem_filterMap.mp h
  obtain ⟨huntagged, hsubset⟩ := untagged_of_mem_segments hs
  exact wellFormed_of_ofSegment? isInlineBlank_of_mem_indent huntagged
    (fun hmem => hreturn (hsubset _ hmem)) ht

/-! ### There is a tag -/

/-- Without a carriage return, the tag that `startsWithTag` sees is on a `TagLine`. -/
theorem exists_tagLine {cs : List Char} (h : startsWithTag cs = true) (hreturn : '\r' ∉ cs) :
    ∃ line ∈ cs.splitOn '\n', TagLine line := by
  obtain ⟨blanks, c, rest, hfirst, hblanks, hc⟩ := exists_firstSolidLine h
  have hmem : blanks ++ '@' :: c :: rest ∈ cs.splitOn '\n' := List.mem_of_find?_eq_some hfirst
  refine ⟨_, hmem,
    (tagLine_iff_return_notMem (newline_notMem_of_mem_splitOn hmem) hblanks hc).mpr ?_⟩
  exact fun hblank => hreturn (mem_of_mem_splitOn hmem (List.mem_append_left _ hblank))

/-- **A text with `startsWithTag` has a tag**, by `ofText`. -/
theorem ofText_ne_nil {text : String} (h : startsWithTag text.toList = true)
    (hreturn : '\r' ∉ text.toList) : ofText text ≠ [] := by
  intro hnil
  obtain ⟨line, hline, htag⟩ := exists_tagLine h hreturn
  exact (ofText_eq_nil_iff (isBlank_head_lead h)).mp hnil line hline htag

/-! ### The tags of a comment -/

/-- `unwrapChars` brings in nothing but the mark. -/
theorem mem_of_mem_unwrapChars {c : Char} {cs : List Char} (h : c ∈ unwrapChars cs) :
    c ∈ cs ∨ c ∈ endMark := by
  -- Stage by stage: only the closing delimiter is replaced by something, and that is the mark.
  have hopening : ∀ {ds : List Char}, c ∈ dropOpening ds → c ∈ ds := by
    intro ds hc
    unfold dropOpening at hc
    split at hc
    · have hrest := (List.dropWhile_suffix _).mem hc
      exact List.mem_cons_of_mem _ (List.mem_cons_of_mem _ (List.mem_cons_of_mem _ hrest))
    · exact hc
  have hclosing : ∀ {ds : List Char}, c ∈ markClosing ds → c ∈ ds ∨ c ∈ endMark := by
    intro ds hc
    unfold markClosing at hc
    split at hc
    · next before hbefore =>
      refine (List.mem_append.mp hc).imp_left fun hc => ?_
      have hmem : c ∈ '/' :: '*' :: before :=
        List.mem_cons_of_mem _ (List.mem_cons_of_mem _
          ((List.dropWhile_suffix _).mem (List.mem_reverse.mp hc)))
      rw [← hbefore] at hmem
      exact List.mem_reverse.mp ((List.dropWhile_suffix _).mem hmem)
    · exact .inl hc
  have hmargins : ∀ {ds : List Char}, c ∈ dropMargins ds → c ∈ ds := by
    intro ds hc
    rcases mem_of_mem_substitute hc with hc | ⟨_, hc⟩
    · exact hc
    · cases hc
  have hend : ∀ {ds : List Char}, c ∈ dropEndMark ds → c ∈ ds := by
    intro ds hc
    unfold dropEndMark at hc
    split at hc
    · next before hbefore =>
      have hmem : c ∈ 'Z' :: '\\' :: before :=
        List.mem_cons_of_mem _ (List.mem_cons_of_mem _
          ((List.dropWhile_suffix _).mem (List.mem_reverse.mp hc)))
      rw [← hbefore] at hmem
      exact List.mem_reverse.mp hmem
    · exact hc
  -- The stages one after another, from the last to the first.
  exact (hclosing (hmargins (hend h))).imp_left hopening

theorem return_notMem_withDescription {s : String} (h : '\r' ∉ s.toList) :
    '\r' ∉ (withDescription (unwrap s)).toList := by
  have hunwrap : '\r' ∉ (unwrap s).toList := by
    rw [unwrap, String.toList_ofList]
    intro hmem
    rcases mem_of_mem_unwrapChars hmem with hmem | hmem
    · exact h hmem
    · exact absurd hmem (by decide)
  unfold withDescription
  split
  · exact hunwrap
  · rw [String.toList_append, List.mem_append, not_or]
    exact ⟨by decide, hunwrap⟩

/-- **Reading what was read gives nothing new.** For every comment without a carriage return, and
for none at all, there is a tag, and `ofComment` reads the comment that `render` makes of its tags
as the same tags. -/
theorem ofComment_reread (source : Option String) (h : ∀ s ∈ source, '\r' ∉ s.toList) :
    ofComment (source.getD "") ≠ [] ∧
      ofComment (render (ofComment (source.getD ""))) = ofComment (source.getD "") := by
  have hsource : '\r' ∉ (source.getD "").toList := by
    cases source with
    | none => exact List.not_mem_nil
    | some s => exact h s rfl
  have hreturn := return_notMem_withDescription hsource
  have hne : ofComment (source.getD "") ≠ [] :=
    ofText_ne_nil (startsWithTag_withDescription _) hreturn
  -- What was read is well-formed, and well-formed tags are read back.
  have hwf : ∀ t ∈ ofComment (source.getD ""), t.WellFormed := fun t ht =>
    wellFormed_of_mem_ofText hreturn ht
  refine ⟨hne, ?_⟩
  generalize ofComment (source.getD "") = tags at hne hwf
  rw [ofComment, render, unwrap_renderBlocks, List.flatMap_map]
  change ofText (withDescription (String.ofList (spelledAll tags))) = tags
  rw [withDescription_spelledAll hne hwf, ofText_spelled hwf]

/-- What `unwrap` meets here: stray stars, a tag line whose indent others share, a blank line with
unusual blanks, and a closing delimiter in the text. -/
theorem ofComment_reread_indented :
    let source :=
      "/** free */ text\n *    @a x\n *      @ y\n *    \\Z@b\u2003\n\u2028\n \x0c\n@c */"
    '\r' ∉ source.toList ∧ ofComment source ≠ [] ∧
      ofComment (render (ofComment source)) = ofComment source := by
  intro source
  have hreturn : '\r' ∉ source.toList := by
    decide +kernel
  refine ⟨hreturn, ofComment_reread (some source) fun s hs => ?_⟩
  obtain rfl := Option.some.inj hs
  exact hreturn

end DocComment.RawTag
