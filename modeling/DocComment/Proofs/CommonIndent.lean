import DocComment.Proofs.TagContents

/-!
# A common indent makes no difference

Put the same blanks before every line of a text. If the text starts with a tag line in the first
column and has no indented tag line, its tags are still the same (`ofText_indented`).

The blanks `w` turn up in three places. Before a marker they do not matter, so the tag lines are the
same lines as before. All of them are now indented by `w`, so `w` is the indent that the texts of
the tags are freed of (`findSome?_tagIndent?_indented`). And the further lines of each segment have
`w` in front of them: the segment is *deepened*. `Deepened` is followed through the steps from a
segment to its tag, none of which mistakes these blanks for something else:

* the title and the blanks behind it are the same up to `w` (`Deepened.takeWhile_word`,
  `Deepened.dropWhile_blank`);
* lines that were blank stay blank, so the same lines go at the end (`Deepened.dropBlankTail`);
* taking `w` off undoes what was done (`outdent_of_deepened`).

A text that ends in a line feed has an empty rest behind it. Whether that rest is a line that gets
an indent too is left open in `Deepened`, since a segment ends in a line feed wherever the next tag
line follows.
-/

namespace DocComment.RawTag

open DocComment.Text DocComment.Comment

/-! ### Indented texts -/

/-- The text with `w` before **every line**. -/
def indented (w cs : List Char) : List Char :=
  (lines cs).flatMap (w ++ ·)

/-- The text with `w` before every line, the empty one behind a line feed at its end included. -/
def indentedThroughout (w cs : List Char) : List Char :=
  ['\n'].intercalate ((cs.splitOn '\n').map (w ++ ·))

/-- `ds` is `cs` with `w` **behind every line feed**, or every one but that at its end. -/
inductive Deepened (w : List Char) : List Char → List Char → Prop
  | nil : Deepened w [] []
  | char {c : Char} {cs ds : List Char} (hc : c ≠ '\n') (h : Deepened w cs ds) :
      Deepened w (c :: cs) (c :: ds)
  | line {cs ds : List Char} (h : Deepened w cs ds) : Deepened w ('\n' :: cs) ('\n' :: (w ++ ds))
  | last : Deepened w ['\n'] ['\n']

/-- `ds` is `cs` with `w` before every line, where an empty rest may count as a line or not. -/
def Indented (w cs ds : List Char) : Prop :=
  cs = [] ∧ ds = [] ∨ ∃ ds', ds = w ++ ds' ∧ Deepened w cs ds'

section Lines

variable {w line cs ds : List Char}

theorem deepened_of_notMem (hline : '\n' ∉ line) : Deepened w line line := by
  induction line with
  | nil => exact .nil
  | cons c line ih =>
    rw [List.mem_cons, not_or] at hline
    exact .char (Ne.symm hline.1) (ih hline.2)

theorem deepened_append (hline : '\n' ∉ line) (h : Indented w cs ds) :
    Deepened w (line ++ '\n' :: cs) (line ++ '\n' :: ds) := by
  induction line with
  | nil =>
    rcases h with ⟨rfl, rfl⟩ | ⟨ds', rfl, h⟩
    · exact .last
    · exact .line h
  | cons c line ih =>
    rw [List.mem_cons, not_or] at hline
    exact .char (Ne.symm hline.1) (ih hline.2)

theorem Deepened.exists_of_cons {c : Char} (hc : c ≠ '\n') (h : Deepened w (c :: cs) ds) :
    ∃ ds', ds = c :: ds' ∧ Deepened w cs ds' := by
  cases h with
  | char _ h => exact ⟨_, rfl, h⟩
  | line _ => exact absurd rfl hc
  | last => exact absurd rfl hc

/-- One line has nothing to be `Deepened`. -/
theorem Deepened.eq_of_notMem (h : Deepened w line ds) (hline : '\n' ∉ line) : ds = line := by
  induction h with
  | nil => rfl
  | char _ _ ih =>
    rw [List.mem_cons, not_or] at hline
    rw [ih hline.2]
  | line _ _ => exact absurd List.mem_cons_self hline
  | last => exact absurd List.mem_cons_self hline

theorem Deepened.exists_of_append (hline : '\n' ∉ line) (h : Deepened w (line ++ '\n' :: cs) ds) :
    ∃ ds', ds = line ++ '\n' :: ds' ∧ Indented w cs ds' := by
  induction line generalizing ds with
  | nil =>
    cases h with
    | char hc _ => exact absurd rfl hc
    -- Behind the line feed comes the indent, or the text ends.
    | line h => exact ⟨_, rfl, .inr ⟨_, rfl, h⟩⟩
    | last => exact ⟨[], rfl, .inl ⟨rfl, rfl⟩⟩
  | cons c line ih =>
    rw [List.mem_cons, not_or] at hline
    obtain ⟨ds, rfl, hdeep⟩ := h.exists_of_cons (Ne.symm hline.1)
    obtain ⟨ds', rfl, hrest⟩ := ih hline.2 hdeep
    exact ⟨ds', rfl, hrest⟩

/-- An `Indented` text of one line. -/
theorem Indented.of_notMem (h : Indented w line ds) (hline : '\n' ∉ line) :
    line = [] ∧ ds = [] ∨ ds = w ++ line := by
  refine h.imp_right ?_
  rintro ⟨ds', rfl, hdeep⟩
  rw [hdeep.eq_of_notMem hline]

/-- An `Indented` text of several lines. -/
theorem Indented.exists_of_append (hline : '\n' ∉ line) (h : Indented w (line ++ '\n' :: cs) ds) :
    ∃ ds', ds = w ++ line ++ '\n' :: ds' ∧ Indented w cs ds' := by
  rcases h with ⟨hnil, -⟩ | ⟨ds', rfl, h⟩
  · simp at hnil
  · obtain ⟨ds'', rfl, hrest⟩ := h.exists_of_append hline
    exact ⟨ds'', by rw [List.append_assoc], hrest⟩

end Lines

theorem indented_indented (w cs : List Char) : Indented w cs (indented w cs) := by
  refine line_induct (P := fun cs => Indented w cs (indented w cs)) ?_ ?_ cs
  · intro line hline
    by_cases hne : line = []
    · exact .inl ⟨hne, by rw [hne]; rfl⟩
    · refine .inr ⟨line, ?_, deepened_of_notMem hline⟩
      rw [indented, lines_of_notMem hline hne, List.flatMap_singleton]
  · intro line rest hline ih
    refine .inr ⟨line ++ '\n' :: indented w rest, ?_, deepened_append hline ih⟩
    rw [indented, lines_append_newline hline, List.flatMap_cons]
    simp [indented]

theorem indented_indentedThroughout (w cs : List Char) :
    Indented w cs (indentedThroughout w cs) := by
  refine line_induct (P := fun cs => Indented w cs (indentedThroughout w cs)) ?_ ?_ cs
  · intro line hline
    refine .inr ⟨line, ?_, deepened_of_notMem hline⟩
    rw [indentedThroughout, List.splitOn_eq_singleton hline]
    simp
  · intro line rest hline ih
    refine .inr ⟨line ++ '\n' :: indentedThroughout w rest, ?_, deepened_append hline ih⟩
    -- There is a line behind the line feed, be it empty.
    obtain ⟨first, more, hsplit⟩ := List.exists_cons_of_ne_nil (List.splitOn_ne_nil '\n' rest)
    rw [indentedThroughout, splitOn_append_newline hline, indentedThroughout, hsplit]
    simp

/-! ### Blank lines -/

/-- Whether `c` ends a line, by itself or with what follows. -/
def endsLine (c : Char) (cs : List Char) : Bool :=
  c == '\n' || c == '\r' && cs.head? == some '\n'

theorem endsLine_eq_false {c : Char} {cs : List Char} (hline : c ≠ '\n')
    (hreturn : ∀ rest, c = '\r' → cs ≠ '\n' :: rest) : endsLine c cs = false := by
  rw [endsLine, beq_eq_false_iff_ne.mpr hline, Bool.false_or, Bool.and_eq_false_imp]
  intro hc
  rw [beq_eq_false_iff_ne]
  intro hhead
  obtain ⟨rest, hrest⟩ := List.head?_eq_some_iff.mp hhead
  exact hreturn rest (eq_of_beq hc) hrest

theorem onlyBlankLines_cons (c : Char) (cs : List Char) :
    onlyBlankLines (c :: cs) = ((endsLine c cs || isInlineBlank c) && onlyBlankLines cs) := by
  rw [onlyBlankLines.eq_def]
  split
  · next heq => cases heq
  · next rest heq =>
    obtain ⟨rfl, rfl⟩ := List.cons.inj heq
    rfl
  · next rest heq =>
    obtain ⟨rfl, rfl⟩ := List.cons.inj heq
    simp [endsLine, onlyBlankLines]
  · next d rest hline hreturn heq =>
    obtain ⟨rfl, rfl⟩ := List.cons.inj heq
    rw [endsLine_eq_false hline hreturn, Bool.false_or]

theorem isBlankTail_cons (c : Char) (cs : List Char) :
    isBlankTail (c :: cs) = (endsLine c cs && onlyBlankLines cs) := by
  unfold isBlankTail
  split
  · next rest heq =>
    obtain ⟨rfl, rfl⟩ := List.cons.inj heq
    rfl
  · next rest heq =>
    obtain ⟨rfl, rfl⟩ := List.cons.inj heq
    simp [endsLine, onlyBlankLines]
  · next hline hreturn =>
    rw [endsLine_eq_false (fun h => hline cs (by rw [h]))
      (fun rest h hrest => hreturn rest (by rw [h, hrest])), Bool.false_and]

section Deepened

variable {w : List Char} (hw : ∀ b ∈ w, isInlineBlank b = true) {cs ds : List Char}
include hw

/-- Blanks inside a line start no tail for `dropBlankTail`. -/
theorem dropBlankTail_append (cs : List Char) :
    dropBlankTail (w ++ cs) = w ++ dropBlankTail cs := by
  induction w with
  | nil => rfl
  | cons b w ih =>
    rw [List.forall_mem_cons] at hw
    obtain ⟨hline, hreturn⟩ := ne_of_isInlineBlank hw.1
    rw [List.cons_append, dropBlankTail_cons_of_ne hline hreturn, ih hw.2, List.cons_append]

omit hw in
theorem Deepened.endsLine_eq (h : Deepened w cs ds) (c : Char) : endsLine c ds = endsLine c cs := by
  cases h <;> rfl

theorem Deepened.onlyBlankLines_eq (h : Deepened w cs ds) :
    onlyBlankLines ds = onlyBlankLines cs := by
  induction h with
  | nil => rfl
  | char _ h ih => rw [onlyBlankLines_cons, onlyBlankLines_cons, h.endsLine_eq, ih]
  | line _ ih => rw [onlyBlankLines, onlyBlankLines, onlyBlankLines_append hw, ih]
  | last => rfl

theorem Deepened.isBlankTail_eq (h : Deepened w cs ds) : isBlankTail ds = isBlankTail cs := by
  cases h with
  | nil => rfl
  | char _ h => rw [isBlankTail_cons, isBlankTail_cons, h.endsLine_eq, h.onlyBlankLines_eq hw]
  | line h => rw [isBlankTail, isBlankTail, onlyBlankLines_append hw, h.onlyBlankLines_eq hw]
  | last => rfl

/-- **The same lines go at the end**: `dropBlankTail` keeps `Deepened`. -/
theorem Deepened.dropBlankTail (h : Deepened w cs ds) :
    Deepened w (dropBlankTail cs) (dropBlankTail ds) := by
  induction h with
  | nil => exact .nil
  | char hc h ih =>
    -- The tail is blank on both sides or on neither, as the indent is blank.
    rw [RawTag.dropBlankTail, RawTag.dropBlankTail, (Deepened.char hc h).isBlankTail_eq hw]
    split
    · exact .nil
    · exact .char hc ih
  | line h ih =>
    rw [RawTag.dropBlankTail, RawTag.dropBlankTail, (Deepened.line h).isBlankTail_eq hw,
      dropBlankTail_append hw]
    split
    · exact .nil
    · exact .line ih
  | last => exact .nil

/-! ### Title and text -/

theorem Deepened.allBlank_eq (h : Deepened w cs ds) : allBlank ds = allBlank cs := by
  have hblank : w.all isBlank = true :=
    List.all_eq_true.mpr fun b hb => isBlank_of_isInlineBlank (hw b hb)
  induction h with
  | nil => rfl
  | char _ _ ih => exact congrArg (isBlank _ && ·) ih
  | line _ ih =>
    rw [allBlank, List.all_cons, List.all_append, hblank, Bool.true_and]
    exact congrArg (isBlank '\n' && ·) ih
  | last => rfl

/-- Blanks at the start go, with those that deepen a line, and what is left is still `Deepened`. -/
theorem Deepened.dropWhile_blank (h : Deepened w cs ds) :
    Deepened w (cs.dropWhile isBlank) (ds.dropWhile isBlank) := by
  induction h with
  | nil => exact .nil
  | @char c cs ds hc h ih =>
    rw [List.dropWhile_cons, List.dropWhile_cons]
    split
    · exact ih
    · exact .char hc h
  | line _ ih =>
    rw [List.dropWhile_cons_of_pos (by decide), List.dropWhile_cons_of_pos (by decide),
      List.dropWhile_append_of_pos fun b hb => isBlank_of_isInlineBlank (hw b hb)]
    exact ih
  | last => exact .nil

omit hw in
/-- A word ends before the first line feed, if not earlier. -/
theorem Deepened.takeWhile_word (h : Deepened w cs ds) :
    (ds.takeWhile fun c => !isBlank c) = cs.takeWhile fun c => !isBlank c := by
  induction h with
  | nil => rfl
  | char _ _ ih => rw [List.takeWhile_cons, List.takeWhile_cons, ih]
  | line _ _ => rfl
  | last => rfl

omit hw in
theorem Deepened.dropWhile_word (h : Deepened w cs ds) :
    Deepened w (cs.dropWhile fun c => !isBlank c) (ds.dropWhile fun c => !isBlank c) := by
  induction h with
  | nil => exact .nil
  | char hc h ih =>
    rw [List.dropWhile_cons, List.dropWhile_cons]
    split
    · exact ih
    · exact .char hc h
  | line h _ => exact .line h
  | last => exact .last

variable (hne : w ≠ [])
include hne

/-- Inside a text, taking `w` off undoes the deepening. -/
theorem Deepened.substituteFrom_indentAt (h : Deepened w cs ds) :
    ∀ before, startsLine before = false →
      substituteFrom (indentAt w) (fun _ => []) before ds = cs := by
  induction h with
  | nil => exact fun before _ => substituteFrom_nil before
  | char hc _ ih =>
    intro before hbefore
    rw [substituteFrom_miss (indentAt_of_inside _ _ _ hbefore),
      ih _ (by simpa [startsLine] using hc)]
  | @line cs ds _ ih =>
    intro before hbefore
    have hhit : indentAt w (some '\n') (w ++ ds) = w.length := by
      simp [indentAt, startsLine, List.isPrefixOf_iff_prefix]
    -- The line feed stays, `w` goes, and behind `w` the line goes on.
    rw [substituteFrom_miss (indentAt_of_inside _ _ _ hbefore), substituteFrom_hit hne hhit,
      List.nil_append,
      ih _ (startsLine_lastBefore_of_ne_nil (some '\n') hne (newline_notMem_indent hw))]
  | last =>
    intro before hbefore
    rw [substituteFrom_miss (indentAt_of_inside _ _ _ hbefore), substituteFrom_nil]

/-- **Taking `w` off gives the text back**, if it starts with a character that is not blank. -/
theorem outdent_of_deepened (hhead : ∀ c ∈ cs.head?, isBlank c = false) (h : Deepened w cs ds) :
    outdent w ds = cs := by
  rw [outdent, substitute_eq_substituteFrom]
  cases cs with
  | nil =>
    cases h
    exact substituteFrom_nil none
  | cons c cs =>
    have hsolid : isBlank c = false := hhead c rfl
    have hc : c ≠ '\n' := by
      rintro rfl
      cases hsolid
    -- The first character is no line feed, so nothing goes before it.
    obtain ⟨ds', rfl, hdeep⟩ := h.exists_of_cons hc
    rw [substituteFrom_miss (indentAt_of_solid hw none hsolid ds'),
      hdeep.substituteFrom_indentAt hw hne _ (by simpa [startsLine] using hc)]

/-- **A deepened segment spells the same tag**, once its lines are freed of `w`. -/
theorem ofSegment?_of_deepened (h : Deepened w cs ds) : ofSegment? w ds = ofSegment? [] cs := by
  have hbody := h.dropWhile_word.dropWhile_blank hw
  have hfirst := List.head?_dropWhile_not isBlank (cs.dropWhile fun c => !isBlank c)
  unfold ofSegment?
  dsimp only
  rw [drop_length_takeWhile, drop_length_takeWhile, h.takeWhile_word]
  generalize (cs.dropWhile fun c => !isBlank c).dropWhile isBlank = body at hbody hfirst
  generalize (ds.dropWhile fun c => !isBlank c).dropWhile isBlank = body' at hbody
  -- The bodies start with the same character that is not blank, or are both empty.
  have hempty : body'.isEmpty = body.isEmpty := by
    cases hbody <;> rfl
  have htext : outdent w (dropBlankTail body') = outdent [] (dropBlankTail body) := by
    rw [outdent_nil]
    refine outdent_of_deepened hw hne ?_ (hbody.dropBlankTail hw)
    cases body with
    | nil => exact fun c hc => nomatch hc
    | cons d body =>
      have hd : isBlank d = false := by simpa using hfirst
      rw [dropBlankTail_cons hd]
      exact fun c hc => Option.some.inj hc ▸ hd
  rw [hempty, htext]

end Deepened

/-! ### Tag lines -/

section Indent

variable {w : List Char} (hw : ∀ b ∈ w, isInlineBlank b = true)
include hw

/-- Blanks before a line do not matter to `afterMarker?`. -/
theorem afterMarker?_append_of_inline (line : List Char) :
    afterMarker? (w ++ line) = afterMarker? line := by
  rw [afterMarker?, afterMarker?, List.dropWhile_append_of_pos hw]

theorem tagLine_append_iff {line : List Char} : TagLine (w ++ line) ↔ TagLine line := by
  rw [← isSome_afterMarker?_iff, ← isSome_afterMarker?_iff, afterMarker?_append_of_inline hw]

/-- **`gather` sees the same tag lines**: the lead of the indented text is the indented lead, and
its segments are the deepened segments. -/
theorem gather_indented (hne : w ≠ []) (cs : List Char) :
    ∀ ds, Indented w cs ds →
      Indented w (gather (lines cs)).1 (gather (lines ds)).1 ∧
        List.Forall₂ (Deepened w) (gather (lines cs)).2 (gather (lines ds)).2 := by
  have hnewline := newline_notMem_indent hw
  -- The induction is on the lines of the text, with a case for a last line and one for a line
  -- before others, each time plain or with a tag. A plain line deepens what the rest leads with,
  -- and a tag line starts a segment.
  refine gather_induct (P := fun cs lead segments => ∀ ds, Indented w cs ds →
    Indented w lead (gather (lines ds)).1 ∧
      List.Forall₂ (Deepened w) segments (gather (lines ds)).2) ?_ ?_ ?_ ?_ cs
  · -- A last line without a tag is the lead, and gets the indent unless it is empty.
    intro line hline htag ds hds
    rcases hds.of_notMem hline with ⟨rfl, rfl⟩ | rfl
    · exact ⟨.inl ⟨rfl, rfl⟩, .nil⟩
    · rw [lines_of_notMem (by simp [hnewline, hline]) (by simp [hne]),
        gather_cons_plain (mt (tagLine_append_iff hw).mp htag)]
      exact ⟨by simpa [gather] using hds, .nil⟩
  · -- A last line with a tag is a segment; the indent stands before its marker, where nobody looks.
    intro indent c after hline hindent hc ds hds
    obtain rfl : ds = w ++ (indent ++ '@' :: c :: after) :=
      (hds.of_notMem hline).resolve_left (by simp)
    have hmarker : afterMarker? (w ++ (indent ++ '@' :: c :: after)) = some (c :: after) := by
      rw [afterMarker?_append_of_inline hw, afterMarker?_append after hindent hc]
    rw [lines_of_notMem (by simp [hnewline, hline]) (by simp [hne]), gather_cons_tag hmarker]
    have hrest : '\n' ∉ c :: after := fun hmem =>
      hline (List.mem_append_right _ (List.mem_cons_of_mem _ hmem))
    refine ⟨.inl ⟨rfl, rfl⟩, .cons ?_ .nil⟩
    simpa [gather] using deepened_of_notMem hrest
  · -- A plain line goes before the lead of the rest.
    intro line rest lead segments hline htag ih ds hds
    obtain ⟨ds, rfl, hrest⟩ := hds.exists_of_append hline
    obtain ⟨hlead, hsegments⟩ := ih ds hrest
    have hplain : ¬TagLine (w ++ line ++ ['\n']) := by
      rwa [tagLine_append_newline_iff, tagLine_append_iff hw]
    rw [lines_append_newline (by simp [hnewline, hline]), gather_cons_plain hplain]
    refine ⟨.inr ⟨line ++ '\n' :: (gather (lines ds)).1, by simp, ?_⟩, hsegments⟩
    exact deepened_append hline hlead
  · -- A tag line takes the lead of the rest into its segment, which is deepened behind the line
    -- feed.
    intro indent c after rest lead segments hline hindent hc ih ds hds
    obtain ⟨ds, rfl, hrest⟩ := hds.exists_of_append hline
    obtain ⟨hlead, hsegments⟩ := ih ds hrest
    have hmarker : afterMarker? (w ++ (indent ++ '@' :: c :: after) ++ ['\n']) =
        some (c :: (after ++ ['\n'])) := by
      rw [List.append_assoc, afterMarker?_append_of_inline hw, List.append_assoc]
      exact afterMarker?_append (after ++ ['\n']) hindent hc
    rw [lines_append_newline (by simp [hnewline, hline]), gather_cons_tag hmarker]
    have hafter : '\n' ∉ c :: after := fun hmem =>
      hline (List.mem_append_right _ (List.mem_cons_of_mem _ hmem))
    refine ⟨.inl ⟨rfl, rfl⟩, .cons ?_ hsegments⟩
    simpa using deepened_append hafter hlead

/-- A line that starts with its marker is indented by `w` alone. -/
theorem tagIndent?_append_marker (hne : w ≠ []) {line : List Char} (htag : TagLine line)
    (hcolumn : line.head? = some '@') : tagIndent? (w ++ line) = some w := by
  obtain ⟨rest, rfl⟩ := List.head?_eq_some_iff.mp hcolumn
  have hindent : (w ++ '@' :: rest).takeWhile isInlineBlank = w := by
    rw [List.takeWhile_append_of_pos hw]
    simp [show isInlineBlank '@' = false from by decide]
  have hmarker : (afterMarker? (w ++ '@' :: rest)).isSome = true := by
    rwa [isSome_afterMarker?_iff, tagLine_append_iff hw]
  rw [tagIndent?, hindent]
  simp [hne, Option.isNone_iff_eq_none, Option.isSome_iff_ne_none.mp hmarker]

/-- **All tag lines are indented by `w`**, if none was indented before. -/
theorem findSome?_tagIndent?_indented (hne : w ≠ []) (cs : List Char) :
    ∀ ds, Indented w cs ds →
      (∀ line ∈ cs.splitOn '\n', TagLine line → line.head? = some '@') →
      (∃ line ∈ cs.splitOn '\n', TagLine line) →
      (lines ds).findSome? tagIndent? = some w := by
  have hnewline := newline_notMem_indent hw
  refine line_induct (P := fun cs => ∀ ds, Indented w cs ds →
    (∀ line ∈ cs.splitOn '\n', TagLine line → line.head? = some '@') →
    (∃ line ∈ cs.splitOn '\n', TagLine line) →
    (lines ds).findSome? tagIndent? = some w) ?_ ?_ cs
  · rintro line hline ds hds hcolumn ⟨tagged, hmem, htag⟩
    rw [List.splitOn_eq_singleton hline] at hcolumn hmem
    obtain rfl := List.mem_singleton.mp hmem
    obtain rfl : ds = w ++ tagged := by
      refine (hds.of_notMem hline).resolve_left fun hempty => ?_
      rw [hempty.1] at htag
      exact not_tagLine_nil htag
    rw [lines_of_notMem (by simp [hnewline, hline]) (by simp [hne]), List.findSome?_cons,
      tagIndent?_append_marker hw hne htag (hcolumn _ hmem htag)]
  · rintro line rest hline ih ds hds hcolumn ⟨tagged, hmem, htag⟩
    rw [splitOn_append_newline hline] at hcolumn hmem
    obtain ⟨ds, rfl, hrest⟩ := hds.exists_of_append hline
    rw [lines_append_newline (by simp [hnewline, hline]), List.append_assoc, List.findSome?_cons]
    by_cases hfirst : TagLine line
    · -- The first tag line decides.
      have hhead : (line ++ ['\n']).head? = some '@' := by
        rw [List.head?_append, hcolumn line List.mem_cons_self hfirst, Option.some_or]
      rw [tagIndent?_append_marker hw hne (tagLine_append_newline_iff.mpr hfirst) hhead]
    · -- Any other line has no say, and the tag line is among the rest.
      have hplain : ¬TagLine (w ++ (line ++ ['\n'])) := by
        rwa [tagLine_append_iff hw, tagLine_append_newline_iff]
      rw [tagIndent?_of_not_tagLine hplain]
      refine ih ds hrest (fun l hl => hcolumn l (List.mem_cons_of_mem _ hl)) ⟨tagged, ?_, htag⟩
      exact (List.mem_cons.mp hmem).resolve_left fun heq => hfirst (heq ▸ htag)

end Indent

/-- Where no `TagLine` is indented, no text is freed of an indent. -/
theorem findSome?_tagIndent?_eq_none {cs : List Char}
    (hcolumn : ∀ line ∈ cs.splitOn '\n', TagLine line → line.head? = some '@') :
    (lines cs).findSome? tagIndent? = none := by
  rw [List.findSome?_eq_none_iff]
  intro row hrow
  by_cases htag : TagLine row
  · -- The line may have its line feed or not; its first character is the marker.
    obtain ⟨line, hline, rfl | rfl⟩ := exists_of_mem_lines hrow
    · obtain ⟨rest, rfl⟩ := List.head?_eq_some_iff.mp (hcolumn _ hline htag)
      exact tagIndent?_marker rest
    · obtain ⟨rest, rfl⟩ :=
        List.head?_eq_some_iff.mp (hcolumn _ hline (tagLine_append_newline_iff.mp htag))
      exact tagIndent?_marker (rest ++ ['\n'])
  · exact tagIndent?_of_not_tagLine htag

/-! ### The tags of an indented text -/

theorem Indented.allBlank_eq {w cs ds : List Char} (hw : ∀ b ∈ w, isInlineBlank b = true)
    (h : Indented w cs ds) : allBlank ds = allBlank cs := by
  rcases h with ⟨rfl, rfl⟩ | ⟨ds, rfl, h⟩
  · rfl
  · have hblank : w.all isBlank = true :=
      List.all_eq_true.mpr fun b hb => isBlank_of_isInlineBlank (hw b hb)
    rw [← h.allBlank_eq hw, allBlank, List.all_append, hblank, Bool.true_and]
    rfl

/-- **An `Indented` text has the same tags**, whatever is taken for its last line. -/
theorem ofText_of_indented {w : List Char} (hne : w ≠ []) (hw : ∀ b ∈ w, isInlineBlank b = true)
    {s t : String} (h : Indented w t.toList s.toList)
    (hfirst : ∃ line ∈ firstSolidLine? t.toList, TagLine line)
    (hcolumn : ∀ line ∈ t.toList.splitOn '\n', TagLine line → line.head? = some '@') :
    ofText s = ofText t := by
  obtain ⟨line, hline, htag⟩ := hfirst
  obtain ⟨hlead, hsegments⟩ := gather_indented hw hne t.toList s.toList h
  -- There is nothing but blanks before the first tag line, indented or not.
  have hblank : allBlank (gather (lines t.toList)).1 = true := by
    rw [allBlank_lead_iff, hline]
    exact fun l hl => Option.some.inj hl ▸ htag
  have hstart : ∀ lead : List Char, allBlank lead = true → ∀ c ∈ lead.head?, isBlank c = true :=
    fun lead hlead c hc => List.all_eq_true.mp hlead c (List.mem_of_mem_head? hc)
  have hindent : (lines s.toList).findSome? tagIndent? = some w :=
    findSome?_tagIndent?_indented hw hne t.toList s.toList h hcolumn
      ⟨line, List.mem_of_find?_eq_some hline, htag⟩
  rw [ofText_eq (hstart _ hblank), ofText_eq (hstart _ (by rw [hlead.allBlank_eq hw, hblank])),
    findSome?_tagIndent?_eq_none hcolumn, hindent, Option.getD_none, Option.getD_some]
  -- The segments are read side by side.
  generalize (gather (lines t.toList)).2 = segments at hsegments
  generalize (gather (lines s.toList)).2 = segments' at hsegments
  induction hsegments with
  | nil => rfl
  | cons hdeep _ ih =>
    rw [List.filterMap_cons, List.filterMap_cons, ofSegment?_of_deepened hw hne hdeep, ih]

/-- **A common indent makes no difference.** Let the first line of a text that is not blank be a tag
line, and let every tag line start in the first column. Then the text has the same tags with blanks
before all of its lines, also if the empty rest behind a line feed at its end counts as a line. -/
theorem ofText_indented (text w : String) (hne : w ≠ "")
    (hw : ∀ b ∈ w.toList, isInlineBlank b = true)
    (hfirst : ∃ line ∈ firstSolidLine? text.toList, TagLine line)
    (hcolumn : ∀ line ∈ text.toList.splitOn '\n', TagLine line → line.head? = some '@') :
    ofText (String.ofList (indented w.toList text.toList)) = ofText text ∧
      ofText (String.ofList (indentedThroughout w.toList text.toList)) = ofText text := by
  have hchars : w.toList ≠ [] := by simpa using hne
  constructor
  · refine ofText_of_indented hchars hw ?_ hfirst hcolumn
    rw [String.toList_ofList]
    exact indented_indented w.toList text.toList
  · refine ofText_of_indented hchars hw ?_ hfirst hcolumn
    rw [String.toList_ofList]
    exact indented_indentedThroughout w.toList text.toList

/-- A blank line first, a text that starts on the next line, carriage returns, a deeper indent,
markers that start no tag and blank lines at the end, indented by a tab and an unusual blank:
`ofText` finds the same two tags. -/
theorem ofText_indented_mixed :
    let text := "\r\n@a\n\n  x\r\n \t@ y\n\r@z\n \r\n@b\u2003 v @c\n"
    let w := "\t\u2003"
    let tags : List RawTag := [⟨"a", some "x\r\n \t@ y\n\r@z"⟩, ⟨"b", some "v @c"⟩]
    (∃ line ∈ firstSolidLine? text.toList, TagLine line) ∧
      (∀ line ∈ text.toList.splitOn '\n', TagLine line → line.head? = some '@') ∧
      ofText (String.ofList (indented w.toList text.toList)) = tags ∧
      ofText (String.ofList (indentedThroughout w.toList text.toList)) = tags := by
  intro text w tags
  have hfirst : ∃ line ∈ firstSolidLine? text.toList, TagLine line := ⟨"@a".toList, by decide⟩
  have hcolumn : ∀ line ∈ text.toList.splitOn '\n', TagLine line → line.head? = some '@' := by
    decide
  have htags : ofText text = tags := by
    decide
  rw [← htags]
  exact ⟨hfirst, hcolumn,
    ofText_indented text w (by decide) (List.all_eq_true.mp (by decide)) hfirst hcolumn⟩

end DocComment.RawTag
