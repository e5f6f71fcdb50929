import DocComment.Proofs.Margins

/-!
# Texts that unwrapping leaves alone

Unwrapping is four passes, and each of them can only take away or, in the case of the closing
delimiter, swap two characters or more for the two of the mark. So a text never grows, and a text
that comes out as it went in was touched by none of the passes (`unwrapChars_eq_self_iff`).

For each pass there is one lemma that bounds what it leaves and one that says when it does nothing:

* `dropOpening_suffix`, `dropOpening_eq_self_iff` - the opening delimiter;
* `markClosing_of_closed`, `markClosing_of_not_closed` - the closing delimiter;
* `dropMargins_sublist`, `dropMargins_eq_self_iff` - the margins, where the blanks of a margin may
  reach over several lines, while the condition speaks of one line at a time;
* `dropEndMark_isPrefix`, `dropEndMark_eq_self_iff` - the mark at the end.

The closing delimiter needs an argument of its own, because swapping it for the mark may keep the
length: the mark is then at the end, and one of the two later passes takes it.
-/

namespace DocComment.Comment

open DocComment.Text

/-- Whether a text ends in a closing delimiter, `*/`, with blanks behind it or none. -/
def Closed (cs : List Char) : Prop :=
  ∃ before w, cs = before ++ '*' :: '/' :: w ∧ ∀ b ∈ w, isBlank b = true

/-- A text **without a frame**, and without anything that `unwrap` would take for a part of one. -/
structure Unframed (cs : List Char) : Prop where
  /-- No opening delimiter starts it. -/
  no_opening : ¬['/', '*', '*'] <+: cs
  /-- No closing delimiter ends it. -/
  no_closing : ¬Closed cs
  /-- The first text of a line is neither a star nor the mark. -/
  no_margin : ∀ line ∈ cs.splitOn '\n',
    ¬['*'] <+: line.dropWhile isBlank ∧ ¬endMark <+: line.dropWhile isBlank
  /-- It does not end with the mark. -/
  no_mark : ¬endMark <:+ cs

/-! ### The opening delimiter -/

theorem dropOpening_suffix (cs : List Char) : dropOpening cs <:+ cs := by
  unfold dropOpening
  split
  · next rest =>
    exact (List.dropWhile_suffix _).trans (List.suffix_append ['/', '*', '*'] rest)
  · exact List.suffix_refl cs

theorem dropOpening_eq_self_iff {cs : List Char} :
    dropOpening cs = cs ↔ ¬['/', '*', '*'] <+: cs := by
  unfold dropOpening
  split
  · next rest =>
    refine iff_of_false (fun heq => ?_) (not_not_intro (List.prefix_append ['/', '*', '*'] rest))
    -- At least the three characters of the delimiter are gone.
    have hlength := (List.dropWhile_suffix (l := rest) (· == '*')).length_le
    rw [heq] at hlength
    simp only [List.length_cons] at hlength
    omega
  · next hnone =>
    refine iff_of_true rfl ?_
    rintro ⟨rest, rfl⟩
    exact hnone rest rfl

/-! ### The closing delimiter -/

/-- `Closed` can be seen from the end of the text. -/
theorem closed_iff {cs : List Char} :
    Closed cs ↔ ∃ before, cs.reverse.dropWhile isBlank = '/' :: '*' :: before := by
  constructor
  · rintro ⟨before, w, rfl, hw⟩
    refine ⟨before.reverse, ?_⟩
    -- Read backwards, the blanks come first and the delimiter behind them, its characters swapped.
    have hreverse : (before ++ '*' :: '/' :: w).reverse =
        w.reverse ++ '/' :: '*' :: before.reverse := by
      simp
    rw [hreverse, List.dropWhile_append_of_pos (by simpa using hw)]
    rfl
  · rintro ⟨before, hbefore⟩
    have hsplit := List.takeWhile_append_dropWhile (p := isBlank) (l := cs.reverse)
    rw [hbefore] at hsplit
    refine ⟨before.reverse, (cs.reverse.takeWhile isBlank).reverse, ?_, ?_⟩
    · calc cs = cs.reverse.reverse := (List.reverse_reverse cs).symm
        _ = (cs.reverse.takeWhile isBlank ++ '/' :: '*' :: before).reverse := by rw [hsplit]
        _ = before.reverse ++ '*' :: '/' :: (cs.reverse.takeWhile isBlank).reverse := by simp
    · intro b hb
      exact List.all_eq_true.mp List.all_takeWhile b (List.mem_reverse.mp hb)

theorem markClosing_of_not_closed {cs : List Char} (h : ¬Closed cs) : markClosing cs = cs := by
  unfold markClosing
  split
  · next before hbefore => exact absurd (closed_iff.mpr ⟨before, hbefore⟩) h
  · rfl

/-- **`markClosing` leaves the `endMark` of a closing delimiter**, and it is no longer than the
delimiter. -/
theorem markClosing_of_closed {cs : List Char} (h : Closed cs) :
    endMark <:+ markClosing cs ∧ (markClosing cs).length ≤ cs.length := by
  obtain ⟨before, hbefore⟩ := closed_iff.mp h
  have hmark : markClosing cs = (before.dropWhile (· == '*')).reverse ++ endMark := by
    simp [markClosing, hbefore]
  refine ⟨hmark ▸ List.suffix_append _ _, ?_⟩
  have hstars := (List.dropWhile_suffix (l := before) (· == '*')).length_le
  have hblanks := (List.dropWhile_suffix (l := cs.reverse) isBlank).length_le
  rw [hbefore, List.length_reverse, List.length_cons, List.length_cons] at hblanks
  rw [hmark, List.length_append, List.length_reverse]
  exact Nat.le_trans (Nat.add_le_add_right hstars 2) hblanks

theorem length_markClosing_le (cs : List Char) : (markClosing cs).length ≤ cs.length := by
  by_cases h : Closed cs
  · exact (markClosing_of_closed h).2
  · exact Nat.le_of_eq (congrArg List.length (markClosing_of_not_closed h))

/-! ### The margins -/

theorem dropMargins_sublist (cs : List Char) : (dropMargins cs).Sublist cs := by
  rw [dropMargins, substitute_eq_substituteFrom]
  exact substituteFrom_erase_sublist none cs

/-- A text starts with a `sign?` if it starts with a star or with the mark. -/
theorem sign?_eq_none_iff {xs : List Char} :
    sign? xs = none ↔ ¬['*'] <+: xs ∧ ¬endMark <+: xs := by
  rw [sign?, List.find?_eq_none]
  simp only [signs, List.forall_mem_cons, List.isPrefixOf_iff_prefix]
  constructor
  · rintro ⟨-, hstar, hmark, -⟩
    exact ⟨hstar, hmark⟩
  · rintro ⟨hstar, hmark⟩
    -- A star with a space behind it is a star.
    exact ⟨fun hspace => hstar ((List.prefix_append ['*'] [' ']).trans hspace), hstar, hmark,
      List.forall_mem_nil _⟩

/-- The `sign?` that a text starts with, after blanks, is on one of its lines. -/
theorem exists_line_of_sign? {cs : List Char} (h : sign? (cs.dropWhile isBlank) ≠ none) :
    ∃ line ∈ cs.splitOn '\n', sign? (line.dropWhile isBlank) ≠ none := by
  revert h
  -- Blank lines are passed over; the first line that is not blank decides.
  refine line_induct (P := fun cs => sign? (cs.dropWhile isBlank) ≠ none →
    ∃ line ∈ cs.splitOn '\n', sign? (line.dropWhile isBlank) ≠ none) ?_ ?_ cs
  · intro line hline h
    exact ⟨line, by rw [List.splitOn_eq_singleton hline]; exact List.mem_singleton_self _, h⟩
  · intro line rest hline ih h
    rw [splitOn_append_newline hline]
    cases hblank : allBlank line with
    | true =>
      have hfeed : ∀ b ∈ line ++ ['\n'], isBlank b = true :=
        List.forall_mem_append.mpr ⟨List.all_eq_true.mp hblank, List.forall_mem_singleton.mpr rfl⟩
      rw [← List.singleton_append, ← List.append_assoc, List.dropWhile_append_of_pos hfeed] at h
      obtain ⟨l, hl, hsign⟩ := ih h
      exact ⟨l, List.mem_cons_of_mem _ hl, hsign⟩
    | false =>
      refine ⟨line, List.mem_cons_self, ?_⟩
      obtain ⟨w, c, more, rfl, hw, hc⟩ := exists_of_solid hblank
      -- The sign is told by the first solid character, which is on this line.
      have hdrop : ∀ after, (w ++ c :: more ++ after).dropWhile isBlank = c :: more ++ after := by
        intro after
        rw [List.append_assoc, List.dropWhile_append_of_pos hw, List.cons_append,
          List.dropWhile_cons_of_neg (by simp [hc])]
      rw [hdrop, sign?_append (List.cons_ne_nil _ _) (by simp)] at h
      rw [← List.append_nil (w ++ c :: more), hdrop, List.append_nil]
      exact h

/-- At the start of a line, a `margin` is blanks and a `sign?`. -/
theorem margin_eq_zero_iff {before : Option Char} (hbefore : startsLine before = true)
    {cs : List Char} : margin before cs = 0 ↔ sign? (cs.dropWhile isBlank) = none := by
  rw [margin, if_pos hbefore, marginLength_eq]
  cases hsign : sign? (cs.dropWhile isBlank) with
  | none => exact iff_of_true rfl rfl
  | some s =>
    obtain ⟨c, rest, rfl, -⟩ := (of_mem_signs (exists_of_sign? hsign).1).1
    simp

theorem startsLine_lastBefore_none_iff {ps : List Char} :
    startsLine (lastBefore none ps) = true ↔ ∀ d ∈ ps.getLast?, d = '\n' := by
  rw [lastBefore, Option.or_none]
  cases ps.getLast? <;> simp [startsLine]

/-- **`dropMargins` does nothing exactly when no line starts with a `sign?`.** -/
theorem dropMargins_eq_self_iff {cs : List Char} :
    dropMargins cs = cs ↔ ∀ line ∈ cs.splitOn '\n', sign? (line.dropWhile isBlank) = none := by
  rw [dropMargins, substitute_eq_substituteFrom, substituteFrom_erase_eq_self_iff]
  constructor
  · intro h line hline
    obtain ⟨ps, after, hcs, hps, -⟩ := exists_of_mem_splitOn hline
    by_cases hempty : line.dropWhile isBlank = []
    · rw [hempty]
      rfl
    · -- A margin would start where the line does, and text behind the line does not undo a sign.
      have hline : line ≠ [] := by
        rintro rfl
        exact hempty rfl
      obtain ⟨c, more, rfl⟩ := List.exists_cons_of_ne_nil hline
      have hnone := h ps c (more ++ after) hcs
      rw [margin_eq_zero_iff (startsLine_lastBefore_none_iff.mpr hps), ← List.cons_append,
        List.dropWhile_append, if_neg (by simpa using hempty), sign?_eq_none_iff] at hnone
      rw [sign?_eq_none_iff]
      exact hnone.imp (mt fun hstar => hstar.trans (List.prefix_append _ _))
        (mt fun hmark => hmark.trans (List.prefix_append _ _))
  · intro h ps c qs hcs
    cases hstart : startsLine (lastBefore none ps) with
    | false => exact margin_of_inside _ _ hstart
    | true =>
      rw [margin_eq_zero_iff hstart]
      cases hsign : sign? ((c :: qs).dropWhile isBlank) with
      | none => rfl
      | some s =>
        -- The margin may reach over several lines; its sign is on one of them.
        obtain ⟨line, hline, hsome⟩ :=
          exists_line_of_sign? (by rw [hsign]; exact Option.some_ne_none s)
        refine absurd (h line ?_) hsome
        rw [hcs]
        exact mem_splitOn_append (startsLine_lastBefore_none_iff.mp hstart) hline

/-! ### The mark at the end -/

theorem dropEndMark_isPrefix (cs : List Char) : dropEndMark cs <+: cs := by
  unfold dropEndMark
  split
  · next before hbefore =>
    rw [← List.reverse_suffix, List.reverse_reverse, hbefore]
    exact (List.dropWhile_suffix _).trans (List.suffix_append ['Z', '\\'] before)
  · exact List.prefix_refl cs

theorem dropEndMark_eq_self_iff {cs : List Char} : dropEndMark cs = cs ↔ ¬endMark <:+ cs := by
  rw [← List.reverse_prefix]
  unfold dropEndMark
  split
  · next before hbefore =>
    refine iff_of_false (fun heq => ?_) (not_not_intro ⟨before, hbefore.symm⟩)
    -- At least the two characters of the mark are gone.
    have hblanks := (List.dropWhile_suffix (l := before) isBlank).length_le
    have hleft := congrArg List.length heq
    have hfound := congrArg List.length hbefore
    simp only [List.length_reverse, List.length_cons] at hleft hfound
    omega
  · next hnone =>
    refine iff_of_true rfl ?_
    rintro ⟨before, hbefore⟩
    exact hnone before hbefore.symm

/-! ### All passes -/

/-- **`unwrapChars` makes no text longer**, as none of its passes does. -/
theorem length_unwrapChars_le (cs : List Char) : (unwrapChars cs).length ≤ cs.length :=
  calc (unwrapChars cs).length
      ≤ (dropMargins (markClosing (dropOpening cs))).length := (dropEndMark_isPrefix _).length_le
    _ ≤ (markClosing (dropOpening cs)).length := (dropMargins_sublist _).length_le
    _ ≤ (dropOpening cs).length := length_markClosing_le _
    _ ≤ cs.length := (dropOpening_suffix cs).length_le

/-- **`unwrapChars` leaves a text alone exactly when it is `Unframed`.** -/
theorem unwrapChars_eq_self_iff {cs : List Char} : unwrapChars cs = cs ↔ Unframed cs := by
  constructor
  · intro h
    -- No pass may shorten the text, or the ones behind it could not make up for it.
    have hend := (dropEndMark_isPrefix (dropMargins (markClosing (dropOpening cs)))).length_le
    have hmargins := (dropMargins_sublist (markClosing (dropOpening cs))).length_le
    have hclosing := length_markClosing_le (dropOpening cs)
    have hopening := (dropOpening_suffix cs).length_le
    have hall : (dropEndMark (dropMargins (markClosing (dropOpening cs)))).length = cs.length :=
      congrArg List.length h
    have hopen : dropOpening cs = cs := (dropOpening_suffix cs).eq_of_length (by omega)
    rw [hopen] at hend hmargins hclosing hall
    have hmargin : dropMargins (markClosing cs) = markClosing cs :=
      (dropMargins_sublist _).eq_of_length (by omega)
    rw [hmargin] at hend hall
    have hmark : dropEndMark (markClosing cs) = markClosing cs :=
      (dropEndMark_isPrefix _).eq_of_length (by omega)
    -- The last pass found no mark, so there was no closing delimiter to become one.
    have hclosed : ¬Closed cs := fun hclosed =>
      dropEndMark_eq_self_iff.mp hmark (markClosing_of_closed hclosed).1
    rw [markClosing_of_not_closed hclosed] at hmargin hmark
    exact {
      no_opening := dropOpening_eq_self_iff.mp hopen
      no_closing := hclosed
      no_margin := fun line hline =>
        sign?_eq_none_iff.mp (dropMargins_eq_self_iff.mp hmargin line hline)
      no_mark := dropEndMark_eq_self_iff.mp hmark }
  · rintro ⟨hopen, hclosed, hmargin, hmark⟩
    have hlines : ∀ line ∈ cs.splitOn '\n', sign? (line.dropWhile isBlank) = none :=
      fun line hline => sign?_eq_none_iff.mpr (hmargin line hline)
    rw [unwrapChars, dropOpening_eq_self_iff.mpr hopen, markClosing_of_not_closed hclosed,
      dropMargins_eq_self_iff.mpr hlines, dropEndMark_eq_self_iff.mpr hmark]

theorem unwrap_eq_self {s : String} : unwrap s = s ↔ Unframed s.toList := by
  rw [← unwrapChars_eq_self_iff, unwrap, ← String.toList_inj, String.toList_ofList]

/-- **The fixed points of unwrapping.** `unwrap` makes no text longer. It leaves a text alone
exactly when the text is `Unframed`: it neither starts with an opening delimiter nor ends with a
closing one and blanks, no line starts with a star or with the mark, and the mark is not at its end.
So unwrapping what was unwrapped gives nothing new exactly when no such thing was left the first
time. -/
theorem unwrap_fixed (s : String) :
    (unwrap s).length ≤ s.length ∧ (unwrap s = s ↔ Unframed s.toList) ∧
      (unwrap (unwrap s) = unwrap s ↔ Unframed (unwrap s).toList) := by
  refine ⟨?_, unwrap_eq_self, unwrap_eq_self⟩
  rw [unwrap, String.length_ofList, ← String.length_toList]
  exact length_unwrapChars_le s.toList

/-- A second margin behind the first is left for the next `unwrap`. -/
example : unwrap "/** * * a*/" = "* a" ∧ unwrap "* a" = "a" := by
  decide

end DocComment.Comment
