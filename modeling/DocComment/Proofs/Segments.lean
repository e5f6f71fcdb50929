import DocComment.Proofs.Substitution
import DocComment.Proofs.TagLines

/-!
# The segments of a text

A text is read in pieces, one for each tag line, and each piece loses the blank lines at its end and
an indent before the tag is read from it. Here is what each of these steps does to the lines of a
text.

* Gathering cuts the text at its tag lines, so the further lines of a segment are no tag lines
  (`gathered_lines`), and neither are those of a tail of it (`Untagged.of_suffix`).
* The blank lines at the end are a tail of the text, the longest of its kind
  (`exists_dropBlankTail`).
* Taking an indent off changes each line by itself (`splitOn_outdent`). It makes no tag line of a
  line that was none, since blanks may stand before a marker anyway, and no blank line either.

A segment starts with a character that is not blank, and the last two steps leave such a character
where it is (`dropBlankTail_cons`, `exists_outdent_cons`).
-/

namespace DocComment.RawTag

open DocComment.Text DocComment.Comment

/-! ### Blanks inside a line -/

/-- A blank that is no line end is an `isInlineBlank`. -/
theorem isInlineBlank_of_isBlank {c : Char} (h : isBlank c = true) (hline : c ≠ '\n')
    (hreturn : c ≠ '\r') : isInlineBlank c = true := by
  simp [isInlineBlank, h, hline, hreturn]

theorem isBlank_of_isInlineBlank {c : Char} (h : isInlineBlank c = true) : isBlank c = true := by
  simp only [isInlineBlank, Bool.and_eq_true] at h
  exact h.1.1

theorem ne_of_isInlineBlank {c : Char} (h : isInlineBlank c = true) : c ≠ '\n' ∧ c ≠ '\r' := by
  simp only [isInlineBlank, Bool.and_eq_true, bne_iff_ne] at h
  exact ⟨h.1.2, h.2⟩

/-- What follows a run of characters is what `dropWhile` leaves. -/
theorem drop_length_takeWhile (p : Char → Bool) (cs : List Char) :
    cs.drop (cs.takeWhile p).length = cs.dropWhile p := by
  have hsplit := List.takeWhile_append_dropWhile (p := p) (l := cs)
  calc cs.drop (cs.takeWhile p).length
      = (cs.takeWhile p ++ cs.dropWhile p).drop (cs.takeWhile p).length := by rw [hsplit]
    _ = cs.dropWhile p := List.drop_left

/-! ### Lines that start no tag -/

/-- Whether no line of a text but the first is a `TagLine`. -/
def Untagged (cs : List Char) : Prop :=
  ∀ line ∈ (cs.splitOn '\n').tail, ¬TagLine line

theorem not_tagLine_nil : ¬TagLine [] := by
  decide

theorem untagged_of_notMem {cs : List Char} (h : '\n' ∉ cs) : Untagged cs := by
  intro line hline
  rw [List.splitOn_eq_singleton h] at hline
  cases hline

/-- A text is `Untagged` if all lines behind its first line feed are no tag lines. -/
theorem untagged_append_newline {line rest : List Char} (h : '\n' ∉ line)
    (hrest : ∀ l ∈ rest.splitOn '\n', ¬TagLine l) : Untagged (line ++ '\n' :: rest) := by
  intro l hl
  rw [splitOn_append_newline h, List.tail_cons] at hl
  exact hrest l hl

theorem Untagged.of_cons {c : Char} {cs : List Char} (h : Untagged (c :: cs)) : Untagged cs := by
  intro line hline
  refine h line ?_
  rw [List.splitOn_cons_eq_if_modifyHead]
  split
  · exact List.mem_of_mem_tail hline
  · rwa [List.tail_modifyHead]

/-- The further lines of a tail are further lines of the text, so it is `Untagged` too. -/
theorem Untagged.of_suffix {cs ds : List Char} (h : Untagged cs) (hsuffix : ds <:+ cs) :
    Untagged ds := by
  obtain ⟨before, rfl⟩ := hsuffix
  induction before with
  | nil => exact h
  | cons c before ih => exact ih h.of_cons

/-- The further lines of what stands before a line feed are further lines of the text, so it is
`Untagged` too. -/
theorem Untagged.of_append_newline {cs ds : List Char} (h : Untagged (cs ++ '\n' :: ds)) :
    Untagged cs := by
  intro line hline
  refine h line ?_
  obtain ⟨first, more, hsplit⟩ := List.exists_cons_of_ne_nil (List.splitOn_ne_nil '\n' cs)
  rw [hsplit, List.tail_cons] at hline
  rw [List.splitOn_append_cons_self, hsplit, List.cons_append, List.tail_cons]
  exact List.mem_append_left _ hline

/-! ### Gathering -/

/-- What `gather` leaves: a lead without tag lines, and segments that start with a character that is
not blank and have no tag line behind their first line. -/
structure Gathered (lead : List Char) (segments : List (List Char)) : Prop where
  /-- No line of the lead is a tag line. -/
  lead_plain : ∀ line ∈ lead.splitOn '\n', ¬TagLine line
  /-- A segment starts with a character that is not blank. -/
  starts : ∀ s ∈ segments, ∃ c rest, s = c :: rest ∧ isBlank c = false
  /-- No further line of a segment is a tag line. -/
  untagged : ∀ s ∈ segments, Untagged s

theorem gathered_nil : Gathered [] [] where
  lead_plain := List.forall_mem_singleton.mpr not_tagLine_nil
  starts := List.forall_mem_nil _
  untagged := List.forall_mem_nil _

/-- `Gathered` stays when the segment of a tag line takes the lead of the lines behind it. -/
theorem Gathered.cons_tag {lead : List Char} {segments : List (List Char)}
    (h : Gathered lead segments) {c : Char} {after : List Char} (hc : isBlank c = false)
    (hline : '\n' ∉ c :: after) :
    Gathered [] ((c :: after ++ '\n' :: lead) :: segments) where
  lead_plain := List.forall_mem_singleton.mpr not_tagLine_nil
  starts := List.forall_mem_cons.mpr ⟨⟨c, _, rfl, hc⟩, h.starts⟩
  untagged := List.forall_mem_cons.mpr ⟨untagged_append_newline hline h.lead_plain, h.untagged⟩

/-- **`gather` cuts a text at its tag lines.** -/
theorem gathered_lines (cs : List Char) :
    Gathered (gather (lines cs)).1 (gather (lines cs)).2 := by
  -- The last line and the lines before it, each with a tag or without one.
  refine gather_induct (P := fun _ lead segments => Gathered lead segments) ?_ ?_ ?_ ?_ cs
  · intro line hline htag
    refine ⟨?_, List.forall_mem_nil _, List.forall_mem_nil _⟩
    rw [List.splitOn_eq_singleton hline]
    exact List.forall_mem_singleton.mpr htag
  · intro indent c after hline _ hc
    have hplain : '\n' ∉ c :: after := fun hmem =>
      hline (List.mem_append_right _ (List.mem_cons_of_mem _ hmem))
    exact ⟨gathered_nil.lead_plain, List.forall_mem_singleton.mpr ⟨c, after, rfl, hc⟩,
      List.forall_mem_singleton.mpr (untagged_of_notMem hplain)⟩
  · intro line rest lead segments hline htag ih
    refine ⟨?_, ih.starts, ih.untagged⟩
    rw [splitOn_append_newline hline]
    exact List.forall_mem_cons.mpr ⟨htag, ih.lead_plain⟩
  · intro indent c after rest lead segments hline _ hc ih
    exact ih.cons_tag hc fun hmem => hline (List.mem_append_right _ (List.mem_cons_of_mem _ hmem))

/-- What `afterMarker?` leaves of a tag line is a part of it. -/
theorem mem_of_mem_afterMarker? {line start : List Char} (h : afterMarker? line = some start)
    {c : Char} (hc : c ∈ start) : c ∈ line := by
  unfold afterMarker? at h
  split at h
  · next d rest hdrop =>
    split at h
    · cases h
    · obtain rfl := Option.some.inj h
      -- The blanks and the marker are in front of it.
      have hmem : c ∈ line.dropWhile isInlineBlank := by
        rw [hdrop]
        exact List.mem_cons_of_mem _ hc
      exact (List.dropWhile_suffix _).mem hmem
  · cases h

/-- `gather` brings in nothing new. -/
theorem mem_flatten_of_mem_gather {rows : List (List Char)} {s : List Char}
    (h : s ∈ (gather rows).1 :: (gather rows).2) {c : Char} (hc : c ∈ s) : c ∈ rows.flatten := by
  induction rows generalizing s with
  | nil =>
    obtain rfl := List.mem_singleton.mp h
    cases hc
  | cons line rows ih =>
    rw [List.flatten_cons, List.mem_append]
    -- A tag line starts a segment with the lead behind it; any other line goes to the lead itself.
    have hlead : c ∈ (gather rows).1 → c ∈ rows.flatten := ih List.mem_cons_self
    cases hmarker : afterMarker? line with
    | some start =>
      rw [gather_cons_tag hmarker] at h
      rcases List.mem_cons.mp h with rfl | h
      · cases hc
      rcases List.mem_cons.mp h with rfl | h
      · rcases List.mem_append.mp hc with hstart | hc
        · exact .inl (mem_of_mem_afterMarker? hmarker hstart)
        · exact .inr (hlead hc)
      · exact .inr (ih (List.mem_cons_of_mem _ h) hc)
    | none =>
      rw [gather_cons_plain (afterMarker?_eq_none_iff.mp hmarker)] at h
      rcases List.mem_cons.mp h with rfl | h
      · exact (List.mem_append.mp hc).imp_right hlead
      · exact .inr (ih (List.mem_cons_of_mem _ h) hc)

theorem mem_segments_iff {cs s : List Char} :
    s ∈ segments cs ↔
      s ∈ (gather (lines cs)).1 :: (gather (lines cs)).2 ∧ allBlank s = false := by
  rw [segments_eq, List.mem_filter, Bool.not_eq_true']

/-- **What one of the `segments` of a text is like**: it is `Untagged`, and a part of the text. -/
theorem untagged_of_mem_segments {cs s : List Char} (h : s ∈ segments cs) :
    Untagged s ∧ ∀ c ∈ s, c ∈ cs := by
  have hmem := (mem_segments_iff.mp h).1
  have hgathered := gathered_lines cs
  constructor
  · rcases List.mem_cons.mp hmem with rfl | hs
    · exact fun line hline => hgathered.lead_plain line (List.mem_of_mem_tail hline)
    · exact hgathered.untagged s hs
  · intro c hc
    rw [← flatten_lines cs]
    exact mem_flatten_of_mem_gather hmem hc

/-! ### Blank lines at the end -/

theorem isBlank_of_onlyBlankLines {cs : List Char} (h : onlyBlankLines cs = true) :
    ∀ c ∈ cs, isBlank c = true := by
  fun_induction onlyBlankLines cs with
  | case1 => simp
  | case2 rest ih => exact List.forall_mem_cons.mpr ⟨by decide, ih h⟩
  | case3 rest ih =>
    exact List.forall_mem_cons.mpr ⟨by decide, List.forall_mem_cons.mpr ⟨by decide, ih h⟩⟩
  | case4 c rest _ _ ih =>
    rw [Bool.and_eq_true] at h
    exact List.forall_mem_cons.mpr ⟨isBlank_of_isInlineBlank h.1, ih h.2⟩

/-- **What is left without the blank lines at the end**: the text is this and a tail of blank lines,
and no earlier tail would do. -/
theorem exists_dropBlankTail (cs : List Char) :
    ∃ tail, cs = dropBlankTail cs ++ tail ∧ (tail = [] ∨ isBlankTail tail = true) ∧
      ∀ ps qs, dropBlankTail cs = ps ++ qs → qs ≠ [] → isBlankTail (qs ++ tail) = false := by
  induction cs with
  | nil =>
    refine ⟨[], rfl, .inl rfl, fun ps qs hsplit hne => ?_⟩
    exact absurd (List.append_eq_nil_iff.mp hsplit.symm).2 hne
  | cons c cs ih =>
    rw [dropBlankTail]
    split
    · next hblank =>
      refine ⟨c :: cs, rfl, .inr hblank, fun ps qs hsplit hne => ?_⟩
      exact absurd (List.append_eq_nil_iff.mp hsplit.symm).2 hne
    · next hsolid =>
      obtain ⟨tail, htail, hends, hearlier⟩ := ih
      refine ⟨tail, by rw [List.cons_append, ← htail], hends, fun ps qs hsplit hne => ?_⟩
      cases ps with
      | nil =>
        -- The tail would be the whole text, which was looked at first.
        rw [List.nil_append] at hsplit
        rw [← hsplit, List.cons_append, ← htail]
        simpa using hsolid
      | cons p ps => exact hearlier ps qs (List.cons.inj hsplit).2 hne

/-- Only a line end starts a tail of blank lines, so `dropBlankTail` keeps any other character. -/
theorem dropBlankTail_cons_of_ne {c : Char} (hline : c ≠ '\n') (hreturn : c ≠ '\r')
    (cs : List Char) : dropBlankTail (c :: cs) = c :: dropBlankTail cs := by
  have hsolid : isBlankTail (c :: cs) = false := by
    simp [isBlankTail, hline, hreturn]
  rw [dropBlankTail, hsolid]
  rfl

/-- `dropBlankTail` keeps a first character that is not blank. -/
theorem dropBlankTail_cons {c : Char} (hc : isBlank c = false) (cs : List Char) :
    dropBlankTail (c :: cs) = c :: dropBlankTail cs := by
  refine dropBlankTail_cons_of_ne ?_ ?_ cs
  · rintro rfl
    cases hc
  · rintro rfl
    cases hc

/-- For `onlyBlankLines`, blanks inside a line do not matter for what follows. -/
theorem onlyBlankLines_append {line : List Char} (h : ∀ c ∈ line, isInlineBlank c = true)
    (rest : List Char) : onlyBlankLines (line ++ rest) = onlyBlankLines rest := by
  induction line with
  | nil => rfl
  | cons c line ih =>
    obtain ⟨hc, hline⟩ := List.forall_mem_cons.mp h
    have hends := ne_of_isInlineBlank hc
    rw [List.cons_append, onlyBlankLines, hc, ih hline, Bool.true_and]
    · exact hends.1
    · exact fun _ hreturn _ => hends.2 hreturn

theorem onlyBlankLines_of_isBlankTail {cs : List Char} (h : isBlankTail cs = true) :
    onlyBlankLines cs = true := by
  unfold isBlankTail at h
  split at h
  · exact h
  · exact h
  · cases h

/-! ### Taking an indent off -/

/-- `outdent` with no indent removes nothing. -/
theorem outdent_nil (cs : List Char) : outdent [] cs = cs := by
  refine substitute_eq_self fun before c rest _ => ?_
  simp [indentAt]

/-- A line without the `indent`, if it starts with it. -/
def outdentLine (indent line : List Char) : List Char :=
  if indent.isPrefixOf line then line.drop indent.length else line

/-- Inside a line `indentAt` finds nothing. -/
theorem indentAt_of_inside (indent : List Char) (before : Option Char) (cs : List Char)
    (h : startsLine before = false) : indentAt indent before cs = 0 := by
  simp [indentAt, h]

section Indent

variable {indent : List Char} (hindent : ∀ b ∈ indent, isInlineBlank b = true)
include hindent

theorem newline_notMem_indent : '\n' ∉ indent := by
  intro hmem
  have hblank := hindent _ hmem
  cases hblank

/-- A line is its indent, or nothing, and the `outdentLine`. -/
theorem exists_outdentLine (line : List Char) :
    ∃ before, line = before ++ outdentLine indent line ∧ ∀ b ∈ before, isInlineBlank b = true := by
  unfold outdentLine
  split
  · next hprefix =>
    obtain ⟨rest, rfl⟩ := List.isPrefixOf_iff_prefix.mp hprefix
    exact ⟨indent, by rw [List.drop_left], hindent⟩
  · exact ⟨[], rfl, List.forall_mem_nil _⟩

/-- Blanks may stand before a marker, so what is a `TagLine` without its indent was one before. -/
theorem TagLine.of_outdentLine {line : List Char} (h : TagLine (outdentLine indent line)) :
    TagLine line := by
  obtain ⟨before, hline, hbefore⟩ := exists_outdentLine hindent line
  obtain ⟨more, c, rest, hmore, hblank, hc⟩ := h
  refine ⟨before ++ more, c, rest, ?_, ?_, hc⟩
  · rw [List.append_assoc, ← hmore, ← hline]
  · exact List.forall_mem_append.mpr ⟨hbefore, hblank⟩

theorem allBlank_outdentLine (line : List Char) :
    allBlank (outdentLine indent line) = allBlank line := by
  obtain ⟨before, hline, hbefore⟩ := exists_outdentLine hindent line
  have hblank : before.all isBlank = true :=
    List.all_eq_true.mpr fun b hb => isBlank_of_isInlineBlank (hbefore b hb)
  calc allBlank (outdentLine indent line)
      = allBlank (before ++ outdentLine indent line) := by
        rw [allBlank, allBlank, List.all_append, hblank, Bool.true_and]
    _ = allBlank line := by rw [← hline]

/-- `indentAt` finds no indent at a character that is not blank. -/
theorem indentAt_of_solid (before : Option Char) {c : Char} (hc : isBlank c = false)
    (cs : List Char) : indentAt indent before (c :: cs) = 0 := by
  cases indent with
  | nil => simp [indentAt]
  | cons b bs =>
    have hb : b ≠ c := by
      rintro rfl
      have hblank := hindent b List.mem_cons_self
      simp [isInlineBlank, hc] at hblank
    simp [indentAt, List.isPrefixOf, hb]

/-- `outdent` keeps a first character that is not blank, as no indent starts there. -/
theorem exists_outdent_cons {c : Char} (hc : isBlank c = false) (cs : List Char) :
    ∃ more, outdent indent (c :: cs) = c :: more :=
  ⟨_, by rw [outdent, substitute_eq_substituteFrom,
    substituteFrom_miss (indentAt_of_solid hindent none hc cs)]⟩

variable (hne : indent ≠ [])
include hne

/-- `indentAt` finds no indent at a line feed. -/
theorem indentAt_newline (before : Option Char) (rest : List Char) :
    indentAt indent before ('\n' :: rest) = 0 := by
  have hprefix := isPrefixOf_append_cons (newline_notMem_indent hindent) [] rest
  obtain ⟨b, bs, rfl⟩ := List.exists_cons_of_ne_nil hne
  rw [indentAt, ← List.nil_append ('\n' :: rest), hprefix, List.isPrefixOf_cons_nil, Bool.and_false]
  rfl

/-- **At the start of a line, `substituteFrom` takes the indent off this line.** -/
theorem exists_substituteFrom_indentAt {before : Option Char} (hbefore : startsLine before = true)
    {line : List Char} (hline : '\n' ∉ line) {rest : List Char}
    (hrest : rest = [] ∨ ∃ tail, rest = '\n' :: tail) :
    ∃ before', substituteFrom (indentAt indent) (fun _ => []) before (line ++ rest) =
      outdentLine indent line ++ substituteFrom (indentAt indent) (fun _ => []) before' rest := by
  have hprefix : indent.isPrefixOf (line ++ rest) = indent.isPrefixOf line := by
    rcases hrest with rfl | ⟨tail, rfl⟩
    · rw [List.append_nil]
    · exact isPrefixOf_append_cons (newline_notMem_indent hindent) line tail
  unfold outdentLine
  split
  · next hstarts =>
    obtain ⟨more, rfl⟩ := List.isPrefixOf_iff_prefix.mp hstarts
    have hhit : indentAt indent before (indent ++ (more ++ rest)) = indent.length := by
      rw [← List.append_assoc, indentAt, hbefore, hprefix, hstarts]
      rfl
    -- Behind the indent the line goes on.
    obtain ⟨bs, b, rfl⟩ : ∃ bs b, indent = bs ++ [b] :=
      ⟨_, _, (List.dropLast_concat_getLast hne).symm⟩
    have hb : startsLine (some b) = false := by
      have hmem : b ≠ '\n' := by
        rintro rfl
        exact newline_notMem_indent hindent (List.mem_append_right _ List.mem_cons_self)
      simpa [startsLine] using hmem
    rw [List.append_assoc, substituteFrom_hit hne hhit, List.nil_append, lastBefore_concat,
      List.drop_left]
    exact ⟨_, substituteFrom_inside (indentAt_of_inside _) hb
      (fun hmem => hline (List.mem_append_right _ hmem)) rest⟩
  · next hstarts =>
    cases line with
    | nil => exact ⟨before, rfl⟩
    | cons c line =>
      rw [List.mem_cons, not_or] at hline
      -- The line does not start with the indent, and behind its start there is none to take.
      have hmiss : indentAt indent before (c :: (line ++ rest)) = 0 := by
        rw [← List.cons_append, indentAt, hprefix, Bool.eq_false_iff.mpr hstarts, Bool.and_false]
        rfl
      have hc : startsLine (some c) = false := by
        simpa [startsLine] using Ne.symm hline.1
      rw [List.cons_append, substituteFrom_miss hmiss,
        substituteFrom_inside (indentAt_of_inside _) hc hline.2]
      exact ⟨_, rfl⟩

/-- **`outdent` changes each line by itself**, to its `outdentLine`. -/
theorem splitOn_outdent (cs : List Char) :
    (outdent indent cs).splitOn '\n' = (cs.splitOn '\n').map (outdentLine indent) := by
  -- What is left of a line is still one line.
  have hnewline : ∀ line, '\n' ∉ line → '\n' ∉ outdentLine indent line := by
    intro line hline hmem
    obtain ⟨before, hsplit, -⟩ := exists_outdentLine hindent line
    exact hline (hsplit ▸ List.mem_append_right _ hmem)
  -- The induction is over the lines; each starts behind a line feed or with the text.
  suffices hlines : ∀ before, startsLine before = true →
      (substituteFrom (indentAt indent) (fun _ => []) before cs).splitOn '\n' =
        (cs.splitOn '\n').map (outdentLine indent) by
    rw [outdent, substitute_eq_substituteFrom]
    exact hlines none rfl
  refine line_induct (P := fun cs => ∀ before, startsLine before = true →
    (substituteFrom (indentAt indent) (fun _ => []) before cs).splitOn '\n' =
      (cs.splitOn '\n').map (outdentLine indent)) ?_ ?_ cs
  · intro line hline before hbefore
    obtain ⟨before', hfirst⟩ :=
      exists_substituteFrom_indentAt hindent hne hbefore hline (.inl rfl)
    rw [List.append_nil, substituteFrom_nil, List.append_nil] at hfirst
    rw [hfirst, List.splitOn_eq_singleton (hnewline line hline), List.splitOn_eq_singleton hline]
    rfl
  · intro line rest hline ih before hbefore
    obtain ⟨before', hfirst⟩ :=
      exists_substituteFrom_indentAt hindent hne hbefore hline (.inr ⟨rest, rfl⟩)
    rw [hfirst, substituteFrom_miss (indentAt_newline hindent hne before' rest),
      splitOn_append_newline (hnewline line hline), splitOn_append_newline hline, List.map_cons,
      ih (some '\n') rfl]

end Indent

/-- What `tagIndent?` gives is made of blanks inside a line. -/
theorem isInlineBlank_of_mem_indent {rows : List (List Char)} :
    ∀ b ∈ (rows.findSome? tagIndent?).getD [], isInlineBlank b = true := by
  intro b hb
  cases hfind : rows.findSome? tagIndent? with
  | none =>
    rw [hfind] at hb
    cases hb
  | some indent =>
    rw [hfind, Option.getD_some] at hb
    obtain ⟨line, -, hline⟩ := List.exists_of_findSome?_eq_some hfind
    unfold tagIndent? at hline
    dsimp only at hline
    split at hline
    · cases hline
    · obtain rfl := Option.some.inj hline
      exact List.all_eq_true.mp List.all_takeWhile b hb

end DocComment.RawTag
