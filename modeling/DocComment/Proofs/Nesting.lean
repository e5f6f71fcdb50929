import DocComment.Proofs.Lines
import DocComment.Proofs.Trimming

/-!
# Nested brackets

A text is *nested* in some kinds of brackets when each opening bracket is closed by one of its own
kind, with a nested text between them. `Nested` is the grammar of these texts: the empty text, a
text behind a character that is no bracket, and a text behind a pair of brackets with a text in it.
Nested texts can be put one behind another (`Nested.append`, `nested_intercalate`), and what is no
bracket can be taken away at their ends (`nested_trimChars_iff`).

A separator cuts a nested text into pieces. They are nested themselves exactly if no separator
stands between brackets, which is what `NestedOutside` says and `nested_splitOn_iff` proves.
-/

namespace DocComment.Text

/-- The braces, a pair for `Nested`. -/
def braces : List (Char × Char) :=
  [('\x7b', '\x7d')]

/-- The square brackets, a pair for `Nested`. -/
def squares : List (Char × Char) :=
  [('[', ']')]

/-- The brackets of types: braces, parentheses, square and angle brackets. -/
def typeBrackets : List (Char × Char) :=
  [('\x7b', '\x7d'), ('(', ')'), ('[', ']'), ('<', '>')]

/-- Whether `c` opens or closes a pair of brackets. -/
def isBracket (pairs : List (Char × Char)) (c : Char) : Bool :=
  pairs.any fun pair => c == pair.1 || c == pair.2

/-- The texts that are **properly nested** in the brackets `pairs`. -/
inductive Nested (pairs : List (Char × Char)) : List Char → Prop where
  /-- The empty text. -/
  | nil : Nested pairs []
  /-- A text behind a character that is no bracket. -/
  | plain {c : Char} {cs : List Char} (hc : isBracket pairs c = false) (hcs : Nested pairs cs) :
      Nested pairs (c :: cs)
  /-- A text behind a pair of brackets with a text in it. -/
  | group {o c : Char} {inner cs : List Char} (hpair : (o, c) ∈ pairs)
      (hinner : Nested pairs inner) (hcs : Nested pairs cs) : Nested pairs (o :: (inner ++ c :: cs))

variable {pairs : List (Char × Char)}

theorem Nested.append {cs ds : List Char} (hcs : Nested pairs cs) (hds : Nested pairs ds) :
    Nested pairs (cs ++ ds) := by
  induction hcs with
  | nil => exact hds
  | plain hc _ ih => exact .plain hc ih
  | group hpair hinner _ _ ih =>
    rw [List.cons_append, List.append_assoc, List.cons_append]
    exact .group hpair hinner ih

/-- A text without brackets is `Nested`. -/
theorem nested_of_plain {cs : List Char} (h : cs.all (fun c => !isBracket pairs c) = true) :
    Nested pairs cs := by
  induction cs with
  | nil => exact .nil
  | cons c cs ih =>
    rw [List.all_cons, Bool.and_eq_true, Bool.not_eq_true'] at h
    exact .plain h.1 (ih h.2)

/-- `Nested` texts make a nested text, with a nested text between each two. -/
theorem nested_intercalate {sep : List Char} (hsep : Nested pairs sep) {texts : List (List Char)}
    (h : ∀ cs ∈ texts, Nested pairs cs) : Nested pairs (sep.intercalate texts) := by
  induction texts with
  | nil => exact .nil
  | cons cs texts ih =>
    have hcs : Nested pairs cs := h cs List.mem_cons_self
    cases texts with
    | nil => rwa [List.intercalate_singleton]
    | cons ds texts =>
      rw [List.intercalate_cons_cons]
      exact (hcs.append hsep).append (ih fun l hl => h l (List.mem_cons_of_mem _ hl))

/-! ### Which characters matter -/

theorem isBracket_opening {o c : Char} (h : (o, c) ∈ pairs) : isBracket pairs o = true :=
  List.any_eq_true.mpr ⟨(o, c), h, by simp⟩

theorem isBracket_closing {o c : Char} (h : (o, c) ∈ pairs) : isBracket pairs c = true :=
  List.any_eq_true.mpr ⟨(o, c), h, by simp⟩

theorem ne_of_isBracket {b c : Char} (hb : isBracket pairs b = true)
    (hc : isBracket pairs c = false) : b ≠ c := by
  rintro rfl
  rw [hb] at hc
  cases hc

/-- Fewer kinds of brackets, none of which shares a character with the others, leave a text
`Nested`. -/
theorem Nested.restrict {kept : List (Char × Char)}
    (hplain : ∀ c, isBracket pairs c = false → isBracket kept c = false)
    (hpairs : ∀ pair ∈ pairs,
      pair ∈ kept ∨ isBracket kept pair.1 = false ∧ isBracket kept pair.2 = false)
    {cs : List Char} (h : Nested pairs cs) : Nested kept cs := by
  induction h with
  | nil => exact .nil
  | plain hc _ ih => exact .plain (hplain _ hc) ih
  | group hpair _ _ ihinner ihrest =>
    rcases hpairs _ hpair with hkept | ⟨hopening, hclosing⟩
    · exact .group hkept ihinner ihrest
    · -- Both brackets are plain characters now.
      exact .plain hopening (ihinner.append (.plain hclosing ihrest))

/-- In a `Nested` text a bracket in front is followed by another. -/
theorem Nested.exists_bracket {b : Char} {cs : List Char} (h : Nested pairs (b :: cs))
    (hb : isBracket pairs b = true) : ∃ c ∈ cs, isBracket pairs c = true := by
  generalize htext : b :: cs = text at h
  cases h with
  | nil => cases htext
  | plain hc =>
    obtain ⟨rfl, -⟩ := List.cons.inj htext
    exact absurd rfl (ne_of_isBracket hb hc)
  | @group o c inner rest hpair =>
    obtain ⟨rfl, rfl⟩ := List.cons.inj htext
    exact ⟨c, List.mem_append_right _ List.mem_cons_self, isBracket_closing hpair⟩

theorem Nested.of_append_plain {cs after : List Char} (h : Nested pairs (cs ++ after))
    (hafter : ∀ c ∈ after, isBracket pairs c = false) : Nested pairs cs := by
  -- By induction on the nesting of the whole text; what goes holds no bracket, so it goes from the
  -- last part.
  generalize htext : cs ++ after = text at h
  induction h generalizing cs with
  | nil =>
    rw [(List.append_eq_nil_iff.mp htext).1]
    exact .nil
  | plain hc _ ih =>
    cases cs with
    | nil => exact .nil
    | cons b cs =>
      obtain ⟨rfl, htail⟩ := List.cons.inj htext
      exact .plain hc (ih htail)
  | @group o c inner rest hpair hinner _ _ ih =>
    have hopening := isBracket_opening hpair
    have hclosing := isBracket_closing hpair
    cases cs with
    | nil => exact .nil
    | cons b cs =>
      obtain ⟨rfl, htail⟩ := List.cons.inj htext
      -- The closing bracket is none of the characters that go.
      rcases List.append_eq_append_iff.mp htail with ⟨zs, hinner', hafter'⟩ | ⟨zs, rfl, hzs⟩
      · have hmem : c ∈ after := by
          rw [hafter']
          exact List.mem_append_right _ List.mem_cons_self
        exact absurd rfl (ne_of_isBracket hclosing (hafter c hmem))
      · cases zs with
        | nil =>
          have hmem : c ∈ after := by
            rw [← List.nil_append after, ← hzs]
            exact List.mem_cons_self
          exact absurd rfl (ne_of_isBracket hclosing (hafter c hmem))
        | cons z zs =>
          obtain ⟨rfl, hrest⟩ := List.cons.inj hzs
          exact .group hpair hinner (ih hrest.symm)

theorem Nested.of_plain_append {before cs : List Char} (h : Nested pairs (before ++ cs))
    (hbefore : ∀ c ∈ before, isBracket pairs c = false) : Nested pairs cs := by
  induction before with
  | nil => exact h
  | cons b before ih =>
    obtain ⟨hb, hbefore⟩ := List.forall_mem_cons.mp hbefore
    refine ih ?_ hbefore
    rw [List.cons_append] at h
    generalize before ++ cs = rest at h ⊢
    cases h with
    | plain _ hrest => exact hrest
    -- What goes in front is no bracket, so it opens no group.
    | group hpair => exact absurd rfl (ne_of_isBracket (isBracket_opening hpair) hb)

/-- **`trimChars` does not matter** to `Nested`, where no blank is a bracket. -/
theorem nested_trimChars_iff (hblank : ∀ c, isBlank c = true → isBracket pairs c = false)
    {cs : List Char} : Nested pairs (trimChars cs) ↔ Nested pairs cs := by
  obtain ⟨before, after, hcs, hbefore, hafter⟩ := exists_trimChars cs
  -- Blanks are nested by themselves, so they may be put in front and behind.
  have hplain : ∀ blanks : List Char, (∀ c ∈ blanks, isBlank c = true) → Nested pairs blanks := by
    intro blanks hblanks
    refine nested_of_plain (List.all_eq_true.mpr fun c hc => ?_)
    rw [hblank c (hblanks c hc)]
    rfl
  constructor
  · intro h
    rw [hcs]
    exact ((hplain before hbefore).append h).append (hplain after hafter)
  · intro h
    rw [hcs] at h
    exact (h.of_append_plain fun c hc => hblank c (hafter c hc)).of_plain_append
      fun c hc => hblank c (hbefore c hc)

/-! ### Separators outside brackets -/

/-- The nested texts in which `sep` stands **outside all brackets**. -/
inductive NestedOutside (pairs : List (Char × Char)) (sep : Char) : List Char → Prop where
  /-- The empty text. -/
  | nil : NestedOutside pairs sep []
  /-- A text behind a character that is no bracket; it may be `sep`. -/
  | plain {c : Char} {cs : List Char} (hc : isBracket pairs c = false)
      (hcs : NestedOutside pairs sep cs) : NestedOutside pairs sep (c :: cs)
  /-- A text behind a pair of brackets with a nested text in it that holds no `sep`. -/
  | group {o c : Char} {inner cs : List Char} (hpair : (o, c) ∈ pairs)
      (hinner : Nested pairs inner) (hsep : sep ∉ inner) (hcs : NestedOutside pairs sep cs) :
      NestedOutside pairs sep (o :: (inner ++ c :: cs))

variable {sep : Char}

theorem NestedOutside.append {cs ds : List Char} (hcs : NestedOutside pairs sep cs)
    (hds : NestedOutside pairs sep ds) : NestedOutside pairs sep (cs ++ ds) := by
  induction hcs with
  | nil => exact hds
  | plain hc _ ih => exact .plain hc ih
  | group hpair hinner hsep _ ih =>
    rw [List.cons_append, List.append_assoc, List.cons_append]
    exact .group hpair hinner hsep ih

theorem Nested.outside {cs : List Char} (h : Nested pairs cs) (hsep : sep ∉ cs) :
    NestedOutside pairs sep cs := by
  induction h with
  | nil => exact .nil
  | plain hc _ ih => exact .plain hc (ih (List.not_mem_of_not_mem_cons hsep))
  | group hpair hinner _ _ ih =>
    rw [List.mem_cons, List.mem_append, List.mem_cons, not_or, not_or, not_or] at hsep
    exact .group hpair hinner hsep.2.1 (ih hsep.2.2.2)

/-- **The pieces between separators are `Nested` exactly if all separators stand outside
brackets.** -/
theorem nested_splitOn_iff (hsep : isBracket pairs sep = false) {cs : List Char} :
    (∀ piece ∈ cs.splitOn sep, Nested pairs piece) ↔ NestedOutside pairs sep cs := by
  constructor
  · -- Piece by piece: each is nested and holds no separator.
    refine piece_induct (P := fun cs => (∀ piece ∈ cs.splitOn sep, Nested pairs piece) →
      NestedOutside pairs sep cs) sep ?_ ?_ cs
    · intro piece hpiece h
      refine Nested.outside (h piece ?_) hpiece
      rw [List.splitOn_eq_singleton hpiece]
      exact List.mem_singleton.mpr rfl
    · intro piece rest hpiece ih h
      rw [List.splitOn_append_cons_self, List.splitOn_eq_singleton hpiece, List.singleton_append,
        List.forall_mem_cons] at h
      exact (h.1.outside hpiece).append (.plain hsep (ih h.2))
  · -- Along the text: what is not cut through goes to the first piece of what follows.
    intro h
    induction h with
    | nil => exact List.forall_mem_singleton.mpr .nil
    | @plain c cs hc _ ih =>
      by_cases hcut : c = sep
      · rw [← List.nil_append (c :: cs), hcut, List.splitOn_append_cons_self]
        exact List.forall_mem_cons.mpr ⟨.nil, ih⟩
      · rw [← List.singleton_append, splitOn_append_of_notMem (by simpa using Ne.symm hcut)]
        obtain ⟨first, more, hsplit⟩ := List.exists_cons_of_ne_nil (List.splitOn_ne_nil sep cs)
        rw [hsplit, List.forall_mem_cons] at ih
        rw [hsplit, List.modifyHead_cons, List.forall_mem_cons]
        exact ⟨.plain hc ih.1, ih.2⟩
    | @group o c inner cs hpair hinner hfree _ ih =>
      have hgroup : sep ∉ o :: (inner ++ [c]) := by
        have hopening := ne_of_isBracket (isBracket_opening hpair) hsep
        have hclosing := ne_of_isBracket (isBracket_closing hpair) hsep
        simp [hfree, Ne.symm hopening, Ne.symm hclosing]
      have hwhole : o :: (inner ++ c :: cs) = (o :: (inner ++ [c])) ++ cs := by simp
      obtain ⟨first, more, hsplit⟩ := List.exists_cons_of_ne_nil (List.splitOn_ne_nil sep cs)
      rw [hsplit, List.forall_mem_cons] at ih
      rw [hwhole, splitOn_append_of_notMem hgroup, hsplit, List.modifyHead_cons,
        List.forall_mem_cons]
      refine ⟨?_, ih.2⟩
      rw [List.cons_append, List.append_assoc, List.singleton_append]
      exact .group hpair hinner ih.1

end DocComment.Text
