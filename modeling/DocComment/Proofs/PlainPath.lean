import DocComment.Proofs.PathCut
import DocComment.Proofs.Prototypes
import DocComment.Text.CharClass

/-!
# Plain paths

A path without quotes has no stand-ins, and without `.prototype` it is in its normal form already.
So a cut of it is made at its last mark and nothing else happens (`cut_of_unquoted`). A `.prototype`
at its end becomes a mark and changes nothing else (`shortenPrototypes_append`).

The paths at hand are made of *words*: letters, digits, the underscore, the dollar sign, and
whatever stands beyond the plain alphabet and is no blank. A word has no owner (`cut_word`), and a
word behind a mark is cut off its owner (`cut_at_mark`). The one exception is a static member whose
name starts with *prototype*: behind a point that is the mark of instance members in full.
-/

namespace DocComment.Namepath

open DocComment.Text

/-! ### Cutting without quotes -/

/-- **By `shortenPrototypes`, a prototype behind a path without one** becomes the mark of instance
members, if no point is left behind it. -/
theorem shortenPrototypes_append {cs xs rest : List Char} (hcs : ¬prototypeText <:+: cs)
    (hxs : IsPrototype xs) (hrest : '.' ∉ rest) :
    shortenPrototypes (cs ++ (xs ++ rest)) = cs ++ '#' :: rest := by
  have hhead : ∃ tail, xs ++ rest = '.' :: tail := by
    rcases hxs with rfl | rfl <;> exact ⟨_, rfl⟩
  have hnone : ∀ c ∈ rest, c ≠ '.' := fun c hc heq => hrest (heq ▸ hc)
  have hwidth : ∀ before, prototypePart before (xs ++ rest) = xs.length := by
    intro before
    rcases hxs with rfl | rfl
    · -- No point follows, so the match ends with the word.
      have hpoint : rest.head? ≠ some '.' := fun h => hrest (List.mem_of_mem_head? h)
      simp [prototypePart, hpoint]
    · simp [prototypePart, List.append_assoc]
  rw [shortenPrototypes, substitute_eq_substituteFrom, substituteFrom_run,
    substituteFrom_hit hxs.ne_nil (hwidth _)]
  · congr 2
    have hplain : ∀ before, substituteFrom prototypePart (fun _ => ['#']) before (rest ++ []) =
        rest ++ substituteFrom prototypePart (fun _ => ['#']) (lastBefore before rest) [] :=
      fun before => substituteFrom_run fun ps c qs heq =>
        prototypePart_of_ne (hnone c (by simp [heq])) _ _
    simpa using hplain _
  · -- A match in the path would reach into the prototype, whose point is none of its letters.
    intro ps c qs heq
    obtain ⟨tail, htail⟩ := hhead
    by_cases hc : c = '.'
    · subst hc
      have hletters : "prototype".toList.isPrefixOf (qs ++ '.' :: tail) =
          "prototype".toList.isPrefixOf qs := isPrefixOf_append_cons (by decide) _ _
      have hsplit : prototypeText = '.' :: "prototype".toList := by decide
      rw [prototypePart, if_neg]
      rw [htail, hsplit, List.isPrefixOf_cons_cons, hletters]
      intro hmatch
      rw [Bool.and_eq_true] at hmatch
      obtain ⟨after, rfl⟩ := List.isPrefixOf_iff_prefix.mp hmatch.2
      exact hcs ⟨ps, after, by rw [heq, hsplit, List.append_assoc, List.cons_append]⟩
    · exact prototypePart_of_ne hc _ _

theorem anchor_map_char (free : Bool) (cs : List Char) :
    anchor free (cs.map .char) = cs.map .char := by
  induction cs generalizing free with
  | nil => rfl
  | cons c cs ih => rw [List.map_cons, anchor, ih]

/-- Without a quote there is nothing to mask: `masked` only shortens. -/
theorem masked_of_unquoted {cs : List Char} (hquote : doubleQuote ∉ cs) (hbrace : '\x7b' ∉ cs) :
    masked cs = (shortenPrototypes cs, []) := by
  have hscan : scan quotedPart (cs ++ []) = cs.map .plain ++ [] :=
    scanFrom_quotedPart_run hquote (by simp) none
  rw [List.append_nil] at hscan
  -- Every character is a piece of its own.
  have hglyphs : numbered 0 (scan quotedPart cs) = cs.map .char := by
    rw [hscan, numbered_map_plain]
    exact List.append_nil _
  have hparts : quotedParts cs = [] := by
    rw [quotedParts, hscan, mask_snd_map_plain]
    rfl
  rw [masked_eq_spell hbrace, hparts, pathGlyphs, ← shortenPrototypes_spell, hglyphs,
    anchor_map_char, spell_map_char]

/-- **Without a quote `cut` works on the shortened path**, and nothing has to be put back. -/
theorem cut_unquoted {cs : List Char} (hquote : doubleQuote ∉ cs) (hbrace : '\x7b' ∉ cs) :
    cut (String.ofList cs) =
      let path := shortenPrototypes cs
      { longname := String.ofList path
        memberof := String.ofList (ownerParts path).1
        scope := (ownerParts path).2.1
        name := String.ofList (nameParts (ownerParts path).2.2).1
        variation := (nameParts (ownerParts path).2.2).2.map String.ofList } := by
  rw [cut_eq, String.toList_ofList, masked_of_unquoted hquote hbrace]
  rfl

theorem cut_of_unquoted {cs : List Char} (hquote : doubleQuote ∉ cs) (hbrace : '\x7b' ∉ cs)
    (hprototype : ¬prototypeText <:+: cs) :
    cut (String.ofList cs) =
      { longname := String.ofList cs
        memberof := String.ofList (ownerParts cs).1
        scope := (ownerParts cs).2.1
        name := String.ofList (nameParts (ownerParts cs).2.2).1
        variation := (nameParts (ownerParts cs).2.2).2.map String.ofList } := by
  rw [cut_unquoted hquote hbrace, shortenPrototypes_eq_self hprototype]

theorem splitLast_eq_none_of_no_mark {cs : List Char} (h : ∀ c ∈ cs, Scope.isMark c = false) :
    splitLast cs = none := by
  cases hsplit : splitLast cs with
  | none => rfl
  | some found =>
    obtain ⟨before, s, after⟩ := found
    obtain ⟨rfl, -⟩ := splitLast_eq_some hsplit
    have hmark := h s.mark (List.mem_append_right _ List.mem_cons_self)
    rw [Scope.isMark_iff.mpr ⟨s, rfl⟩] at hmark
    cases hmark

theorem splitLast_append {after : List Char} (h : ∀ c ∈ after, Scope.isMark c = false)
    (before : List Char) (s : Scope) :
    splitLast (before ++ s.mark :: after) = some (before, s, after) := by
  induction before with
  | nil =>
    rw [List.nil_append, splitLast, splitLast_eq_none_of_no_mark h]
    simp
  | cons c before ih => rw [List.cons_append, splitLast, ih]

theorem nameParts_of_notMem {cs : List Char} (hparenthesis : ')' ∉ cs) (hline : '\n' ∉ cs) :
    nameParts cs = (cs, none) := by
  have hnone : splitVariation? cs = none := by
    unfold splitVariation?
    split
    · next before hrev =>
      refine absurd (List.mem_reverse.mp ?_) hparenthesis
      rw [hrev]
      exact List.mem_cons_self
    · next before hrev =>
      refine absurd (List.mem_reverse.mp ?_) hline
      rw [hrev]
      exact List.mem_cons_self
    · rfl
  rw [nameParts, hnone]

/-- **A text without a mark, a quote or a parenthesis is for `cut` a path without an owner.** -/
theorem cut_of_no_mark {cs : List Char} (hquote : doubleQuote ∉ cs) (hbrace : '\x7b' ∉ cs)
    (hmark : ∀ c ∈ cs, Scope.isMark c = false) (hparenthesis : ')' ∉ cs) (hline : '\n' ∉ cs) :
    cut (String.ofList cs) = { longname := String.ofList cs, name := String.ofList cs } := by
  have howner : ownerParts cs = ([], none, cs) := by
    rw [ownerParts, splitLast_eq_none_of_no_mark hmark]
  have hprototype : ¬prototypeText <:+: cs := by
    intro hpart
    have hpoint := hmark '.' (hpart.subset (by decide))
    cases hpoint
  rw [cut_of_unquoted hquote hbrace hprototype, howner, nameParts_of_notMem hparenthesis hline]
  rfl

/-! ### Words -/

/-- Whether `c` may stand in a **word**: a letter, a digit, an underscore or a dollar sign, or
anything beyond the plain alphabet that is no blank. -/
def isWordChar (c : Char) : Bool :=
  c.isAlphanum || c == '_' || c == '$' || (decide (0x7F < c.toNat) && !isBlank c)

/-- A **word**: not empty, and made of characters with `isWordChar`. -/
structure IsWord (cs : List Char) : Prop where
  /-- There is a character. -/
  ne_nil : cs ≠ []
  /-- All characters may stand in a word. -/
  chars : ∀ c ∈ cs, isWordChar c = true

instance (cs : List Char) : Decidable (IsWord cs) :=
  decidable_of_iff (cs ≠ [] ∧ cs.all isWordChar = true)
    ⟨fun ⟨h, h'⟩ => ⟨h, List.all_eq_true.mp h'⟩, fun h => ⟨h.ne_nil, List.all_eq_true.mpr h.chars⟩⟩

theorem toNat_of_isAlphanum {c : Char} (h : c.isAlphanum = true) :
    0x20 < c.toNat ∧ c.toNat < 0x7F := by
  have hranges : (decide ('A'.val ≤ c.val ∧ c.val ≤ 'Z'.val) ||
      (decide ('a'.val ≤ c.val) && decide (c.val ≤ 'z'.val)) ||
      (decide ('0'.val ≤ c.val) && decide (c.val ≤ '9'.val))) = true := h
  simp only [Bool.or_eq_true, Bool.and_eq_true, decide_eq_true_eq, UInt32.le_iff_toNat_le]
    at hranges
  change ((65 ≤ c.toNat ∧ c.toNat ≤ 90) ∨ (97 ≤ c.toNat ∧ c.toNat ≤ 122)) ∨
    (48 ≤ c.toNat ∧ c.toNat ≤ 57) at hranges
  omega

/-- By `isBlank`, the blanks of the plain alphabet come before its letters. -/
theorem toNat_of_isBlank {c : Char} (h : isBlank c = true) : c.toNat ≤ 0x20 ∨ 0x7F < c.toNat := by
  simp only [isBlank, covers, blankRanges, List.any_cons, List.any_nil, Bool.or_false,
    Bool.or_eq_true, Bool.and_eq_true, decide_eq_true_eq] at h
  omega

theorem isBlank_of_isWordChar {c : Char} (h : isWordChar c = true) : isBlank c = false := by
  rw [Bool.eq_false_iff]
  intro hblank
  -- Letters and digits lie outside the range of the blanks.
  have hrange := toNat_of_isBlank hblank
  simp only [isWordChar, hblank, Bool.not_true, Bool.and_false, Bool.or_false, Bool.or_eq_true,
    beq_iff_eq] at h
  rcases h with (h | rfl) | rfl
  · have hletter := toNat_of_isAlphanum h
    omega
  · exact absurd hrange (by decide)
  · exact absurd hrange (by decide)

namespace IsWord

variable {cs : List Char} (h : IsWord cs)
include h

theorem notMem {c : Char} (hc : isWordChar c = false) : c ∉ cs := by
  intro hmem
  rw [h.chars c hmem] at hc
  cases hc

/-- A mark and an `IsWord` behind it hold marks and the characters of words only. -/
theorem notMem_mark_cons {c : Char} (hc : isWordChar c = false) (hmark : Scope.isMark c = false)
    (s : Scope) : c ∉ s.mark :: cs := by
  rw [List.mem_cons, not_or]
  refine ⟨?_, h.notMem hc⟩
  rintro rfl
  rw [Scope.isMark_iff.mpr ⟨s, rfl⟩] at hmark
  cases hmark

theorem no_mark : ∀ c ∈ cs, Scope.isMark c = false := by
  intro c hc
  rw [Bool.eq_false_iff]
  intro hmark
  obtain ⟨s, rfl⟩ := Scope.isMark_iff.mp hmark
  exact h.notMem (by cases s <;> decide) hc

theorem not_prototype : ¬prototypeText <:+: cs := by
  intro hpart
  exact h.notMem (by decide : isWordChar '.' = false) (hpart.subset (by decide))

end IsWord

/-- **An `IsWord` is for `cut` a path without an owner.** -/
theorem cut_word {cs : List Char} (h : IsWord cs) :
    cut (String.ofList cs) = { longname := String.ofList cs, name := String.ofList cs } :=
  cut_of_no_mark (h.notMem (by decide)) (h.notMem (by decide)) h.no_mark (h.notMem (by decide))
    (h.notMem (by decide))

/-- Behind a path without a `.prototype`, a mark and a text without one make none, unless the text
starts with *prototype*. -/
theorem not_prototype_join {owner name : List Char} (howner : ¬prototypeText <:+: owner)
    (hname : ¬prototypeText <:+: name) (hprototype : ¬"prototype".toList <+: name) (s : Scope) :
    ¬prototypeText <:+: owner ++ s.mark :: name := by
  rintro ⟨before, after, hsplit⟩
  have hcut : before ++ '.' :: ("prototype".toList ++ after) = owner ++ s.mark :: name := by
    rw [← hsplit, List.append_assoc]
    rfl
  -- Its point stands in the owner, or it is the mark, or it stands in the name.
  rcases List.append_eq_append_iff.mp hcut with ⟨zs, rfl, htail⟩ | ⟨zs, rfl, htail⟩
  · cases zs with
    | nil =>
      obtain ⟨-, rfl⟩ := List.cons.inj htail
      exact hprototype (List.prefix_append _ _)
    | cons z zs =>
      obtain ⟨rfl, hletters⟩ := List.cons.inj htail
      -- The letters behind the point hold no mark, so they end before the mark.
      rcases List.append_eq_append_iff.mp hletters with ⟨ws, rfl, -⟩ | ⟨ws, hword, hrest⟩
      · refine howner ⟨before, ws, ?_⟩
        rw [List.append_assoc]
        rfl
      · cases ws with
        | nil =>
          refine howner ⟨before, [], ?_⟩
          rw [List.append_nil, ← List.append_nil zs, ← hword]
          rfl
        | cons w ws =>
          obtain ⟨rfl, -⟩ := List.cons.inj hrest
          have hmem : s.mark ∈ "prototype".toList := by
            rw [hword]
            exact List.mem_append_right _ List.mem_cons_self
          revert hmem
          cases s <;> decide
  · cases zs with
    | nil =>
      obtain ⟨-, rfl⟩ := List.cons.inj htail
      exact hprototype (List.prefix_append _ _)
    | cons z zs =>
      obtain ⟨-, rfl⟩ := List.cons.inj htail
      refine hname ⟨zs, after, ?_⟩
      rw [List.append_assoc]
      rfl

theorem not_prototype_at_mark {owner name : List Char} (howner : ¬prototypeText <:+: owner)
    (hname : IsWord name) (hprototype : ¬"prototype".toList <+: name) (s : Scope) :
    ¬prototypeText <:+: owner ++ s.mark :: name :=
  not_prototype_join howner hname.not_prototype hprototype s

/-- **An `IsWord` behind a mark is cut off its owner**, whatever path the owner is. -/
theorem cut_at_mark {owner name : List Char} (hquote : doubleQuote ∉ owner)
    (hbrace : '\x7b' ∉ owner) (howner : ¬prototypeText <:+: owner) (hname : IsWord name)
    (hprototype : ¬"prototype".toList <+: name) (s : Scope) :
    cut (String.ofList (owner ++ s.mark :: name)) =
      { longname := String.ofList (owner ++ s.mark :: name)
        memberof := String.ofList owner
        scope := some s
        name := String.ofList name } := by
  have hnotMem : ∀ {c : Char}, c ∉ owner → isWordChar c = false → Scope.isMark c = false →
      c ∉ owner ++ s.mark :: name := by
    intro c howner hword hmark
    rw [List.mem_append, not_or]
    exact ⟨howner, hname.notMem_mark_cons hword hmark s⟩
  -- A word holds no mark, so the mark before it is the last one of the path.
  have hparts : ownerParts (owner ++ s.mark :: name) = (owner, some s, name) := by
    rw [ownerParts, splitLast_append hname.no_mark]
  rw [cut_of_unquoted (hnotMem hquote (by decide) (by decide))
    (hnotMem hbrace (by decide) (by decide))
    (not_prototype_at_mark howner hname hprototype s), hparts,
    nameParts_of_notMem (hname.notMem (by decide)) (hname.notMem (by decide))]
  rfl

/-- **An `IsWord` behind a mark is cut off the one before it.** -/
theorem cut_member {owner name : List Char} (howner : IsWord owner) (hname : IsWord name)
    (hprototype : ¬"prototype".toList <+: name) (s : Scope) :
    cut (String.ofList (owner ++ s.mark :: name)) =
      { longname := String.ofList (owner ++ s.mark :: name)
        memberof := String.ofList owner
        scope := some s
        name := String.ofList name } :=
  cut_at_mark (howner.notMem (by decide)) (howner.notMem (by decide)) howner.not_prototype hname
    hprototype s

end DocComment.Namepath
