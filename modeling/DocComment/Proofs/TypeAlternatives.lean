import DocComment.Proofs.TypedValues

/-!
# Alternatives of a nested type

The braces around a type are counted, so a type that is nested in brackets is found as a whole
(`peelTypes_group`). What it lists is not counted: one pair of parentheses is taken off if they
stand at the two ends, and the rest is cut at every bar. `peelTypes_nested_iff` tells for which
types the alternatives are whole types again, that is, nested in brackets themselves.

A type that has no parenthesis at one of its ends has to have its bars outside all brackets. A type
with parentheses at both ends has to have them outside all brackets once these two are gone. So a
union inside a record or between angle brackets is cut through, and so is `(a)|(b)`, where the two
parentheses that go do not belong together.
-/

namespace DocComment.TypedValue

open DocComment.Text

/-! ### Finding the type -/

theorem isBracket_typeBrackets {c : Char} :
    isBracket typeBrackets c = true ↔ c ∈ ['\x7b', '\x7d', '(', ')', '[', ']', '<', '>'] := by
  simp [isBracket, typeBrackets, or_assoc]

theorem isBracket_of_isBlank {c : Char} (hc : isBlank c = true) :
    isBracket typeBrackets c = false := by
  rw [← Bool.not_eq_true, isBracket_typeBrackets]
  intro hmem
  have hblank : (['\x7b', '\x7d', '(', ')', '[', ']', '<', '>'].all (!isBlank ·)) =
      true := by decide
  simpa [hc] using List.all_eq_true.mp hblank c hmem

/-- What is `Nested` in all brackets of types is so in braces. -/
theorem nested_braces {cs : List Char} (h : Nested typeBrackets cs) : Nested braces cs := by
  refine h.restrict (fun c hc => ?_) ?_
  · simp only [isBracket, typeBrackets, braces, List.any_cons, Bool.or_eq_false_iff] at hc ⊢
    exact ⟨hc.1, rfl⟩
  · decide

/-- **`peelTypes` finds a nested type as a whole**, whatever follows its braces. -/
theorem peelTypes_group {inner : List Char} (h : Nested typeBrackets inner) (rest : List Char) :
    peelTypes ('\x7b' :: (inner ++ '\x7d' :: rest)) = (alternatives inner, trimChars rest) := by
  have hinside : insideBraces 0 (inner ++ '\x7d' :: rest) = some (inner, rest) := by
    rw [insideBraces_append (nested_braces h)]
    simp [insideBraces]
  simp only [peelTypes, hinside]

/-! ### Cutting it at the bars -/

theorem withoutParens_of_ends (inside : List Char) :
    withoutParens ('(' :: (inside ++ [')'])) = inside := by
  have hlast : ('(' :: (inside ++ [')'])).getLast? = some ')' := by
    rw [← List.cons_append, List.getLast?_concat]
  rw [withoutParens, hlast, List.head?_cons]
  simp

theorem withoutParens_of_not {cs : List Char} (h : ∀ inside, cs ≠ '(' :: (inside ++ [')'])) :
    withoutParens cs = cs := by
  rw [withoutParens, if_neg]
  intro hends
  rw [Bool.and_eq_true, beq_iff_eq, beq_iff_eq] at hends
  obtain ⟨tail, rfl⟩ := List.head?_eq_some_iff.mp hends.1
  -- The closing parenthesis is not the opening one, so something stands behind that.
  cases tail with
  | nil => exact absurd hends.2 (by decide)
  | cons b tail =>
    rw [List.getLast?_cons_cons] at hends
    obtain ⟨inside, hinside⟩ := List.getLast?_eq_some_iff.mp hends.2
    exact h inside (by rw [hinside])

/-- **The `alternatives` are whole types exactly if the bars stand outside all brackets**, the
parentheses at the ends taken off. -/
theorem alternatives_nested_iff (inner : List Char) :
    (∀ t ∈ alternatives inner, Nested typeBrackets t) ↔
      NestedOutside typeBrackets '|' (withoutParens (trimChars inner)) := by
  rw [← nested_splitOn_iff (by decide), alternatives, splitAt_eq_splitOn]
  constructor
  · intro h piece hpiece
    rw [← nested_trimChars_iff fun _ => isBracket_of_isBlank]
    -- Blank pieces are left out of the alternatives, and they are nested.
    by_cases hempty : trimChars piece = []
    · rw [hempty]
      exact .nil
    · refine h _ (List.mem_filter.mpr ⟨List.mem_map_of_mem hpiece, ?_⟩)
      simpa using hempty
  · intro h t ht
    obtain ⟨piece, hpiece, rfl⟩ := List.mem_map.mp (List.mem_filter.mp ht).1
    exact (nested_trimChars_iff fun _ => isBracket_of_isBlank).mpr (h piece hpiece)

/-- **Which alternatives are whole types.** For every text that starts with a type in braces which
is `Nested` in braces, parentheses, square and angle brackets: the text behind the type is what
follows its braces, trimmed, and the types are all nested in these brackets exactly if the bars of
the type stand outside all brackets, where parentheses at both its ends do not count. -/
theorem peelTypes_nested_iff {inner : List Char} (h : Nested typeBrackets inner)
    (rest : List Char) :
    (peelTypes ('\x7b' :: (inner ++ '\x7d' :: rest))).2 = trimChars rest ∧
      (∀ inside, trimChars inner = '(' :: (inside ++ [')']) →
        ((∀ t ∈ (peelTypes ('\x7b' :: (inner ++ '\x7d' :: rest))).1, Nested typeBrackets t) ↔
          NestedOutside typeBrackets '|' inside)) ∧
      ((∀ inside, trimChars inner ≠ '(' :: (inside ++ [')'])) →
        ((∀ t ∈ (peelTypes ('\x7b' :: (inner ++ '\x7d' :: rest))).1, Nested typeBrackets t) ↔
          NestedOutside typeBrackets '|' (trimChars inner))) := by
  rw [peelTypes_group h, alternatives_nested_iff]
  refine ⟨rfl, fun inside hends => ?_, fun hends => ?_⟩
  · rw [hends, withoutParens_of_ends]
  · rw [withoutParens_of_not hends]

/-- `peelTypes` on two types between parentheses, one with a record between angle brackets. -/
theorem peelTypes_nested_iff_generic :
    Nested typeBrackets "(Map<a, \x7bb: c\x7d>| [d])".toList ∧
      (peelTypes "\x7b(Map<a, \x7bb: c\x7d>| [d])\x7d x".toList).1 =
        ["Map<a, \x7bb: c\x7d>".toList, "[d]".toList] ∧
      ∀ t ∈ (peelTypes "\x7b(Map<a, \x7bb: c\x7d>| [d])\x7d x".toList).1,
        Nested typeBrackets t := by
  have hplain : ∀ s : String, s.toList.all (fun c => !isBracket typeBrackets c) = true →
      Nested typeBrackets s.toList := fun _ => nested_of_plain
  -- The nesting is built from the inside out, along the grammar.
  have hrecord : Nested typeBrackets "\x7bb: c\x7d".toList :=
    .group (by decide : ('\x7b', '\x7d') ∈ typeBrackets) (hplain "b: c" (by decide)) .nil
  have hmap : Nested typeBrackets "Map<a, \x7bb: c\x7d>".toList :=
    (hplain "Map" (by decide)).append (.group (by decide : ('<', '>') ∈ typeBrackets)
      ((hplain "a, " (by decide)).append hrecord) .nil)
  have hlist : Nested typeBrackets " [d]".toList :=
    .plain (by decide) (.group (by decide : ('[', ']') ∈ typeBrackets)
      (hplain "d" (by decide)) .nil)
  have hwhole : Nested typeBrackets "(Map<a, \x7bb: c\x7d>| [d])".toList :=
    .group (by decide : ('(', ')') ∈ typeBrackets) (hmap.append (.plain (by decide) hlist)) .nil
  have houtside : NestedOutside typeBrackets '|' "Map<a, \x7bb: c\x7d>| [d]".toList :=
    (hmap.outside (by decide)).append (.plain (by decide) (hlist.outside (by decide)))
  exact ⟨hwhole, by decide,
    ((peelTypes_nested_iff hwhole " x".toList).2.1 _ (by decide)).mpr houtside⟩

/-- `peelTypes` cuts through a union inside a record, and takes a parenthesis each from two groups
side by side. -/
theorem peelTypes_nested_iff_union :
    Nested typeBrackets "\x7ba: number|string\x7d".toList ∧
      (peelTypes "\x7b\x7ba: number|string\x7d\x7d".toList).1 =
        ["\x7ba: number".toList, "string\x7d".toList] ∧
      (peelTypes "\x7b(a)|(b)\x7d".toList).1 = ["a)".toList, "(b".toList] ∧
      ¬∀ t ∈ (peelTypes "\x7b\x7ba: number|string\x7d\x7d".toList).1,
        Nested typeBrackets t := by
  have hinner : Nested typeBrackets "a: number|string".toList := nested_of_plain (by decide)
  have htypes : (peelTypes "\x7b\x7ba: number|string\x7d\x7d".toList).1 =
      ["\x7ba: number".toList, "string\x7d".toList] := by
    decide
  refine ⟨.group (by decide : ('\x7b', '\x7d') ∈ typeBrackets) hinner .nil, htypes, by decide, ?_⟩
  intro h
  rw [htypes] at h
  -- Nothing closes the brace that the first type opens.
  obtain ⟨c, hc, hbracket⟩ :=
    @Nested.exists_bracket typeBrackets '\x7b' "a: number".toList (h _ List.mem_cons_self)
      (by decide)
  have hnone : "a: number".toList.all (fun c => !isBracket typeBrackets c) = true := by decide
  simpa [hbracket] using List.all_eq_true.mp hnone c hc

end DocComment.TypedValue
