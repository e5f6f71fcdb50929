import DocComment.Text.CharClass

/-!
# Trimmed texts

Taking the characters of a class away at both ends leaves a text that neither starts nor ends with
one of them (`head?_stripChars_not`, `getLast?_stripChars_not`), and such a text is left as it is.
So a text is *trimmed* exactly when it neither starts nor ends with a blank,
`stripChars_eq_self_iff`. What goes is blank on both sides (`exists_trimChars`), and more blanks
behind a text make no difference (`trimChars_append_of_blank`).
-/

namespace DocComment.Text

theorem dropWhile_eq_self {p : Char → Bool} {cs : List Char} (h : ∀ c ∈ cs.head?, p c = false) :
    cs.dropWhile p = cs := by
  cases cs with
  | nil => rfl
  | cons c cs => rw [List.dropWhile_cons_of_neg (by simp [h c rfl])]

/-- What `stripChars` leaves starts with no character of the class. -/
theorem head?_stripChars_not (p : Char → Bool) (cs : List Char) :
    ∀ c ∈ (stripChars p cs).head?, p c = false := by
  intro c hc
  -- Stripping the end leaves the first character of what stripping the front left.
  obtain ⟨tail, htail⟩ : ∃ tail, stripChars p cs ++ tail = cs.dropWhile p := by
    obtain ⟨tail, htail⟩ := List.dropWhile_suffix p (l := (cs.dropWhile p).reverse)
    refine ⟨tail.reverse, ?_⟩
    rw [stripChars, dropTrailing, ← List.reverse_append, htail, List.reverse_reverse]
  have hhead := List.head?_dropWhile_not p cs
  rw [← htail, List.head?_append, hc, Option.some_or] at hhead
  simpa using hhead

/-- What `stripChars` leaves ends with no character of the class. -/
theorem getLast?_stripChars_not (p : Char → Bool) (cs : List Char) :
    ∀ c ∈ (stripChars p cs).getLast?, p c = false := by
  intro c hc
  have hhead := List.head?_dropWhile_not p (cs.dropWhile p).reverse
  rw [stripChars, dropTrailing, List.getLast?_reverse] at hc
  rw [hc] at hhead
  simpa using hhead

theorem stripChars_eq_self {p : Char → Bool} {cs : List Char} (hfirst : ∀ c ∈ cs.head?, p c = false)
    (hlast : ∀ c ∈ cs.getLast?, p c = false) : stripChars p cs = cs := by
  have hreverse : cs.reverse.dropWhile p = cs.reverse :=
    dropWhile_eq_self (by rwa [List.head?_reverse])
  rw [stripChars, dropTrailing, dropWhile_eq_self hfirst, hreverse, List.reverse_reverse]

/-- **`stripChars` leaves a text as it is** exactly when neither end is in the class. -/
theorem stripChars_eq_self_iff {p : Char → Bool} {cs : List Char} :
    stripChars p cs = cs ↔ (∀ c ∈ cs.head?, p c = false) ∧ ∀ c ∈ cs.getLast?, p c = false := by
  constructor
  · intro h
    have hfirst := head?_stripChars_not p cs
    have hlast := getLast?_stripChars_not p cs
    rw [h] at hfirst hlast
    exact ⟨hfirst, hlast⟩
  · rintro ⟨hfirst, hlast⟩
    exact stripChars_eq_self hfirst hlast

/-- For `trimChars`, a blank in front goes. -/
theorem trimChars_cons_of_blank {c : Char} (hc : isBlank c = true) (cs : List Char) :
    trimChars (c :: cs) = trimChars cs := by
  rw [trimChars, stripChars, List.dropWhile_cons_of_pos hc]
  rfl

/-- For `trimChars`, a text behind one that starts with no blank may start with any character. -/
theorem trimChars_append {cs ds : List Char} (hcs : cs ≠ [])
    (hfirst : ∀ c ∈ cs.head?, isBlank c = false) (hds : ds ≠ [])
    (hlast : ∀ c ∈ ds.getLast?, isBlank c = false) : trimChars (cs ++ ds) = cs ++ ds := by
  refine stripChars_eq_self ?_ ?_
  · obtain ⟨c, cs, rfl⟩ := List.exists_cons_of_ne_nil hcs
    exact hfirst
  · rw [List.getLast?_eq_some_getLast hds] at hlast
    rwa [List.getLast?_append, List.getLast?_eq_some_getLast hds, Option.some_or]

/-! ### What goes at the ends -/

theorem exists_dropTrailing (p : Char → Bool) (cs : List Char) :
    ∃ after, cs = dropTrailing p cs ++ after ∧ ∀ c ∈ after, p c = true := by
  refine ⟨(cs.reverse.takeWhile p).reverse, ?_, fun c hc => ?_⟩
  · rw [dropTrailing, ← List.reverse_append, List.takeWhile_append_dropWhile, List.reverse_reverse]
  · exact List.all_eq_true.mp List.all_takeWhile c (List.mem_reverse.mp hc)

theorem dropTrailing_append_of_all {p : Char → Bool} {after : List Char}
    (h : ∀ c ∈ after, p c = true) (cs : List Char) :
    dropTrailing p (cs ++ after) = dropTrailing p cs := by
  have hreverse : ∀ c ∈ after.reverse, p c = true := fun c hc => h c (List.mem_reverse.mp hc)
  rw [dropTrailing, List.reverse_append, List.dropWhile_append_of_pos hreverse, dropTrailing]

/-- For `dropTrailing`, a character that is not in the class keeps what stands before it. -/
theorem dropTrailing_append_cons {p : Char → Bool} {c : Char} (hc : p c = false)
    (cs ds : List Char) : dropTrailing p (cs ++ c :: ds) = cs ++ c :: dropTrailing p ds := by
  obtain ⟨after, hds, hafter⟩ := exists_dropTrailing p ds
  have hkept : dropTrailing p (cs ++ c :: dropTrailing p ds) = cs ++ c :: dropTrailing p ds := by
    -- Reversed, the text starts with what is kept of `ds`, or else with `c`.
    have hfirst : ∀ b ∈ ((cs ++ c :: dropTrailing p ds).reverse).head?, p b = false := by
      intro b hb
      rw [dropTrailing, List.reverse_append, List.reverse_cons, List.reverse_reverse,
        List.append_assoc, List.head?_append] at hb
      have hhead := List.head?_dropWhile_not p ds.reverse
      cases hrest : (ds.reverse.dropWhile p).head? with
      | none =>
        rw [hrest] at hb
        obtain rfl : c = b := by simpa using hb
        exact hc
      | some d =>
        rw [hrest] at hb hhead
        obtain rfl : d = b := by simpa using hb
        simpa using hhead
    rw [dropTrailing, dropWhile_eq_self hfirst, List.reverse_reverse]
  calc dropTrailing p (cs ++ c :: ds)
      = dropTrailing p ((cs ++ c :: dropTrailing p ds) ++ after) := by
        rw [List.append_assoc, List.cons_append, ← hds]
    _ = cs ++ c :: dropTrailing p ds := by rw [dropTrailing_append_of_all hafter, hkept]

/-- For `trimChars`, blanks behind a text go. -/
theorem trimChars_append_of_blank {after : List Char} (h : ∀ c ∈ after, isBlank c = true)
    (cs : List Char) : trimChars (cs ++ after) = trimChars cs := by
  rw [trimChars, stripChars, trimChars, stripChars, List.dropWhile_append]
  split
  · next hblank =>
    -- The text is blank itself, and nothing is left of either.
    have hnil : (after ++ []).dropWhile isBlank = [] := List.dropWhile_append_of_pos h
    rw [List.append_nil] at hnil
    rw [hnil, List.isEmpty_iff.mp hblank]
  · exact dropTrailing_append_of_all h _

/-- A text is blank before and behind what `trimChars` leaves of it. -/
theorem exists_trimChars (cs : List Char) :
    ∃ before after, cs = before ++ trimChars cs ++ after ∧ (∀ c ∈ before, isBlank c = true) ∧
      ∀ c ∈ after, isBlank c = true := by
  obtain ⟨after, hafter, hblank⟩ := exists_dropTrailing isBlank (cs.dropWhile isBlank)
  refine ⟨cs.takeWhile isBlank, after, ?_, ?_, hblank⟩
  · rw [List.append_assoc, trimChars, stripChars, ← hafter, List.takeWhile_append_dropWhile]
  · exact List.all_eq_true.mp List.all_takeWhile

theorem trim_eq_self {s : String} (hfirst : ∀ c ∈ s.toList.head?, isBlank c = false)
    (hlast : ∀ c ∈ s.toList.getLast?, isBlank c = false) : trim s = s := by
  rw [← String.toList_inj, toList_trim]
  exact stripChars_eq_self hfirst hlast

theorem trim_of_no_blank {s : String} (h : ∀ c ∈ s.toList, isBlank c = false) : trim s = s :=
  trim_eq_self (fun c hc => h c (List.mem_of_mem_head? hc))
    fun c hc => h c (List.mem_of_mem_getLast? hc)

end DocComment.Text
