import DocComment.Proofs.PlainPath
import DocComment.Proofs.TypedValues

/-!
# Optional names and their defaults

An optional name stands in square brackets, with a default behind an equals sign. The brackets are
not counted: the name ends at the *first* closing bracket (`peelName_bracketed`), wherever the
default has its own. `read_optional` says what follows for a default that is nested in square
brackets, such as `[1, [2]]`. It comes back exactly if there is no bracket in it. Otherwise the
default is cut off before its first closing bracket, and everything behind that bracket, the bracket
that was meant to close the name included, is read as the description.
-/

namespace DocComment.TypedValue

open DocComment.Text
open DocComment.Namepath (IsWord isBlank_of_isWordChar)

/-! ### The name -/

/-- `bracketed` takes the name up to the first equals sign, and behind it the default. -/
theorem bracketed_append {name : List Char} (hname : IsWord name) (value rest : List Char) :
    bracketed (name ++ '=' :: value) rest =
      ⟨some name, true, some (trimChars value), rest⟩ := by
  have hequals : '=' ∉ name := hname.notMem (by decide)
  have hblank : ∀ c ∈ name, isBlank c = false := fun c hc =>
    isBlank_of_isWordChar (hname.chars c hc)
  -- Nothing goes in front of the name, and behind the equals sign only what ends the default.
  have htrim : trimChars (name ++ '=' :: value) = name ++ '=' :: dropTrailing isBlank value := by
    rw [trimChars, stripChars, dropWhile_eq_self, dropTrailing_append_cons (by decide)]
    obtain ⟨c, cs, rfl⟩ := List.exists_cons_of_ne_nil hname.ne_nil
    rintro _ ⟨⟩
    exact hblank c List.mem_cons_self
  -- What goes behind the default before it is cut off goes anyway when it is trimmed.
  have hvalue : trimChars (dropTrailing isBlank value) = trimChars value := by
    obtain ⟨after, hsplit, hafter⟩ := exists_dropTrailing isBlank value
    calc trimChars (dropTrailing isBlank value)
        = trimChars (dropTrailing isBlank value ++ after) :=
          (trimChars_append_of_blank hafter _).symm
      _ = trimChars value := by rw [← hsplit]
  have hword : (name ++ '=' :: dropTrailing isBlank value).takeWhile (· != '=') = name := by
    rw [List.takeWhile_append_of_pos, List.takeWhile_cons_of_neg (by decide), List.append_nil]
    rintro c hc
    have hne : c ≠ '=' := by
      rintro rfl
      exact hequals hc
    simpa using hne
  have hkept : trimChars name = name :=
    stripChars_eq_self (fun c hc => hblank c (List.mem_of_mem_head? hc))
      fun c hc => hblank c (List.mem_of_mem_getLast? hc)
  simp only [bracketed, htrim, hword, List.drop_left, hvalue, hkept]

/-- **For `peelName`, a name in brackets ends at the first closing bracket**, whatever brackets its
default opens. -/
theorem peelName_bracketed {name value : List Char} (hname : IsWord name) (hvalue : ']' ∉ value)
    (rest : List Char) :
    peelName ('[' :: (name ++ '=' :: value ++ ']' :: rest)) =
      ⟨some name, true, some (trimChars value), rest.dropWhile isBlank⟩ := by
  have hclosing : ∀ c ∈ name ++ '=' :: value, (c != ']') = true := by
    intro c hc
    have hne : c ≠ ']' := by
      rintro rfl
      have hword : ']' ∉ name := hname.notMem (by decide)
      simp [hword, hvalue] at hc
    simpa using hne
  -- Neither name nor default closes a bracket, so the first one that does is that of the name.
  have hinner : (name ++ '=' :: value ++ ']' :: rest).takeWhile (· != ']') =
      name ++ '=' :: value := by
    rw [List.takeWhile_append_of_pos hclosing, List.takeWhile_cons_of_neg (by decide),
      List.append_nil]
  have hdrop : (name ++ '=' :: value ++ ']' :: rest).drop (name ++ '=' :: value).length =
      ']' :: rest := List.drop_left
  simp only [peelName, hinner, hdrop]
  exact bracketed_append hname value _

/-! ### The whole text -/

/-- An optional `name` with a default `value`, and a `description` behind a dash. -/
def optionalText (name value : String) (description : Option String) : String :=
  "[" ++ name ++ "=" ++ value ++ "]" ++ dashed description

variable {name value : String} {description : Option String}

theorem toList_optionalText :
    (optionalText name value description).toList =
      '[' :: (name.toList ++ '=' :: value.toList ++ ']' :: (dashed description).toList) := by
  simp [optionalText]

theorem trim_optionalText (hdescription : ∀ d ∈ description, d ≠ "" ∧ trim d = d) :
    trim (optionalText name value description) = optionalText name value description := by
  refine trim_eq_self ?_ ?_
  · rw [toList_optionalText]
    rintro c ⟨⟩
    decide
  · cases description with
    | none =>
      -- The text ends in the closing bracket.
      have hlast : (optionalText name value none).toList.getLast? = some ']' := by
        rw [toList_optionalText, show (dashed none).toList = [] from rfl, ← List.cons_append,
          List.getLast?_concat]
      rw [hlast]
      rintro c ⟨⟩
      decide
    | some d =>
      obtain ⟨hne, htrim⟩ := hdescription d rfl
      rw [← String.toList_inj, toList_trim] at htrim
      have hnil : d.toList ≠ [] := by simpa using hne
      have hlast : (optionalText name value (some d)).toList.getLast? = d.toList.getLast? := by
        simp only [optionalText, dashed, Option.elim_some, String.toList_append]
        rw [List.getLast?_append, List.getLast?_append, List.getLast?_eq_some_getLast hnil]
        rfl
      rw [hlast]
      exact (stripChars_eq_self_iff.mp htrim).2

/-- What is read of an optional name, where `value` is the default up to its first closing bracket
and `rest` is what follows that bracket. -/
theorem read_typed_optional {text : String} {value rest : List Char} (hname : IsWord name.toList)
    (hvalue : ']' ∉ value)
    (htext : text.toList = '[' :: (name.toList ++ '=' :: value ++ ']' :: rest)) :
    read true true text =
      { types := []
        name := some name
        description := describe (rest.dropWhile isBlank)
        optional := true
        defaultValue := some (String.ofList (trimChars value)) } := by
  have htypes : peelTypes text.toList = ([], text.toList) := by
    refine peelTypes_of_head_ne ?_
    rw [htext, List.head?_cons]
    decide
  have hpeel : peelName text.toList =
      ⟨some name.toList, true, some (trimChars value), rest.dropWhile isBlank⟩ := by
    rw [htext, peelName_bracketed hname hvalue]
  simp only [read, if_true, htypes, hpeel, List.map_nil, Option.map_some, String.ofList_toList]

/-- A text that is `Nested` in square brackets and closes none opens none. -/
theorem no_bracket_iff {cs : List Char} (h : Nested squares cs) :
    (∀ c ∈ cs, isBracket squares c = false) ↔ ']' ∉ cs := by
  have hclosing : isBracket squares ']' = true := by decide
  constructor
  · intro hplain hmem
    rw [hplain _ hmem] at hclosing
    cases hclosing
  · intro hfree
    induction h with
    | nil => exact fun c hc => absurd hc List.not_mem_nil
    | plain hc _ ih => exact List.forall_mem_cons.mpr ⟨hc, ih (List.not_mem_of_not_mem_cons hfree)⟩
    | @group o c inner cs hpair _ _ _ _ =>
      -- A group has its closing bracket in the text.
      obtain ⟨-, rfl⟩ : o = '[' ∧ c = ']' := by simpa [squares] using hpair
      exact absurd (by simp) hfree

/-- **A default comes back exactly if there is no bracket in it.** For every tag that takes a type
and a name, every `IsWord` for a name, every default that is trimmed and `Nested` in square
brackets, and every description: the tag has the name, this default and this description if the
default holds no square bracket. If it holds one, the default ends before the first closing bracket,
and what follows that bracket is read as the description. -/
theorem read_optional {title : String} (htitle : title ∈ typedTitles) (hname : IsWord name.toList)
    (htrim : trim value = value) (hnested : Nested squares value.toList)
    (hdescription : ∀ d ∈ description, d ≠ "" ∧ trim d = d) :
    ((Tag.read .standard title (optionalText name value description)).value =
        .typed
          { types := []
            name := some name
            description := description
            optional := true
            defaultValue := some value } ↔
      ∀ c ∈ value.toList, isBracket squares c = false) ∧
    ∀ before after, value.toList = before ++ ']' :: after → ']' ∉ before →
      (Tag.read .standard title (optionalText name value description)).value =
        .typed
          { types := []
            name := some name
            description :=
              describe ((after ++ ']' :: (dashed description).toList).dropWhile isBlank)
            optional := true
            defaultValue := some (String.ofList (trimChars before)) } := by
  have htext : optionalText name value description ≠ "" := by
    simp [optionalText]
  rw [value_read_standard htitle htext (trim_optionalText hdescription)]
  -- Where the default has a closing bracket, it is cut off before the first one.
  have hcut : ∀ before after, value.toList = before ++ ']' :: after → ']' ∉ before →
      read true true (optionalText name value description) =
        { types := []
          name := some name
          description := describe ((after ++ ']' :: (dashed description).toList).dropWhile isBlank)
          optional := true
          defaultValue := some (String.ofList (trimChars before)) } := by
    intro before after hvalue hbefore
    refine read_typed_optional hname hbefore ?_
    rw [toList_optionalText, hvalue]
    simp
  refine ⟨?_, fun before after hvalue hbefore => congrArg _ (hcut before after hvalue hbefore)⟩
  rw [no_bracket_iff hnested]
  constructor
  · -- A default that was cut is shorter than the one that was written.
    intro hread hmem
    obtain ⟨before, after, hvalue, hbefore⟩ := List.eq_append_cons_of_mem hmem
    rw [hcut before after hvalue hbefore, Tag.Value.typed.injEq, TypedValue.mk.injEq] at hread
    have hsame : trimChars before = value.toList := by
      rw [← String.toList_ofList (l := trimChars before), Option.some.inj hread.2.2.2.2]
    obtain ⟨front, back, hsplit, -, -⟩ := exists_trimChars before
    have hlength := congrArg List.length hsplit
    rw [hsame, hvalue] at hlength
    simp only [List.length_append, List.length_cons] at hlength
    omega
  · intro hfree
    have hvalue : trimChars value.toList = value.toList := by rw [← toList_trim, htrim]
    rw [read_typed_optional hname hfree toList_optionalText, describe_dashed hdescription, hvalue,
      String.ofList_toList]

/-- A default with an equals sign and blanks of its own, and a description with a bracket:
`Tag.read` gives both back. -/
theorem read_optional_signs :
    ("param" ∈ typedTitles ∧ IsWord "größe".toList ∧ trim "a = (b, -1)" = "a = (b, -1)" ∧
        Nested squares "a = (b, -1)".toList ∧ "- [c" ≠ "" ∧ trim "- [c" = "- [c") ∧
      optionalText "größe" "a = (b, -1)" (some "- [c") = "[größe=a = (b, -1)] - - [c" ∧
      (Tag.read .standard "param" (optionalText "größe" "a = (b, -1)" (some "- [c"))).value =
        .typed
          { types := []
            name := some "größe"
            description := some "- [c"
            optional := true
            defaultValue := some "a = (b, -1)" } := by
  have hnested : Nested squares "a = (b, -1)".toList := nested_of_plain (by decide)
  have hplain : ∀ c ∈ "a = (b, -1)".toList, isBracket squares c = false := by
    simpa using (show "a = (b, -1)".toList.all (fun c => !isBracket squares c) = true by decide)
  have hdescription : ∀ d ∈ some "- [c", d ≠ "" ∧ trim d = d := by
    rintro d ⟨⟩
    exact ⟨by decide, by decide⟩
  exact ⟨⟨by decide, by decide, by decide, hnested, hdescription _ rfl⟩, by decide,
    (read_optional (by decide) (by decide) (by decide) hnested hdescription).1.mpr hplain⟩

/-- The empty list `[]` for a default: its first bracket is left of it, and the last one of the text
is read as the description. -/
theorem read_optional_list :
    (IsWord "a".toList ∧ trim "[]" = "[]" ∧ Nested squares "[]".toList) ∧
      optionalText "a" "[]" none = "[a=[]]" ∧
      (Tag.read .standard "param" "[a=[]]").value =
        .typed
          { types := []
            name := some "a"
            description := some "]"
            optional := true
            defaultValue := some "[" } ∧
      (Tag.read .standard "param" "[a=[]]").value ≠
        .typed
          { types := []
            name := some "a"
            description := none
            optional := true
            defaultValue := some "[]" } := by
  -- The default is nested as it should be; only what is read of it is wrong.
  have hpair : ('[', ']') ∈ squares := List.mem_singleton.mpr rfl
  have hread : (Tag.read .standard "param" "[a=[]]").value =
      .typed
        { types := []
          name := some "a"
          description := some "]"
          optional := true
          defaultValue := some "[" } := by
    decide +kernel
  refine ⟨⟨by decide, by decide, .group hpair .nil .nil⟩, by decide, hread, ?_⟩
  rw [hread]
  decide

end DocComment.TypedValue
