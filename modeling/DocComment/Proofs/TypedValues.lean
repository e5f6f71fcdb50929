import DocComment.Proofs.Nesting
import DocComment.Proofs.Trimming
import DocComment.Tag.Reading
import DocComment.Tag.Standard

/-!
# Typed values as they are written

A typed value without a default can be written down as a text, `written`: the types between braces
and parentheses with bars between them, the name, and the description behind a dash. `read_written`
says that the tags that take a type and a name read it back.

Each part is peeled off what the part before it left. The braces of the types close where they
should because the alternatives are nested in braces themselves (`insideBraces_append`). The bars
part the alternatives because none of them holds a bar (`alternatives_parenthesized`). The name ends
at the first blank (`peelName_append`), and one dash goes before the description, whatever the
description starts with (`describe_dashed`).
-/

namespace DocComment.TypedValue

open DocComment.Text

/-! ### Types -/

theorem splitAt_eq_splitOn (sep : Char) (cs : List Char) : splitAt sep cs = cs.splitOn sep := by
  induction cs with
  | nil => rfl
  | cons c cs ih =>
    rw [splitAt, List.splitOn_cons_eq_if_modifyHead, ih]
    obtain ⟨piece, more, hsplit⟩ := List.exists_cons_of_ne_nil (List.splitOn_ne_nil sep cs)
    rw [hsplit]
    rfl

theorem insideBraces_open (depth : Nat) (cs : List Char) :
    insideBraces depth ('\x7b' :: cs) =
      (insideBraces (depth + 1) cs).map fun r => ('\x7b' :: r.1, r.2) := rfl

theorem insideBraces_close (depth : Nat) (cs : List Char) :
    insideBraces (depth + 1) ('\x7d' :: cs) =
      (insideBraces depth cs).map fun r => ('\x7d' :: r.1, r.2) := rfl

theorem insideBraces_plain {c : Char} (hc : isBracket braces c = false) (depth : Nat)
    (cs : List Char) :
    insideBraces depth (c :: cs) = (insideBraces depth cs).map fun r => (c :: r.1, r.2) := by
  have hne : (c == '\x7b') = false ∧ (c == '\x7d') = false := by
    simpa [isBracket, braces] using hc
  simp [insideBraces, hne]

/-- **`insideBraces` passes over a text that is `Nested` in braces**, at every depth and whatever
follows it. -/
theorem insideBraces_append {inner : List Char} (h : Nested braces inner) (depth : Nat)
    (cs : List Char) :
    insideBraces depth (inner ++ cs) =
      (insideBraces depth cs).map fun r => (inner ++ r.1, r.2) := by
  induction h generalizing depth cs with
  | nil => simp
  | plain hc _ ih =>
    rw [List.cons_append, insideBraces_plain hc, ih, Option.map_map]
    rfl
  | @group o c inner rest hpair _ _ ihinner ihrest =>
    obtain ⟨rfl, rfl⟩ : o = '\x7b' ∧ c = '\x7d' := by simpa [braces] using hpair
    -- One level down for what the braces hold, and up again for what follows them.
    rw [List.cons_append, List.append_assoc, List.cons_append, insideBraces_open, ihinner,
      insideBraces_close, ihrest]
    simp [Option.map_map, Function.comp_def]

/-- What may stand **between two bars** of a type: it is `Nested` in braces, among others. -/
structure IsAlternative (t : String) : Prop where
  /-- It is not empty. -/
  ne_empty : t ≠ ""
  /-- There are no blanks at its ends. -/
  trimmed : trim t = t
  /-- There is no bar in it. -/
  no_bar : '|' ∉ t.toList
  /-- Its braces are nested. -/
  nested : Nested braces t.toList

theorem IsAlternative.trimChars_eq {t : String} (h : IsAlternative t) :
    trimChars t.toList = t.toList := by
  rw [← toList_trim, h.trimmed]

/-- The `types` between parentheses, with bars between them. -/
def parenthesized (types : List String) : String :=
  "(" ++ "|".intercalate types ++ ")"

theorem toList_parenthesized (types : List String) :
    (parenthesized types).toList =
      '(' :: (['|'].intercalate (types.map String.toList) ++ [')']) := by
  simp [parenthesized, String.toList_intercalate]

variable {types : List String}

/-- By `alternatives`, types between bars are read back as they were. -/
theorem alternatives_parenthesized (hne : types ≠ []) (h : ∀ t ∈ types, IsAlternative t) :
    alternatives (parenthesized types).toList = types.map String.toList := by
  have hhead : (parenthesized types).toList.head? = some '(' := by
    rw [toList_parenthesized, List.head?_cons]
  have hlast : (parenthesized types).toList.getLast? = some ')' := by
    rw [toList_parenthesized, ← List.cons_append, List.getLast?_concat]
  -- The parentheses keep trimming off, and then are taken off themselves.
  have htrim : trimChars (parenthesized types).toList = (parenthesized types).toList := by
    refine stripChars_eq_self (fun c hc => ?_) fun c hc => ?_
    · obtain rfl := Option.some.inj (hhead.symm.trans hc)
      decide
    · obtain rfl := Option.some.inj (hlast.symm.trans hc)
      decide
  have hparens : withoutParens (parenthesized types).toList =
      ['|'].intercalate (types.map String.toList) := by
    rw [withoutParens, hhead, hlast, toList_parenthesized]
    simp
  have hsplit : splitAt '|' (['|'].intercalate (types.map String.toList)) =
      types.map String.toList := by
    rw [splitAt_eq_splitOn]
    refine List.splitOn_intercalate '|' (fun piece hpiece => ?_) (by simpa using hne)
    obtain ⟨t, ht, rfl⟩ := List.mem_map.mp hpiece
    exact (h t ht).no_bar
  rw [alternatives, htrim, hparens, hsplit, List.map_map]
  -- Neither trimming nor leaving out blank ones changes the pieces.
  have hmap : types.map (trimChars ∘ String.toList) = types.map String.toList :=
    List.map_congr_left fun t ht => (h t ht).trimChars_eq
  rw [hmap, List.filter_eq_self]
  intro piece hpiece
  obtain ⟨t, ht, rfl⟩ := List.mem_map.mp hpiece
  simpa using (h t ht).ne_empty

theorem nested_parenthesized (h : ∀ t ∈ types, IsAlternative t) :
    Nested braces (parenthesized types).toList := by
  rw [toList_parenthesized]
  have hjoined : Nested braces (['|'].intercalate (types.map String.toList)) := by
    refine nested_intercalate (nested_of_plain (by decide)) fun piece hpiece => ?_
    obtain ⟨t, ht, rfl⟩ := List.mem_map.mp hpiece
    exact (h t ht).nested
  exact .plain (by decide) (hjoined.append (nested_of_plain (by decide)))

/-- **`peelTypes` peels off the types in front of a text**, and trims the text behind them. -/
theorem peelTypes_parenthesized (hne : types ≠ []) (h : ∀ t ∈ types, IsAlternative t)
    (rest : List Char) :
    peelTypes ('\x7b' :: ((parenthesized types).toList ++ '\x7d' :: rest)) =
      (types.map String.toList, trimChars rest) := by
  have hinside : insideBraces 0 ((parenthesized types).toList ++ '\x7d' :: rest) =
      some ((parenthesized types).toList, rest) := by
    -- The brace behind the parentheses is the first one that closes at depth zero.
    rw [insideBraces_append (nested_parenthesized h)]
    simp [insideBraces]
  simp only [peelTypes, hinside, alternatives_parenthesized hne h]

theorem peelTypes_of_head_ne {text : List Char} (h : text.head? ≠ some '\x7b') :
    peelTypes text = ([], text) := by
  unfold peelTypes
  split
  · simp at h
  · rfl

/-! ### Name and description -/

/-- **For `peelName`, a name ends at the first blank**, and the blanks behind it go. -/
theorem peelName_append {name rest : List Char} (hne : name ≠ [])
    (hblank : ∀ c ∈ name, isBlank c = false) (hbracket : name.head? ≠ some '[')
    (hrest : ∀ c ∈ rest.head?, isBlank c = true) :
    peelName (name ++ rest) = ⟨some name, false, none, rest.dropWhile isBlank⟩ := by
  have hword : (name ++ rest).takeWhile (fun c => !isBlank c) = name := by
    rw [List.takeWhile_append_of_pos (by simpa using hblank)]
    cases rest with
    | nil => simp
    | cons b rest => simp [hrest b rfl]
  obtain ⟨c, name, rfl⟩ := List.exists_cons_of_ne_nil hne
  have hc : (c == '[') = false := by simpa using hbracket
  rw [List.cons_append] at hword ⊢
  -- No bracket is opened, so it does not matter whether one is closed further on.
  simp only [peelName, hc, hword]
  simp

/-- What may stand for a **name** without brackets, for `peelName` to read. -/
structure IsPlainName (name : String) : Prop where
  /-- It is not empty. -/
  ne_empty : name ≠ ""
  /-- There is no blank in it. -/
  no_blank : ∀ c ∈ name.toList, isBlank c = false
  /-- It does not start with a bracket. -/
  no_bracket : name.toList.head? ≠ some '['

theorem IsPlainName.exists_cons {name : String} (h : IsPlainName name) :
    ∃ c cs, name.toList = c :: cs :=
  List.exists_cons_of_ne_nil (mt String.toList_eq_nil_iff.mp h.ne_empty)

/-- A `description` as it follows a name: behind a dash. -/
def dashed (description : Option String) : String :=
  description.elim "" (" - " ++ ·)

theorem describe_dash {d : List Char} (hne : d ≠ []) (htrim : trimChars d = d) :
    describe ('-' :: ' ' :: d) = some (String.ofList d) := by
  have hfirst : ∀ c ∈ d.head?, isBlank c = false := (stripChars_eq_self_iff.mp htrim).1
  have hdrop : (' ' :: d).dropWhile isBlank = d := by
    rw [List.dropWhile_cons_of_pos (by decide), dropWhile_eq_self hfirst]
  simp [describe, hdrop, htrim, hne]

variable {name : String} {description : Option String}

/-- **For `describe`, the dash goes and the description stays**, also when it starts with a dash
itself. -/
theorem describe_dashed (h : ∀ d ∈ description, d ≠ "" ∧ trim d = d) :
    describe ((dashed description).toList.dropWhile isBlank) = description := by
  cases description with
  | none => rfl
  | some d =>
    obtain ⟨hne, htrim⟩ := h d rfl
    have hdrop : (dashed (some d)).toList.dropWhile isBlank = '-' :: ' ' :: d.toList := by
      simp [dashed, show isBlank ' ' = true from by decide, show isBlank '-' = false from by decide]
    have hchars : trimChars d.toList = d.toList := by rw [← toList_trim, htrim]
    rw [hdrop, describe_dash (by simpa using hne) hchars, String.ofList_toList]

theorem peelName_dashed (hname : IsPlainName name) :
    peelName (name ++ dashed description).toList =
      ⟨some name.toList, false, none, (dashed description).toList.dropWhile isBlank⟩ := by
  rw [String.toList_append]
  refine peelName_append (by simpa using hname.ne_empty) hname.no_blank hname.no_bracket ?_
  cases description with
  | none => simp [dashed]
  | some d => simp [dashed]; decide

/-- A name and its `dashed` description have no blanks at their ends. -/
theorem trimChars_dashed (hname : IsPlainName name)
    (hdescription : ∀ d ∈ description, d ≠ "" ∧ trim d = d) :
    trimChars (name ++ dashed description).toList = (name ++ dashed description).toList := by
  cases description with
  | none =>
    have hbare : name ++ dashed none = name := by simp [dashed]
    rw [hbare, ← toList_trim, trim_of_no_blank hname.no_blank]
  | some d =>
    obtain ⟨hne, htrim⟩ := hdescription d rfl
    rw [← String.toList_inj, toList_trim] at htrim
    have hsplit : (name ++ dashed (some d)).toList = (name ++ " - ").toList ++ d.toList := by
      simp [dashed]
    -- The name is in front, and the last character is that of the description.
    rw [hsplit]
    refine trimChars_append (by simp) ?_ (by simpa using hne) (stripChars_eq_self_iff.mp htrim).2
    obtain ⟨c, cs, hcs⟩ := hname.exists_cons
    rw [String.toList_append, hcs, List.cons_append, List.head?_cons]
    rintro b ⟨⟩
    exact hname.no_blank c (by rw [hcs]; exact List.mem_cons_self)

/-! ### The whole text -/

/-- A typed value without a default **as it is written**. -/
def written (types : List String) (name : String) (description : Option String) : String :=
  (if types.isEmpty then "" else "\x7b" ++ parenthesized types ++ "\x7d ") ++
    (name ++ dashed description)

theorem toList_written_of_ne_nil (hne : types ≠ []) :
    (written types name description).toList =
      '\x7b' :: ((parenthesized types).toList ++
        '\x7d' :: ' ' :: (name ++ dashed description).toList) := by
  simp [written, hne]

theorem written_nil : written [] name description = name ++ dashed description := by
  simp [written]

/-- What is `written` has no blanks at its ends. -/
theorem trim_written (hname : IsPlainName name)
    (hdescription : ∀ d ∈ description, d ≠ "" ∧ trim d = d) :
    trim (written types name description) = written types name description := by
  have htrim := trimChars_dashed hname hdescription
  rw [← String.toList_inj, toList_trim]
  by_cases hne : types = []
  · rw [hne, written_nil, htrim]
  · have hbody : (name ++ dashed description).toList ≠ [] := by
      simp [hname.ne_empty]
    -- It starts with a brace and ends like the name and the description.
    have hsplit : (written types name description).toList =
        '\x7b' :: ((parenthesized types).toList ++ ['\x7d', ' ']) ++
          (name ++ dashed description).toList := by
      simp [toList_written_of_ne_nil hne]
    rw [hsplit]
    exact trimChars_append (by simp) (by simp; decide) hbody (stripChars_eq_self_iff.mp htrim).2

/-- **What is `written` is read back** by `read`. -/
theorem read_typed_written (htypes : ∀ t ∈ types, IsAlternative t) (hname : IsPlainName name)
    (hbrace : types = [] → name.toList.head? ≠ some '\x7b')
    (hdescription : ∀ d ∈ description, d ≠ "" ∧ trim d = d) :
    read true true (written types name description) =
      { types := types, name := some name, description := description } := by
  have hpeel : peelTypes (written types name description).toList =
      (types.map String.toList, (name ++ dashed description).toList) := by
    by_cases hne : types = []
    · -- Without types the text starts with the name.
      rw [hne, written_nil, List.map_nil]
      refine peelTypes_of_head_ne ?_
      obtain ⟨c, cs, hcs⟩ := hname.exists_cons
      have hc := hbrace hne
      rw [hcs] at hc
      rwa [String.toList_append, hcs]
    · rw [toList_written_of_ne_nil hne, peelTypes_parenthesized hne htypes,
        trimChars_cons_of_blank (by decide), trimChars_dashed hname hdescription]
  have hofList : types.map (String.ofList ∘ String.toList) = types := by
    simp [Function.comp_def]
  simp only [read, if_true, hpeel, peelName_dashed hname, describe_dashed hdescription,
    List.map_map, hofList, Option.map_some, Option.map_none, String.ofList_toList]

/-- The titles of the standard tags that **take a type and a name**. -/
def typedTitles : List String :=
  ["param", "arg", "argument", "property", "prop", "member", "var"]

/-- The tags of `typedTitles` read their text as a typed value. -/
theorem value_read_standard {title : String} (htitle : title ∈ typedTitles) {text : String}
    (hne : text ≠ "") (htrim : trim text = text) :
    (Tag.read .standard title text).value = .typed (read true true text) := by
  have htable : typedTitles.all
      (fun title => (Dictionary.standard.find? title).any fun definition =>
        definition.canHaveType && definition.canHaveName && !definition.keepsBlanks) = true := by
    decide +kernel
  obtain ⟨definition, hfind, hallowed⟩ :=
    (Option.any_eq_true _ _).mp (List.all_eq_true.mp htable title htitle)
  simp only [Bool.and_eq_true, Bool.not_eq_true'] at hallowed
  simp [Tag.read, hfind, Tag.trimText, Tag.valueOf, hallowed, htrim, hne]

/-- **A typed value is read back as it was `written`**, by every tag that takes a type and a
name. -/
theorem read_written {title : String} (htitle : title ∈ typedTitles)
    (htypes : ∀ t ∈ types, IsAlternative t) (hname : IsPlainName name)
    (hbrace : types = [] → name.toList.head? ≠ some '\x7b')
    (hdescription : ∀ d ∈ description, d ≠ "" ∧ trim d = d) :
    (Tag.read .standard title (written types name description)).value =
      .typed
        { types := types
          name := some name
          description := description
          optional := false
          defaultValue := none } := by
  have hne : written types name description ≠ "" := by
    simp [written, hname.ne_empty]
  rw [value_read_standard htitle hne (trim_written hname hdescription),
    read_typed_written htypes hname hbrace hdescription]

/-- `Tag.read` on braces within braces, a name that starts with a brace and a description that
starts with a dash. -/
theorem read_written_nested :
    IsAlternative "\x7ba: \x7bb\x7d\x7d[]" ∧ IsPlainName "\x7bx" ∧
      written ["\x7ba: \x7bb\x7d\x7d[]", "(c)"] "\x7bx" (some "- [d] \x7be") =
        "\x7b(\x7ba: \x7bb\x7d\x7d[]|(c))\x7d \x7bx - - [d] \x7be" ∧
      (Tag.read .standard "arg"
        (written ["\x7ba: \x7bb\x7d\x7d[]", "(c)"] "\x7bx" (some "- [d] \x7be"))).value =
        .typed
          { types := ["\x7ba: \x7bb\x7d\x7d[]", "(c)"]
            name := some "\x7bx"
            description := some "- [d] \x7be"
            optional := false
            defaultValue := none } := by
  -- Nesting is a grammar, so it is built up; all else can be evaluated.
  have hnested : Nested braces "\x7ba: \x7bb\x7d\x7d[]".toList := by
    have hb : Nested braces "b".toList := nested_of_plain (by decide)
    have ha : Nested braces "a: ".toList := nested_of_plain (by decide)
    have hend : Nested braces "[]".toList := nested_of_plain (by decide)
    have hpair : ('\x7b', '\x7d') ∈ braces := List.mem_singleton.mpr rfl
    exact .group hpair (ha.append (.group hpair hb .nil)) hend
  have hrecord : IsAlternative "\x7ba: \x7bb\x7d\x7d[]" :=
    ⟨by decide, by decide, by decide, hnested⟩
  have hparens : IsAlternative "(c)" :=
    ⟨by decide, by decide, by decide, nested_of_plain (by decide)⟩
  have hblank : ∀ c ∈ "\x7bx".toList, (!isBlank c) = true := List.all_eq_true.mp (by decide)
  have hname : IsPlainName "\x7bx" :=
    ⟨by decide, fun c hc => by simpa using hblank c hc, by decide⟩
  refine ⟨hrecord, hname, by decide, read_written (by decide) ?_ hname (by simp) ?_⟩
  · intro t ht
    rcases List.mem_cons.mp ht with rfl | ht
    · exact hrecord
    · rw [List.mem_singleton.mp ht]
      exact hparens
  · rintro d ⟨⟩
    exact ⟨by decide, by decide⟩

end DocComment.TypedValue
