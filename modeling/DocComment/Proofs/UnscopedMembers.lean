import DocComment.Proofs.JoinedPaths
import DocComment.Proofs.LoneNames
import DocComment.Proofs.Spellings

/-!
# Members without a scope

A comment may give a name and an owner and leave the scope out. The member is then taken for a
static one: its path is the owner, a point and the name. A comment that gives the static scope as
well says the same, but the doclet comes about in another way: the path is put together first and
then cut, and the parts of the cut are written back.

`build_unscoped_iff` says when the two doclets agree on name, path, owner, scope and variation. They
do exactly if the path falls into the same owner and the same name again, which is `Joinable`: a
name with a variation, a name that is a path itself, or one that starts with *prototype* is taken as
it is without a scope, and is cut with one.
-/

namespace DocComment.Namepath

open DocComment.Text

/-- The parts of a static member with `p` for the parts of its path: what these do not tell is taken
from the owner and the name that were given. -/
def completed (owner name : String) (p : Parts) : Parts :=
  { p with
    memberof := if p.memberof = "" then owner else p.memberof
    scope := some (p.scope.getD .static)
    name := if p.name = "" then name else p.name }

theorem eq_empty_or_eq_of_completed {told given : String}
    (h : (if told = "" then given else told) = given) : told = "" ∨ told = given := by
  by_cases hempty : told = ""
  · exact .inl hempty
  · rw [if_neg hempty] at h
    exact .inr h

/-- Parts that make up their path and are those of the member once they are `completed` lack
nothing. -/
theorem eq_of_completed {owner name : String} (hne : owner ≠ "") (hne' : name ≠ "") {p : Parts}
    (hlength : p.longname.toList.length =
      p.memberof.toList.length + (markChars p.scope).length + p.name.toList.length)
    (h : completed owner name p = joinedParts owner name) : p = joinedParts owner name := by
  have hlong : p.longname = joined owner name := congrArg Parts.longname h
  have hvariation : p.variation = none := congrArg Parts.variation h
  have hpos : 0 < owner.toList.length := List.length_pos_iff.mpr (by simpa using hne)
  have hpos' : 0 < name.toList.length := List.length_pos_iff.mpr (by simpa using hne')
  have hmark : (markChars p.scope).length ≤ 1 := by
    cases p.scope with
    | none => exact Nat.zero_le 1
    | some s => exact Nat.le_refl 1
  have hempty : "".toList.length = 0 := rfl
  rw [hlong, joined, String.toList_ofList, List.length_append, List.length_cons] at hlength
  -- If one of the two were missing, the path would be longer than its parts.
  have hboth : p.memberof = owner ∧ p.name = name := by
    rcases eq_empty_or_eq_of_completed (congrArg Parts.memberof h) with hm | hm <;>
      rcases eq_empty_or_eq_of_completed (congrArg Parts.name h) with hn | hn
    · rw [hm, hn] at hlength
      omega
    · rw [hm, hn] at hlength
      omega
    · rw [hm, hn] at hlength
      omega
    · exact ⟨hm, hn⟩
  -- With both there, the length of the path leaves room for one mark.
  have hscope : p.scope = some .static := by
    have hgiven : some (p.scope.getD .static) = some Scope.static := congrArg Parts.scope h
    cases hs : p.scope with
    | some s => rwa [hs] at hgiven
    | none =>
      rw [hboth.1, hboth.2, hs, markChars, List.length_nil] at hlength
      omega
  exact Parts.eq_of_fields hlong hboth.1 hscope hboth.2 hvariation

/-- Without a variation, owner, mark and name make up the path that `cut` gives back. -/
theorem length_longname_cut {s : String} (hline : '\n' ∉ s.toList) (hbrace : '\x7b' ∉ s.toList)
    (hvariation : (cut s).variation = none) :
    (cut s).longname.toList.length = (cut s).memberof.toList.length +
      (markChars (cut s).scope).length + (cut s).name.toList.length := by
  obtain ⟨o, -, hcut⟩ :=
    exists_outline (anchored_pathGlyphs s.toList) (newline_notMem_pathGlyphs hline)
  rw [hcut s hbrace rfl] at hvariation ⊢
  have hsuffix : (o.parts fun i => (quotedParts s.toList).getD i []).variationSuffix = "" := by
    rw [Parts.variationSuffix, hvariation]
  have hmark : (o.parts fun i => (quotedParts s.toList).getD i []).scope = o.scope := rfl
  rw [o.longname_parts, hsuffix, o.scopeMark_parts, hmark]
  simp [Nat.add_assoc]

/-- **What was given does not stand in for what a cut has lost**: if the parts of a joined path,
`completed`, are those of the member, then they are so by themselves. -/
theorem completed_cut_iff {owner name : String} (howner : PlainLine owner) (hname : PlainLine name)
    (hne : owner ≠ "") (hne' : name ≠ "") :
    completed owner name (cut (joined owner name)) = joinedParts owner name ↔
      cut (joined owner name) = joinedParts owner name := by
  have hlength := @length_longname_cut (joined owner name)
    (by rw [joined, String.toList_ofList]; exact newline_notMem_join howner hname)
    (by rw [joined, String.toList_ofList]; exact brace_notMem_join howner hname)
  generalize cut (joined owner name) = p at hlength ⊢
  constructor
  · intro h
    exact eq_of_completed hne hne' (hlength (congrArg Parts.variation h)) h
  · rintro rfl
    simp [completed, joinedParts, hne, hne']

end DocComment.Namepath

namespace DocComment.Doclet

open DocComment.Text
open DocComment.Namepath

/-! ### The tags -/

/-- A text that a tag may give for an owner or a name: a `PlainLine`, without an opening brace or a
prototype, trimmed and not empty. -/
structure GivenText (text : String) : Prop extends PlainLine text where
  /-- The text is not empty. -/
  ne_empty : text ≠ ""
  /-- There are no blanks at its ends. -/
  trimmed : trim text = text

/-- The `RawTag`s of a name and an owner. -/
def unscopedTags (owner name : String) : List RawTag :=
  [⟨"name", some name⟩, ⟨"memberof", some owner⟩]

/-- The `RawTag`s of a name, an owner and the static scope. -/
def staticTags (owner name : String) : List RawTag :=
  unscopedTags owner name ++ [⟨Scope.static.word, none⟩]

section Tags

variable {owner name : String} (howner : GivenText owner) (hname : GivenText name)
include howner hname

theorem writes_unscopedTags : ∀ raw ∈ unscopedTags owner name,
    Writes standardSetting raw (givenField raw) (givenValue raw) := by
  refine List.forall_mem_cons.mpr ⟨?_, List.forall_mem_singleton.mpr ?_⟩
  · exact writes_direct (f := .name) hname.trimmed rfl (by decide +kernel)
  · exact writes_memberof howner.trimmed howner.ne_empty

theorem writes_staticTags : ∀ raw ∈ staticTags owner name,
    Writes standardSetting raw (givenField raw) (givenValue raw) := by
  refine List.forall_mem_append.mpr ⟨writes_unscopedTags howner hname, ?_⟩
  exact List.forall_mem_singleton.mpr (writes_scopeTitle .static)

end Tags

/-! ### The two doclets -/

/-- A text on one line has `endsInMark` only if a mark is its last character. -/
theorem endsInMark_of_getLast? {cs : List Char} (hline : '\n' ∉ cs)
    (hmark : ∀ s : Scope, cs.getLast? ≠ some s.mark) : endsInMark cs = false := by
  rcases List.eq_nil_or_concat cs with rfl | ⟨before, c, rfl⟩
  · rfl
  · rw [List.concat_eq_append] at hline hmark ⊢
    have hc : c ≠ '\n' := by
      rintro rfl
      exact hline (List.mem_append_right _ List.mem_cons_self)
    rw [endsInMark_append_singleton _ hc, ← Bool.not_eq_true, Scope.isMark_iff]
    rintro ⟨s, rfl⟩
    exact hmark s List.getLast?_concat

theorem joined_eq (owner name : String) :
    joined owner name = owner ++ String.ofList [Scope.static.mark] ++ name := by
  rw [joined, ← String.toList_inj]
  simp [Scope.mark]

/-- Where name, owner and static scope were given, `Resolved` names are the `completed` parts. -/
theorem Resolved.holdsParts {owner name : String} {d d' : Doclet} {p : Parts} (h : Resolved d p d')
    (hname : d.fields .name = .text name) (hmemberof : d.fields .memberof = .text owner)
    (hne : owner ≠ "") (hscope : d.fields .scope = .text Scope.static.word)
    (hkind : d.fields .kind = .absent)
    (hvariation : ((presentText p.variation).map .text).getD (d.fields .variation) =
      .ofText? p.variation) :
    HoldsParts (completed owner name p) d' := by
  refine ⟨?_, h.longname_eq.trans (namespaced_of_no_kind hkind _), ?_, ?_,
    h.variation_eq.trans hvariation⟩
  · rw [h.name_eq, hname, completed]
    by_cases hempty : p.name = "" <;> simp [hempty]
  · rw [h.memberof_eq, hmemberof, completed]
    by_cases hempty : p.memberof = "" <;> simp [hempty, hne]
  · rw [h.scope_eq, hscope, completed]
    cases p.scope <;> rfl

section Built

variable {owner name comment : String} (howner : GivenText owner) (hname : GivenText name)
  (hmark : ∀ s : Scope, owner.toList.getLast? ≠ some s.mark)
  (hbegins : ¬owner.toList <+: name.toList) (warnUnknown : Bool)
include howner hname hmark hbegins

/-- **The doclet of a member without a scope** has name and owner as they are given: these are its
`joinedParts`. -/
theorem exists_build_unscoped
    (htags : (RawTag.ofComment comment).Perm (unscopedTags owner name)) :
    ∃ d, build .standard comment {} false warnUnknown = .ok () d ∧
      HoldsParts (joinedParts owner name) d := by
  obtain ⟨d₁, hadd, hsetting, hvalues, hother⟩ :=
    exists_addTags_given (writes_unscopedTags howner hname) (by simp [unscopedTags]) htags
      (d := { blank .standard comment {} false warnUnknown with recording := true }) rfl
  -- Name and owner suffice for no cut, so the member is made static when all tags are in.
  have hfresh : ∀ g, g ∉ [Field.name, .memberof] → d₁.fields g = .absent := hother
  have hfield : d₁.fields .name = .text name := hvalues _ List.mem_cons_self
  have hmemberof : d₁.fields .memberof = .text owner :=
    hvalues _ (List.mem_cons_of_mem _ List.mem_cons_self)
  obtain ⟨d, hbuild, hname', hmemberof', hscope', hlong', hvariation'⟩ :=
    exists_build_deferred hname.ne_empty hname.no_prototype howner.ne_empty howner.no_prototype
      (endsInMark_of_getLast? howner.no_line hmark) hbegins hadd hsetting hfield hmemberof
      (hfresh _ (by decide)) (hfresh _ (by decide)) (hfresh _ (by decide))
  refine ⟨d, hbuild, hname', ?_, ?_, hscope', ?_⟩
  · rw [hlong', ← joined_eq]
    rfl
  · exact hmemberof'.trans (if_neg howner.ne_empty).symm
  · rw [hvariation', hfresh _ (by decide)]
    rfl

/-- **The doclet of a member with the static scope** has the parts that `cut` finds in the joined
path, and what was given where these tell nothing. -/
theorem exists_build_static
    (htags : (RawTag.ofComment comment).Perm (staticTags owner name)) :
    ∃ d, build .standard comment {} false warnUnknown = .ok () d ∧
      HoldsParts (completed owner name (cut (joined owner name))) d := by
  obtain ⟨d₁, hadd, hsetting, hvalues, hother⟩ :=
    exists_addTags_given (writes_staticTags howner hname) (by simp [staticTags, unscopedTags]) htags
      (d := { blank .standard comment {} false warnUnknown with recording := true }) rfl
  have hfresh : ∀ g, g ∉ [Field.name, .memberof, .scope] → d₁.fields g = .absent := hother
  have hfield : d₁.fields .name = .text name := hvalues _ List.mem_cons_self
  have hmemberof : d₁.fields .memberof = .text owner :=
    hvalues _ (List.mem_cons_of_mem _ List.mem_cons_self)
  have hscope : d₁.fields .scope = .text Scope.static.word :=
    hvalues ⟨Scope.static.word, none⟩ (List.mem_append_right _ List.mem_cons_self)
  have hkind : d₁.fields .kind = .absent := hfresh _ (by decide)
  -- The scope tells the mark that joins owner and name.
  have hparts : knownParts name.toList owner.toList (some .static) =
      some (cut (joined owner name)) := by
    rw [knownParts, if_neg, if_neg]
    · rfl
    · simp [endsInMark_of_getLast? howner.no_line hmark]
    · simp [List.isPrefixOf_iff_prefix, hbegins, howner.ne_empty]
  have hjoined : joined owner name ≠ "" := by
    rw [joined_eq]
    simp
  -- All that resolving asks for: parts with a path, no path before, and no kind.
  have hresolvable : Resolvable d₁ (cut (joined owner name)) := by
    refine .of_scope (.inr ⟨.static, hscope⟩) ⟨owner.toList, ?_, ?_⟩ (longname_cut_ne hjoined)
      (hfresh _ (by decide)) ?_
    · rw [hmemberof, ownerPath, shortenPrototypes_eq_self howner.no_prototype]
    · rw [hfield, namePath_text, shortenPrototypes_eq_self hname.no_prototype, hscope, scopeOf?,
        Scope.ofWord?_word, hparts]
    · rw [hkind]
      rfl
  obtain ⟨d, hbuild, hd⟩ := hresolvable.exists_build hadd hsetting
  refine ⟨d, hbuild, hd.holdsParts hfield hmemberof howner.ne_empty hscope hkind ?_⟩
  rw [hfresh _ (by decide), getD_presentText_variation]

end Built

/-! ### Where they agree -/

/-- The fields that tell the names of a symbol, one for each of the `Parts`. -/
def partFields : List Field :=
  [.name, .longname, .memberof, .scope, .variation]

theorem ofText?_inj {a b : Option String} (h : FieldValue.ofText? a = .ofText? b) : a = b := by
  cases a <;> cases b <;> simp_all [FieldValue.ofText?]

theorem owner_inj {a b : String}
    (h : (if a = "" then FieldValue.absent else .text a) = if b = "" then .absent else .text b) :
    a = b := by
  by_cases ha : a = "" <;> by_cases hb : b = "" <;> simp_all

theorem word_inj {s t : Scope} (h : s.word = t.word) : s = t := by
  have hsame := congrArg Scope.ofWord? h
  rwa [Scope.ofWord?_word, Scope.ofWord?_word, Option.some.injEq] at hsame

/-- Doclets with `HoldsParts` agree on their names exactly if the parts are the same. -/
theorem HoldsParts.agree_iff {p q : Parts} {d e : Doclet} (hd : HoldsParts p d)
    (he : HoldsParts q e) : (∀ f ∈ partFields, d.fields f = e.fields f) ↔ p = q := by
  simp only [partFields, List.forall_mem_cons, List.not_mem_nil, false_implies, implies_true,
    and_true, hd.name_eq, he.name_eq, hd.longname_eq, he.longname_eq, hd.memberof_eq,
    he.memberof_eq, hd.scope_eq, he.scope_eq, hd.variation_eq, he.variation_eq,
    FieldValue.text.injEq]
  constructor
  · rintro ⟨hname, hlong, hmemberof, hscope, hvariation⟩
    -- Each field tells its part: different parts are written differently.
    have hsame := (Option.map_inj_right fun _ _ => word_inj).mp (ofText?_inj hscope)
    exact Parts.eq_of_fields hlong (owner_inj hmemberof) hsame hname (ofText?_inj hvariation)
  · rintro rfl
    exact ⟨rfl, rfl, rfl, rfl, rfl⟩

/-- **When a missing scope means the same as the static one.** For an owner and a name on one line,
without an opening brace or a prototype, trimmed and not empty, where the owner does not end in a
mark and does not start the name: a comment whose tags give the two, in any order, makes a doclet
that has this name, this owner, the static scope and the two joined by a point for a path. A comment
that gives the static scope as well makes a doclet with the parts of this path; a name and an owner
that the path does not tell are those that were given. The two agree on name, path, owner, scope and
variation exactly if owner and name are `Joinable`. -/
theorem build_unscoped_iff (owner name comment comment' : String) (warnUnknown warnUnknown' : Bool)
    (howner : GivenText owner) (hname : GivenText name)
    (hmark : ∀ s : Scope, owner.toList.getLast? ≠ some s.mark)
    (hbegins : ¬owner.toList <+: name.toList)
    (htags : (RawTag.ofComment comment).Perm (unscopedTags owner name))
    (htags' : (RawTag.ofComment comment').Perm (staticTags owner name)) :
    ∃ d e, build .standard comment {} false warnUnknown = .ok () d ∧
      build .standard comment' {} false warnUnknown' = .ok () e ∧
      HoldsParts (joinedParts owner name) d ∧
      HoldsParts (completed owner name (cut (joined owner name))) e ∧
      ((∀ f ∈ partFields, d.fields f = e.fields f) ↔ Joinable owner name) := by
  obtain ⟨d, hbuild, hd⟩ := exists_build_unscoped howner hname hmark hbegins warnUnknown htags
  obtain ⟨e, hbuild', he⟩ := exists_build_static howner hname hmark hbegins warnUnknown' htags'
  refine ⟨d, e, hbuild, hbuild', hd, he, ?_⟩
  have howner' := howner.toPlainLine
  have hname' := hname.toPlainLine
  calc (∀ f ∈ partFields, d.fields f = e.fields f)
      ↔ joinedParts owner name = completed owner name (cut (joined owner name)) :=
        hd.agree_iff he
    _ ↔ cut (joined owner name) = joinedParts owner name :=
        eq_comm.trans (completed_cut_iff howner' hname' howner.ne_empty hname.ne_empty)
    _ ↔ Joinable owner name := cut_joined_iff howner' hname'

/-- A quoted name of a quoted owner, with marks inside the quotes: the two are `Joinable`. -/
theorem build_unscoped_iff_quoted :
    let owner := "ns.\"a.b\""
    let name := "\"c~d\""
    let comment := "/**\n * @name \"c~d\"\n * @memberof ns.\"a.b\"\n */"
    let comment' := "/**\n * @static\n * @memberof ns.\"a.b\"\n * @name \"c~d\"\n */"
    (GivenText owner ∧ GivenText name ∧ (∀ s : Scope, owner.toList.getLast? ≠ some s.mark) ∧
        ¬owner.toList <+: name.toList ∧
        (RawTag.ofComment comment).Perm (unscopedTags owner name) ∧
        (RawTag.ofComment comment').Perm (staticTags owner name)) ∧
      Joinable owner name ∧
      ∃ d e, build .standard comment {} false true = .ok () d ∧
        build .standard comment' {} false true = .ok () e ∧
        ∀ f ∈ partFields, d.fields f = e.fields f := by
  intro owner name comment comment'
  have howner : GivenText owner :=
    ⟨⟨by decide, by decide, by decide +kernel⟩, by decide, by decide +kernel⟩
  have hname : GivenText name :=
    ⟨⟨by decide, by decide, by decide +kernel⟩, by decide, by decide +kernel⟩
  have hmark : ∀ s : Scope, owner.toList.getLast? ≠ some s.mark := fun s => by cases s <;> decide
  have hbegins : ¬owner.toList <+: name.toList := by decide
  have htags : (RawTag.ofComment comment).Perm (unscopedTags owner name) := by decide +kernel
  have htags' : (RawTag.ofComment comment').Perm (staticTags owner name) := by decide +kernel
  -- Both are settled, and the quote that is open in neither is closed in both.
  have hjoinable : Joinable owner name :=
    ⟨by decide +kernel, by decide +kernel, by decide, by decide +kernel⟩
  obtain ⟨d, e, hbuild, hbuild', -, -, hagree⟩ :=
    build_unscoped_iff owner name comment comment' true true howner hname hmark hbegins htags htags'
  exact ⟨⟨howner, hname, hmark, hbegins, htags, htags'⟩, hjoinable, d, e, hbuild, hbuild',
    hagree.mpr hjoinable⟩

/-- **A scope that makes a difference**: the name `b(2)` of the owner `M` is kept as it is without a
scope, and is the name `b` with a variation if the static scope is given. -/
theorem build_unscoped_iff_variation :
    let comment := "/**\n * @name b(2)\n * @memberof M\n */"
    let comment' := "/**\n * @name b(2)\n * @memberof M\n * @static\n */"
    (GivenText "M" ∧ GivenText "b(2)" ∧ (∀ s : Scope, "M".toList.getLast? ≠ some s.mark) ∧
        ¬"M".toList <+: "b(2)".toList ∧
        RawTag.ofComment comment = unscopedTags "M" "b(2)" ∧
        RawTag.ofComment comment' = staticTags "M" "b(2)") ∧
      ∃ d e, build .standard comment {} false false = .ok () d ∧
        build .standard comment' {} false false = .ok () e ∧
        d.fields .name = .text "b(2)" ∧ d.fields .variation = .absent ∧
        e.fields .name = .text "b" ∧ e.fields .variation = .text "2" ∧
        ¬∀ f ∈ partFields, d.fields f = e.fields f := by
  intro comment comment'
  have howner : GivenText "M" :=
    ⟨⟨by decide, by decide, by decide +kernel⟩, by decide, by decide +kernel⟩
  have hname : GivenText "b(2)" :=
    ⟨⟨by decide, by decide, by decide +kernel⟩, by decide, by decide +kernel⟩
  have hmark : ∀ s : Scope, "M".toList.getLast? ≠ some s.mark := fun s => by cases s <;> decide
  have hbegins : ¬"M".toList <+: "b(2)".toList := by decide
  have htags : RawTag.ofComment comment = unscopedTags "M" "b(2)" := by decide +kernel
  have htags' : RawTag.ofComment comment' = staticTags "M" "b(2)" := by decide +kernel
  -- The cut of the joined path takes the variation off the name.
  have hparts : completed "M" "b(2)" (cut (joined "M" "b(2)")) =
      { longname := "M.b(2)"
        memberof := "M"
        scope := some .static
        name := "b"
        variation := some "2" } := by
    decide +kernel
  obtain ⟨d, hbuild, hd⟩ :=
    exists_build_unscoped howner hname hmark hbegins false (List.Perm.of_eq htags)
  obtain ⟨e, hbuild', he⟩ :=
    exists_build_static howner hname hmark hbegins false (List.Perm.of_eq htags')
  rw [hparts] at he
  -- The two doclets differ in the variation.
  refine ⟨⟨howner, hname, hmark, hbegins, htags, htags'⟩, d, e, hbuild, hbuild', hd.name_eq,
    hd.variation_eq, he.name_eq, he.variation_eq, fun hagree => ?_⟩
  have hsame := hagree .variation (by decide)
  rw [hd.variation_eq, he.variation_eq] at hsame
  cases hsame

end DocComment.Doclet
