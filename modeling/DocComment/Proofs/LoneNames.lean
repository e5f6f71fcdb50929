import DocComment.Proofs.Membership
import DocComment.Proofs.QuotedNames
import DocComment.Proofs.ShortenedPaths

/-!
# A name by itself

A comment may give a name and nothing else. The name is then a path, and the doclet has the parts of
this path: `build_name` says so for every name on one line without an opening brace whose path has a
name in it.

There is one exception, and it is about quotes. A name is shortened before it is cut, so that a
prototype inside quotes is written as a mark (`exists_build_name`); a cut would keep it. Where no
quoted part holds a prototype, the two agree.
-/

namespace DocComment.Namepath

/-! ### Variations are not empty -/

theorem nameAndVariation?_ne_nil {cs name variation : List Char}
    (h : nameAndVariation? cs = some (name, variation)) : variation ≠ [] := by
  induction cs generalizing name with
  | nil => cases h
  | cons c cs ih =>
    -- The variation is found at the parenthesis that opens it; everywhere before, the search goes
    -- on.
    unfold nameAndVariation? at h
    split at h
    · cases h
    · split at h
      · next hrest =>
        cases h
        exact ih hrest
      · split at h
        · split at h
          · next hvariation =>
            cases h
            rintro rfl
            exact absurd hvariation (by decide)
          · cases h
        · cases h

theorem findVariation?_ne_nil {cs name variation : List Char}
    (h : findVariation? cs = some (name, variation)) : variation ≠ [] := by
  induction cs with
  | nil => cases h
  | cons c cs ih =>
    rw [findVariation?] at h
    split at h
    · next hfound =>
      cases h
      exact nameAndVariation?_ne_nil hfound
    · exact ih h

/-- A variation that `cut` tells is not empty. -/
theorem variation_cut_ne (s : String) : (cut s).variation ≠ some "" := by
  rw [cut_eq]
  dsimp only
  -- What the last part is does not matter: a variation is only ever split off where there is one.
  generalize (ownerParts (masked s.toList).1).2.2 = last
  unfold nameParts
  split
  · next name variation hsplit =>
    have hne : variation ≠ [] := by
      unfold splitVariation? at hsplit
      split at hsplit
      · exact findVariation?_ne_nil hsplit
      · exact findVariation?_ne_nil hsplit
      · cases hsplit
    rw [Option.map_some, ne_eq, Option.some.injEq, ← String.toList_inj, String.toList_ofList]
    exact hne
  · exact Option.some_ne_none "" ∘ Eq.symm

end DocComment.Namepath

namespace DocComment.Doclet

open DocComment.Text
open DocComment.Namepath

/-! ### The doclet of a name -/

/-- The `RawTag`s of a comment that gives a name and nothing else. -/
def nameTags (n : String) : List RawTag :=
  [⟨"name", some n⟩]

/-- Whether a doclet has exactly the parts `p`: what they do not tell is absent. -/
structure HoldsParts (p : Parts) (d : Doclet) : Prop where
  /-- The name. -/
  name_eq : d.fields .name = .text p.name
  /-- The path. -/
  longname_eq : d.fields .longname = .text p.longname
  /-- The owner, if there is one. -/
  memberof_eq : d.fields .memberof = if p.memberof = "" then .absent else .text p.memberof
  /-- The scope by its word, if there is a mark. -/
  scope_eq : d.fields .scope = .ofText? (p.scope.map Scope.word)
  /-- The variation, if there is one. -/
  variation_eq : d.fields .variation = .ofText? p.variation

/-- **The tag of a name** succeeds in `addTags`, and leaves this field and no other. -/
theorem exists_addTags_name {n : String} (htrim : trim n = n) {d : Doclet}
    (hd : d.setting = standardSetting) :
    ∃ d', addTags (nameTags n) d = .ok () d' ∧ d'.setting = standardSetting ∧
      d'.fields .name = .text n ∧ ∀ g, g ≠ .name → d'.fields g = d.fields g := by
  have hwrites : ∀ raw ∈ nameTags n, Writes standardSetting raw (tagField raw)
      (.text (raw.text.getD "")) := by
    refine List.forall_mem_singleton.mpr ?_
    exact writes_direct (f := .name) htrim rfl (by decide +kernel)
  obtain ⟨d', hadd, hsetting, hvalue, hother⟩ :=
    exists_addTags hwrites (List.pairwise_singleton _ _) hd
  exact ⟨d', hadd, hsetting, hvalue _ List.mem_cons_self,
    fun g hg => hother g fun hmem => hg (List.mem_singleton.mp hmem)⟩

/-- A variation that `cut` tells is never empty, so it is written. -/
theorem getD_presentText_variation (s : String) :
    ((presentText (cut s).variation).map FieldValue.text).getD .absent =
      .ofText? (cut s).variation := by
  cases hvariation : (cut s).variation with
  | none => rfl
  | some v =>
    -- The parentheses are not empty, or they are no variation.
    have hv : v ≠ "" := by
      rintro rfl
      exact variation_cut_ne _ hvariation
    have hpresent : presentText (some v) = some v := by
      simp [presentText, Option.filter, hv]
    rw [hpresent]
    rfl

/-- **The doclet of a name** `HoldsParts` of the name with every prototype shortened, whatever the
quotes are. -/
theorem exists_build_name {n comment : String} (warnUnknown : Bool) (hne : n ≠ "")
    (htrim : trim n = n) (hname : (cut (shortenedName n)).name ≠ "")
    (htags : RawTag.ofComment comment = nameTags n) :
    ∃ d, build .standard comment {} false warnUnknown = .ok () d ∧
      HoldsParts (cut (shortenedName n)) d := by
  have hshort : shortenedName n ≠ "" := by
    rw [shortenedName, ne_eq, ← String.toList_inj, String.toList_ofList]
    exact shortenPrototypes_ne_nil (by simpa using hne)
  obtain ⟨d₁, hadd, hsetting, hfield, hother⟩ := exists_addTags_name htrim
    (d := { blank .standard comment {} false warnUnknown with recording := true }) rfl
  have hfresh : ∀ g, g ≠ .name → d₁.fields g = .absent := fun g hg => hother g hg
  have hkind := hfresh .kind (by decide)
  have hmemberof := hfresh .memberof (by decide)
  have hscope := hfresh .scope (by decide)
  -- Without an owner the name is the whole path.
  have hparts : knownParts (namePath (d₁.fields .name)) [] (scopeOf? (d₁.fields .scope)) =
      some (cut (shortenedName n)) := by
    rw [knownParts, if_pos (by simp), hfield, namePath, if_neg (by simpa using hne),
      FieldValue.display_text, shortenedName]
  have hresolvable : Resolvable d₁ (cut (shortenedName n)) := by
    refine .of_scope (.inl hscope) ⟨[], ?_, hparts⟩ (longname_cut_ne hshort)
      (hfresh .longname (by decide)) ?_
    · rw [hmemberof]
      rfl
    · rw [hkind]
      rfl
  rw [← htags] at hadd
  obtain ⟨d, hbuild, hd⟩ := hresolvable.exists_build hadd hsetting
  -- Owner, scope and variation are those of the parts, for the tags left none.
  refine ⟨d, hbuild, hd.name_of_ne hname, hd.longname_eq.trans (namespaced_of_no_kind hkind _), ?_,
    ?_, ?_⟩
  · rw [hd.memberof_eq, hmemberof]
    simp only [String.isEmpty_iff]
  · rw [hd.scope_eq, hscope]
    cases (cut (shortenedName n)).scope <;> rfl
  · rw [hd.variation_eq, hfresh .variation (by decide), getD_presentText_variation]

/-- **A name by itself has the parts of its cut.** For every name that is not empty, is trimmed,
stands on one line without an opening brace, has no prototype in a quoted part and whose `cut` has a
name, and for every comment whose only tag gives this name: the doclet is built, and its name, path,
owner, scope and variation are those of the cut. -/
theorem build_name (n comment : String) (warnUnknown : Bool) (hne : n ≠ "") (htrim : trim n = n)
    (hline : '\n' ∉ n.toList) (hbrace : '\x7b' ∉ n.toList)
    (hparts : ∀ q ∈ quotedParts n.toList, ¬prototypeText <:+: q) (hname : (cut n).name ≠ "")
    (htags : RawTag.ofComment comment = nameTags n) :
    ∃ d, build .standard comment {} false warnUnknown = .ok () d ∧ HoldsParts (cut n) d := by
  have hcut : cut (shortenedName n) = cut n := cut_shortenPrototypes hline hbrace hparts
  rw [← hcut] at hname ⊢
  exact exists_build_name warnUnknown hne htrim hname htags

/-- A path with a scheme, prototypes before and behind quoted parts, an open quote and a
variation. -/
theorem build_name_nested :
    let n := "x:a.prototype[\"b.c\"].prototype.\"d\" e\"(2)"
    let comment := "/** @name x:a.prototype[\"b.c\"].prototype.\"d\" e\"(2) */"
    (n ≠ "" ∧ trim n = n ∧ '\n' ∉ n.toList ∧ '\x7b' ∉ n.toList ∧
        (∀ q ∈ quotedParts n.toList, ¬prototypeText <:+: q) ∧ (cut n).name ≠ "" ∧
        RawTag.ofComment comment = nameTags n) ∧
      ∃ d, build .standard comment {} false true = .ok () d ∧ HoldsParts (cut n) d := by
  intro n comment
  have htrim : trim n = n := by decide +kernel
  have hparts : ∀ q ∈ quotedParts n.toList, ¬prototypeText <:+: q := by decide +kernel
  have hname : (cut n).name ≠ "" := by decide +kernel
  have htags : RawTag.ofComment comment = nameTags n := by decide +kernel
  exact ⟨⟨by decide, htrim, by decide, by decide, hparts, hname, htags⟩,
    build_name n comment true (by decide) htrim (by decide) (by decide) hparts hname htags⟩

end DocComment.Doclet
