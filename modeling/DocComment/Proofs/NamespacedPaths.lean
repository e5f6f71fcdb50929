import DocComment.Namepath.Namespaced
import DocComment.Proofs.PathCut
import Mathlib.Data.List.TakeWhile

/-!
# Paths with a name space

`withNamespace` cuts a path, and then looks for the name of the last member *at the end of the path*
to write the name space in front of it. On one line such a name is found at most once, where the
path ends in it (`substitute_nameAtEnd`), and nothing changes where it does not
(`substitute_nameAtEnd_of_not`).

A path ends in the name of its last member unless a variation follows, so the name space gets where
it belongs exactly as long as there is no variation. With one, the path comes back without the name
space, but for names that the variation happens to repeat. `withNamespace_cut` tells all cases
apart.
-/

namespace DocComment.Namepath

open DocComment.Text

/-! ### Writing a name anew at the end of a text -/

section AtEnd

variable {name cs : List Char} {write : List Char → List Char}

theorem atEnd_iff (hline : '\n' ∉ cs) : atEnd cs = true ↔ cs = [] := by
  constructor
  · intro h
    unfold atEnd at h
    split at h
    · rfl
    · exact absurd List.mem_cons_self hline
    · cases h
  · rintro rfl
    rfl

/-- On one line `nameAtEnd` recognises a name only where it is all that is left. -/
theorem nameAtEnd_eq (hline : '\n' ∉ cs) (before : Option Char) :
    nameAtEnd name before cs = if cs = name then name.length else 0 := by
  -- On one line the end is the end of the text.
  have hmatch : (name.isPrefixOf cs && atEnd (cs.drop name.length)) = true ↔ cs = name := by
    rw [Bool.and_eq_true, List.isPrefixOf_iff_prefix,
      atEnd_iff fun hmem => hline (List.mem_of_mem_drop hmem)]
    constructor
    · rintro ⟨⟨rest, rfl⟩, hrest⟩
      rw [List.drop_left] at hrest
      rw [hrest, List.append_nil]
    · rintro rfl
      exact ⟨List.prefix_refl _, List.drop_length⟩
  unfold nameAtEnd
  by_cases h : cs = name
  · rw [if_pos (hmatch.mpr h), if_pos h]
  · rw [if_neg (mt hmatch.mp h), if_neg h]

/-- **A text that ends in a name** has the name written anew there by `substitute`, and nowhere
else. -/
theorem substitute_nameAtEnd {before : List Char} (hne : name ≠ [])
    (hline : '\n' ∉ before ++ name) :
    substitute (nameAtEnd name) write (before ++ name) = before ++ write name := by
  have hmiss : ∀ ps c qs, before = ps ++ c :: qs →
      nameAtEnd name (lastBefore none ps) (c :: (qs ++ name)) = 0 := by
    intro ps c qs heq
    -- Too much is left for the name to be all of it.
    have hlonger : c :: (qs ++ name) ≠ name := by
      intro h
      have hlength := congrArg List.length h
      simp only [List.length_cons, List.length_append] at hlength
      omega
    rw [nameAtEnd_eq _ _, if_neg hlonger]
    intro hmem
    refine hline ?_
    rw [heq, List.append_assoc]
    exact List.mem_append_right ps hmem
  have hfound : nameAtEnd name (lastBefore none before) (name ++ []) = name.length := by
    rw [List.append_nil, nameAtEnd_eq (fun hmem => hline (List.mem_append_right before hmem)),
      if_pos rfl]
  have hlast := @substituteFrom_hit _ write _ name [] hne hfound
  rw [List.append_nil, substituteFrom_nil, List.append_nil] at hlast
  rw [substitute_eq_substituteFrom, substituteFrom_run hmiss, hlast]

/-- **A text that does not end in a name** stays as it is under `substitute`. -/
theorem substitute_nameAtEnd_of_not (hline : '\n' ∉ cs) (h : ¬name <:+ cs) :
    substitute (nameAtEnd name) write cs = cs := by
  refine substitute_eq_self fun before c rest hsuffix => ?_
  rw [nameAtEnd_eq (fun hmem => hline (hsuffix.mem hmem)), if_neg]
  intro heq
  exact h (heq ▸ hsuffix)

end AtEnd

/-! ### Schemes -/

/-- Whether a name carries a **scheme**: letters, a colon, and something behind it. -/
def HasScheme (name : List Char) : Prop :=
  ∃ letters c rest, letters ≠ [] ∧ letters.all Char.isAlpha = true ∧
    name = letters ++ ':' :: c :: rest

theorem carriesScheme_iff {name : List Char} (hline : '\n' ∉ name) :
    carriesScheme name = true ↔ HasScheme name := by
  -- Without a line feed the colon may be followed by anything but nothing.
  have hbehind : ∀ rest : List Char, '\n' ∉ rest →
      (!(rest.takeWhile (· != '\n')).isEmpty &&
        atEnd (rest.drop (rest.takeWhile (· != '\n')).length)) =
        !rest.isEmpty := by
    intro rest hrest
    have hwhole : rest.takeWhile (· != '\n') = rest := by
      refine List.takeWhile_eq_self_iff.mpr fun c hc => ?_
      rw [bne_iff_ne]
      rintro rfl
      exact hrest hc
    rw [hwhole, List.drop_length]
    exact Bool.and_true _
  constructor
  · intro h
    have hname : name.takeWhile Char.isAlpha ++ name.drop (name.takeWhile Char.isAlpha).length =
        name :=
      List.prefix_iff_eq_append.mp (List.takeWhile_prefix _)
    unfold carriesScheme at h
    dsimp only at h
    split at h
    · next hletters hrest =>
      rw [hrest] at hname
      rw [hbehind _ fun hmem => hline (hname ▸ List.mem_append_right _
        (List.mem_cons_of_mem _ hmem))] at h
      obtain ⟨c, rest, rfl⟩ := List.exists_cons_of_ne_nil (by simpa using h)
      refine ⟨name.takeWhile Char.isAlpha, c, rest, ?_, List.all_takeWhile, hname.symm⟩
      rw [hletters]
      exact List.cons_ne_nil _ _
    · cases h
  · rintro ⟨letters, c, rest, hne, hletters, rfl⟩
    -- The letters end at the colon, which is none.
    have htake : (letters ++ ':' :: c :: rest).takeWhile Char.isAlpha = letters := by
      rw [List.takeWhile_append_of_pos (List.all_eq_true.mp hletters),
        List.takeWhile_cons_of_neg (by decide), List.append_nil]
    obtain ⟨letter, letters, rfl⟩ := List.exists_cons_of_ne_nil hne
    unfold carriesScheme
    dsimp only
    rw [htake, List.drop_left]
    exact hbehind (c :: rest) fun hmem =>
      hline (List.mem_append_right _ (List.mem_cons_of_mem _ hmem))

/-! ### Name spaces in front of last members -/

/-- The path of parts with the name space `space` in front of its last member. -/
def Parts.inSpace (p : Parts) (space : String) : String :=
  p.memberof ++ p.scopeMark ++ space ++ ":" ++ p.name ++ p.variationSuffix

/-- The path and the path `inSpace` differ in length. -/
theorem Parts.longname_ne_inSpace {p : Parts}
    (h : p.longname = p.memberof ++ p.scopeMark ++ p.name ++ p.variationSuffix) (space : String) :
    p.longname ≠ p.inSpace space := by
  intro heq
  rw [h, inSpace] at heq
  have hlength := congrArg String.length heq
  have hcolon : ":".length = 1 := rfl
  simp only [String.length_append, hcolon] at hlength
  omega

section OneLine

variable {longname : String} (hline : '\n' ∉ longname.toList) (hbrace : '\x7b' ∉ longname.toList)
include hline hbrace

theorem longname_cut_eq :
    (cut longname).longname =
      (cut longname).memberof ++ (cut longname).scopeMark ++ (cut longname).name ++
        (cut longname).variationSuffix := by
  obtain ⟨o, -, hcut⟩ := exists_outline (anchored_pathGlyphs _) (newline_notMem_pathGlyphs hline)
  rw [hcut longname hbrace rfl]
  exact o.longname_parts _

theorem newline_notMem_longname : '\n' ∉ (cut longname).longname.toList := by
  obtain ⟨o, hpath, hcut⟩ := exists_outline (anchored_pathGlyphs _)
    (newline_notMem_pathGlyphs hline)
  rw [hcut longname hbrace rfl, Outline.parts, hpath, String.toList_ofList]
  refine notMem_spell (fun i hmem => ?_) (newline_notMem_pathGlyphs hline)
  -- A quoted part that is not there is empty, and the others come from the path.
  rw [List.getD_eq_getElem?_getD] at hmem
  cases hpart : (quotedParts longname.toList)[i]? with
  | none =>
    rw [hpart] at hmem
    cases hmem
  | some part =>
    rw [hpart] at hmem
    exact hline (mem_of_mem_quotedParts (List.mem_of_getElem? hpart) hmem)

theorem newline_notMem_name : '\n' ∉ (cut longname).name.toList := by
  intro hmem
  apply newline_notMem_longname hline hbrace
  rw [longname_cut_eq hline hbrace]
  simp [hmem]

/-- A last member that is empty or `HasScheme` is left alone by `withNamespace`. -/
theorem withNamespace_of_left_alone
    (h : (cut longname).name = "" ∨ HasScheme (cut longname).name.toList) (space : String) :
    withNamespace longname space = (cut longname).longname := by
  unfold withNamespace
  refine if_pos ?_
  rw [Bool.or_eq_true, carriesScheme_iff (newline_notMem_name hline hbrace)]
  refine h.imp_left fun hempty => ?_
  rw [hempty]
  rfl

section Plain

variable (hne : (cut longname).name ≠ "") (hscheme : ¬HasScheme (cut longname).name.toList)
include hne hscheme

theorem withNamespace_eq (space : String) :
    withNamespace longname space = String.ofList
      (substitute (nameAtEnd (cut longname).name.toList) (fun s => space.toList ++ ':' :: s)
        (cut longname).longname.toList) := by
  unfold withNamespace
  refine if_neg ?_
  rw [Bool.or_eq_true, carriesScheme_iff (newline_notMem_name hline hbrace)]
  rintro (hempty | h)
  · exact hne (by simpa using hempty)
  · exact hscheme h

/-- **Where the path ends in the name**, `withNamespace` puts the name space in front of it. -/
theorem withNamespace_of_end {before : String}
    (hend : (cut longname).longname = before ++ (cut longname).name) (space : String) :
    withNamespace longname space = before ++ space ++ ":" ++ (cut longname).name := by
  have hlong := newline_notMem_longname hline hbrace
  rw [hend, String.toList_append] at hlong
  rw [withNamespace_eq hline hbrace hne hscheme, hend, String.toList_append,
    substitute_nameAtEnd (by simpa using hne) hlong, ← String.toList_inj]
  simp

/-- **Where it does not**, `withNamespace` leaves the path as it is. -/
theorem withNamespace_of_not_end
    (hend : ¬(cut longname).name.toList <:+ (cut longname).longname.toList) (space : String) :
    withNamespace longname space = (cut longname).longname := by
  rw [withNamespace_eq hline hbrace hne hscheme,
    substitute_nameAtEnd_of_not (newline_notMem_longname hline hbrace) hend, String.ofList_toList]

end Plain

end OneLine

/-- **What a name space does to a path.** Take any path on one line without an opening brace, and
its parts by `cut`. A last member that is empty or `HasScheme` is left alone by `withNamespace`. Any
other one gets the name space in front, if it has no variation. If it has one, the path comes back
without the name space; only where name and variation together end in the name again, the name space
goes in front of this second occurrence. -/
theorem withNamespace_cut (longname space : String) (hline : '\n' ∉ longname.toList)
    (hbrace : '\x7b' ∉ longname.toList) (p : Parts) (hp : cut longname = p) :
    (p.name = "" ∨ HasScheme p.name.toList → withNamespace longname space = p.longname) ∧
    (p.name ≠ "" → ¬HasScheme p.name.toList →
      (p.variation = none → withNamespace longname space = p.inSpace space) ∧
      (p.variation ≠ none →
        (∀ before, p.name ++ p.variationSuffix = before ++ p.name →
          withNamespace longname space =
            p.memberof ++ p.scopeMark ++ before ++ space ++ ":" ++ p.name) ∧
        ((∀ before, p.name ++ p.variationSuffix ≠ before ++ p.name) →
          withNamespace longname space = p.longname ∧ p.longname ≠ p.inSpace space))) := by
  have hwhole := longname_cut_eq hline hbrace
  have halone := fun h => withNamespace_of_left_alone hline hbrace h space
  have hend := @withNamespace_of_end _ hline hbrace
  have hnotEnd := @withNamespace_of_not_end _ hline hbrace
  rw [hp] at hwhole halone hend hnotEnd
  refine ⟨halone, fun hne hscheme => ?_⟩
  -- A path ends in its last name together with what follows that name.
  have hrepeats : ∀ before, p.name ++ p.variationSuffix = before ++ p.name →
      withNamespace longname space =
        p.memberof ++ p.scopeMark ++ before ++ space ++ ":" ++ p.name := by
    intro before hbefore
    refine hend hne hscheme ?_ space
    rw [hwhole, String.append_assoc, hbefore, ← String.append_assoc]
  refine ⟨fun hvariation => ?_, fun _ => ⟨hrepeats, fun hends => ⟨?_, ?_⟩⟩⟩
  · have hnothing : p.variationSuffix = "" := by
      rw [Parts.variationSuffix, hvariation]
    rw [hrepeats "" (by rw [hnothing, String.append_empty, String.empty_append]), Parts.inSpace,
      hnothing, String.append_empty, String.append_empty]
  · refine hnotEnd hne hscheme (fun hsuffix => ?_) space
    -- The name is not longer than name and variation, so it would have to be at their end.
    have hlast : (p.name ++ p.variationSuffix).toList <:+ p.longname.toList := by
      refine ⟨(p.memberof ++ p.scopeMark).toList, ?_⟩
      rw [hwhole, String.append_assoc, ← String.toList_append]
    obtain ⟨before, hbefore⟩ := List.suffix_of_suffix_length_le hsuffix hlast (by simp)
    refine hends (String.ofList before) ?_
    rw [← String.toList_inj, ← hbefore]
    simp
  · exact Parts.longname_ne_inSpace hwhole space

/-- A quoted part before the last mark, a last member that is quoted itself, and a name space that
ends in a colon of its own. -/
theorem withNamespace_cut_quoted :
    let path := "shop[\"a.b\"].prototype[\"on(2)\"]"
    ('\n' ∉ path.toList ∧ '\x7b' ∉ path.toList) ∧
      (cut path).name = "\"on(2)\"" ∧ (cut path).variation = none ∧
      withNamespace path "x:" = (cut path).inSpace "x:" := by
  intro path
  have hname : (cut path).name = "\"on(2)\"" := by decide +kernel
  have hvariation : (cut path).variation = none := by decide +kernel
  have hplain := (withNamespace_cut path "x:" (by decide) (by decide) _ rfl).2
  refine ⟨by decide, hname, hvariation, (hplain ?_ ?_).1 hvariation⟩
  · rw [hname]
    decide
  · rw [hname, ← carriesScheme_iff (by decide)]
    decide

/-- **A variation keeps the name space away**: `withNamespace` gives the path back. -/
theorem withNamespace_cut_variation :
    cut "a.b(2)" = { longname := "a.b(2)", memberof := "a", scope := some .static, name := "b",
                     variation := some "2" } ∧
      withNamespace "a.b(2)" "event" = "a.b(2)" ∧
      (cut "a.b(2)").inSpace "event" = "a.event:b(2)" := by
  decide +kernel

example : withNamespace "1)(1)" "event" = "1)(event:1)" := by
  decide +kernel

end DocComment.Namepath
