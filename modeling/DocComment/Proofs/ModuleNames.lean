import DocComment.Proofs.Membership
import DocComment.Proofs.QuotedNames

/-!
# Modules and their members

The name of a module may be any text on one line that has no double quote and no opening brace, such
as the name of a file. It goes in quotes where it has to, and its path is the name behind `module:`.
Two questions are answered here for all such names.

`build_module` says what becomes of the name. Name and path are those of the name *with every
prototype shortened*, because names are shortened before their quotes are looked at. So the name
survives exactly if there is no `.prototype` in it, and two modules share a path exactly if their
names are the same when shortened, as `a.prototype.b` and `a#b` are.

`build_moduleMember` says whether a member finds its module again, when it is given the path of the
module for an owner. It does exactly if the name of the module needs no quotes. Otherwise a point
comes between `module:` and the quoted name, in the owner as well as in the path of the member, and
the owner is a path that no module has.
-/

namespace DocComment.Doclet

open DocComment.Text
open DocComment.Namepath

/-! ### The doclet of a module -/

/-- Whether a text is the **name of a module**: it is not empty, has no blanks at its ends, and
stands on one line without a double quote or an opening brace. -/
structure IsModuleName (m : String) : Prop where
  /-- It is not empty. -/
  ne : m ≠ ""
  /-- It has no blanks at its ends. -/
  trimmed : trim m = m
  /-- It may stand in quotes. -/
  unquoted : Unquoted m.toList

/-- The `RawTag`s of a comment that describes a module and nothing else. -/
def moduleTags (m : String) : List RawTag :=
  [⟨"module", some m⟩]

/-- The path of a module that goes by the name `m`. -/
def modulePath (m : String) : String :=
  "module:" ++ quotedName m

/-- Whether a doclet is that of a module which goes by the name `m`. -/
structure HoldsModule (m : String) (d : Doclet) : Prop where
  /-- The kind. -/
  kind_eq : d.fields .kind = .text "module"
  /-- The name, in quotes if it needs them. -/
  name_eq : d.fields .name = .text (quotedName m)
  /-- The path. -/
  longname_eq : d.fields .longname = .text (modulePath m)
  /-- There is no owner. -/
  no_owner : d.fields .memberof = .absent
  /-- There is no scope. -/
  no_scope : d.fields .scope = .absent
  /-- There is no variation. -/
  no_variation : d.fields .variation = .absent

theorem find?_module :
    Dictionary.standard.find? "module" = some (Standard.namespaceTag "module" []) := rfl

/-- The `tagOperations` of a module are two writes. -/
theorem tagOperations_module {m : String} (hm : IsModuleName m) :
    tagOperations .standard {} "module" m =
      [.set .kind (.text "module"), .set .name (.text (quotedName m))] := by
  have hdirect : directField? "module" = none := by
    decide +kernel
  have hquote : Dictionary.standard.quoteName "module" m = quotedName m := by
    rw [Dictionary.quoteName, find?_module]
    exact quoteUnsafe_eq hm.unquoted.1
  -- The tag has no types, so its value is its text.
  have hread : Tag.read .standard "module" m = ⟨"module", "module", m, .plain m, true⟩ := by
    have hvalue : Tag.valueOf (Standard.namespaceTag "module" []) m = .plain m := by
      rw [Tag.valueOf, if_pos]
      simp [Standard.namespaceTag]
    rw [Tag.read, find?_module]
    change Tag.mk "module" "module" (trim m) (Tag.valueOf _ (trim m)) true = _
    rw [hm.trimmed, hvalue]
  simp [tagOperations, hookOperations, hread, find?_module, rulesOf, Standard.namespaceTag,
    Rule.operations, FieldValue.ofTagValue, hm.ne, hquote, directOperations, hdirect]

/-- **The tag of a module** succeeds in `addTags`, and leaves a kind and a name, and no other
field. -/
theorem exists_addTags_module {m : String} (hm : IsModuleName m) {d : Doclet}
    (hd : d.setting = standardSetting) :
    ∃ d', addTags (moduleTags m) d = .ok () d' ∧ d'.setting = standardSetting ∧
      d'.fields .kind = .text "module" ∧ d'.fields .name = .text (quotedName m) ∧
      ∀ g, g ∉ [Field.kind, .name] → d'.fields g = d.fields g := by
  obtain ⟨hdictionary, horigin, hflag⟩ : d.dictionary = .standard ∧ d.origin = {} ∧
      d.preserveName = .flag false := by
    simpa [setting, standardSetting] using hd
  have hbased : ∀ definition, d.dictionary.find? "module" = some definition →
      isRuleBased definition = true := by
    intro definition hfound
    rw [hdictionary, find?_module] at hfound
    obtain rfl := Option.some.inj hfound
    rfl
  have hkeeps : keepsNameOf d.dictionary "module" = false := by
    rw [hdictionary, keepsNameOf, find?_module]
    rfl
  -- The tag is known, keeps no name, and comes down to two writes.
  have hoperations : tagOperations d.dictionary d.origin "module" m =
      [.set .kind (.text "module"), .set .name (.text (quotedName m))] := by
    rw [hdictionary, horigin, tagOperations_module hm]
  obtain ⟨remarks, hadd⟩ := exists_addTag hflag "module" m hbased fun remarks => by
    rw [hoperations]
    exact ⟨rfl, rfl, trivial⟩
  rw [hoperations, hkeeps] at hadd
  -- One write after the other.
  have h₁ : Wrote (d.noting remarks) .kind (.text "module") _ :=
    @wrote_perform (.set .kind (.text "module")) rfl _
  have h₂ : Wrote _ .name (.text (quotedName m)) _ :=
    @wrote_perform (.set .name (.text (quotedName m))) rfl
      ((d.noting remarks).perform (.set .kind (.text "module")))
  refine ⟨_, ?_, ?_, ?_, h₂.field_eq, ?_⟩
  · rw [moduleTags, addTags]
    exact bind_ok hadd
  · rw [h₂.setting_eq, h₁.setting_eq]
    exact hd
  · rw [h₂.other _ (by decide)]
    exact h₁.field_eq
  · intro g hg
    simp only [List.mem_cons, List.not_mem_nil, or_false, not_or] at hg
    rw [h₂.other g hg.2, h₁.other g hg.1, fields_noting]

/-- By `namespaced` the kind of a module puts its name space before a name. -/
theorem namespaced_module {m : String} (hm : Unquoted m.toList) (hne : m ≠ "") {d : Doclet}
    (hsetting : d.setting = standardSetting) (hkind : d.fields .kind = .text "module") :
    d.namespaced (.text (quotedName m)) = .text (modulePath m) := by
  have hspace : d.hasNamespaceKind = true := by
    rw [hasNamespaceKind, hkind, show d.dictionary = .standard from congrArg Prod.fst hsetting]
    decide +kernel
  unfold namespaced
  rw [hspace, hkind, Bool.and_true, if_pos (by simp [quotedName_ne hne]), FieldValue.display_text,
    FieldValue.display_text, withNamespace_quotedName hm hne]
  rfl

/-- **Where the tags leave a kind and a name that is a path by itself**, this name is taken, and the
path is the name `namespaced` by the kind. -/
theorem exists_build_of_name {comment q : String} {warnUnknown : Bool} {d : Doclet}
    (htags : addTags (RawTag.ofComment comment)
      { blank .standard comment {} false warnUnknown with recording := true } = .ok () d)
    (hsetting : d.setting = standardSetting)
    (hcut : cut (String.ofList (namePath (d.fields .name))) = { longname := q, name := q })
    (hne : q ≠ "") (hkind : (d.fields .kind).isKey = true)
    (hfresh : ∀ g, g ∉ [Field.kind, .name] → d.fields g = .absent) :
    ∃ d', build .standard comment {} false warnUnknown = .ok () d' ∧ d'.fields .name = .text q ∧
      d'.fields .longname = d.namespaced (.text q) ∧
      ∀ g, g ∉ [Field.name, .longname] → d'.fields g = d.fields g := by
  have hmemberof := hfresh .memberof (by decide)
  have hscope := hfresh .scope (by decide)
  have hresolvable : Resolvable d { longname := q, name := q } := by
    refine .of_scope (.inl hscope) ⟨[], ?_, ?_⟩ hne (hfresh .longname (by decide)) hkind
    · rw [hmemberof]
      rfl
    · -- Without an owner the name is the whole path.
      rw [knownParts, if_pos (by simp), hcut]
  obtain ⟨d', hbuild, hd'⟩ := hresolvable.exists_build htags hsetting
  refine ⟨d', hbuild, hd'.name_of_ne hne, hd'.longname_eq, fun g hg => ?_⟩
  -- The cut has told neither an owner nor a scope nor a variation.
  simp only [List.mem_cons, List.not_mem_nil, or_false, not_or] at hg
  by_cases hmember : g = .memberof
  · rw [hmember, hd'.memberof_eq]
    rfl
  by_cases hscoped : g = .scope
  · rw [hscoped, hd'.scope_eq]
    rfl
  by_cases hvaried : g = .variation
  · rw [hvaried, hd'.variation_eq]
    rfl
  exact hd'.other g (by simp [hg, hmember, hscoped, hvaried])

/-- **The doclet of a module** goes by its `shortenedName`. -/
theorem exists_build_module {m comment : String} (warnUnknown : Bool) (hm : IsModuleName m)
    (htags : RawTag.ofComment comment = moduleTags m) :
    ∃ d, build .standard comment {} false warnUnknown = .ok () d ∧
      HoldsModule (shortenedName m) d := by
  have hunquoted := unquoted_shortenedName hm.unquoted
  have hne : shortenedName m ≠ "" := by
    rw [shortenedName, ne_eq, ← String.toList_inj, String.toList_ofList]
    exact shortenPrototypes_ne_nil (by simpa using hm.ne)
  obtain ⟨d₁, hadd, hsetting, hkind, hname, hother⟩ := exists_addTags_module hm
    (d := { blank .standard comment {} false warnUnknown with recording := true }) rfl
  rw [← htags] at hadd
  -- The name was quoted with its prototypes, and these go inside the quotes as well.
  have hcut : cut (String.ofList (namePath (d₁.fields .name))) =
      { longname := quotedName (shortenedName m), name := quotedName (shortenedName m) } := by
    rw [hname, namePath, if_neg (by simpa using quotedName_ne hm.ne), FieldValue.display_text,
      shortenPrototypes_quotedName, cut_quotedName hunquoted hne]
  have hkey : (d₁.fields .kind).isKey = true := by
    rw [hkind]
    rfl
  obtain ⟨d, hbuild, hfield, hpath, hrest⟩ :=
    exists_build_of_name hadd hsetting hcut (quotedName_ne hne) hkey hother
  -- Kind, owner, scope and variation are as the tag left them.
  refine ⟨d, hbuild, ?_, hfield, ?_, ?_, ?_, ?_⟩
  · rw [hrest _ (by decide), hkind]
  · rw [hpath, namespaced_module hunquoted hne hsetting hkind]
  · rw [hrest _ (by decide), hother _ (by decide)]
    rfl
  · rw [hrest _ (by decide), hother _ (by decide)]
    rfl
  · rw [hrest _ (by decide), hother _ (by decide)]
    rfl

/-- `modulePath` tells names apart. -/
theorem modulePath_inj {a b : String} (ha : Unquoted a.toList) (hb : Unquoted b.toList) :
    modulePath a = modulePath b ↔ a = b := by
  constructor
  · intro h
    rw [modulePath, modulePath, String.append_right_inj] at h
    exact quotedName_injective ha.1 hb.1 h
  · rintro rfl
    rfl

/-- **What becomes of the name of a module.** For every name of a module and every comment whose
only tag gives it, the doclet is built, and it is that of a module which goes by its
`shortenedName`, without owner, scope and variation. So it goes by its own name exactly if there is
no prototype in it; and it shares its path with the doclet of another module exactly if the names of
both are the same when shortened, hence not at all if neither of two different names has a prototype
in it. -/
theorem build_module (m comment : String) (warnUnknown : Bool) (hm : IsModuleName m)
    (htags : RawTag.ofComment comment = moduleTags m) :
    ∃ d, build .standard comment {} false warnUnknown = .ok () d ∧
      HoldsModule (shortenedName m) d ∧ (HoldsModule m d ↔ ¬prototypeText <:+: m.toList) ∧
      ∀ (m' comment' : String) (warnUnknown' : Bool) (d' : Doclet), IsModuleName m' →
        RawTag.ofComment comment' = moduleTags m' →
        build .standard comment' {} false warnUnknown' = .ok () d' →
        (d'.fields .longname = d.fields .longname ↔ shortenedName m' = shortenedName m) ∧
        (¬prototypeText <:+: m.toList → ¬prototypeText <:+: m'.toList →
          d'.fields .longname = d.fields .longname → m' = m) := by
  obtain ⟨d, hbuild, hd⟩ := exists_build_module warnUnknown hm htags
  have hunquoted := unquoted_shortenedName hm.unquoted
  refine ⟨d, hbuild, hd, ?_, ?_⟩
  · rw [← shortenedName_eq_self_iff]
    constructor
    · intro hown
      -- It goes by both names, and the path tells them apart.
      have hpath := hd.longname_eq.symm.trans hown.longname_eq
      rwa [FieldValue.text.injEq, modulePath_inj hunquoted hm.unquoted] at hpath
    · intro hsame
      rwa [hsame] at hd
  · intro m' comment' warnUnknown' d' hm' htags' hbuild'
    obtain ⟨d'', hbuild'', hd''⟩ := exists_build_module warnUnknown' hm' htags'
    -- There is one doclet of the other module only, and it goes by its shortened name as well.
    obtain rfl : d'' = d' := by
      rw [hbuild'] at hbuild''
      cases hbuild''
      rfl
    have hshared : d''.fields .longname = d.fields .longname ↔
        shortenedName m' = shortenedName m := by
      rw [hd''.longname_eq, hd.longname_eq, FieldValue.text.injEq,
        modulePath_inj (unquoted_shortenedName hm'.unquoted) hunquoted]
    refine ⟨hshared, fun hplain hplain' hsame => ?_⟩
    rw [← shortenedName_eq_self_iff] at hplain hplain'
    rw [← hplain', ← hplain]
    exact hshared.mp hsame

/-- A name with marks, a slash, parentheses, brackets and a colon. -/
theorem build_module_file :
    let m := "src/x~y.min.js (v[2]): proto.type"
    let comment := "/**\n * @module src/x~y.min.js (v[2]): proto.type\n */"
    (IsModuleName m ∧ RawTag.ofComment comment = moduleTags m) ∧
      ∃ d, build .standard comment {} false true = .ok () d ∧ HoldsModule m d := by
  intro m comment
  have hm : IsModuleName m := ⟨by decide, by decide +kernel, by decide +kernel⟩
  have htags : RawTag.ofComment comment = moduleTags m := by
    decide +kernel
  obtain ⟨d, hbuild, -, hown, -⟩ := build_module m comment true hm htags
  exact ⟨⟨hm, htags⟩, d, hbuild, hown.mpr (by decide +kernel)⟩

/-- The modules `a.prototype.b` and `a#b` share their path, and the first does not go by its
name. -/
theorem build_module_shared :
    (IsModuleName "a.prototype.b" ∧ IsModuleName "a#b") ∧
      ∃ d d', build .standard "/**\n * @module a.prototype.b\n */" {} false false = .ok () d ∧
        build .standard "/**\n * @module a#b\n */" {} false false = .ok () d' ∧
        d.fields .name = .text "\"a#b\"" ∧ d.fields .longname = .text "module:\"a#b\"" ∧
        d.fields .name ≠ .text "\"a.prototype.b\"" ∧ d'.fields .longname = d.fields .longname := by
  have htags : RawTag.ofComment "/**\n * @module a.prototype.b\n */" =
      moduleTags "a.prototype.b" := by
    decide +kernel
  have htags' : RawTag.ofComment "/**\n * @module a#b\n */" = moduleTags "a#b" := by
    decide +kernel
  -- Both names are shortened to the same one, so both doclets hold the same path.
  have hshort : shortenedName "a.prototype.b" = "a#b" ∧ shortenedName "a#b" = "a#b" ∧
      quotedName "a#b" = "\"a#b\"" ∧ modulePath "a#b" = "module:\"a#b\"" := by
    decide +kernel
  obtain ⟨h₁, h₂, hname, hpath⟩ := hshort
  have hm : IsModuleName "a.prototype.b" := ⟨by decide, by decide +kernel, by decide⟩
  have hm' : IsModuleName "a#b" := ⟨by decide, by decide +kernel, by decide⟩
  obtain ⟨d, hbuild, hd⟩ := exists_build_module false hm htags
  obtain ⟨d', hbuild', hd'⟩ := exists_build_module false hm' htags'
  rw [h₁] at hd
  rw [h₂] at hd'
  refine ⟨⟨hm, hm'⟩, d, d', hbuild, hbuild', ?_, ?_, ?_, ?_⟩
  · rw [hd.name_eq, hname]
  · rw [hd.longname_eq, hpath]
  · rw [hd.name_eq, hname, ne_eq, FieldValue.text.injEq]
    decide
  · rw [hd'.longname_eq, hd.longname_eq]

/-! ### Members of a module -/

/-- The tags of a comment that describes a member of the owner `owner`. -/
def memberTags (owner n : String) (s : Scope) : List RawTag :=
  [⟨"name", some n⟩, ⟨"memberof", some owner⟩, ⟨"scope", some s.word⟩]

/-- Without a prototype in the name of a module, `ownerPath` takes its path as it is. -/
theorem ownerPath_modulePath {m : String} (hplain : ¬prototypeText <:+: m.toList) :
    ownerPath (.text (modulePath m)) = .ok (modulePath m).toList := by
  have hname : shortenPrototypes (quotedName m).toList = (quotedName m).toList := by
    rw [← String.ofList_inj, shortenPrototypes_quotedName, shortenedName_eq_self_iff.mpr hplain,
      String.ofList_toList]
  rw [ownerPath, modulePath, String.toList_append, shortenPrototypes_append_of_notMem (by decide),
    hname]

section Member

variable {m n : String} (hm : IsModuleName m)
include hm

/-- A `modulePath` has no blanks at its ends. -/
theorem trim_modulePath : trim (modulePath m) = modulePath m := by
  -- It starts with the kind and ends like the name in its quotes.
  obtain ⟨cs, c, hlast, hblank, -⟩ := exists_quotedName_eq_concat hm.ne
  have hfirst : (modulePath m).toList.head? = some 'm' := by
    rw [modulePath, String.toList_append]
    rfl
  refine trim_eq_self ?_ ?_
  · intro d hd
    obtain rfl := Option.some.inj (hfirst.symm.trans hd)
    decide
  · intro d hd
    rw [modulePath, String.toList_append, hlast, ← List.append_assoc, List.getLast?_concat] at hd
    obtain rfl := Option.some.inj hd
    exact hblank

/-- The parts of a member of a module by `knownParts`. -/
theorem knownParts_moduleMember (hn : IsWord n.toList)
    (hprototype : ¬"prototype".toList <+: n.toList) (s : Scope) :
    knownParts n.toList (modulePath m).toList (some s) = some
      { longname := ownerInSpace "module" m ++ String.ofList [s.mark] ++ n
        memberof := ownerInSpace "module" m
        scope := some s
        name := n } := by
  obtain ⟨cs, c, hlast, hblank, hmark⟩ := exists_quotedName_eq_concat hm.ne
  have hcolon : ':' ∈ (modulePath m).toList := by
    rw [modulePath, String.toList_append]
    exact List.mem_append_left _ (by decide)
  have hempty : (modulePath m).toList.isEmpty = false := by
    rw [List.isEmpty_eq_false_iff]
    exact List.ne_nil_of_mem hcolon
  -- The name has no colon, so it does not start with the path.
  have hprefix : (modulePath m).toList.isPrefixOf n.toList = false := by
    rw [← Bool.not_eq_true, List.isPrefixOf_iff_prefix]
    exact fun hstarts => hn.notMem (by decide) (hstarts.subset hcolon)
  have hend : endsInMark (modulePath m).toList = false := by
    have hline : c ≠ '\n' := by
      rintro rfl
      cases hblank
    rw [modulePath, String.toList_append, hlast, ← List.append_assoc,
      endsInMark_append_singleton _ hline, hmark]
  have hpath : modulePath m = "module" ++ ":" ++ quotedName m := rfl
  rw [knownParts, hempty, hprefix, hend, Option.map_some, hpath,
    cut_member_inSpace (by decide) hm.unquoted hm.ne hn hprototype]
  rfl

end Member

/-- **Where `knownParts` gives the parts of a member**, its doclet has these parts. -/
theorem exists_build_of_parts {comment owner given n : String} {s : Scope} {warnUnknown : Bool}
    (htrim : trim given = given) (hgiven : given ≠ "") (hn : IsWord n.toList) (howner : owner ≠ "")
    {path : List Char} (hpath : ownerPath (.text given) = .ok path)
    (hknown : knownParts n.toList path (some s) = some
      { longname := owner ++ String.ofList [s.mark] ++ n
        memberof := owner
        scope := some s
        name := n })
    (htags : (RawTag.ofComment comment).Perm (memberTags given n s)) :
    ∃ d, build .standard comment {} false warnUnknown = .ok () d ∧
      d.fields .name = .text n ∧ d.fields .memberof = .text owner ∧
      d.fields .scope = .text s.word ∧
      d.fields .longname = .text (owner ++ String.ofList [s.mark] ++ n) := by
  have hword : IsWord s.word.toList := by
    cases s <;> decide
  have hne : n ≠ "" := by
    simpa using hn.ne_nil
  obtain ⟨d₁, hadd, hsetting, hname, hmemberof, hscope, hother⟩ :=
    exists_addTags_member htrim hgiven hn hword htags
      (d := { blank .standard comment {} false warnUnknown with recording := true }) rfl
  have hkind : d₁.fields .kind = .absent := hother _ (by decide)
  have hresolvable : Resolvable d₁
      { longname := owner ++ String.ofList [s.mark] ++ n
        memberof := owner
        scope := some s
        name := n } := by
    -- Owner, name and scope come from the tags as they are, and the parts follow from them.
    refine .of_scope (.inr ⟨s, hscope⟩) ⟨path, ?_, ?_⟩ (by simp) (hother _ (by decide)) ?_
    · rw [hmemberof, hpath]
    · rw [hname, hscope, namePath, if_neg (by simpa using hne), FieldValue.display_text,
        shortenPrototypes_eq_self hn.not_prototype, scopeOf?, Scope.ofWord?_word, hknown]
    · rw [hkind]
      rfl
  obtain ⟨d, hbuild, hd⟩ := hresolvable.exists_build hadd hsetting
  refine ⟨d, hbuild, hd.name_of_ne hne, ?_, hd.scope_eq, ?_⟩
  · rw [hd.memberof_eq, if_neg (by simpa using howner)]
  · rw [hd.longname_eq, namespaced_of_no_kind hkind]

/-- **A member finds its module again exactly if the name of the module needs no quotes.** For every
name of a module without a prototype in it, every word that does not start with *prototype* and
every scope: the doclet of the module has a path, and a comment whose tags give the word, this path
for an owner and the scope, in any order, makes a doclet with this name and this scope. Its owner is
the path of the module, and its path goes on from there, exactly if all characters of the module's
name are safe (`isSafe`); otherwise both have a point before the quoted name. -/
theorem build_moduleMember (m n : String) (s : Scope) (comment comment' : String)
    (warnUnknown warnUnknown' : Bool) (hm : IsModuleName m) (hplain : ¬prototypeText <:+: m.toList)
    (hn : IsWord n.toList) (hprototype : ¬"prototype".toList <+: n.toList)
    (htags : RawTag.ofComment comment = moduleTags m)
    (htags' : (RawTag.ofComment comment').Perm (memberTags (modulePath m) n s)) :
    ∃ d d', build .standard comment {} false warnUnknown = .ok () d ∧
      build .standard comment' {} false warnUnknown' = .ok () d' ∧
      d.fields .longname = .text (modulePath m) ∧
      d'.fields .name = .text n ∧ d'.fields .scope = .text s.word ∧
      (d'.fields .memberof = d.fields .longname ∧
          d'.fields .longname = .text (modulePath m ++ String.ofList [s.mark] ++ n) ↔
        m.toList.all isSafe = true) ∧
      (¬m.toList.all isSafe = true →
        d'.fields .memberof = .text ("module:." ++ quotedName m) ∧
          d'.fields .longname =
            .text ("module:." ++ quotedName m ++ String.ofList [s.mark] ++ n)) := by
  obtain ⟨d, hbuild, hd⟩ := exists_build_module warnUnknown hm htags
  rw [shortenedName_eq_self_iff.mpr hplain] at hd
  have hgiven : modulePath m ≠ "" := by
    simp [modulePath]
  have howner : ownerInSpace "module" m ≠ "" := by
    unfold ownerInSpace
    split <;> simp
  obtain ⟨d', hbuild', hname, hmemberof, hscope, hpath⟩ :=
    exists_build_of_parts (trim_modulePath hm) hgiven hn howner (ownerPath_modulePath hplain)
      (knownParts_moduleMember hm hn hprototype s) htags'
  refine ⟨d, d', hbuild, hbuild', hd.longname_eq, hname, hscope, ?_, ?_⟩
  · -- Both the owner and the path go on from the owner in its name space.
    have hiff : ownerInSpace "module" m = modulePath m ↔ m.toList.all isSafe = true :=
      ownerInSpace_eq_iff
    rw [hmemberof, hpath, hd.longname_eq, FieldValue.text.injEq, FieldValue.text.injEq, ← hiff]
    constructor
    · exact fun h => h.1
    · intro h
      rw [h]
      exact ⟨rfl, rfl⟩
  · intro hunsafe
    -- The name is in quotes, and these get a point before them.
    have hquoted : ownerInSpace "module" m = "module:." ++ quotedName m := by
      rw [ownerInSpace, if_neg hunsafe, quotedName_of_not_safe hunsafe]
      rfl
    rw [hmemberof, hpath, hquoted]
    exact ⟨rfl, rfl⟩

/-- The owner `module:lib/$x_1` needs no quotes, and its member finds it again. -/
theorem build_moduleMember_safe :
    let m := "lib/$x_1"
    let comment := "/**\n * @module lib/$x_1\n */"
    let comment' := "/**\n * @scope inner\n * @name größe\n * @memberof module:lib/$x_1\n */"
    (IsModuleName m ∧ ¬prototypeText <:+: m.toList ∧ IsWord "größe".toList ∧
        ¬"prototype".toList <+: "größe".toList ∧ RawTag.ofComment comment = moduleTags m ∧
        (RawTag.ofComment comment').Perm (memberTags (modulePath m) "größe" .inner)) ∧
      ∃ d d', build .standard comment {} false true = .ok () d ∧
        build .standard comment' {} false true = .ok () d' ∧
        d'.fields .memberof = d.fields .longname ∧
        d'.fields .longname =
          .text (modulePath m ++ String.ofList [Scope.inner.mark] ++ "größe") := by
  intro m comment comment'
  have hm : IsModuleName m := ⟨by decide, by decide +kernel, by decide⟩
  have hplain : ¬prototypeText <:+: m.toList := by
    decide +kernel
  have htags : RawTag.ofComment comment = moduleTags m := by
    decide +kernel
  have htags' : (RawTag.ofComment comment').Perm (memberTags (modulePath m) "größe" .inner) := by
    decide +kernel
  -- Only the first half of the theorem applies here, for all characters are safe.
  obtain ⟨d, d', hbuild, hbuild', -, -, -, hsafe, -⟩ :=
    build_moduleMember m "größe" .inner comment comment' true true hm hplain (by decide) (by decide)
      htags htags'
  exact ⟨⟨hm, hplain, by decide, by decide, htags, htags'⟩, d, d', hbuild, hbuild',
    hsafe.mpr (by decide +kernel)⟩

/-- The static member `n` of the module `my-mod` gets the owner `module:."my-mod"`, which is not the
path of the module. -/
theorem build_moduleMember_quoted :
    (IsModuleName "my-mod" ∧ ¬prototypeText <:+: "my-mod".toList) ∧
      ∃ d d', build .standard "/**\n * @module my-mod\n */" {} false false = .ok () d ∧
        build .standard "/**\n * @name n\n * @memberof module:\"my-mod\"\n * @scope static\n */" {}
          false false = .ok () d' ∧
        d.fields .longname = .text "module:\"my-mod\"" ∧
        d'.fields .memberof = .text "module:.\"my-mod\"" ∧
        d'.fields .longname = .text "module:.\"my-mod\".n" ∧
        d'.fields .memberof ≠ d.fields .longname := by
  have hm : IsModuleName "my-mod" := ⟨by decide, by decide +kernel, by decide⟩
  have hplain : ¬prototypeText <:+: "my-mod".toList := by
    decide +kernel
  have hn : IsWord "n".toList := by decide
  have htags : RawTag.ofComment "/**\n * @module my-mod\n */" = moduleTags "my-mod" := by
    decide +kernel
  have htags' : (RawTag.ofComment
      "/**\n * @name n\n * @memberof module:\"my-mod\"\n * @scope static\n */").Perm
        (memberTags (modulePath "my-mod") "n" .static) := by
    decide +kernel
  -- The texts are evaluated; that the doclets hold them follows from the general results.
  have htexts : shortenedName "my-mod" = "my-mod" ∧ modulePath "my-mod" = "module:\"my-mod\"" ∧
      ownerInSpace "module" "my-mod" = "module:.\"my-mod\"" := by
    decide +kernel
  obtain ⟨hshort, hmodule, howner⟩ := htexts
  obtain ⟨d, hbuild, hd⟩ := exists_build_module false hm htags
  obtain ⟨d', hbuild', -, hmemberof, -, hpath⟩ :=
    exists_build_of_parts (trim_modulePath hm) (by rw [hmodule]; decide) hn
      (by rw [howner]; decide) (ownerPath_modulePath hplain)
      (knownParts_moduleMember hm hn (by decide) .static) htags'
  rw [hshort] at hd
  rw [howner] at hmemberof hpath
  refine ⟨⟨hm, hplain⟩, d, d', hbuild, hbuild', ?_, hmemberof, hpath, ?_⟩
  · rw [hd.longname_eq, hmodule]
  · rw [hmemberof, hd.longname_eq, hmodule, ne_eq, FieldValue.text.injEq]
    decide

end DocComment.Doclet
