import DocComment.Proofs.PlainPath
import DocComment.Proofs.Resolution
import DocComment.Proofs.Trimming
import DocComment.Tag.Standard

/-!
# Members of an owner

A comment may give a name, an owner and a scope, each in a tag of its own. `build_member` says what
the doclet is for all pairs of words, whatever the order of the tags: name, owner and scope are
those of the tags, and the path is the owner, the mark of the scope and the name, *except* when the
name starts with the text of the owner. A name such as `foobar` is then taken for a path that begins
at the owner `foo` already, and becomes the path as it stands.
-/

namespace DocComment.Doclet

open DocComment.Text
open DocComment.Namepath

/-! ### The tags -/

theorem trim_word {s : String} (h : IsWord s.toList) : trim s = s :=
  trim_of_no_blank fun c hc => isBlank_of_isWordChar (h.chars c hc)

/-- The `setting` of a doclet with the standard tags and nothing known of its origin. -/
def standardSetting : Dictionary × Origin × FieldValue :=
  (.standard, {}, .flag false)

/-- A standard tag whose `tagOperations` are one plain write `Writes` its value. -/
theorem writes_standard {raw : RawTag} {definition : Definition} (op : Operation)
    (hfind : Dictionary.standard.find? raw.title = some definition)
    (hbased : isRuleBased definition = true)
    (hkeeps : (rulesOf definition).any Rule.keepsName = false)
    (hoperation : tagOperations .standard {} raw.title (raw.text.getD "") = [op])
    (hplain : isPlainWrite op = true) : Writes standardSetting raw op.field op.value := by
  refine writes_of_operation op (fun found hfound => ?_) ?_ hoperation hplain
  · obtain rfl := Option.some.inj (hfind.symm.trans hfound)
    exact hbased
  · rw [keepsNameOf, hfind]
    exact hkeeps

theorem writes_memberof {text : String} (htrim : trim text = text) (hne : text ≠ "") :
    Writes standardSetting ⟨"memberof", some text⟩ .memberof (.text text) := by
  have hfind : Dictionary.standard.find? "memberof" =
      some (Standard.valueTag "memberof" .memberofFromValue []) := by
    rfl
  have hdirect : directField? "memberof" = none := by
    decide +kernel
  refine writes_standard (.memberof (.text text)) hfind rfl rfl ?_ rfl
  simp [tagOperations, hookOperations, Tag.read, hfind, Standard.valueTag, Tag.trimText,
    Tag.valueOf,
    htrim, rulesOf, directOperations, hdirect, Rule.operations, FieldValue.ofTagValue, hne]

/-- The `Field` that a raw tag is named for. -/
def tagField (raw : RawTag) : Field :=
  (Field.ofKey? raw.title).getD .tags

/-- **Name, owner and scope in any order** succeed in `addTags`, and leave these three fields and no
other. -/
theorem exists_addTags_member {owner name word : String} (howner : trim owner = owner)
    (hne : owner ≠ "") (hname : IsWord name.toList) (hword : IsWord word.toList)
    {tags : List RawTag}
    (htags : tags.Perm [⟨"name", some name⟩, ⟨"memberof", some owner⟩, ⟨"scope", some word⟩])
    {d : Doclet} (hd : d.setting = standardSetting) :
    ∃ d', addTags tags d = .ok () d' ∧ d'.setting = standardSetting ∧
      d'.fields .name = .text name ∧ d'.fields .memberof = .text owner ∧
      d'.fields .scope = .text word ∧
      ∀ g, g ∉ [Field.name, .memberof, .scope] → d'.fields g = d.fields g := by
  have hfields : [⟨"name", some name⟩, ⟨"memberof", some owner⟩, ⟨"scope", some word⟩].map
      tagField = [Field.name, .memberof, .scope] := rfl
  have hwrites : ∀ raw ∈ tags, Writes standardSetting raw (tagField raw)
      (.text (raw.text.getD "")) := by
    intro raw hraw
    have hcases := htags.mem_iff.mp hraw
    simp only [List.mem_cons, List.not_mem_nil, or_false] at hcases
    rcases hcases with rfl | rfl | rfl
    · exact writes_direct (f := .name) (trim_word hname) rfl (by decide +kernel)
    · exact writes_memberof howner hne
    · exact writes_direct (f := .scope) (trim_word hword) rfl (by decide +kernel)
  -- Each tag has a field of its own, so their order does not matter.
  have hnodup : (tags.map tagField).Nodup := by
    rw [(htags.map tagField).nodup_iff, hfields]
    decide
  obtain ⟨d', hadd, hsetting, hvalues, hothers⟩ := exists_addTags hwrites hnodup hd
  -- What the tags wrote is read off in the usual order.
  have hvalue : ∀ raw ∈ [⟨"name", some name⟩, ⟨"memberof", some owner⟩, ⟨"scope", some word⟩],
      d'.fields (tagField raw) = .text (raw.text.getD "") := fun raw hraw =>
    hvalues raw (htags.mem_iff.mpr hraw)
  refine ⟨d', hadd, hsetting, hvalue ⟨"name", some name⟩ (by simp),
    hvalue ⟨"memberof", some owner⟩ (by simp), hvalue ⟨"scope", some word⟩ (by simp), ?_⟩
  intro g hg
  refine hothers g ?_
  rwa [(htags.map tagField).mem_iff, hfields]

/-! ### The parts -/

/-- The last character of a path tells `endsInMark`. -/
theorem endsInMark_append_singleton (xs : List Char) {c : Char} (h : c ≠ '\n') :
    endsInMark (xs ++ [c]) = Scope.isMark c := by
  rw [endsInMark, List.reverse_append, List.reverse_singleton, List.singleton_append]
  split
  · next heq => exact absurd (List.cons.inj heq).1 h
  · next heq => rw [(List.cons.inj heq).1]
  · next heq => cases heq

/-- A path that ends in a word has no `endsInMark`. -/
theorem endsInMark_word {cs : List Char} (h : IsWord cs) (xs : List Char) :
    endsInMark (xs ++ cs) = false := by
  obtain ⟨before, c, rfl⟩ : ∃ before c, cs = before ++ [c] :=
    ⟨cs.dropLast, cs.getLast h.ne_nil, (List.dropLast_concat_getLast h.ne_nil).symm⟩
  have hmem : c ∈ before ++ [c] := List.mem_append_right _ List.mem_cons_self
  have hline : c ≠ '\n' := by
    rintro rfl
    exact h.notMem (by decide) hmem
  rw [← List.append_assoc, endsInMark_append_singleton _ hline, h.no_mark c hmem]

theorem endsInMark_concat (xs : List Char) (s : Scope) : endsInMark (xs ++ [s.mark]) = true := by
  have hline : s.mark ≠ '\n' := by
    cases s <;> decide
  rw [endsInMark_append_singleton _ hline, Scope.isMark_iff]
  exact ⟨s, rfl⟩

/-- The `Parts` of a member. A name that starts with its owner is the path by itself. -/
def memberParts (owner name : String) (s : Scope) : Parts :=
  if owner.toList.isPrefixOf name.toList then { longname := name, name := name }
  else
    { longname := owner ++ String.ofList [s.mark] ++ name
      memberof := owner
      scope := some s
      name := name }

section Parts

variable (owner name : String) (s : Scope)

theorem name_memberParts : (memberParts owner name s).name = name := by
  unfold memberParts
  split <;> rfl

/-- The owner of the `memberParts`, or else the one that is there, is the owner. -/
theorem memberof_memberParts :
    (if (memberParts owner name s).memberof.isEmpty = true then FieldValue.text owner
      else .text (memberParts owner name s).memberof) = .text owner := by
  unfold memberParts
  split
  · rfl
  · split <;> rfl

theorem scope_memberParts :
    ((memberParts owner name s).scope.map fun t => FieldValue.text t.word).getD (.text s.word) =
      .text s.word := by
  unfold memberParts
  split <;> rfl

theorem longname_memberParts_ne {name : String} (hname : name ≠ "") :
    (memberParts owner name s).longname ≠ "" := by
  unfold memberParts
  split
  · exact hname
  · simp

/-- **The path of the `memberParts` is put together exactly if the name does not start with the
owner.** -/
theorem longname_memberParts :
    ((memberParts owner name s).longname = owner ++ String.ofList [s.mark] ++ name ↔
        ¬owner.toList <+: name.toList) ∧
      (owner.toList <+: name.toList → (memberParts owner name s).longname = name) := by
  rw [← List.isPrefixOf_iff_prefix]
  unfold memberParts
  by_cases hbegins : owner.toList.isPrefixOf name.toList = true
  · rw [if_pos hbegins]
    refine ⟨iff_of_false ?_ (fun h => h hbegins), fun _ => rfl⟩
    -- The name is shorter than the path that it would have to be.
    intro heq
    have hlength := congrArg (fun t => t.toList.length) heq
    simp only [String.toList_append, String.toList_ofList, List.length_append,
      List.length_singleton] at hlength
    omega
  · rw [if_neg hbegins]
    exact ⟨iff_of_true rfl hbegins, fun h => absurd h hbegins⟩

end Parts

section Member

variable {owner name : String} (howner : IsWord owner.toList) (hname : IsWord name.toList)
  (hprototype : ¬"prototype".toList <+: name.toList) (s : Scope)
include howner hname hprototype

theorem knownParts_member :
    knownParts name.toList owner.toList (some s) = some (memberParts owner name s) := by
  have hempty : owner.toList.isEmpty = false := by
    simpa using howner.ne_nil
  have hmark : endsInMark owner.toList = false := endsInMark_word howner []
  unfold knownParts memberParts
  rw [hempty, Bool.false_or, hmark]
  split
  · -- The owner starts the name: then only the name is cut.
    rw [cut_word hname, String.ofList_toList]
  · have hpath : String.ofList (owner.toList ++ s.mark :: name.toList) =
        owner ++ String.ofList [s.mark] ++ name := by
      rw [← String.toList_inj]
      simp
    rw [if_neg (by decide), Option.map_some, cut_member howner hname hprototype, hpath,
      String.ofList_toList, String.ofList_toList]

theorem resolvable_member {d : Doclet} (hfield : d.fields .name = .text name)
    (hmemberof : d.fields .memberof = .text owner) (hscope : d.fields .scope = .text s.word)
    (hpath : d.fields .longname = .absent) (hkind : d.fields .kind = .absent) :
    Resolvable d (memberParts owner name s) := by
  have hne : name ≠ "" := by
    rintro rfl
    exact hname.ne_nil rfl
  refine .of_scope (.inr ⟨s, hscope⟩) ⟨owner.toList, ?_, ?_⟩ (longname_memberParts_ne owner s hne)
    hpath ?_
  · rw [hmemberof, ownerPath, shortenPrototypes_eq_self howner.not_prototype]
  · rw [hfield, hscope, namePath, if_neg (by simpa using hne), FieldValue.display_text,
      shortenPrototypes_eq_self hname.not_prototype, scopeOf?, Scope.ofWord?_word]
    exact knownParts_member howner hname hprototype s
  · rw [hkind]
    rfl

end Member

/-! ### The doclet -/

theorem exists_build_member {owner name comment : String} {s : Scope} (warnUnknown : Bool)
    (howner : IsWord owner.toList) (hname : IsWord name.toList)
    (hprototype : ¬"prototype".toList <+: name.toList)
    (htags : (RawTag.ofComment comment).Perm
      [⟨"name", some name⟩, ⟨"memberof", some owner⟩, ⟨"scope", some s.word⟩]) :
    ∃ d, build .standard comment {} false warnUnknown = .ok () d ∧
      d.fields .name = .text name ∧ d.fields .memberof = .text owner ∧
      d.fields .scope = .text s.word ∧
      d.fields .longname = .text (memberParts owner name s).longname := by
  have hword : IsWord s.word.toList := by
    cases s <;> decide
  obtain ⟨d₁, hadd, hsetting, hfield, hmemberof, hscope, hother⟩ :=
    exists_addTags_member (trim_word howner) (by simpa using howner.ne_nil) hname hword htags
      (d := { blank .standard comment {} false warnUnknown with recording := true }) rfl
  have hkind : d₁.fields .kind = .absent := hother _ (by decide)
  have hresolvable := resolvable_member howner hname hprototype s hfield hmemberof hscope
    (hother _ (by decide)) hkind
  -- The parts are known, and the doclet takes them over; what the tags left stands where a part is
  -- missing.
  obtain ⟨d, hbuild, hd⟩ := hresolvable.exists_build hadd hsetting
  refine ⟨d, hbuild, ?_, ?_, ?_, hd.longname_eq.trans (namespaced_of_no_kind hkind _)⟩
  · rw [hd.name_of_ne, name_memberParts]
    rw [name_memberParts]
    simpa using hname.ne_nil
  · rw [hd.memberof_eq, hmemberof, memberof_memberParts]
  · rw [hd.scope_eq, hscope, scope_memberParts]

/-- **Membership is honoured, unless the name starts with the text of the owner.** For every comment
whose tags are a name, an owner and the word of a scope, in any order, with `IsWord` for name and
owner and a name that does not start with *prototype*: the doclet is built and has this name, this
owner and this scope, and its path is the owner, the mark and the name exactly if the text of the
owner is no beginning of the name. If it is one, the path is the name alone. -/
theorem build_member (owner name : String) (s : Scope) (comment : String) (warnUnknown : Bool)
    (howner : IsWord owner.toList) (hname : IsWord name.toList)
    (hprototype : ¬"prototype".toList <+: name.toList)
    (htags : (RawTag.ofComment comment).Perm
      [⟨"name", some name⟩, ⟨"memberof", some owner⟩, ⟨"scope", some s.word⟩]) :
    ∃ d, build .standard comment {} false warnUnknown = .ok () d ∧
      d.fields .name = .text name ∧ d.fields .memberof = .text owner ∧
      d.fields .scope = .text s.word ∧
      (d.fields .longname = .text (owner ++ String.ofList [s.mark] ++ name) ↔
        ¬owner.toList <+: name.toList) ∧
      (owner.toList <+: name.toList → d.fields .longname = .text name) := by
  obtain ⟨d, hbuild, hfield, hmemberof, hscope, hpath⟩ :=
    exists_build_member warnUnknown howner hname hprototype htags
  refine ⟨d, hbuild, hfield, hmemberof, hscope, ?_⟩
  rw [hpath, FieldValue.text.injEq, FieldValue.text.injEq]
  exact longname_memberParts owner name s

/-- An `IsWord` may have a digit, an underscore, a dollar sign and a letter beyond the plain
alphabet. The tags do not stand in the usual order. -/
theorem build_member_perInstance :
    let comment := "/**\n * @scope instance\n * @memberof Größe_1\n * @name $größer\n */"
    (IsWord "Größe_1".toList ∧ IsWord "$größer".toList ∧
        ¬"prototype".toList <+: "$größer".toList ∧
        (RawTag.ofComment comment).Perm
          [⟨"name", some "$größer"⟩, ⟨"memberof", some "Größe_1"⟩,
            ⟨"scope", some Scope.perInstance.word⟩]) ∧
      ∃ d, build .standard comment {} false true = .ok () d ∧
        d.fields .name = .text "$größer" ∧ d.fields .memberof = .text "Größe_1" ∧
        d.fields .scope = .text Scope.perInstance.word ∧
        (d.fields .longname =
            .text ("Größe_1" ++ String.ofList [Scope.perInstance.mark] ++ "$größer") ↔
          ¬"Größe_1".toList <+: "$größer".toList) ∧
        ("Größe_1".toList <+: "$größer".toList → d.fields .longname = .text "$größer") :=
  have htags : (RawTag.ofComment
      "/**\n * @scope instance\n * @memberof Größe_1\n * @name $größer\n */").Perm
        [⟨"name", some "$größer"⟩, ⟨"memberof", some "Größe_1"⟩,
          ⟨"scope", some Scope.perInstance.word⟩] := by
    decide +kernel
  ⟨⟨by decide, by decide, by decide, htags⟩,
    build_member _ _ _ _ _ (by decide) (by decide) (by decide) htags⟩

/-- The static member `foobar` of the owner `foo` gets the path of a symbol without an owner. -/
theorem build_member_foobar :
    ∃ d, build .standard "/**\n * @name foobar\n * @memberof foo\n * @scope static\n */" {} false
        false = .ok () d ∧
      d.fields .name = .text "foobar" ∧ d.fields .memberof = .text "foo" ∧
      d.fields .scope = .text Scope.static.word ∧ d.fields .longname = .text "foobar" ∧
      d.fields .longname ≠ .text ("foo" ++ String.ofList [Scope.static.mark] ++ "foobar") := by
  have htags : (RawTag.ofComment
      "/**\n * @name foobar\n * @memberof foo\n * @scope static\n */").Perm
        [⟨"name", some "foobar"⟩, ⟨"memberof", some "foo"⟩,
          ⟨"scope", some Scope.static.word⟩] := by
    decide +kernel
  -- The owner starts the name, and so it is left out of the path.
  have hparts : (memberParts "foo" "foobar" .static).longname = "foobar" := by decide +kernel
  obtain ⟨d, hbuild, hfield, hmemberof, hscope, hpath⟩ :=
    exists_build_member false (by decide) (by decide) (by decide) htags
  rw [hparts] at hpath
  refine ⟨d, hbuild, hfield, hmemberof, hscope, hpath, ?_⟩
  rw [hpath, ne_eq, FieldValue.text.injEq]
  decide

end DocComment.Doclet
