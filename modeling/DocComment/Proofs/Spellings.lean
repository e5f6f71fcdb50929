import DocComment.Proofs.Membership

/-!
# Spellings of a member

A member of an owner can be documented in many ways: its scope may stand in a tag of its own, in the
mark behind the owner, or in the path that is given for a name; an instance member may be written
with `.prototype`; and a static member may leave its scope out. `build_spelling` says that **all of
them make the same doclet**, for owners that are paths of any length.

The tags of a spelling leave a name, maybe an owner and maybe a scope (`Spelling.exists_addTags`).
In all spellings but the last these give the parts of the member itself, by one of the four ways in
which parts become known; the last spelling gives no parts, and the member is made a static one.
-/

namespace DocComment.Namepath

open DocComment.Text

/-- An **identifier**: a word that does not start with *prototype*. -/
structure Identifier where
  /-- Its text. -/
  text : String
  /-- The text is a word. -/
  isWord : IsWord text.toList
  /-- The word does not start with *prototype*. -/
  not_prototype : ¬"prototype".toList <+: text.toList

theorem Identifier.text_ne (name : Identifier) : name.text ≠ "" := by
  rw [ne_eq, ← String.toList_inj]
  exact name.isWord.ne_nil

/-- A **path of `Identifier`s**, any mark between two of them. -/
inductive MemberPath where
  /-- A symbol without an owner. -/
  | root (name : Identifier)
  /-- A member of an owner. -/
  | member (owner : MemberPath) (s : Scope) (name : Identifier)

namespace MemberPath

/-- The characters of a `MemberPath`. -/
def chars : MemberPath → List Char
  | root name => name.text.toList
  | member owner s name => owner.chars ++ s.mark :: name.text.toList

/-- The text of a `MemberPath`. -/
def text (p : MemberPath) : String :=
  String.ofList p.chars

@[simp] theorem toList_text (p : MemberPath) : p.text.toList = p.chars :=
  String.toList_ofList

/-- Whether `c` may stand in a path. -/
def isPathChar (c : Char) : Bool :=
  isWordChar c || Scope.isMark c

theorem isPathChar_mark (s : Scope) : isPathChar s.mark = true := by
  cases s <;> decide

theorem isPathChar_identifier (name : Identifier) :
    ∀ c ∈ name.text.toList, isPathChar c = true := by
  intro c hc
  rw [isPathChar, name.isWord.chars c hc, Bool.true_or]

variable (p : MemberPath)

theorem isPathChar_chars : ∀ c ∈ p.chars, isPathChar c = true := by
  induction p with
  | root name => exact isPathChar_identifier name
  | member owner s name ih =>
    intro c hc
    rw [chars, List.mem_append, List.mem_cons] at hc
    rcases hc with hc | rfl | hc
    · exact ih c hc
    · exact isPathChar_mark s
    · exact isPathChar_identifier name c hc

theorem notMem_chars {c : Char} (hc : isPathChar c = false) : c ∉ p.chars := by
  intro hmem
  rw [p.isPathChar_chars c hmem] at hc
  cases hc

theorem not_prototype_chars : ¬prototypeText <:+: p.chars := by
  induction p with
  | root name => exact name.isWord.not_prototype
  | member owner s name ih => exact not_prototype_at_mark ih name.isWord name.not_prototype s

/-- A path ends in an `Identifier`. -/
theorem exists_chars_eq : ∃ before, ∃ name : Identifier, p.chars = before ++ name.text.toList := by
  cases p with
  | root name => exact ⟨[], name, rfl⟩
  | member owner s name => exact ⟨owner.chars ++ [s.mark], name, by simp [chars]⟩

theorem chars_ne_nil : p.chars ≠ [] := by
  obtain ⟨before, name, hchars⟩ := p.exists_chars_eq
  rw [hchars]
  exact List.append_ne_nil_of_right_ne_nil _ name.isWord.ne_nil

theorem text_ne : p.text ≠ "" := by
  rw [ne_eq, ← String.toList_inj, toList_text]
  exact p.chars_ne_nil

theorem endsInMark_chars : Doclet.endsInMark p.chars = false := by
  obtain ⟨before, name, hchars⟩ := p.exists_chars_eq
  rw [hchars]
  exact Doclet.endsInMark_word name.isWord before

variable (s : Scope) (name : Identifier)

/-- The parts of a member of the path `p`. -/
def partsOf : Parts where
  longname := (p.member s name).text
  memberof := p.text
  scope := some s
  name := name.text

/-- **`cut` takes a path of identifiers apart at its last mark.** -/
theorem cut_text_member : cut (p.member s name).text = p.partsOf s name := by
  have hcut := cut_at_mark (p.notMem_chars (by decide)) (p.notMem_chars (by decide))
    p.not_prototype_chars name.isWord name.not_prototype s
  rw [String.ofList_toList] at hcut
  exact hcut

theorem text_member : (p.member s name).text = p.text ++ String.ofList [s.mark] ++ name.text := by
  rw [← String.toList_inj]
  simp [chars]

end MemberPath

end DocComment.Namepath

namespace DocComment.Doclet

open DocComment.Text
open DocComment.Namepath

/-! ### The tags -/

/-- The tags that **spell the member** `name` of `owner` with the scope `s`. -/
inductive Spelling (owner : MemberPath) : Scope → Identifier → List RawTag → Prop
  /-- The scope is a tag by itself. -/
  | scopeTitle (s : Scope) (name : Identifier) : Spelling owner s name
      [⟨"name", some name.text⟩, ⟨"memberof", some owner.text⟩, ⟨s.word, none⟩]
  /-- The scope is the text of a tag. -/
  | scopeText (s : Scope) (name : Identifier) : Spelling owner s name
      [⟨"name", some name.text⟩, ⟨"memberof", some owner.text⟩, ⟨"scope", some s.word⟩]
  /-- The mark of the scope stands behind the owner. -/
  | markedOwner (s : Scope) (name : Identifier) : Spelling owner s name
      [⟨"name", some name.text⟩, ⟨"memberof", some (owner.text ++ String.ofList [s.mark])⟩]
  /-- The name is the whole path. -/
  | wholePath (s : Scope) (name : Identifier) : Spelling owner s name
      [⟨"name", some (owner.text ++ String.ofList [s.mark] ++ name.text)⟩]
  /-- The name is the whole path, and the owner is given all the same. -/
  | pathAndOwner (s : Scope) (name : Identifier) : Spelling owner s name
      [⟨"name", some (owner.text ++ String.ofList [s.mark] ++ name.text)⟩,
        ⟨"memberof", some owner.text⟩]
  /-- The name is the whole path of an instance member, its mark in full. -/
  | prototypePath (name : Identifier) : Spelling owner .perInstance name
      [⟨"name", some (owner.text ++ ".prototype." ++ name.text)⟩]
  /-- The mark of instance members stands behind the owner, in full. -/
  | prototypeOwner (name : Identifier) : Spelling owner .perInstance name
      [⟨"name", some name.text⟩, ⟨"memberof", some (owner.text ++ ".prototype")⟩]
  /-- The scope of a static member is left out. -/
  | unscoped (name : Identifier) : Spelling owner .static name
      [⟨"name", some name.text⟩, ⟨"memberof", some owner.text⟩]

/-- The `Field` that a tag of a spelling writes. -/
def givenField (raw : RawTag) : Field :=
  if raw.title = "name" then .name else if raw.title = "memberof" then .memberof else .scope

theorem givenField_mem (raw : RawTag) : givenField raw ∈ [Field.name, .memberof, .scope] := by
  unfold givenField
  split
  · simp
  · split <;> simp

@[simp] theorem givenField_name (text : Option String) : givenField ⟨"name", text⟩ = .name := rfl

@[simp] theorem givenField_memberof (text : Option String) :
    givenField ⟨"memberof", text⟩ = .memberof := rfl

@[simp] theorem givenField_scope (text : Option String) : givenField ⟨"scope", text⟩ = .scope := rfl

@[simp] theorem givenField_word (s : Scope) (text : Option String) :
    givenField ⟨s.word, text⟩ = .scope := by
  cases s <;> rfl

/-- The `FieldValue` that a tag of a spelling writes; a tag without a text stands for itself. -/
def givenValue (raw : RawTag) : FieldValue :=
  .text (raw.text.getD raw.title)

theorem trim_of_isPathChar {text : String}
    (h : ∀ c ∈ text.toList, MemberPath.isPathChar c = true) : trim text = text := by
  refine trim_of_no_blank fun c hc => ?_
  have hcases := h c hc
  rw [MemberPath.isPathChar, Bool.or_eq_true] at hcases
  rcases hcases with hword | hmark
  · exact isBlank_of_isWordChar hword
  · obtain ⟨s, rfl⟩ := Scope.isMark_iff.mp hmark
    cases s <;> decide

/-- A tag with the word of a scope for its title `Writes` the scope. -/
theorem writes_scopeTitle (s : Scope) :
    Writes standardSetting ⟨s.word, none⟩ .scope (.text s.word) := by
  have hfind : Dictionary.standard.find? s.word =
      some (Standard.bareTag s.word .scopeFromTitle) := by
    cases s <;> rfl
  have hdirect : directField? s.word = none := by
    cases s <;> decide +kernel
  refine writes_standard (.set .scope (.text s.word)) hfind rfl rfl ?_ rfl
  simp [tagOperations, hookOperations, Tag.read, hfind, Standard.bareTag, rulesOf, directOperations,
    hdirect, Rule.operations]

/-- A tag of a spelling gives a name or an owner with `isPathChar` throughout, or a scope. -/
inductive Given : RawTag → Prop
  | name {text : String} (h : ∀ c ∈ text.toList, MemberPath.isPathChar c = true) :
      Given ⟨"name", some text⟩
  | owner {text : String} (h : ∀ c ∈ text.toList, MemberPath.isPathChar c = true)
      (hne : text ≠ "") : Given ⟨"memberof", some text⟩
  | scopeText (s : Scope) : Given ⟨"scope", some s.word⟩
  | scopeTitle (s : Scope) : Given ⟨s.word, none⟩

theorem Given.writes {raw : RawTag} (h : Given raw) :
    Writes standardSetting raw (givenField raw) (givenValue raw) := by
  cases h with
  | name h =>
    exact writes_direct (f := .name) (trim_of_isPathChar h) rfl (by decide +kernel)
  | owner h hne => exact writes_memberof (trim_of_isPathChar h) hne
  | scopeText s =>
    exact writes_direct (f := .scope) (by cases s <;> decide) rfl (by decide +kernel)
  | scopeTitle s =>
    rw [givenField_word]
    exact writes_scopeTitle s

/-- **Tags that each give one field**, in any order, succeed in `addTags` and leave the fields that
they give and no other. -/
theorem exists_addTags_given {tags tags' : List RawTag}
    (hwrites : ∀ raw ∈ tags, Writes standardSetting raw (givenField raw) (givenValue raw))
    (hnodup : (tags.map givenField).Nodup) (hperm : tags'.Perm tags) {d : Doclet}
    (hd : d.setting = standardSetting) :
    ∃ d', addTags tags' d = .ok () d' ∧ d'.setting = standardSetting ∧
      (∀ raw ∈ tags, d'.fields (givenField raw) = givenValue raw) ∧
      ∀ g, g ∉ tags.map givenField → d'.fields g = d.fields g := by
  have hmap := hperm.map givenField
  obtain ⟨d', hadd, hsetting, hvalues, hothers⟩ :=
    exists_addTags (fun raw hraw => hwrites raw (hperm.mem_iff.mp hraw))
      (hmap.nodup_iff.mpr hnodup) hd
  exact ⟨d', hadd, hsetting, fun raw hraw => hvalues raw (hperm.mem_iff.mpr hraw),
    fun g hg => hothers g (mt hmap.mem_iff.mp hg)⟩

section Spelled

variable {owner : MemberPath} {s : Scope} {name : Identifier} {tags : List RawTag}

theorem Spelling.given (h : Spelling owner s name tags) : ∀ raw ∈ tags, Given raw := by
  have hname := MemberPath.isPathChar_identifier name
  have howner : ∀ c ∈ owner.text.toList, MemberPath.isPathChar c = true := by
    rw [owner.toList_text]
    exact owner.isPathChar_chars
  -- All texts of a spelling are the owner, a mark, a prototype and the name put together.
  have hpath : ∀ more : String, (∀ c ∈ more.toList, MemberPath.isPathChar c = true) →
      ∀ c ∈ (owner.text ++ more).toList, MemberPath.isPathChar c = true := by
    intro more hmore c hc
    rw [String.toList_append, List.mem_append] at hc
    exact hc.elim (howner c) (hmore c)
  have hne : ∀ more : String, owner.text ++ more ≠ "" := by
    intro more
    simp [owner.text_ne]
  have hmember : ∀ mark : String, (∀ c ∈ mark.toList, MemberPath.isPathChar c = true) →
      ∀ c ∈ (owner.text ++ mark ++ name.text).toList, MemberPath.isPathChar c = true := by
    intro mark hmark c hc
    rw [String.toList_append, List.mem_append] at hc
    exact hc.elim (hpath mark hmark c) (hname c)
  -- Then spelling by spelling, each tag with its own text.
  have hmark : ∀ c ∈ (String.ofList [s.mark]).toList, MemberPath.isPathChar c = true := by
    rw [String.toList_ofList, List.forall_mem_singleton]
    exact MemberPath.isPathChar_mark s
  cases h <;> simp only [List.forall_mem_cons, List.not_mem_nil, false_implies, implies_true,
    and_true]
  case scopeTitle => exact ⟨.name hname, .owner howner owner.text_ne, .scopeTitle s⟩
  case scopeText => exact ⟨.name hname, .owner howner owner.text_ne, .scopeText s⟩
  case markedOwner => exact ⟨.name hname, .owner (hpath _ hmark) (hne _)⟩
  case wholePath => exact .name (hmember _ hmark)
  case pathAndOwner => exact ⟨.name (hmember _ hmark), .owner howner owner.text_ne⟩
  case prototypePath => exact .name (hmember _ (List.all_eq_true.mp (by decide)))
  case prototypeOwner =>
    exact ⟨.name hname, .owner (hpath _ (List.all_eq_true.mp (by decide))) (hne _)⟩
  case unscoped => exact ⟨.name hname, .owner howner owner.text_ne⟩

/-- No two tags of a spelling have the same `givenField`. -/
theorem Spelling.nodup (h : Spelling owner s name tags) : (tags.map givenField).Nodup := by
  cases h <;> simp

/-- **The tags of a `Spelling` in any order** leave the fields that they give and no other. -/
theorem Spelling.exists_addTags (h : Spelling owner s name tags) {tags' : List RawTag}
    (hperm : tags'.Perm tags) {d : Doclet} (hd : d.setting = standardSetting) :
    ∃ d', addTags tags' d = .ok () d' ∧ d'.setting = standardSetting ∧
      (∀ raw ∈ tags, d'.fields (givenField raw) = givenValue raw) ∧
      ∀ g, g ∉ tags.map givenField → d'.fields g = d.fields g :=
  exists_addTags_given (fun raw hraw => (h.given raw hraw).writes) h.nodup hperm hd

end Spelled

/-! ### The parts -/

section Known

variable (owner : MemberPath) (s : Scope) (name : Identifier)

theorem namePath_text (text : String) : namePath (.text text) = shortenPrototypes text.toList := by
  rw [namePath]
  split
  · next hempty =>
    obtain rfl : text = "" := by simpa using hempty
    rfl
  · rw [FieldValue.display_text]

theorem namePath_identifier : namePath (.text name.text) = name.text.toList := by
  rw [namePath_text, shortenPrototypes_eq_self name.isWord.not_prototype]

theorem ownerPath_text : ownerPath (.text owner.text) = .ok owner.chars := by
  rw [ownerPath, owner.toList_text, shortenPrototypes_eq_self owner.not_prototype_chars]

/-- A mark behind an owner is no part of a prototype, so `ownerPath` keeps it. -/
theorem ownerPath_marked : ownerPath (.text (owner.text ++ String.ofList [s.mark])) =
    .ok (owner.chars ++ [s.mark]) := by
  rw [ownerPath, String.toList_append, owner.toList_text, String.toList_ofList]
  refine congrArg _ ?_
  refine shortenPrototypes_eq_self fun h => ?_
  -- Any name may follow the mark; take one that is no prototype.
  have hword : IsWord ['a'] := by decide
  refine not_prototype_at_mark owner.not_prototype_chars hword (by decide) s (h.trans ?_)
  exact ⟨[], ['a'], by simp⟩

/-- For `knownParts`, a name that does not start with its owner stands behind the mark of its
scope. -/
theorem knownParts_of_scope (h : ¬owner.chars <+: name.text.toList) :
    knownParts name.text.toList owner.chars (some s) = some (owner.partsOf s name) := by
  rw [knownParts, if_neg, if_neg, Option.map_some, ← owner.cut_text_member s name]
  · rfl
  · simp [owner.endsInMark_chars]
  · simp [List.isPrefixOf_iff_prefix, h, owner.chars_ne_nil]

/-- For `knownParts`, a name stands right behind an owner that ends in a mark. -/
theorem knownParts_of_marked (t : Option Scope) :
    knownParts name.text.toList (owner.chars ++ [s.mark]) t = some (owner.partsOf s name) := by
  -- The name has no mark, so the marked owner does not start it.
  have hmark : ¬owner.chars ++ [s.mark] <+: name.text.toList := by
    intro hprefix
    have hmem : s.mark ∈ name.text.toList :=
      hprefix.subset (List.mem_append_right _ List.mem_cons_self)
    have hnone := name.isWord.no_mark _ hmem
    rw [Scope.isMark_iff.mpr ⟨s, rfl⟩] at hnone
    cases hnone
  have hpath : owner.chars ++ [s.mark] ++ name.text.toList = (owner.member s name).chars := by
    simp [MemberPath.chars]
  rw [knownParts, if_neg, if_pos (endsInMark_concat _ s), hpath, ← owner.cut_text_member s name]
  · rfl
  · simp [List.isPrefixOf_iff_prefix, hmark]

/-- For `knownParts`, a path is cut by itself if its owner is not given, or given as it is. -/
theorem knownParts_of_path {owner' : List Char} (h : owner' = [] ∨ owner' = owner.chars)
    (t : Option Scope) :
    knownParts (owner.member s name).chars owner' t = some (owner.partsOf s name) := by
  rw [knownParts, if_pos, ← owner.cut_text_member s name]
  · rfl
  · rcases h with rfl | rfl
    · rfl
    · rw [Bool.or_eq_true, List.isPrefixOf_iff_prefix]
      exact .inr (List.prefix_append _ _)

theorem namePath_whole :
    namePath (.text (owner.text ++ String.ofList [s.mark] ++ name.text)) =
      (owner.member s name).chars := by
  rw [namePath_text, ← owner.text_member, MemberPath.toList_text,
    shortenPrototypes_eq_self (MemberPath.not_prototype_chars _)]

/-- `namePath` takes the path of an instance member with its mark in full, as *prototype*. -/
theorem namePath_prototype : namePath (.text (owner.text ++ ".prototype." ++ name.text)) =
    (owner.member .perInstance name).chars := by
  have hchars : (owner.text ++ ".prototype." ++ name.text).toList =
      owner.chars ++ ((prototypeText ++ ['.']) ++ name.text.toList) := by
    rw [String.toList_append, String.toList_append, owner.toList_text, List.append_assoc]
    rfl
  rw [namePath_text, hchars, shortenPrototypes_append owner.not_prototype_chars (.inr rfl)
    (name.isWord.notMem (by decide))]
  rfl

/-- `ownerPath` takes the mark of instance members in full behind an owner, as *prototype*. -/
theorem ownerPath_prototype : ownerPath (.text (owner.text ++ ".prototype")) =
    .ok (owner.chars ++ [Scope.perInstance.mark]) := by
  have hchars : (owner.text ++ ".prototype").toList = owner.chars ++ (prototypeText ++ []) := by
    rw [String.toList_append, owner.toList_text, List.append_nil]
    rfl
  rw [ownerPath, hchars, shortenPrototypes_append owner.not_prototype_chars (.inl rfl) (by simp)]
  rfl

end Known

/-- **Where the tags leave a name and an owner, and nothing else**, `build` makes the doclet of a
static member, if the owner neither ends in a mark nor starts the name. Name and owner are taken as
they are given. -/
theorem exists_build_deferred {owner name comment : String} {warnUnknown : Bool} {d : Doclet}
    (hne : name ≠ "") (hplain : ¬prototypeText <:+: name.toList) (hne' : owner ≠ "")
    (hplain' : ¬prototypeText <:+: owner.toList) (hmark : endsInMark owner.toList = false)
    (hbegins : ¬owner.toList <+: name.toList)
    (htags : addTags (RawTag.ofComment comment)
      { blank .standard comment {} false warnUnknown with recording := true } = .ok () d)
    (hsetting : d.setting = standardSetting) (hname : d.fields .name = .text name)
    (hmemberof : d.fields .memberof = .text owner) (hscope : d.fields .scope = .absent)
    (hpath : d.fields .longname = .absent) (hkind : d.fields .kind = .absent) :
    ∃ d', build .standard comment {} false warnUnknown = .ok () d' ∧
      d'.fields .name = .text name ∧ d'.fields .memberof = .text owner ∧
      d'.fields .scope = .text Scope.static.word ∧
      d'.fields .longname = .text (owner ++ String.ofList [Scope.static.mark] ++ name) ∧
      d'.fields .variation = d.fields .variation := by
  have howner : ownerPath (.text owner) = .ok owner.toList := by
    rw [ownerPath, shortenPrototypes_eq_self hplain']
  have hparts : partsOf? d = none := by
    rw [partsOf?, hmemberof, howner, hname, namePath_text, shortenPrototypes_eq_self hplain, hscope]
    change knownParts name.toList owner.toList none = none
    -- The owner neither starts the name nor ends in a mark, and no scope is given.
    rw [knownParts, if_neg, if_neg]
    · rfl
    · simp [hmark]
    · simp [List.isPrefixOf_iff_prefix, hbegins, hne']
  have hlacks : d.lacksPath = true := by
    simp [lacksPath, hname, hmemberof, hpath, hne, hne']
  have hrefusal : scopeRefusal? (d.fields .scope) = none := by
    rw [hscope]
    rfl
  have hkey : (d.fields .kind).isKey = true := by
    rw [hkind]
    rfl
  have hglobal : d.isGlobal = false := by
    rw [isGlobal, hscope]
  -- The log is off by then, which no field tells.
  obtain ⟨d', hresolve, hsetting', hscope', hpath', hother⟩ :=
    exists_resolve_deferred (d := { d with recording := false }) hname hmemberof howner hrefusal
      hparts hkey hglobal hlacks
  have hlong : d'.fields .longname =
      .text (owner ++ String.ofList [Scope.static.mark] ++ name) :=
    hpath'.trans (namespaced_of_no_kind hkind _)
  refine ⟨d'.remarkBuilt, build_of_resolve htags hsetting hresolve hsetting' (by simp [hlong]), ?_,
    ?_, hscope', hlong, hother _ (by decide)⟩
  · exact (hother _ (by decide)).trans hname
  · exact (hother _ (by decide)).trans hmemberof

section Left

variable {owner : MemberPath} {s : Scope} {name : Identifier} {tags : List RawTag} {d : Doclet}

/-- Whether name, owner and scope of a doclet have the parts of a member for their `knownParts`. -/
def GivesMember (owner : MemberPath) (s : Scope) (name : Identifier) (d : Doclet) : Prop :=
  ∃ path, ownerPath (d.fields .memberof) = .ok path ∧
    knownParts (namePath (d.fields .name)) path (scopeOf? (d.fields .scope)) =
      some (owner.partsOf s name)

theorem givesMember_of_scope (hbegins : ¬owner.chars <+: name.text.toList)
    (hname : d.fields .name = .text name.text) (hmemberof : d.fields .memberof = .text owner.text)
    (hscope : d.fields .scope = .text s.word) : GivesMember owner s name d := by
  refine ⟨owner.chars, by rw [hmemberof, ownerPath_text], ?_⟩
  rw [hname, hscope, namePath_identifier, scopeOf?, Scope.ofWord?_word]
  exact knownParts_of_scope owner s name hbegins

theorem givesMember_of_marked (hname : d.fields .name = .text name.text)
    (hmemberof : ownerPath (d.fields .memberof) = .ok (owner.chars ++ [s.mark])) :
    GivesMember owner s name d := by
  refine ⟨_, hmemberof, ?_⟩
  rw [hname, namePath_identifier]
  exact knownParts_of_marked owner s name _

theorem givesMember_of_path (hname : namePath (d.fields .name) = (owner.member s name).chars)
    (hmemberof : d.fields .memberof = .absent ∨ d.fields .memberof = .text owner.text) :
    GivesMember owner s name d := by
  rcases hmemberof with h | h
  · exact ⟨[], by rw [h]; rfl, hname ▸ knownParts_of_path owner s name (.inl rfl) _⟩
  · exact ⟨owner.chars, by rw [h, ownerPath_text],
      hname ▸ knownParts_of_path owner s name (.inr rfl) _⟩

/-- **What a `Spelling` leaves gives the parts of the member**, except where the scope of a static
member is left out: then there are just a name and an owner. -/
theorem Spelling.givesMember (h : Spelling owner s name tags)
    (hbegins : ¬owner.chars <+: name.text.toList)
    (hvalues : ∀ raw ∈ tags, d.fields (givenField raw) = givenValue raw)
    (habsent : ∀ g, g ∉ tags.map givenField → d.fields g = .absent) :
    ((d.fields .scope = .absent ∨ d.fields .scope = .text s.word) ∧ GivesMember owner s name d) ∨
      (s = .static ∧ d.fields .name = .text name.text ∧
        d.fields .memberof = .text owner.text ∧ d.fields .scope = .absent) := by
  cases h <;> simp only [List.forall_mem_cons, List.not_mem_nil, false_implies, implies_true,
    and_true, givenField_name, givenField_memberof, givenField_scope, givenField_word, givenValue,
    Option.getD_some, Option.getD_none] at hvalues
  -- The scope stands in a tag of its own.
  case scopeTitle =>
    obtain ⟨hname, hmemberof, hscope⟩ := hvalues
    exact .inl ⟨.inr hscope, givesMember_of_scope hbegins hname hmemberof hscope⟩
  case scopeText =>
    obtain ⟨hname, hmemberof, hscope⟩ := hvalues
    exact .inl ⟨.inr hscope, givesMember_of_scope hbegins hname hmemberof hscope⟩
  -- The mark, and with it the scope, stands in the name or in the owner.
  case markedOwner =>
    obtain ⟨hname, hmemberof⟩ := hvalues
    exact .inl ⟨.inl (habsent _ (by simp)),
      givesMember_of_marked hname (hmemberof ▸ ownerPath_marked owner s)⟩
  case wholePath =>
    exact .inl ⟨.inl (habsent _ (by simp)),
      givesMember_of_path (hvalues ▸ namePath_whole owner s name) (.inl (habsent _ (by simp)))⟩
  case pathAndOwner =>
    obtain ⟨hname, hmemberof⟩ := hvalues
    exact .inl ⟨.inl (habsent _ (by simp)),
      givesMember_of_path (hname ▸ namePath_whole owner s name) (.inr hmemberof)⟩
  case prototypePath =>
    exact .inl ⟨.inl (habsent _ (by simp)),
      givesMember_of_path (hvalues ▸ namePath_prototype owner name) (.inl (habsent _ (by simp)))⟩
  case prototypeOwner =>
    obtain ⟨hname, hmemberof⟩ := hvalues
    exact .inl ⟨.inl (habsent _ (by simp)),
      givesMember_of_marked hname (hmemberof ▸ ownerPath_prototype owner)⟩
  -- Nothing tells the scope.
  case unscoped =>
    obtain ⟨hname, hmemberof⟩ := hvalues
    exact .inr ⟨rfl, hname, hmemberof, habsent _ (by simp)⟩

end Left

/-! ### The doclet -/

section Built

variable {owner : MemberPath} {s : Scope} {name : Identifier} {comment : String}
  {warnUnknown : Bool} {d : Doclet}

/-- Whether a doclet holds the member `name` of `owner` with the scope `s`. -/
structure HoldsMember (owner : MemberPath) (s : Scope) (name : Identifier) (d : Doclet) : Prop where
  /-- The name. -/
  name_eq : d.fields .name = .text name.text
  /-- The owner. -/
  memberof_eq : d.fields .memberof = .text owner.text
  /-- The scope. -/
  scope_eq : d.fields .scope = .text s.word
  /-- The path. -/
  longname_eq : d.fields .longname = .text (owner.text ++ String.ofList [s.mark] ++ name.text)

/-- Tags that leave what `GivesMember` says make the doclet of the member. -/
theorem exists_build_of_known
    (htags : addTags (RawTag.ofComment comment)
      { blank .standard comment {} false warnUnknown with recording := true } = .ok () d)
    (hsetting : d.setting = standardSetting)
    (hknown : GivesMember owner s name d)
    (hscope : d.fields .scope = .absent ∨ d.fields .scope = .text s.word)
    (hpath : d.fields .longname = .absent) (hkind : d.fields .kind = .absent) :
    ∃ d', build .standard comment {} false warnUnknown = .ok () d' ∧
      HoldsMember owner s name d' := by
  have hresolvable : Resolvable d (owner.partsOf s name) := by
    refine .of_scope (hscope.imp_right fun h => ⟨s, h⟩) hknown
      (owner.member s name).text_ne hpath ?_
    rw [hkind]
    rfl
  -- The parts are complete, so what the doclet holds is what they say.
  obtain ⟨d', hbuild, hd'⟩ := hresolvable.exists_build htags hsetting
  refine ⟨d', hbuild, hd'.name_of_ne name.text_ne, ?_, hd'.scope_eq, ?_⟩
  · rw [hd'.memberof_eq, if_neg]
    · rfl
    · simpa [MemberPath.partsOf] using owner.text_ne
  · rw [hd'.longname_eq, namespaced_of_no_kind hkind, ← owner.text_member s name]
    rfl

/-- Tags that leave a name and an owner, and nothing else, make a doclet that `HoldsMember` as a
static one. -/
theorem exists_build_of_unscoped (hbegins : ¬owner.chars <+: name.text.toList)
    (htags : addTags (RawTag.ofComment comment)
      { blank .standard comment {} false warnUnknown with recording := true } = .ok () d)
    (hsetting : d.setting = standardSetting) (hname : d.fields .name = .text name.text)
    (hmemberof : d.fields .memberof = .text owner.text) (hscope : d.fields .scope = .absent)
    (hpath : d.fields .longname = .absent) (hkind : d.fields .kind = .absent) :
    ∃ d', build .standard comment {} false warnUnknown = .ok () d' ∧
      HoldsMember owner .static name d' := by
  obtain ⟨d', hbuild, hname', hmemberof', hscope', hpath', -⟩ :=
    exists_build_deferred name.text_ne name.isWord.not_prototype owner.text_ne
      (by rw [owner.toList_text]; exact owner.not_prototype_chars)
      (by rw [owner.toList_text]; exact owner.endsInMark_chars)
      (by rw [owner.toList_text]; exact hbegins) htags hsetting hname hmemberof hscope hpath hkind
  exact ⟨d', hbuild, hname', hmemberof', hscope', hpath'⟩

end Built

/-- **All spellings of a member agree.** For every path of identifiers, every scope and every
identifier that does not start with the text of the path: a comment whose tags are a `Spelling` of
the member, in any order, makes a doclet with this name, owner and scope, and its path is the owner,
the mark of the scope and the name. -/
theorem build_spelling (owner : MemberPath) (s : Scope) (name : Identifier) (tags : List RawTag)
    (comment : String) (warnUnknown : Bool) (hbegins : ¬owner.chars <+: name.text.toList)
    (hspelling : Spelling owner s name tags) (htags : (RawTag.ofComment comment).Perm tags) :
    ∃ d, build .standard comment {} false warnUnknown = .ok () d ∧
      d.fields .name = .text name.text ∧ d.fields .memberof = .text owner.text ∧
      d.fields .scope = .text s.word ∧
      d.fields .longname = .text (owner.text ++ String.ofList [s.mark] ++ name.text) := by
  obtain ⟨d, hadd, hsetting, hvalues, hother⟩ := hspelling.exists_addTags htags
    (d := { blank .standard comment {} false warnUnknown with recording := true }) rfl
  have hfresh : ∀ g, g ∉ [Field.name, .memberof, .scope] → d.fields g = .absent := by
    intro g hg
    refine hother g fun hmem => hg ?_
    obtain ⟨raw, -, rfl⟩ := List.mem_map.mp hmem
    exact givenField_mem raw
  have hpath := hfresh .longname (by decide)
  have hkind := hfresh .kind (by decide)
  obtain ⟨d', hbuild, hd'⟩ : ∃ d', build .standard comment {} false warnUnknown = .ok () d' ∧
      HoldsMember owner s name d' := by
    -- One spelling gives no parts, and the member is made static in the end; the others are all
    -- alike.
    rcases hspelling.givesMember hbegins hvalues hother with
      ⟨hscope, hgives⟩ | ⟨rfl, hname, hmemberof, hscope⟩
    · exact exists_build_of_known hadd hsetting hgives hscope hpath hkind
    · exact exists_build_of_unscoped hbegins hadd hsetting hname hmemberof hscope hpath hkind
  exact ⟨d', hbuild, hd'.name_eq, hd'.memberof_eq, hd'.scope_eq, hd'.longname_eq⟩

/-- An instance member of an inner symbol: the `prototypeOwner` has its mark in full, and stands
before the name. -/
theorem build_spelling_prototype :
    let owner : MemberPath :=
      .member (.root ⟨"Größe", by decide, by decide⟩) .inner ⟨"$b_1", by decide, by decide⟩
    let name : Identifier := ⟨"größer", by decide, by decide⟩
    let tags : List RawTag :=
      [⟨"name", some name.text⟩, ⟨"memberof", some (owner.text ++ ".prototype")⟩]
    let comment := "/**\n * @memberof Größe~$b_1.prototype\n * @name größer\n */"
    (¬owner.chars <+: name.text.toList ∧ Spelling owner .perInstance name tags ∧
        (RawTag.ofComment comment).Perm tags) ∧
      ∃ d, build .standard comment {} false true = .ok () d ∧
        d.fields .name = .text name.text ∧ d.fields .memberof = .text owner.text ∧
        d.fields .scope = .text Scope.perInstance.word ∧
        d.fields .longname =
          .text (owner.text ++ String.ofList [Scope.perInstance.mark] ++ name.text) := by
  intro owner name tags comment
  -- Only the tags of the comment are evaluated, not the doclet.
  have hbegins : ¬owner.chars <+: name.text.toList := by decide
  have htags : (RawTag.ofComment comment).Perm tags := by decide +kernel
  exact ⟨⟨hbegins, .prototypeOwner name, htags⟩,
    build_spelling owner _ name tags comment true hbegins (.prototypeOwner name) htags⟩

end DocComment.Doclet
