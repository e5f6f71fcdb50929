import DocComment.Proofs.DictionaryChanges
import DocComment.Proofs.Resolution
import DocComment.Proofs.SharedLists

/-!
# What the standard tags write

Settings can give the standard tags further synonyms and give kinds a name space, but they leave the
definitions alone: whatever title is looked up, a standard definition is found
(`Dictionary.mem_standard`), and a title that is no new synonym leads where it always did
(`Dictionary.find?_of_build`).

None of the standard definitions has a script. Its rules come down to **orderly** operations
(`isOrderly_tagOperations`): values are added only to the fields for lists and written only to the
others, the fields that names are made of get texts, and no operation hands a list on from one field
to another.
-/

namespace DocComment

namespace Dictionary

/-! ### Dictionaries of the standard tags -/

theorem definitions_addNamespaces (d : Dictionary) (kinds : List String) :
    (kinds.foldl addNamespace d).definitions = d.definitions ∧
      (kinds.foldl addNamespace d).synonyms = d.synonyms := by
  induction kinds generalizing d with
  | nil => exact ⟨rfl, rfl⟩
  | cons kind kinds ih =>
    rw [List.foldl_cons, (ih _).1, (ih _).2]
    exact definitions_addNamespace d kind

theorem definitions_addSynonym {d d' : Dictionary} {synonym title : String}
    (h : d.addSynonym synonym title = .ok d') :
    d'.definitions = d.definitions ∧
      ∀ key, synonym ≠ key → d'.synonyms.get? key = d.synonyms.get? key := by
  obtain ⟨-, rfl⟩ := of_addSynonym_ok h
  exact ⟨rfl, fun key hkey => by rw [Table.get?_insert, if_neg hkey]⟩

/-- A run of `addSynonym` leaves the definitions alone, and all titles but the synonyms
themselves. -/
theorem definitions_addSynonyms {d d' : Dictionary} {entries : List (String × String)}
    (h : entries.foldlM (fun d s => d.addSynonym s.1 s.2) d = .ok d') :
    d'.definitions = d.definitions ∧
      ∀ key, key ∉ entries.map Prod.fst → d'.synonyms.get? key = d.synonyms.get? key := by
  refine of_foldlM_ok (P := fun d' => d'.definitions = d.definitions ∧ ∀ key,
    key ∉ entries.map Prod.fst → d'.synonyms.get? key = d.synonyms.get? key) ?_
    ⟨rfl, fun _ _ => rfl⟩ h
  intro e he d₁ d₂ ⟨hdefinitions, hsynonyms⟩ hok
  obtain ⟨hdefinitions', hsynonyms'⟩ := definitions_addSynonym hok
  refine ⟨hdefinitions'.trans hdefinitions, fun key hkey => ?_⟩
  -- A title that is no synonym of the run is no synonym of this entry.
  have hne : e.1 ≠ key := by
    rintro rfl
    exact hkey (List.mem_map_of_mem he)
  rw [hsynonyms' key hne, hsynonyms key hkey]

section Adjusted

variable {a : Adjustments} {dictionary : Dictionary} (h : build [] a = .ok dictionary)
include h

/-- `build` with settings leaves the standard definitions alone, and all titles that are no new
synonyms. -/
theorem definitions_of_build :
    dictionary.definitions = standard.definitions ∧
      ∀ key, key ∉ a.synonyms.keys →
        dictionary.synonyms.get? key = standard.synonyms.get? key := by
  have hadjust : standard.adjust a = .ok dictionary := h
  unfold adjust at hadjust
  -- First the synonyms, which may fail, then the kinds.
  cases hsynonyms : a.synonyms.entries.foldlM (fun d s => d.addSynonym s.1 s.2) standard with
  | error fault =>
    rw [hsynonyms] at hadjust
    cases hadjust
  | ok d =>
    rw [hsynonyms] at hadjust
    cases hadjust
    obtain ⟨hdefinitions, hkeys⟩ := definitions_addSynonyms hsynonyms
    obtain ⟨hsame, hsame'⟩ := definitions_addNamespaces d a.namespaceKinds
    exact ⟨hsame.trans hdefinitions, fun key hkey => by rw [hsame', hkeys key hkey]⟩

theorem find?_of_build {title : String} (htitle : title ∉ a.synonyms.keys) :
    dictionary.find? title = standard.find? title := by
  obtain ⟨hdefinitions, hsynonyms⟩ := definitions_of_build h
  rw [find?, find?, normalize, normalize, hdefinitions, hsynonyms title htitle]

/-- The `titles` that are defined are those of the standard tags. -/
theorem titles_of_build : dictionary.titles = Standard.definitions.map (·.title) := by
  rw [titles, (definitions_of_build h).1]
  decide +kernel

/-- **`find?` finds standard tags only.** -/
theorem mem_standard {title : String} {definition : Definition}
    (hfind : dictionary.find? title = some definition) : definition ∈ Standard.definitions := by
  have hentry := Table.mem_of_get? hfind
  have hentries : standard.definitions.entries =
      Standard.definitions.map fun x => (x.title, x) := rfl
  rw [(definitions_of_build h).1, hentries] at hentry
  obtain ⟨x, hx, hpair⟩ := List.mem_map.mp hentry
  obtain rfl : x = definition := congrArg Prod.snd hpair
  exact hx

end Adjusted

/-- What can be checked of the dictionary that `build` makes holds of it. -/
theorem exists_of_any_build {a : Adjustments} {p : Dictionary → Bool}
    (h : (build [] a).toOption.any p = true) :
    ∃ dictionary, build [] a = .ok dictionary ∧ p dictionary = true := by
  cases hbuild : build [] a with
  | ok dictionary =>
    rw [hbuild] at h
    exact ⟨dictionary, rfl, h⟩
  | error fault =>
    rw [hbuild] at h
    cases h

end Dictionary

namespace Doclet

/-! ### Orderly operations -/

/-- The fields that names are made of: `resolve` and `postProcess` look at these. -/
def nameFields : List Field :=
  [.name, .longname, .memberof, .scope, .kind]

/-- Whether an operation is **orderly**: it adds a value of its own to a list, or writes one to a
field that holds no list, a text if names are made of it. The name path is not written. -/
def IsOrderly : Operation → Prop
  | .set f v => f ∉ Field.lists ∧ f ∉ [Field.memberof, .longname] ∧ v.keys = [] ∧
      (f ∈ nameFields → isTextual v = true)
  | .append f v => f ∈ Field.lists ∧ v.keys = []
  | .memberof v => isTextual v = true
  | .longname _ => False

/-- Whether the field that a `Rule` names is one that the rule may write. -/
def hasOrderlyField : Rule → Bool
  | .fieldFromValue f => [Field.otherName, .since, .version, .author].contains f
  | .appendValue f => Field.lists.contains f
  | _ => true

theorem isTextual_plainValue (v : Tag.Value) : isTextual (plainValue v) = true := by
  cases v with
  | plain s => rfl
  | typed v =>
    rw [plainValue]
    cases (presentText v.name).or v.description <;> rfl

theorem keys_of_isTextual {v : FieldValue} (h : isTextual v = true) : v.keys = [] := by
  rcases isTextual_iff.mp h with rfl | ⟨s, rfl⟩ <;> simp

theorem isOrderly_set_text {f : Field} (hlists : f ∉ Field.lists)
    (hpath : f ∉ [Field.memberof, .longname]) {v : FieldValue} (hv : isTextual v = true) :
    IsOrderly (.set f v) :=
  ⟨hlists, hpath, keys_of_isTextual hv, fun _ => hv⟩

/-- For `IsOrderly`, a field that names are not made of may get any value of its own. -/
theorem isOrderly_set {f : Field} (hlists : f ∉ Field.lists) (hname : f ∉ nameFields)
    {v : FieldValue} (hv : v.keys = []) : IsOrderly (.set f v) := by
  refine ⟨hlists, fun hmem => hname ?_, hv, fun hmem => absurd hmem hname⟩
  simp only [nameFields, List.mem_cons, List.not_mem_nil, or_false] at hmem ⊢
  rcases hmem with rfl | rfl <;> simp

/-- Most rules do nothing for a value that counts as nothing, and else make one operation. -/
theorem forall_mem_unless {P : Operation → Prop} {op : Operation} (h : P op) (empty : Bool) :
    ∀ o ∈ (if empty = true then [] else [op]), P o := by
  cases empty with
  | true => exact List.forall_mem_nil _
  | false => exact List.forall_mem_singleton.mpr h

/-- **Rules with `hasOrderlyField` come down to operations that are `IsOrderly`.** -/
theorem isOrderly_of_rule {r : Rule} (hr : hasOrderlyField r = true) (dictionary : Dictionary)
    (filename : Option String) (t : Tag) :
    ∀ op ∈ r.operations dictionary filename t, IsOrderly op := by
  have hone : ∀ {op : Operation}, IsOrderly op → ∀ o ∈ [op], IsOrderly o := fun h =>
    List.forall_mem_singleton.mpr h
  -- Most rules write a text to one of four fields.
  have htext : ∀ {f : Field} {s : String}, f ∈ [Field.name, .kind, .scope, .access] →
      IsOrderly (.set f (.text s)) := by
    intro f s hf
    simp only [List.mem_cons, List.not_mem_nil, or_false] at hf
    rcases hf with rfl | rfl | rfl | rfl <;> exact isOrderly_set_text (by decide) (by decide) rfl
  cases r with
  | kindFromTitle => exact hone (htext (by decide))
  | nameFromValue =>
    rw [Rule.operations]
    cases Rule.valueName? t.value with
    | none => exact List.forall_mem_nil _
    | some name => exact hone (htext (by decide))
  | quotedNameFromValue => exact forall_mem_unless (htext (by decide)) _
  | scopeFromTitle => exact hone (htext (by decide))
  | accessFromTitle => exact hone (htext (by decide))
  | accessFromValue => exact forall_mem_unless (htext (by decide)) _
  | typeFromValue =>
    exact forall_mem_unless (isOrderly_set (by decide) (by decide) (FieldValue.keys_ofTexts _)) _
  | memberofFromValue =>
    refine forall_mem_unless (P := IsOrderly) ?_ _
    rfl
  | makeGlobal => exact List.forall_mem_cons.mpr ⟨htext (by decide), hone rfl⟩
  | augmentFromValue => exact forall_mem_unless ⟨by decide, by simp⟩ _
  | borrowFromText =>
    rw [Rule.operations]
    cases Rule.borrowedNames? t.text.toList with
    | none => exact List.forall_mem_nil _
    | some names =>
      refine hone ⟨by decide, ?_⟩
      split <;> simp
  | markIgnored => exact hone (isOrderly_set (by decide) (by decide) (by simp))
  | markDeprecated =>
    refine hone (isOrderly_set (by decide) (by decide) ?_)
    split <;> simp
  | describeFile =>
    -- The kind, the name of the file if there is one, and the description if there is one.
    refine List.forall_mem_append.mpr ⟨List.forall_mem_append.mpr ⟨hone (htext (by decide)), ?_⟩,
      forall_mem_unless (isOrderly_set (by decide) (by decide) (by simp)) _⟩
    cases presentText filename with
    | none => exact List.forall_mem_nil _
    | some file => exact hone (htext (by decide))
  | fieldFromValue f =>
    -- `hasOrderlyField` leaves out the fields that hold lists or names.
    have hf : f ∉ Field.lists ∧ f ∉ nameFields := by
      revert hr
      cases f <;> decide
    exact forall_mem_unless (isOrderly_set hf.1 hf.2 (by simp)) _
  | appendValue f => exact hone ⟨by simpa [hasOrderlyField] using hr, by simp⟩

/-- The rules of the standard tags have `hasOrderlyField`, and only the first of them may keep the
name. -/
theorem isOrderly_standard {definition : Definition} (h : definition ∈ Standard.definitions) :
    isRuleBased definition = true ∧ ∀ r ∈ rulesOf definition, hasOrderlyField r = true := by
  have hall : Standard.definitions.all (fun definition =>
      isRuleBased definition && (rulesOf definition).all hasOrderlyField) = true := by
    decide
  have hone := List.all_eq_true.mp hall definition h
  rw [Bool.and_eq_true] at hone
  exact ⟨hone.1, List.all_eq_true.mp hone.2⟩

theorem isOrderly_direct {title : String} {f : Field} (h : directField? title = some f)
    (v : Tag.Value) : IsOrderly (.set f (plainValue v)) := by
  have hf : f ∈ [Field.name, .kind, .description, .scope] := List.mem_of_find?_eq_some h
  simp only [List.mem_cons, List.not_mem_nil, or_false] at hf
  rcases hf with rfl | rfl | rfl | rfl <;>
    exact isOrderly_set_text (by decide) (by decide) (isTextual_plainValue v)

section Adjusted

variable {a : Adjustments} {dictionary : Dictionary} (h : Dictionary.build [] a = .ok dictionary)
include h

theorem isRuleBased_of_build {title : String} {definition : Definition}
    (hfind : dictionary.find? title = some definition) : isRuleBased definition = true :=
  (isOrderly_standard (Dictionary.mem_standard h hfind)).1

/-- No standard tag has a `Program`. -/
theorem not_isProgramOf_of_build (p : Program) : ¬ IsProgramOf dictionary p := by
  rintro ⟨title, definition, hfind, hhook⟩
  have hbased := isRuleBased_of_build h hfind
  rw [isRuleBased, hhook] at hbased
  cases hbased

/-- **The `tagOperations` of all tags are `IsOrderly`.** -/
theorem isOrderly_tagOperations (origin : Origin) (title text : String) :
    ∀ op ∈ tagOperations dictionary origin title text, IsOrderly op := by
  refine List.forall_mem_append.mpr ⟨?_, ?_⟩
  · unfold hookOperations
    dsimp only
    split
    · exact List.forall_mem_singleton.mpr ⟨by decide, by simp⟩
    · next definition hfind =>
      intro op hop
      obtain ⟨r, hr, hop⟩ := List.mem_flatMap.mp hop
      -- A dictionary of settings has only standard definitions.
      have horderly := (isOrderly_standard (Dictionary.mem_standard h hfind)).2 r hr
      exact isOrderly_of_rule horderly _ _ _ op hop
  · intro op hop
    obtain ⟨f, hf, rfl⟩ := List.mem_map.mp hop
    exact isOrderly_direct (Option.mem_toList.mp hf) _

end Adjusted

end Doclet

end DocComment
