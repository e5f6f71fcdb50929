import DocComment.Doclet.Output
import DocComment.Proofs.ListedTags

/-!
# Doclets that can be printed

Whether a doclet can be printed depends on what its fields hold (`Doclet.fieldFault?`). With the
standard tags it always can (`exists_buildFrom_print`), as long as the number of its line is not too
long.

The values that standard tags write are of two shapes. A field for one value gets a *simple* one
(`FieldValue.isSimple`), and a field for a list gets *entries* (`FieldValue.isEntry`): unknown tags,
values of tags and pairs of borrowed names, with nothing but texts inside. Neither shape is lost
when a doclet gives keys to the lists in a value (`isSimple_settle`, `isEntry_settle`).

What could spoil it is an item that shows in two places, or a list that gets into itself. So
`PrintsSlot` also says that the list in a field has a key of its own, older than the next one. It is
kept by every operation (`PrintsSlot.slotAfter`), and `upheld_printable` carries it through all that
happens to a doclet.
-/

namespace DocComment

open FieldValue (keysOfItems)

/-- `firstFault?` finds nothing where no member has a fault. -/
theorem firstFault?_eq_none {members : List (String × Option DocletFault)}
    (h : ∀ m ∈ members, m.2 = none) : firstFault? members = none := by
  unfold firstFault?
  rw [List.findSome?_eq_none_iff]
  intro m hm
  exact h m (List.mem_mergeSort.mp hm)

namespace FieldValue

/-! ### Shapes of values -/

/-- Whether a value is a text. -/
def isText : FieldValue → Bool
  | text _ => true
  | _ => false

/-- Whether a value is **simple**: nothing, a text, a truth value or a list of texts. -/
def isSimple : FieldValue → Bool
  | absent | text _ | flag _ => true
  | list _ items => items.all isText
  | _ => false

/-- Whether a value is an **entry**: a simple one, or a tag, the value of a tag or a pair of
borrowed names with nothing but simple values inside. -/
def isEntry : FieldValue → Bool
  | typed types _ _ _ _ => types.isSimple
  | tag _ (typed types _ _ _ _) => types.isSimple
  | tag _ value => value.isSimple
  | borrowed source target => source.isSimple && target.isSimple
  | v => v.isSimple

theorem exists_text_of_isText {v : FieldValue} (h : v.isText = true) : ∃ s, v = .text s := by
  cases v with
  | text s => exact ⟨s, rfl⟩
  | _ => cases h

section Texts

variable {items : List FieldValue} (h : items.all isText = true)
include h

theorem keysOfItems_of_texts : keysOfItems items = [] := by
  rw [keysOfItems_eq_flatMap, List.flatMap_eq_nil_iff]
  intro v hv
  obtain ⟨s, rfl⟩ := exists_text_of_isText (List.all_eq_true.mp h v hv)
  exact keys_leaf rfl

theorem itemsFault?_of_texts : itemsFault? items = none := by
  induction items with
  | nil => rw [itemsFault?]
  | cons v items ih =>
    rw [List.all_cons, Bool.and_eq_true] at h
    obtain ⟨s, rfl⟩ := exists_text_of_isText h.1
    simp [itemsFault?, printFault?, ih h.2]

theorem settleItems_of_texts (home : Slot) (n : Nat) : settleItems home n items = (items, n) := by
  induction items with
  | nil => rw [settleItems]
  | cons v items ih =>
    rw [List.all_cons, Bool.and_eq_true] at h
    obtain ⟨s, rfl⟩ := exists_text_of_isText h.1
    rw [settleItems, settle_leaf rfl, ih h.2]

end Texts

theorem isSimple_of_isTextual {v : FieldValue} (h : Doclet.isTextual v = true) :
    v.isSimple = true := by
  rcases Doclet.isTextual_iff.mp h with rfl | ⟨s, rfl⟩ <;> rfl

theorem isSimple_ofTexts (texts : List String) : (ofTexts texts).isSimple = true := by
  simp [ofTexts, isSimple, isText]

theorem isEntry_ofTagValue (v : Tag.Value) : (ofTagValue v).isEntry = true := by
  cases v with
  | plain s => rfl
  | typed v => exact isSimple_ofTexts v.types

theorem isEntry_ofTag (t : Tag) : (ofTag t).isEntry = true := by
  unfold ofTag
  cases t.value with
  | plain s => rfl
  | typed v => exact isSimple_ofTexts v.types

/-- A simple value (`isSimple`) is an entry (`isEntry`), and so is a tag that has it for its
value. -/
theorem isEntry_of_isSimple {v : FieldValue} (h : v.isSimple = true) :
    v.isEntry = true ∧ ∀ t, (FieldValue.tag t v).isEntry = true := by
  cases v with
  | absent | text s | flag b | list key items => exact ⟨h, fun _ => h⟩
  | _ => cases h

/-! ### Keys for the lists inside -/

theorem isSimple_settle {v : FieldValue} (h : v.isSimple = true) (home : Slot) (n : Nat) :
    (v.settle home n).1.isSimple = true := by
  cases v with
  | absent | text s | flag b => rwa [settle_leaf rfl]
  | list key items =>
    rw [settle]
    dsimp only
    rwa [settleItems_of_texts h]
  | _ => cases h

theorem isEntry_settle {v : FieldValue} (h : v.isEntry = true) (home : Slot) (n : Nat) :
    (v.settle home n).1.isEntry = true := by
  -- An entry has simple values in a few places, and only these are settled.
  cases v with
  | typed types name description optional defaultValue =>
    rw [settle]
    exact isSimple_settle h home n
  | tag t value =>
    rw [settle]
    cases value with
    | typed types name description optional defaultValue =>
      rw [settle]
      exact isSimple_settle h home n
    | absent | text s | flag b | list key items =>
      refine (isEntry_of_isSimple (isSimple_settle ?_ home n)).2 t
      exact h
    | _ => cases h
  | borrowed source target =>
    simp only [isEntry, Bool.and_eq_true] at h
    rw [settle]
    simp only [isEntry, Bool.and_eq_true]
    exact ⟨isSimple_settle h.1 home n, isSimple_settle h.2 home _⟩
  | absent | text s | flag b | list key items =>
    refine (isEntry_of_isSimple (isSimple_settle ?_ home n)).1
    exact h
  | _ => cases h

/-! ### Shapes without faults -/

theorem printFault?_of_isSimple {v : FieldValue} (h : v.isSimple = true) :
    v.printFault? = none := by
  cases v with
  | absent | text s | flag b => rw [printFault?] <;> simp
  | list key items =>
    have hnot : holdsItself key items = false := by
      cases key <;> simp [holdsItself, keysOfItems_of_texts h]
    rw [printFault?, if_neg (by simp [hnot]), itemsFault?_of_texts h]
  | _ => cases h

theorem itemFault?_of_isEntry {v : FieldValue} (h : v.isEntry = true) : v.itemFault? = none := by
  cases v with
  | typed types name description optional defaultValue => exact printFault?_of_isSimple h
  | tag t value =>
    cases value with
    | typed types name description optional defaultValue => exact printFault?_of_isSimple h
    | absent | text s | flag b | list key items => exact printFault?_of_isSimple h
    | _ => cases h
  | borrowed source target =>
    simp only [isEntry, Bool.and_eq_true] at h
    simp [itemFault?, printFault?_of_isSimple h.1, printFault?_of_isSimple h.2]
  | absent | text s | flag b | list key items => exact printFault?_of_isSimple h
  | _ => cases h

end FieldValue

namespace Doclet

/-! ### Fields -/

/-- Whether what a field holds, and the number of lists started in it, **can be printed**, now and
after further entries: a field for lists holds a list of entries that has a key of its own, and any
other field a simple value. -/
structure PrintsSlot (f : Field) (s : FieldValue × Nat) : Prop where
  listed : f ∈ Field.lists → s.1 = .absent ∨ ∃ n items, s.1 = .list (some ⟨f, n⟩) items ∧ n < s.2 ∧
    (⟨f, n⟩ : ListKey) ∉ keysOfItems items ∧ ∀ v ∈ items, v.isEntry = true
  single : f ∉ Field.lists → s.1.isSimple = true

/-- A field with the property `PrintsSlot` has no `fieldFault?`. -/
theorem PrintsSlot.fieldFault? {f : Field} {s : FieldValue × Nat} (h : PrintsSlot f s) :
    fieldFault? f s.1 = none := by
  unfold Doclet.fieldFault?
  by_cases hf : f ∈ Field.lists
  · rw [if_pos (List.contains_iff_mem.mpr hf)]
    rcases h.listed hf with hv | ⟨n, items, hv, -, hkey, hitems⟩
    · rw [hv]
    · rw [hv]
      -- The list does not hold itself, and each item prints.
      have hnot : FieldValue.holdsItself (some ⟨f, n⟩) items = false := by
        simpa [FieldValue.holdsItself] using hkey
      dsimp only
      rw [if_neg (by simp [hnot]), List.findSome?_eq_none_iff]
      exact fun v hv => FieldValue.itemFault?_of_isEntry (hitems v hv)
  · rw [if_neg (by simpa using hf)]
    exact FieldValue.printFault?_of_isSimple (h.single hf)

theorem printsSlot_of_isSimple {f : Field} (hf : f ∉ Field.lists) {v : FieldValue}
    (hv : v.isSimple = true) (n : Nat) : PrintsSlot f (v, n) :=
  ⟨fun hlist => absurd hlist hf, fun _ => hv⟩

/-- Whether an operation writes a simple value (`FieldValue.isSimple`) or adds an entry
(`FieldValue.isEntry`). -/
def IsShown : Operation → Prop
  | .append _ v => v.isEntry = true
  | op => op.value.isSimple = true

/-- **An operation keeps `PrintsSlot`** for its field, if it is orderly and writes what can be
shown. -/
theorem PrintsSlot.slotAfter {op : Operation} {s : FieldValue × Nat} (h : PrintsSlot op.field s)
    (horderly : IsOrderly op) (hshown : IsShown op) :
    PrintsSlot op.field (slotAfter op.field s op) := by
  cases op with
  | append f v =>
    change PrintsSlot f s at h
    change PrintsSlot f (Doclet.slotAfter f s (.append f v))
    refine ⟨fun _ => .inr ?_, fun hf => absurd horderly.1 hf⟩
    have hentry := FieldValue.isEntry_settle hshown f s.2
    rcases h.listed horderly.1 with hv | ⟨n, items, hv, hn, hkey, hitems⟩
    · -- The list gets the next key, which is none of those that were given to its first item.
      refine ⟨(v.settle f s.2).2, [(v.settle f s.2).1], ?_, ?_, ?_, ?_⟩
      · rw [Doclet.slotAfter, hv]
      · rw [Doclet.slotAfter, hv]
        exact Nat.lt_succ_self _
      · rw [FieldValue.keysOfItems, FieldValue.keysOfItems, List.append_nil]
        intro hmem
        rcases (FieldValue.mem_keys_settle s.2 v).2 _ hmem with hold | ⟨-, -, hlt⟩
        · rw [horderly.2] at hold
          cases hold
        · exact absurd hlt (Nat.lt_irrefl _)
      · exact List.forall_mem_singleton.mpr hentry
    · -- The list is in none of its items, so these stay as they are.
      have hkept : FieldValue.extendItems ⟨f, n⟩ (v.settle f s.2).1 items = items :=
        FieldValue.extendItems_of_notMem _ hkey
      refine ⟨n, items ++ [(v.settle f s.2).1], ?_, ?_, ?_, ?_⟩
      · rw [Doclet.slotAfter, hv]
        dsimp only
        rw [FieldValue.extend_list_same, hkept]
      · rw [Doclet.slotAfter, hv]
        exact Nat.lt_of_lt_of_le hn (FieldValue.mem_keys_settle s.2 v).1
      · rw [FieldValue.keysOfItems_append, FieldValue.keysOfItems, FieldValue.keysOfItems,
          List.append_nil, List.mem_append, not_or]
        exact ⟨hkey, notMem_keys_settle hn horderly.2⟩
      · exact List.forall_mem_append.mpr ⟨hitems, List.forall_mem_singleton.mpr hentry⟩
  | set f v =>
    exact ⟨fun hf => absurd hf horderly.1, fun _ => FieldValue.isSimple_settle hshown f s.2⟩
  | memberof v =>
    exact printsSlot_of_isSimple (show Field.memberof ∉ Field.lists by decide)
      (FieldValue.isSimple_settle hshown _ s.2) _
  | longname v => exact horderly.elim

/-! ### Operations of the standard tags -/

/-- Whether a rule writes the value of a tag to a field for one value, as it is. -/
def writesValue : Rule → Bool
  | .markDeprecated | .describeFile | .fieldFromValue _ => true
  | _ => false

/-- A rule that `writesValue` belongs to a tag with a plain text. The table of the standard tags
says so: no definition with such a rule has types or a name. -/
theorem value_of_writesValue {definition : Definition} (h : definition ∈ Standard.definitions)
    {r : Rule} (hr : r ∈ rulesOf definition) (hwrites : writesValue r = true)
    {dictionary : Dictionary} {title : String} (hfind : dictionary.find? title = some definition)
    (text : String) : ∃ s, (Tag.read dictionary title text).value = .plain s := by
  have htable : Standard.definitions.all (fun definition =>
      !(definition.canHaveType || definition.canHaveName) ||
        (rulesOf definition).all fun r => !writesValue r) = true := by
    decide
  have hplain := List.all_eq_true.mp htable definition h
  -- A definition with types or a name has no such rule in the table.
  have huntyped : (definition.canHaveType || definition.canHaveName) = false := by
    cases htyped : (definition.canHaveType || definition.canHaveName) with
    | false => rfl
    | true =>
      rw [htyped, Bool.not_true, Bool.false_or, List.all_eq_true] at hplain
      have hnot := hplain r hr
      rw [hwrites] at hnot
      cases hnot
  simp [Tag.read, hfind, Tag.valueOf, huntyped]

theorem isShown_borrowing (source : String) (target : Option String) :
    IsShown (.borrowing (.text source) (.ofText? target)) := by
  unfold Operation.borrowing
  cases target with
  | none => rfl
  | some s => cases hs : (FieldValue.ofText? (some s)).isEmpty <;> rfl

/-- **Rules of the standard tags write simple values and add entries** (`IsShown`). -/
theorem isShown_of_rule {definition : Definition} (h : definition ∈ Standard.definitions) {r : Rule}
    (hr : r ∈ rulesOf definition) {dictionary : Dictionary} {title : String}
    (hfind : dictionary.find? title = some definition) (filename : Option String) (text : String) :
    ∀ op ∈ r.operations dictionary filename (Tag.read dictionary title text), IsShown op := by
  have hplain : writesValue r = true →
      (FieldValue.ofTagValue (Tag.read dictionary title text).value).isSimple = true := by
    intro hwrites
    obtain ⟨s, hs⟩ := value_of_writesValue h hr hwrites hfind text
    rw [hs]
    rfl
  have hone : ∀ {op : Operation}, IsShown op → ∀ o ∈ [op], IsShown o := fun h =>
    List.forall_mem_singleton.mpr h
  have hset : ∀ {f : Field} {v : FieldValue}, v.isSimple = true → IsShown (.set f v) := fun h => h
  -- Most rules write texts that they make themselves; `hplain` is for the three that do not.
  cases r with
  | kindFromTitle | scopeFromTitle | accessFromTitle | markIgnored => exact hone rfl
  | nameFromValue =>
    rw [Rule.operations]
    split
    · exact hone rfl
    · exact List.forall_mem_nil _
  | quotedNameFromValue | accessFromValue => exact forall_mem_unless (hset rfl) _
  | typeFromValue => exact forall_mem_unless (hset (FieldValue.isSimple_ofTexts _)) _
  | memberofFromValue | augmentFromValue =>
    refine forall_mem_unless (P := IsShown) ?_ _
    rfl
  | makeGlobal => exact List.forall_mem_cons.mpr ⟨rfl, hone rfl⟩
  | borrowFromText =>
    rw [Rule.operations]
    split
    · exact hone (isShown_borrowing _ _)
    · exact List.forall_mem_nil _
  | markDeprecated =>
    refine hone ?_
    change FieldValue.isSimple (if _ then _ else _) = true
    split
    · rfl
    · exact hplain rfl
  | describeFile =>
    refine List.forall_mem_append.mpr ⟨List.forall_mem_append.mpr ⟨hone rfl, ?_⟩,
      forall_mem_unless (hset (hplain rfl)) _⟩
    cases presentText filename with
    | none => exact List.forall_mem_nil _
    | some file => exact hone rfl
  | fieldFromValue f => exact forall_mem_unless (hset (hplain rfl)) _
  | appendValue f => exact hone (FieldValue.isEntry_ofTagValue _)

/-! ### Doclets -/

/-- Whether a doclet of the standard tags, found at `origin`, **can be printed** whatever happens to
it: its names are texts, each list is in its own field, and all fields can be printed. -/
structure Printable (dictionary : Dictionary) (origin : Origin) (d : Doclet) : Prop where
  textual : Textual dictionary d
  origin_eq : d.origin = origin
  regular : Regular d
  slots : ∀ f, PrintsSlot f (d.slot f)

/-- The operations that doclets of the standard tags meet with: those of the rules, and paths. -/
def IsStandard (op : Operation) : Prop :=
  IsOrderly op ∧ IsShown op ∨ ∃ v, op = .longname v ∧ isTextual v = true

theorem IsStandard.isNaming {op : Operation} (h : IsStandard op) : IsNaming op := by
  rcases h with ⟨horderly, -⟩ | ⟨v, rfl, hv⟩
  · exact isNaming_of_isOrderly horderly
  · exact hv

namespace Printable

variable {dictionary : Dictionary} {origin : Origin} {d d' : Doclet}

/-- `Printable` is kept where a text gets into a field that is not for lists. -/
theorem of_text (h : Printable dictionary origin d) (htextual : Textual dictionary d')
    (horigin : d'.origin = d.origin) {f : Field} (hf : f ∉ Field.lists)
    (hother : ∀ g, g ≠ f → d'.slot g = d.slot g) (hv : isTextual (d'.fields f) = true) :
    Printable dictionary origin d' := by
  have hfields : ∀ g, g ≠ f → d'.fields g = d.fields g := fun g hg =>
    congrArg Prod.fst (hother g hg)
  -- The field has no lists any more, and all others are as before.
  refine ⟨htextual, horigin.trans h.origin_eq, ⟨fun g k hk => ?_, fun g hg => ?_⟩, fun g => ?_⟩
  · by_cases hgf : g = f
    · rw [hgf, keys_of_isTextual hv] at hk
      cases hk
    · rw [hfields g hgf] at hk
      exact h.regular.own g k hk
  · have hgf : g ≠ f := fun heq => hf (heq ▸ hg)
    rw [hfields g hgf]
    exact h.regular.listed g hg
  · by_cases hgf : g = f
    · rw [hgf]
      exact printsSlot_of_isSimple hf (FieldValue.isSimple_of_isTextual hv) _
    · rw [hother g hgf]
      exact h.slots g

/-- **Operations of the standard tags keep `Printable`.** -/
theorem perform (h : Printable dictionary origin d) {op : Operation} (hop : IsStandard op)
    (hrefusal : d.refusal? op = none) : Printable dictionary origin (d.perform op) := by
  have htextual := h.textual.perform hop.isNaming hrefusal
  obtain ⟨b, hb⟩ := h.textual.switch
  have horigin : (d.perform op).origin = d.origin := congrArg (·.2.1) (d.setting_perform hb op)
  rcases hop with ⟨horderly, hshown⟩ | ⟨v, rfl, hv⟩
  · -- An orderly operation touches its own field only, and there `PrintsSlot` is kept.
    refine ⟨htextual, horigin.trans h.origin_eq, h.regular.perform horderly, fun f => ?_⟩
    by_cases hf : f = op.field
    · subst hf
      rw [h.regular.slot_perform horderly]
      exact (h.slots op.field).slotAfter horderly hshown
    · rw [h.regular.slot_perform_ne horderly hf]
      exact h.slots f
  · -- A path may get a name space in front, but stays a text.
    refine h.of_text htextual horigin (f := .longname) (by decide) (fun g hg => ?_)
      (htextual.names .longname (by decide))
    have hwrites : (Operation.longname v).isAppend = false := rfl
    obtain ⟨w, hperform, -⟩ := exists_perform_put hwrites d
    rw [hperform, Operation.field, slot_put, if_neg hg, slot_record]
    exact congrArg (Prod.mk _) (if_neg hg)

/-- `Doclet.refusal?` has nothing against them. -/
theorem refusal? (h : Printable dictionary origin d) {op : Operation} (hop : IsStandard op) :
    d.refusal? op = none := by
  rcases hop with ⟨horderly, -⟩ | ⟨v, rfl, hv⟩
  · exact h.regular.growable.refusal? horderly
  · exact refusal?_longname (isKey_of_isTextual (h.textual.names .kind (by decide))) hv

/-- A doclet with the property `Printable` has no `printFault?`, as long as its line is a number
that can be printed. -/
theorem printFault? (h : Printable dictionary origin d) (hline : originFault? origin = none) :
    d.printFault? = none := by
  refine firstFault?_eq_none (List.forall_mem_cons.mpr ⟨?_, ?_⟩)
  · rw [h.origin_eq]
    exact hline
  · intro m hm
    obtain ⟨f, -, rfl⟩ := List.mem_map.mp hm
    exact (h.slots f).fieldFault?

end Printable

/-- **With the standard tags a doclet stays `Printable`**, whatever happens to it. -/
theorem upheld_printable {a : Adjustments} {dictionary : Dictionary}
    (h : Dictionary.build [] a = .ok dictionary) (origin : Origin) :
    UpheldThroughout dictionary (Printable dictionary origin) IsStandard where
  dictionary_eq hd := hd.textual.dictionary_eq
  perform hd hop hrefusal := hd.perform hop hrefusal
  refuse hd hop hrefusal := by
    rw [hd.refusal? hop] at hrefusal
    cases hrefusal
  noting hd remarks := ⟨(upheld_textual h).noting hd.textual remarks, hd.origin_eq,
    ⟨hd.regular.own, hd.regular.listed⟩, hd.slots⟩
  keeping hd keeps := by
    have htextual := (upheld_textual h).keeping hd.textual keeps
    cases keeps with
    | false => exact hd
    | true => exact ⟨htextual, hd.origin_eq, ⟨hd.regular.own, hd.regular.listed⟩, hd.slots⟩
  unknown t := .inl ⟨⟨by decide, by simp⟩, FieldValue.isEntry_ofTag t⟩
  stray hp := absurd hp (not_isProgramOf_of_build h _)
  direct hfield v := .inl ⟨isOrderly_direct hfield v,
    FieldValue.isSimple_of_isTextual (isTextual_plainValue v)⟩
  rule hfind r hr _ _ op hop := by
    have hmem := Dictionary.mem_standard h hfind
    exact .inl ⟨isOrderly_of_rule ((isOrderly_standard hmem).2 r hr) _ _ _ op hop,
      isShown_of_rule hmem hr hfind _ _ op hop⟩
  change hp := absurd hp (not_isProgramOf_of_build h _)
  assign hp := absurd hp (not_isProgramOf_of_build h _)
  put hd f hf s := by
    -- What resolving writes past the log are texts, to fields that hold no list.
    have hlists : ∀ f ∈ [Field.name, .scope, .variation], f ∉ Field.lists := by decide
    refine hd.of_text ((upheld_textual h).put hd.textual f hf s) rfl (hlists f hf)
      (fun g hg => ?_) ?_
    · rw [slot_put, if_neg hg]
    · rw [fields_put_same]
      rfl
  memberof _ := .inl ⟨rfl, rfl⟩
  dropped := .inl ⟨rfl, rfl⟩
  longname s := .inr ⟨.text s, rfl, rfl⟩
  named hd := .inr ⟨_, rfl, hd.textual.names .name (by decide)⟩

/-! ### Building and printing -/

/-- A doclet whose list fields hold lists (`Growable`) has a **printed form**. -/
theorem Growable.exists_toJson {d : Doclet} (h : Growable d) :
    ∃ members, d.toJson = .ok (.object members) := by
  -- Field by field: only one for lists can have no printed form.
  have hfields : ∀ fs, ∃ members, d.fieldMembers fs = .ok members := by
    intro fs
    induction fs with
    | nil => exact ⟨[], rfl⟩
    | cons f fs ih =>
      obtain ⟨members, hmembers⟩ := ih
      unfold fieldMembers
      cases habsent : (d.fields f).isAbsent with
      | true => exact ⟨members, hmembers⟩
      | false =>
        obtain ⟨shown, hshown⟩ : ∃ shown, fieldToJson f (d.fields f) = .ok shown := by
          unfold fieldToJson
          cases hlist : Field.lists.contains f with
          | false => exact ⟨_, rfl⟩
          | true =>
            -- What is there and can grow is a list.
            have hgrows := h f (List.contains_iff_mem.mp hlist)
            cases hv : d.fields f with
            | list key items => exact ⟨_, rfl⟩
            | absent =>
              rw [hv] at habsent
              cases habsent
            | _ =>
              rw [hv] at hgrows
              cases hgrows
        refine ⟨(f.key, shown) :: members, ?_⟩
        rw [if_neg (by decide), hshown, hmembers]
        rfl
  obtain ⟨members, hmembers⟩ := hfields Field.all
  refine ⟨("comment", .string d.comment) :: (members ++ [("meta", d.origin.toJson)]), ?_⟩
  rw [toJson, stateMembers, hmembers]
  rfl

/-- What `print` yields is **one object**. -/
theorem exists_object_of_print {d : Doclet} {printed : Json} (h : d.print = .ok printed) :
    ∃ members, printed = .object members := by
  unfold print toJson at h
  cases hmembers : d.stateMembers with
  | error fault =>
    rw [hmembers] at h
    cases h
  | ok members =>
    rw [hmembers] at h
    cases hfault : d.printFault? with
    | none =>
      rw [hfault] at h
      exact ⟨_, (Except.ok.inj h).symm⟩
    | some fault =>
      rw [hfault] at h
      cases h

/-- **`buildFrom` succeeds, and so does `print`**, whatever the tags and the adjustments of the
standard dictionary are, as long as the number of the line is not too long. -/
theorem exists_buildFrom_print {a : Adjustments} {dictionary : Dictionary}
    (hbuild : Dictionary.build [] a = .ok dictionary) (comment : String) {patch : Origin.Patch}
    (hline : originFault? (({} : Origin).merge patch) = none) (preserveName warnUnknown : Bool)
    (tags : List RawTag) :
    ∃ d members, buildFrom dictionary comment patch preserveName warnUnknown tags = .ok () d ∧
      d.print = .ok (.object members) := by
  have hupheld := upheld_printable hbuild (({} : Origin).merge patch)
  obtain ⟨d₁, b, hadd, hregular, htextual, -⟩ := exists_addTags_blank hbuild comment
    (({} : Origin).merge patch) preserveName warnUnknown tags
  have hstart : Printable dictionary (({} : Origin).merge patch)
      { blank dictionary comment (({} : Origin).merge patch) preserveName warnUnknown with
        recording := true } :=
    ⟨⟨rfl, ⟨preserveName, rfl⟩, fun _ _ => rfl⟩, rfl,
      ⟨fun _ _ hk => by simp [fields, blank] at hk, fun _ _ => .inl rfl⟩,
      fun _ => ⟨fun _ => .inl rfl, fun _ => rfl⟩⟩
  have h₁ := hupheld.addTags tags hstart
  rw [hadd] at h₁
  -- The log is turned off before the names are completed, which no field is affected by.
  have hoff : Printable dictionary (({} : Origin).merge patch) { d₁ with recording := false } :=
    ⟨⟨h₁.textual.dictionary_eq, h₁.textual.switch, h₁.textual.names⟩, h₁.origin_eq,
      ⟨h₁.regular.own, h₁.regular.listed⟩, h₁.slots⟩
  obtain ⟨d₂, hpost⟩ := hoff.regular.growable.exists_postProcess hbuild hoff.textual
  have h₂ := hupheld.postProcess hoff
  rw [hpost] at h₂
  have hlast : Printable dictionary (({} : Origin).merge patch) d₂.remarkBuilt :=
    hupheld.noting h₂ _
  obtain ⟨members, hprinted⟩ := hlast.regular.growable.exists_toJson
  refine ⟨d₂.remarkBuilt, members, applyTags_of_ok hadd hpost, ?_⟩
  rw [print, hprinted, hlast.printFault? hline]
  rfl

end Doclet

end DocComment
