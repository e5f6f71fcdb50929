import DocComment.Proofs.FieldSlots
import DocComment.Proofs.Trimming

/-!
# The lists of a doclet

Every tag that belongs in a list of the doclet is found there, once and in its place. Seven of the
lists are those of a standard tag each (`listedTitle?`); the eighth keeps the tags that the
dictionary does not know. `hasEntry` says which raw tags have an entry in a list, and `entryOf` what
the entry is.

On a field for lists a raw tag comes down to adding its entry, or to nothing
(`filter_operationsOf`). This rests on what the rules can add to (`listField?_of_mem_operations`)
and on the table of the standard tags (`rulesOf_of_listedTitle?`). The items of such a field are
then those added to it, in their order (`foldl_slotAfter_append`).
-/

namespace DocComment.Doclet

open DocComment.Text

/-! ### Entries -/

/-- The canonical title of the **tags that a field lists**; the field `.tags` has none. -/
def listedTitle? : Field → Option String
  | .borrowed => some "borrows"
  | .augments => some "augments"
  | .params => some "param"
  | .returns => some "returns"
  | .examples => some "example"
  | .see => some "see"
  | .requires => some "requires"
  | _ => none

/-- Whether a raw tag **has an entry** in the field `f`: among the tags if it is unknown, and
otherwise in the list that its canonical title is for. There is nothing to borrow from or to augment
without a text. -/
def hasEntry (dictionary : Dictionary) (f : Field) (raw : RawTag) : Bool :=
  match f with
  | .tags => !dictionary.contains raw.title
  | .borrowed | .augments =>
    listedTitle? f == some (dictionary.normalize raw.title) &&
      !(trim (raw.text.getD "")).isEmpty
  | _ => listedTitle? f == some (dictionary.normalize raw.title)

/-- The **entry** of a raw tag in the field `f`: an unknown tag as a whole, the names it borrows,
the base without braces, or else its value. -/
def entryOf (dictionary : Dictionary) (f : Field) (raw : RawTag) : FieldValue :=
  let t := Tag.read dictionary raw.title (raw.text.getD "")
  match f with
  | .tags => .ofTag t
  | .borrowed =>
    let names := (Rule.borrowedNames? t.text.toList).getD ([], none)
    .borrowed (.text (String.ofList names.1)) (.text (String.ofList (names.2.getD names.1)))
  | .augments => .text (String.ofList (stripChars Rule.isBrace t.text.toList))
  | _ => .ofTagValue t.value

/-- The entries of raw tags in the field `f`, in the order of the tags. -/
def entries (dictionary : Dictionary) (f : Field) (tags : List RawTag) : List FieldValue :=
  (tags.filter (hasEntry dictionary f)).map (entryOf dictionary f)

/-- **What a field for lists holds**, given its entries: nothing if there are none, and else the
list of them, in which each list has its key. The keys are given as the entries come in, and the
list itself is started with the first of them. -/
def ofEntries (f : Field) : List FieldValue → FieldValue
  | [] => .absent
  | v :: more =>
    let first := v.settle f 0
    .list (some ⟨f, first.2⟩) (first.1 :: (FieldValue.settleItems f (first.2 + 1) more).1)

theorem ofEntries_eq_absent_iff {f : Field} {items : List FieldValue} :
    ofEntries f items = .absent ↔ items = [] := by
  cases items <;> simp [ofEntries]

theorem keys_entryOf (dictionary : Dictionary) (f : Field) (raw : RawTag) :
    (entryOf dictionary f raw).keys = [] := by
  cases f <;> simp [entryOf]

/-! ### Adding entries -/

/-- The keys that `settle` gives to a value without keys are none of those given before. -/
theorem notMem_keys_settle {f : Field} {m n : Nat} (hmn : m < n) {v : FieldValue}
    (hv : v.keys = []) :
    (⟨f, m⟩ : ListKey) ∉ (v.settle f n).1.keys := by
  intro hmem
  rcases (FieldValue.mem_keys_settle n v).2 _ hmem with hold | ⟨-, hle, -⟩
  · rw [hv] at hold
    cases hold
  · exact absurd hle (Nat.not_le.mpr hmn)

/-- By `slotAfter`, values without keys are added one after another at the end of the list. -/
theorem foldl_slotAfter_list (f : Field) {m n : Nat} (hmn : m < n) {items : List FieldValue}
    (hitems : ∀ v ∈ items, v.keys = []) {done : List FieldValue}
    (hdone : (⟨f, m⟩ : ListKey) ∉ FieldValue.keysOfItems done) :
    (items.map (Operation.append f)).foldl (slotAfter f) (.list (some ⟨f, m⟩) done, n) =
      (.list (some ⟨f, m⟩) (done ++ (FieldValue.settleItems f n items).1),
        (FieldValue.settleItems f n items).2) := by
  induction items generalizing done n with
  | nil => simp [FieldValue.settleItems]
  | cons v items ih =>
    obtain ⟨hv, hitems⟩ := List.forall_mem_cons.mp hitems
    -- The list is not held in one of its own items, so these stay as they are.
    have hkept : FieldValue.extendItems ⟨f, m⟩ (v.settle f n).1 done = done :=
      FieldValue.extendItems_of_notMem _ hdone
    have hnew : (⟨f, m⟩ : ListKey) ∉ FieldValue.keysOfItems (done ++ [(v.settle f n).1]) := by
      rw [FieldValue.keysOfItems_append, FieldValue.keysOfItems, FieldValue.keysOfItems,
        List.append_nil, List.mem_append, not_or]
      exact ⟨hdone, notMem_keys_settle hmn hv⟩
    have hstep : slotAfter f (.list (some ⟨f, m⟩) done, n) (.append f v) =
        (.list (some ⟨f, m⟩) (done ++ [(v.settle f n).1]), (v.settle f n).2) := by
      rw [slotAfter]
      dsimp only
      rw [FieldValue.extend_list_same, hkept]
    have hlater : m < (v.settle f n).2 := Nat.lt_of_lt_of_le hmn (FieldValue.mem_keys_settle n v).1
    rw [List.map_cons, List.foldl_cons, hstep, ih hlater hitems hnew, List.append_assoc,
      List.singleton_append, FieldValue.settleItems]

theorem foldl_slotAfter_append (f : Field) {items : List FieldValue}
    (hitems : ∀ v ∈ items, v.keys = []) :
    ((items.map (Operation.append f)).foldl (slotAfter f) (.absent, 0)).1 = ofEntries f items := by
  cases items with
  | nil => rfl
  | cons v items =>
    obtain ⟨hv, hitems⟩ := List.forall_mem_cons.mp hitems
    -- The first item starts the list, with the key next to those in the item itself; the others go
    -- to it.
    have hstart : slotAfter f (.absent, 0) (.append f v) =
        (.list (some ⟨f, (v.settle f 0).2⟩) [(v.settle f 0).1], (v.settle f 0).2 + 1) := rfl
    have hfirst : (⟨f, (v.settle f 0).2⟩ : ListKey) ∉
        FieldValue.keysOfItems [(v.settle f 0).1] := by
      rw [FieldValue.keysOfItems, FieldValue.keysOfItems, List.append_nil]
      intro hmem
      rcases (FieldValue.mem_keys_settle 0 v).2 _ hmem with hold | ⟨-, -, hlt⟩
      · rw [hv] at hold
        cases hold
      · exact absurd hlt (Nat.lt_irrefl _)
    rw [List.map_cons, List.foldl_cons, hstart,
      foldl_slotAfter_list f (Nat.lt_succ_self _) hitems hfirst]
    rfl

/-! ### What rules add to -/

/-- The field of `Field.lists` that a rule adds to. -/
def listField? : Rule → Option Field
  | .appendValue f => some f
  | .augmentFromValue => some .augments
  | .borrowFromText => some .borrowed
  | _ => none

theorem listField?_of_mem_operations {dictionary : Dictionary} {filename : Option String} {t : Tag}
    {r : Rule} {f : Field} {v : FieldValue}
    (h : Operation.append f v ∈ r.operations dictionary filename t) : listField? r = some f := by
  unfold Rule.operations at h
  grind [listField?, Operation.borrowing]

/-- A rule that does not add to the list `f` has no operation on it. -/
theorem filter_operations_eq_nil {r : Rule} (hr : hasOrderlyField r = true) {f : Field}
    (hf : f ∈ Field.lists) (hlist : listField? r ≠ some f) (dictionary : Dictionary)
    (filename : Option String) (t : Tag) :
    (r.operations dictionary filename t).filter (·.field = f) = [] := by
  rw [List.filter_eq_nil_iff]
  intro op hop hfield
  obtain rfl : op.field = f := by simpa using hfield
  -- Orderly operations write no list, so only an addition is left, and its rule names the field.
  have horderly := isOrderly_of_rule hr dictionary filename t op hop
  cases op with
  | set g v => exact horderly.1 hf
  | append g v => exact hlist (listField?_of_mem_operations hop)
  | memberof v => exact absurd hf (show Field.memberof ∉ Field.lists by decide)
  | longname v => exact horderly

/-- The `Rule` of the tags that a field lists. -/
def listRule : Field → Rule
  | .borrowed => .borrowFromText
  | .augments => .augmentFromValue
  | f => .appendValue f

/-- **The table of the lists**: a standard tag adds to the list that its title is for, and to no
other. -/
theorem rulesOf_of_listedTitle? {definition : Definition} (h : definition ∈ Standard.definitions)
    {f : Field} (hf : f ∈ Field.lists) :
    (listedTitle? f = some definition.title → rulesOf definition = [listRule f]) ∧
      (listedTitle? f ≠ some definition.title →
        ∀ r ∈ rulesOf definition, listField? r ≠ some f) := by
  -- The table is finite, and evaluated as a whole.
  have htable : Field.lists.all (fun f => Standard.definitions.all fun definition =>
      if listedTitle? f = some definition.title then rulesOf definition = [listRule f]
      else (rulesOf definition).all (listField? · ≠ some f)) = true := by
    decide
  have hentry := List.all_eq_true.mp (List.all_eq_true.mp htable f hf) definition h
  constructor
  · intro htitle
    simpa [htitle] using hentry
  · intro htitle
    simpa [htitle] using hentry

/-- The tags *borrows* and *augments* have a `plain` value, without blanks at its ends. -/
theorem read_plain {definition : Definition} (h : definition ∈ Standard.definitions)
    (htitle : definition.title ∈ ["borrows", "augments"]) {dictionary : Dictionary} {title : String}
    (hfind : dictionary.find? title = some definition) (text : String) :
    (Tag.read dictionary title text).text = trim text ∧
      (Tag.read dictionary title text).value = .plain (trim text) := by
  have htable : Standard.definitions.all (fun definition =>
      definition.title ∉ ["borrows", "augments"] ||
        !(definition.keepsBlanks || definition.canHaveType || definition.canHaveName)) = true := by
    decide
  have hplain := List.all_eq_true.mp htable definition h
  simp only [htitle, not_true_eq_false, decide_false, Bool.false_or, Bool.not_eq_true',
    Bool.or_eq_false_iff] at hplain
  simp [Tag.read, hfind, Tag.trimText, Tag.valueOf, hplain]

/-! ### Borrowed names -/

/-- **A trimmed text names what it borrows** by `borrowedNames?` unless it is empty, and a new name
is never empty. -/
theorem exists_borrowedNames {text : String} (h : (trim text).isEmpty = false) :
    ∃ source target, Rule.borrowedNames? (trimChars text.toList) = some (source, target) ∧
      ∀ name ∈ target, name ≠ [] := by
  cases htext : trimChars text.toList with
  | nil => simp [trim, htext] at h
  | cons c rest =>
    have hblank : isBlank c = false :=
      head?_stripChars_not isBlank text.toList c (by rw [← trimChars, htext]; rfl)
    have hsource : (((c :: rest).takeWhile fun c => !isBlank c).isEmpty) = false := by
      simp [hblank]
    unfold Rule.borrowedNames?
    dsimp only
    rw [if_neg (by simp [hsource])]
    -- Only a word behind *as* makes a new name.
    split
    · split
      · next hnamed =>
        refine ⟨_, _, rfl, ?_⟩
        rintro name ⟨⟩
        simp only [Bool.and_eq_true, Bool.not_eq_true'] at hnamed
        simpa using hnamed.2
      · exact ⟨_, _, rfl, fun _ hnone => absurd hnone (by simp)⟩
    · exact ⟨_, _, rfl, fun _ hnone => absurd hnone (by simp)⟩

/-! ### What a tag adds to a list -/

section Standard

variable {a : Adjustments} {dictionary : Dictionary} {origin : Origin} {f : Field}

theorem filter_directOperations_eq_nil (hf : f ∈ Field.lists) (t : Tag) :
    (directOperations t).filter (·.field = f) = [] := by
  rw [List.filter_eq_nil_iff]
  intro op hop hfield
  obtain ⟨g, hg, rfl⟩ := List.mem_map.mp hop
  obtain rfl : g = f := of_decide_eq_true hfield
  exact (isOrderly_direct (Option.mem_toList.mp hg) t.value).1 hf

section Known

variable {raw : RawTag} {definition : Definition}
  (hfind : dictionary.find? raw.title = some definition)
  (hcanonical : definition.title = dictionary.normalize raw.title)
include hfind hcanonical

/-- By `hasEntry` a known tag has no entry but in the list that its title is for. -/
theorem hasEntry_of_find? (f : Field) :
    hasEntry dictionary f raw = (listedTitle? f == some definition.title &&
      (f ∉ [.borrowed, .augments] || !(trim (raw.text.getD "")).isEmpty)) := by
  cases f <;> simp [hasEntry, hcanonical, listedTitle?, Dictionary.contains, hfind]

/-- **The `listRule` of a field adds the entry**, for a tag with the title that the list is for. -/
theorem operations_listRule (hmem : definition ∈ Standard.definitions)
    (htitle : listedTitle? f = some definition.title) (filename : Option String) :
    (listRule f).operations dictionary filename
        (Tag.read dictionary raw.title (raw.text.getD "")) =
      if hasEntry dictionary f raw then [.append f (entryOf dictionary f raw)] else [] := by
  rw [hasEntry_of_find? hfind hcanonical, htitle, beq_self_eq_true, Bool.true_and]
  -- The title fixes the list, and with it the rule; all but two rules add the value as it is.
  cases f with
  | params | returns | examples | see | requires => rfl
  | augments =>
    obtain ⟨htext, hvalue⟩ := read_plain hmem (by simp [← Option.some.inj htitle]) hfind
      (raw.text.getD "")
    simp [listRule, Rule.operations, entryOf, htext, hvalue, FieldValue.ofTagValue]
  | borrowed =>
    obtain ⟨htext, -⟩ := read_plain hmem (by simp [← Option.some.inj htitle]) hfind
      (raw.text.getD "")
    cases hempty : (trim (raw.text.getD "")).isEmpty with
    | true =>
      have hnone : Rule.borrowedNames? (trimChars (raw.text.getD "").toList) = none := by
        rw [← toList_trim, String.isEmpty_iff.mp hempty]
        rfl
      simp [listRule, Rule.operations, htext, hnone]
    | false =>
      obtain ⟨source, target, hnames, htarget⟩ := exists_borrowedNames hempty
      -- A name that is there is not empty, so it does not give way to the source.
      cases target with
      | none =>
        simp [listRule, Rule.operations, entryOf, htext, hnames, Operation.borrowing,
          FieldValue.ofText?]
      | some name =>
        simp [listRule, Rule.operations, entryOf, htext, hnames, Operation.borrowing,
          FieldValue.ofText?, htarget name rfl]
  | _ => cases htitle

end Known

variable (hbuild : Dictionary.build [] a = .ok dictionary)
include hbuild

/-- The titles of the lists are known, so by `hasEntry` an unknown tag has no entry in any list but
`.tags`. -/
theorem hasEntry_of_find?_none {raw : RawTag} (hfind : dictionary.find? raw.title = none) :
    hasEntry dictionary f raw = decide (f = .tags) := by
  have hunlisted : listedTitle? f ≠ some (dictionary.normalize raw.title) := by
    intro htitle
    have hstandard : ∀ title ∈ listedTitle? f, title ∈ Standard.definitions.map (·.title) := by
      cases f <;> simp [listedTitle?] <;> decide
    have hdefined := hstandard _ htitle
    rw [← Dictionary.titles_of_build hbuild, Dictionary.titles, ← Table.contains_iff] at hdefined
    rw [Dictionary.find?] at hfind
    simp [Table.contains, hfind] at hdefined
  cases f <;> simp_all [hasEntry, Dictionary.contains]

/-- **On a field of `Field.lists`, a tag comes down to its entry**, or to nothing. -/
theorem filter_operationsOf (hf : f ∈ Field.lists) (raw : RawTag) :
    (operationsOf dictionary origin raw).filter (·.field = f) =
      if hasEntry dictionary f raw then [.append f (entryOf dictionary f raw)] else [] := by
  rw [operationsOf, tagOperations, List.filter_append, filter_directOperations_eq_nil hf,
    List.append_nil, hookOperations]
  cases hfind : dictionary.find? raw.title with
  | none =>
    -- The tag is kept among the unknown tags, and this is all.
    rw [hasEntry_of_find?_none hbuild hfind]
    by_cases hfield : f = .tags
    · simp [hfield, Operation.field, entryOf]
    · simp [hfield, Operation.field, Ne.symm hfield]
  | some definition =>
    have hmem := Dictionary.mem_standard hbuild hfind
    have hcanonical := (Dictionary.reached_of_build hbuild).consistent.title_of_find? hfind
    obtain ⟨hlisted, hunlisted⟩ := rulesOf_of_listedTitle? hmem hf
    -- Either the tag has the one rule of this list, or none of its rules is for it.
    by_cases htitle : listedTitle? f = some definition.title
    · dsimp only
      rw [hlisted htitle, List.flatMap_singleton,
        operations_listRule hfind hcanonical hmem htitle]
      split
      · simp [Operation.field]
      · rfl
    · have hnone : hasEntry dictionary f raw = false := by
        simp [hasEntry_of_find? hfind hcanonical, htitle]
      rw [hnone, if_neg Bool.false_ne_true, List.filter_flatMap, List.flatMap_eq_nil_iff]
      intro r hr
      have horderly := (isOrderly_standard hmem).2 r hr
      exact filter_operations_eq_nil horderly hf (hunlisted htitle r hr) ..

theorem operationsOn_eq_map (hf : f ∈ Field.lists) (tags : List RawTag) :
    operationsOn dictionary origin f tags = (entries dictionary f tags).map (.append f) := by
  induction tags with
  | nil => rfl
  | cons raw tags ih =>
    have hcons : operationsOn dictionary origin f (raw :: tags) =
        (operationsOf dictionary origin raw).filter (·.field = f) ++
          operationsOn dictionary origin f tags := by
      rw [operationsOn, List.flatMap_cons, List.filter_append]
      rfl
    rw [hcons, filter_operationsOf hbuild hf, ih, entries, entries, List.filter_cons]
    split <;> rfl

end Standard

/-- **No tag is lost or duplicated.** Take the standard tags, with any further synonyms that are no
standard titles themselves and any kinds with a name space. `build` succeeds for every comment, and
each field of `Field.lists` holds just the `entries` of the tags in the comment, in their order. It
is unset exactly if there are none. -/
theorem build_listed (a : Adjustments) (dictionary : Dictionary)
    (hbuild : Dictionary.build [] a = .ok dictionary)
    (haliases : ∀ s ∈ a.synonyms.keys, s ∉ Standard.definitions.map (·.title))
    (comment : String) (patch : Origin.Patch) (preserveName warnUnknown : Bool) :
    ∃ d, build dictionary comment patch preserveName warnUnknown = .ok () d ∧
      ∀ f ∈ Field.lists,
        d.fields f = ofEntries f (entries dictionary f (RawTag.ofComment comment)) ∧
        (d.fields f = .absent ↔
          ∀ raw ∈ RawTag.ofComment comment, hasEntry dictionary f raw = false) := by
  have hkind : "kind" ∉ a.synonyms.keys := fun hmem => haliases _ hmem (by decide)
  obtain ⟨d, hd, hfields⟩ := exists_buildFrom hbuild hkind comment patch preserveName warnUnknown
    (RawTag.ofComment comment)
  refine ⟨d, hd, fun f hf => ?_⟩
  have hother : ∀ f ∈ Field.lists,
      f ∉ [Field.name, .memberof, .longname, .scope, .variation, .kind] := by
    decide
  -- A field for lists has no part in names and kind, so the operations of the tags tell its value.
  have hvalue : d.fields f = ofEntries f (entries dictionary f (RawTag.ofComment comment)) := by
    rw [hfields f (hother f hf), operationsOn_eq_map hbuild hf, foldl_slotAfter_append]
    intro v hv
    obtain ⟨raw, -, rfl⟩ := List.mem_map.mp hv
    exact keys_entryOf dictionary f raw
  refine ⟨hvalue, ?_⟩
  rw [hvalue, ofEntries_eq_absent_iff, entries, List.map_eq_nil_iff, List.filter_eq_nil_iff]
  simp

/-- An unknown tag, a synonym for a standard tag and one for a synonym, and tags that borrow and
augment with and without a text: the lists have the `entries` they should. -/
theorem build_listed_mixed :
    let a : Adjustments :=
      { synonyms := .ofList [("uses", "requires"), ("base", "extends")]
        namespaceKinds := ["widget"] }
    let comment := "/** @base \x7bA\x7d\n@widget\n@arg b\n@borrows\n@borrows f as g\n" ++
      "@uses x\n@requires y\n@extends */"
    let tags : List RawTag := [⟨"base", some "\x7bA\x7d"⟩, ⟨"widget", none⟩, ⟨"arg", some "b"⟩,
      ⟨"borrows", none⟩, ⟨"borrows", some "f as g"⟩, ⟨"uses", some "x"⟩, ⟨"requires", some "y"⟩,
      ⟨"extends", none⟩]
    ∃ dictionary, Dictionary.build [] a = .ok dictionary ∧
      (∀ s ∈ a.synonyms.keys, s ∉ Standard.definitions.map (·.title)) ∧
      RawTag.ofComment comment = tags ∧
      Field.lists.map (fun f => (entries dictionary f tags).length) = [1, 1, 1, 1, 0, 0, 0, 2] ∧
      ∃ d, build dictionary comment {} false true = .ok () d ∧
        ∀ f ∈ Field.lists,
          d.fields f = ofEntries f (entries dictionary f (RawTag.ofComment comment)) ∧
          (d.fields f = .absent ↔
            ∀ raw ∈ RawTag.ofComment comment, hasEntry dictionary f raw = false) := by
  intro a comment tags
  have haliases : ∀ s ∈ a.synonyms.keys, s ∉ Standard.definitions.map (·.title) := by
    decide +kernel
  have htags : RawTag.ofComment comment = tags := by
    decide +kernel
  -- The entries are counted by evaluation; that the doclet holds them is left to the theorem.
  obtain ⟨dictionary, hbuild, hchecked⟩ := Dictionary.exists_of_any_build (a := a)
    (p := fun dictionary => Field.lists.map (fun f => (entries dictionary f tags).length) =
      [1, 1, 1, 1, 0, 0, 0, 2]) (by decide +kernel)
  exact ⟨dictionary, hbuild, haliases, htags, of_decide_eq_true hchecked,
    build_listed a dictionary hbuild haliases comment {} false true⟩

end DocComment.Doclet
