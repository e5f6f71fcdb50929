import DocComment.Proofs.FieldSlots

/-!
# Synonyms and canonical titles

A tag may be written under any of its titles: with the canonical title in place of a synonym, the
doclet is the same, log and remarks included.

A standard title leads to itself as long as no setting makes a synonym of it, so looking up the
canonical title finds what the title as written finds (`Dictionary.find?_normalize`). The tag that
is read then differs in one place only, the title as written (`read_normalize`), and the rules do
not look there (`operations_writtenTitle`). So the steps that a tag takes are the same
(`addTag_normalize`), and so are those of a list of tags (`addTags_canonical`). The comment that a
doclet carries has no part in it either (`congruence_comment`).
-/

namespace DocComment

namespace Dictionary

section Adjusted

variable {a : Adjustments} {dictionary : Dictionary} (hbuild : build [] a = .ok dictionary)
  (haliases : ∀ s ∈ a.synonyms.keys, s ∉ Standard.definitions.map (·.title))
include hbuild haliases

/-- A standard title **leads to itself** by `Dictionary.normalize`: it is a synonym neither among
the standard tags nor in the settings. -/
theorem normalize_of_mem_standard {title : String}
    (h : title ∈ Standard.definitions.map (·.title)) : dictionary.normalize title = title := by
  have hnone : standard.synonyms.get? title = none := by
    have hall : (Standard.definitions.map (·.title)).all
        (fun title => (standard.synonyms.get? title).isNone) = true := by
      decide +kernel
    exact Option.isNone_iff_eq_none.mp (List.all_eq_true.mp hall title h)
  have hkey : title ∉ a.synonyms.keys := fun hmem => haliases title hmem h
  rw [normalize, (definitions_of_build hbuild).2 title hkey, hnone, Option.getD_none]

theorem normalize_normalize (title : String) :
    dictionary.normalize (dictionary.normalize title) = dictionary.normalize title := by
  have hconsistent := (reached_of_build hbuild).consistent
  -- An unknown title is its own canonical title, and a known one leads to a standard title.
  cases hfind : dictionary.find? title with
  | none =>
    have hsame := hconsistent.normalize_of_find?_none hfind
    rw [hsame, hsame]
  | some definition =>
    rw [← hconsistent.title_of_find? hfind]
    exact normalize_of_mem_standard hbuild haliases
      (List.mem_map_of_mem (mem_standard hbuild hfind))

/-- **The canonical title finds what the title finds**, by `Dictionary.find?`. -/
theorem find?_normalize (title : String) :
    dictionary.find? (dictionary.normalize title) = dictionary.find? title := by
  rw [find?, find?, normalize_normalize hbuild haliases]

end Adjusted

end Dictionary

namespace Doclet

/-! ### The title as written -/

/-- `Rule.operations` does not look at the title as written. -/
theorem operations_writtenTitle (dictionary : Dictionary) (filename : Option String) (t : Tag)
    (title : String) (r : Rule) :
    r.operations dictionary filename { t with writtenTitle := title } =
      r.operations dictionary filename t := by
  cases r <;> rfl

theorem followAll_writtenTitle (t : Tag) (title : String) (rs : List Rule) :
    followAll { t with writtenTitle := title } rs = followAll t rs := by
  induction rs with
  | nil => rfl
  | cons r rs ih =>
    have hfollow : follow { t with writtenTitle := title } r = follow t r := by
      unfold follow
      simp only [operations_writtenTitle]
    rw [followAll, followAll, hfollow, ih]

/-! ### Tags under their canonical titles -/

/-- A `RawTag` **under its canonical title**. -/
def canonical (dictionary : Dictionary) (raw : RawTag) : RawTag :=
  { raw with title := dictionary.normalize raw.title }

section Adjusted

variable {a : Adjustments} {dictionary : Dictionary}
  (hbuild : Dictionary.build [] a = .ok dictionary)
  (haliases : ∀ s ∈ a.synonyms.keys, s ∉ Standard.definitions.map (·.title))
include hbuild haliases

/-- The tag that `Tag.read` makes differs in the title as written, and there are the same remarks on
it. -/
theorem read_normalize (origin : Origin) {title : String} {definition : Definition}
    (hfind : dictionary.find? title = some definition) (text : String) :
    Tag.read dictionary (dictionary.normalize title) text =
        { Tag.read dictionary title text with writtenTitle := dictionary.normalize title } ∧
      (Tag.readWithRemarks dictionary origin (dictionary.normalize title) text).2 =
        (Tag.readWithRemarks dictionary origin title text).2 := by
  have hsame := (Dictionary.find?_normalize hbuild haliases title).trans hfind
  constructor
  · simp only [Tag.read, hsame, hfind]
  · simp only [Tag.readWithRemarks, Tag.read, hsame, hfind]
    rfl

/-- **`addTag` takes the same steps under the canonical title.** -/
theorem addTag_normalize {d : Doclet} (hd : d.dictionary = dictionary) (title text : String)
    {α : Type} (more : DocletStep α) :
    (addTag (dictionary.normalize title) text >>= fun _ => more) d =
      (addTag title text >>= fun _ => more) d := by
  subst hd
  cases hfind : d.dictionary.find? title with
  | none =>
    -- An unknown title is its own canonical title.
    rw [(Dictionary.reached_of_build hbuild).consistent.normalize_of_find?_none hfind]
  | some definition =>
    have hsame := (Dictionary.find?_normalize hbuild haliases title).trans hfind
    obtain ⟨hread, hremarks⟩ := read_normalize hbuild haliases d.origin hfind text
    have hbased := isRuleBased_of_build hbuild hfind
    have hcanonical := addTag_steps (d.dictionary.normalize title) text d
    have hwritten := addTag_steps title text d
    -- Both follow the rules of the same definition, from the same doclet.
    simp only [hsame, hread, hremarks, tagStep, runHook_of_isRuleBased hbased,
      followAll_writtenTitle] at hcanonical
    simp only [hfind, tagStep, runHook_of_isRuleBased hbased] at hwritten
    -- The tag itself is thrown away, and with it the title as written.
    rw [bind_of_eq hcanonical, bind_of_eq hwritten]
    simp only [bind_assoc, pure_bind, closeTag]
    rfl

/-- **So does `addTags`** with a list of tags. -/
theorem addTags_canonical {d : Doclet} (h : Textual dictionary d) (tags : List RawTag) :
    addTags (tags.map (canonical dictionary)) d = addTags tags d := by
  induction tags generalizing d with
  | nil => rfl
  | cons raw tags ih =>
    rw [List.map_cons, addTags, addTags]
    -- The first tag is exchanged, and the others are in the doclet that it leaves.
    have hleaves := (upheld_textual hbuild).addTag raw.title (raw.text.getD "") h
    exact (addTag_normalize hbuild haliases h.dictionary_eq _ _ _).trans
      (bind_congr_of_leaves hleaves fun _ _ hd' => ih hd')

end Adjusted

/-! ### The comment that a doclet carries -/

/-- The doclet **with another comment**. -/
def withComment (d : Doclet) (comment : String) : Doclet :=
  { d with comment := comment }

section Comment

variable (d : Doclet) (comment : String)

theorem log_withComment (op : Operation) :
    (d.withComment comment).log op = (d.log op).withComment comment := by
  have hrecording : (d.withComment comment).recording = d.recording := rfl
  rw [log, log, hrecording]
  split <;> rfl

theorem record_withComment (op : Operation) :
    (d.withComment comment).record op = (d.record op).withComment comment :=
  log_withComment (d.adopt op.field op.value).2 comment (d.logged op)

theorem push_withComment (f : Field) (item : FieldValue) :
    (d.withComment comment).push f item = (d.push f item).withComment comment := by
  have hfields : (d.withComment comment).fields f = d.fields f := rfl
  rw [push, push, hfields]
  cases d.fields f with
  | list key items => cases key <;> rfl
  | _ => rfl

theorem perform_withComment (op : Operation) :
    (d.withComment comment).perform op = (d.perform op).withComment comment := by
  have hlogged : (d.withComment comment).logged op = d.logged op := rfl
  rw [perform, perform, record_withComment, hlogged]
  cases op with
  | append f v => exact push_withComment _ comment f _
  | _ => rfl

end Comment

/-- **The comment does not matter** where there are no programs: no step looks at it, and none
changes it. So doclets that differ in it only are in a `Congruence`. -/
theorem congruence_comment {dictionary : Dictionary} (hruled : ∀ p, ¬ IsProgramOf dictionary p)
    (comment : String) :
    Congruence fun d e => d.dictionary = dictionary ∧ e = d.withComment comment where
  setting_eq h := h.2 ▸ rfl
  fields_eq h _ := h.2 ▸ rfl
  perform {d e} h op := ⟨(congrArg Prod.fst (d.frame_perform op)).trans h.1,
    h.2 ▸ perform_withComment _ comment op⟩
  record {d e} h op := ⟨(congrArg Prod.fst (d.frame_record op)).trans h.1,
    h.2 ▸ record_withComment _ comment op⟩
  put h _ _ := ⟨h.1, h.2 ▸ rfl⟩
  keeping h keeps := by
    obtain ⟨hdictionary, rfl⟩ := h
    cases keeps <;> exact ⟨hdictionary, rfl⟩
  recording h _ := ⟨h.1, h.2 ▸ rfl⟩
  noting h _ := ⟨h.1, h.2 ▸ rfl⟩
  warning {d e} h remarks := by
    obtain ⟨hdictionary, rfl⟩ := h
    -- Whether there is a warning depends on a switch, and both doclets have it in the same
    -- position.
    have hwarns : (d.withComment comment).warnsUnknown = d.warnsUnknown := rfl
    rw [hwarns]
    cases d.warnsUnknown <;> exact ⟨hdictionary, rfl⟩
  ruled h p := by
    rw [h.1]
    exact hruled p

/-- **Synonyms are transparent.** Take the standard tags, with any further synonyms that are no
standard titles themselves and any kinds with a name space. Raw tags make the same doclet, by
`buildFrom`, with canonical titles in place of those written, whatever comments the two carry:
fields, log, name switch and remarks are the same. -/
theorem buildFrom_canonical (a : Adjustments) (dictionary : Dictionary)
    (hbuild : Dictionary.build [] a = .ok dictionary)
    (haliases : ∀ s ∈ a.synonyms.keys, s ∉ Standard.definitions.map (·.title))
    (comment comment' : String) (patch : Origin.Patch) (preserveName warnUnknown : Bool)
    (tags : List RawTag) :
    ∃ d, buildFrom dictionary comment patch preserveName warnUnknown tags = .ok () d ∧
      buildFrom dictionary comment' patch preserveName warnUnknown
        (tags.map (canonical dictionary)) = .ok () (d.withComment comment') := by
  have hkind : "kind" ∉ a.synonyms.keys := fun hmem => haliases _ hmem (by decide)
  let origin : Origin := ({} : Origin).merge patch
  obtain ⟨d, hd, -⟩ := exists_buildFrom hbuild hkind comment patch preserveName warnUnknown tags
  -- First the comment is exchanged, and then the titles are.
  have hcongruence := congruence_comment (not_isProgramOf_of_build hbuild) comment'
  obtain ⟨e, he, -, rfl⟩ := (hcongruence.applyTags tags).exists_ok
    (e := blank dictionary comment' origin preserveName warnUnknown) ⟨rfl, rfl⟩ hd
  have htextual : Textual dictionary
      { blank dictionary comment' origin preserveName warnUnknown with recording := true } :=
    ⟨rfl, ⟨preserveName, rfl⟩, fun _ _ => rfl⟩
  have hcanonical := addTags_canonical hbuild haliases htextual tags
  refine ⟨d, hd, Eq.trans ?_ he⟩
  unfold buildFrom applyTags
  rw [EStateM.run, modify_bind, modify_bind]
  exact bind_of_eq hcanonical _

/-- A synonym whose name gets quoted, two from the settings of which one leads to a synonym, one
with a type, and a tag that nothing is known of: `canonical` exchanges all titles but the last. -/
theorem buildFrom_canonical_external :
    let a : Adjustments :=
      { synonyms := .ofList [("uses", "requires"), ("base", "extends")]
        namespaceKinds := ["widget"] }
    let tags : List RawTag := [⟨"host", some "a b"⟩, ⟨"uses", none⟩, ⟨"base", some "\x7bA\x7d"⟩,
      ⟨"var", some "\x7bint\x7d n"⟩, ⟨"mystery", some "x"⟩]
    let canonicalTags : List RawTag := [⟨"external", some "a b"⟩, ⟨"requires", none⟩,
      ⟨"augments", some "\x7bA\x7d"⟩, ⟨"property", some "\x7bint\x7d n"⟩, ⟨"mystery", some "x"⟩]
    ∃ dictionary, Dictionary.build [] a = .ok dictionary ∧
      (∀ s ∈ a.synonyms.keys, s ∉ Standard.definitions.map (·.title)) ∧
      tags.map (canonical dictionary) = canonicalTags ∧
      ∃ d, buildFrom dictionary "short" {} false true tags = .ok () d ∧
        buildFrom dictionary "long" {} false true canonicalTags =
          .ok () (d.withComment "long") := by
  intro a tags canonicalTags
  have haliases : ∀ s ∈ a.synonyms.keys, s ∉ Standard.definitions.map (·.title) := by
    decide +kernel
  obtain ⟨dictionary, hbuild, hchecked⟩ := Dictionary.exists_of_any_build (a := a)
    (p := fun dictionary => tags.map (canonical dictionary) = canonicalTags) (by decide +kernel)
  -- The canonical tags are checked by evaluation, so that the theorem can be used for them.
  have hcanonical : tags.map (canonical dictionary) = canonicalTags := of_decide_eq_true hchecked
  refine ⟨dictionary, hbuild, haliases, hcanonical, ?_⟩
  rw [← hcanonical]
  exact buildFrom_canonical a dictionary hbuild haliases "short" "long" {} false true tags

end Doclet

end DocComment
