import DocComment.Tag.Extension

/-!
# Dictionaries under change

A dictionary starts empty and is changed by definitions, synonyms and kinds with a name space, in
any order; a synonym for an undefined title is refused and changes nothing. `Reached` says that a
dictionary came about in this way; all dictionaries that `Dictionary.build` makes did
(`reached_of_build`).

Aliases may shadow titles and one another, and may be redirected later, but two facts survive every
change (`Consistent.after`): a definition is stored at its own title, and a synonym leads to a
title that is defined. Nothing is ever forgotten either (`Covers.after`). What a lookup gives on a
reached dictionary follows from these alone (`WellKept`).

A definition does not always come through to those who look up its title: a title that was a synonym
before still leads where it led (`find?_define`). So registering makes a tag known under its own
title exactly if the title is no alias for another one, or is among the new synonyms.
-/

namespace DocComment.Dictionary

/-! ### Changes -/

/-- The dictionary after several changes, each as `Dictionary.after` has it. -/
def afterAll (d : Dictionary) (changes : List Change) : Dictionary :=
  changes.foldl after d

/-- Whether a dictionary can be **reached** from the empty one, by `afterAll`. -/
def Reached (d : Dictionary) : Prop :=
  ∃ changes, d = empty.afterAll changes

variable {d d' : Dictionary}

theorem Reached.afterAll (h : Reached d) (changes : List Change) :
    Reached (d.afterAll changes) := by
  obtain ⟨before, rfl⟩ := h
  refine ⟨before ++ changes, ?_⟩
  unfold Dictionary.afterAll
  rw [List.foldl_append]

/-- What holds of the old dictionary and of the one that `Change.run` makes holds of
`Dictionary.after`, whether or not the change was refused. -/
theorem after_of_run {P : Dictionary → Prop} {c : Change} (hrefused : P d)
    (hmade : ∀ d', c.run d = .ok d' → P d') : P (d.after c) := by
  unfold after
  cases hrun : c.run d with
  | ok d' => exact hmade d' hrun
  | error fault => exact hrefused

theorem after_of_ok {c : Change} (h : c.run d = .ok d') : d.after c = d' := by
  unfold after
  rw [h]
  rfl

theorem after_of_error {c : Change} {fault : DictionaryError} (h : c.run d = .error fault) :
    d.after c = d := by
  unfold after
  rw [h]
  rfl

/-! ### What a change writes -/

theorem definitions_addNamespace (d : Dictionary) (kind : String) :
    (d.addNamespace kind).definitions = d.definitions ∧
      (d.addNamespace kind).synonyms = d.synonyms := by
  unfold addNamespace
  split <;> exact ⟨rfl, rfl⟩

theorem mem_namespaces_addNamespace {kind other : String} (h : other ∈ d.namespaces) :
    other ∈ (d.addNamespace kind).namespaces := by
  unfold addNamespace
  split
  · exact h
  · exact List.mem_append_left _ h

theorem definitions_define (d : Dictionary) (x : Definition) :
    (d.define x).definitions = d.definitions.insert x.title x := by
  unfold define
  dsimp only
  split
  · exact (definitions_addNamespace _ _).1
  · rfl

theorem synonyms_define (d : Dictionary) (x : Definition) :
    (d.define x).synonyms = x.synonyms.foldl (fun t s => t.insert s x.title) d.synonyms := by
  unfold define
  dsimp only
  split
  · exact (definitions_addNamespace _ _).2
  · rfl

theorem mem_namespaces_define {kind : String} (h : kind ∈ d.namespaces) (x : Definition) :
    kind ∈ (d.define x).namespaces := by
  unfold define
  dsimp only
  split
  · exact mem_namespaces_addNamespace h
  · exact h

/-- All synonyms of a definition lead to the same title, and for `Table.get?` the last one written
counts. -/
theorem get?_insertAll (t : Table String String) (title key : String) (synonyms : List String) :
    (synonyms.foldl (fun t s => t.insert s title) t).get? key =
      if key ∈ synonyms then some title else t.get? key := by
  induction synonyms generalizing t with
  | nil => rfl
  | cons s synonyms ih =>
    rw [List.foldl_cons, ih, Table.get?_insert]
    -- Later synonyms overwrite the first one, with the same title.
    by_cases hkey : key ∈ synonyms
    · rw [if_pos hkey, if_pos (List.mem_cons_of_mem _ hkey)]
    · by_cases hs : s = key
      · rw [if_neg hkey, if_pos hs, if_pos (hs ▸ List.mem_cons_self)]
      · have hnone : key ∉ s :: synonyms := by
          simpa [hkey] using Ne.symm hs
        rw [if_neg hkey, if_neg hs, if_neg hnone]

theorem mem_insertAll {t : Table String String} {title : String} {synonyms : List String}
    {e : String × String} (h : e ∈ (synonyms.foldl (fun t s => t.insert s title) t).entries) :
    e.2 = title ∨ e ∈ t.entries := by
  induction synonyms generalizing t with
  | nil => exact .inr h
  | cons s synonyms ih =>
    rcases ih h with htitle | hmem
    · exact .inl htitle
    · exact (Table.mem_of_mem_put hmem).imp_left fun heq => congrArg Prod.snd heq

theorem normalize_define (d : Dictionary) (x : Definition) (title : String) :
    (d.define x).normalize title = if title ∈ x.synonyms then x.title else d.normalize title := by
  rw [normalize, synonyms_define, get?_insertAll]
  split
  · rfl
  · rfl

/-- **What `define` changes**: the synonyms of the definition lead to it, and so does every title
that led to its title. All others lead where they led. -/
theorem find?_define (d : Dictionary) (x : Definition) (title : String) :
    (d.define x).find? title =
      if title ∈ x.synonyms ∨ d.normalize title = x.title then some x else d.find? title := by
  rw [find?, normalize_define, definitions_define, Table.get?_insert]
  by_cases hsynonym : title ∈ x.synonyms
  · rw [if_pos hsynonym, if_pos rfl, if_pos (.inl hsynonym)]
  · rw [if_neg hsynonym]
    by_cases htitle : d.normalize title = x.title
    · rw [if_pos htitle.symm, if_pos (.inr htitle)]
    · rw [if_neg (Ne.symm htitle), if_neg (not_or.mpr ⟨hsynonym, htitle⟩)]
      rfl

/-- A synonym that `addSynonym` takes is written for the canonical title, which is defined. -/
theorem of_addSynonym_ok {synonym title : String} (h : d.addSynonym synonym title = .ok d') :
    d.definitions.contains (d.normalize title) = true ∧
      d' = { d with synonyms := d.synonyms.insert synonym (d.normalize title) } := by
  unfold addSynonym at h
  dsimp only at h
  split at h
  · next hdefined =>
    cases h
    exact ⟨hdefined, rfl⟩
  · cases h

/-- `addSynonym` **refuses a synonym exactly if** the title it is to lead to is not defined. -/
theorem addSynonym_eq_error_iff {synonym title : String} {fault : DictionaryError} :
    d.addSynonym synonym title = .error fault ↔
      d.normalize title ∉ d.titles ∧ fault = .undefinedTitle synonym title := by
  have htitles : d.normalize title ∈ d.titles ↔
      d.definitions.contains (d.normalize title) = true := Table.contains_iff.symm
  rw [htitles]
  unfold addSynonym
  dsimp only
  split
  · next hdefined => simp [hdefined]
  · next hundefined => simp [hundefined, eq_comm]

/-! ### What every change keeps -/

/-- Whether each definition is stored **at its own title**, and each synonym leads to a title that
is defined. -/
structure Consistent (d : Dictionary) : Prop where
  own_title : ∀ e ∈ d.definitions.entries, e.2.title = e.1
  defined : ∀ e ∈ d.synonyms.entries, d.definitions.contains e.2 = true

/-- Whether `d'` knows all titles, synonyms and kinds with a name space that `d` knows. -/
structure Covers (d d' : Dictionary) : Prop where
  titles : ∀ title ∈ d.titles, title ∈ d'.titles
  synonyms : ∀ synonym ∈ d.synonyms.keys, synonym ∈ d'.synonyms.keys
  namespaces : ∀ kind ∈ d.namespaces, kind ∈ d'.namespaces

theorem consistent_empty : Consistent empty :=
  ⟨fun _ h => absurd h List.not_mem_nil, fun _ h => absurd h List.not_mem_nil⟩

theorem Covers.refl (d : Dictionary) : Covers d d :=
  ⟨fun _ h => h, fun _ h => h, fun _ h => h⟩

theorem Covers.trans {d'' : Dictionary} (h : Covers d d') (h' : Covers d' d'') : Covers d d'' :=
  ⟨fun t ht => h'.titles t (h.titles t ht), fun s hs => h'.synonyms s (h.synonyms s hs),
    fun k hk => h'.namespaces k (h.namespaces k hk)⟩

theorem covers_define (d : Dictionary) (x : Definition) : Covers d (d.define x) := by
  refine ⟨fun title ht => ?_, fun synonym hs => ?_, fun kind hk => mem_namespaces_define hk x⟩
  · change title ∈ (d.define x).definitions.keys
    rw [definitions_define, Table.mem_keys_insert]
    exact .inr ht
  · rw [synonyms_define, ← Table.contains_iff, Table.contains, get?_insertAll]
    split
    · rfl
    · exact Table.contains_iff.mpr hs

theorem covers_addNamespace (d : Dictionary) (kind : String) : Covers d (d.addNamespace kind) := by
  obtain ⟨hdefinitions, hsynonyms⟩ := definitions_addNamespace d kind
  refine ⟨fun title ht => ?_, fun synonym hs => ?_, fun _ hk => mem_namespaces_addNamespace hk⟩
  · rw [titles, hdefinitions]
    exact ht
  · rw [hsynonyms]
    exact hs

theorem covers_addSynonym {synonym title : String} (h : d.addSynonym synonym title = .ok d') :
    Covers d d' := by
  obtain ⟨-, rfl⟩ := of_addSynonym_ok h
  refine ⟨fun _ ht => ht, fun s hs => ?_, fun _ hk => hk⟩
  exact (Table.mem_keys_insert ..).mpr (.inr hs)

theorem Covers.after (d : Dictionary) (c : Change) : Covers d (d.after c) := by
  refine after_of_run (.refl d) fun d' hrun => ?_
  cases c with
  | define x =>
    cases hrun
    exact covers_define d x
  | addNamespace kind =>
    cases hrun
    exact covers_addNamespace d kind
  | addSynonym synonym title => exact covers_addSynonym hrun

/-- **Nothing is forgotten**: a dictionary `Covers` all that were before it. -/
theorem Covers.afterAll (d : Dictionary) (changes : List Change) :
    Covers d (d.afterAll changes) := by
  induction changes generalizing d with
  | nil => exact .refl d
  | cons c changes ih => exact (Covers.after d c).trans (ih (d.after c))

namespace Consistent

variable (h : Consistent d)
include h

/-- `define` keeps a dictionary `Consistent`: the definition is stored at its title, and what
synonyms lead to stays defined. -/
theorem define (x : Definition) : Consistent (d.define x) := by
  -- A definition may be replaced, but its title stays defined; so no synonym loses its target.
  have hkept : ∀ title, d.definitions.contains title = true →
      (d.define x).definitions.contains title = true := by
    intro title htitle
    exact Table.contains_iff.mpr ((covers_define d x).titles title (Table.contains_iff.mp htitle))
  have hnew : (d.define x).definitions.contains x.title = true := by
    rw [definitions_define, Table.contains_iff, Table.mem_keys_insert]
    exact .inl rfl
  constructor
  · intro e he
    rw [definitions_define] at he
    rcases Table.mem_of_mem_put he with rfl | hold
    · rfl
    · exact h.own_title e hold
  · intro e he
    rw [synonyms_define] at he
    rcases mem_insertAll he with htitle | hold
    · rw [htitle]
      exact hnew
    · exact hkept _ (h.defined e hold)

theorem addNamespace (kind : String) : Consistent (d.addNamespace kind) := by
  obtain ⟨hdefinitions, hsynonyms⟩ := definitions_addNamespace d kind
  constructor
  · rw [hdefinitions]
    exact h.own_title
  · rw [hdefinitions, hsynonyms]
    exact h.defined

theorem addSynonym {synonym title : String} (hok : d.addSynonym synonym title = .ok d') :
    Consistent d' := by
  obtain ⟨hdefined, rfl⟩ := of_addSynonym_ok hok
  refine ⟨h.own_title, fun e he => ?_⟩
  rcases Table.mem_of_mem_put he with rfl | hold
  · exact hdefined
  · exact h.defined e hold

theorem after (c : Change) : Consistent (d.after c) := by
  refine after_of_run h fun d' hrun => ?_
  cases c with
  | define x =>
    cases hrun
    exact h.define x
  | addNamespace kind =>
    cases hrun
    exact h.addNamespace kind
  | addSynonym synonym title => exact h.addSynonym hrun

/-- **Every dictionary stays `Consistent`**, whatever changes are made or refused. -/
theorem afterAll (changes : List Change) : Consistent (d.afterAll changes) := by
  induction changes generalizing d with
  | nil => exact h
  | cons c changes ih => exact ih (h.after c)

/-! ### What a consistent dictionary finds -/

theorem title_of_find? {title : String} {definition : Definition}
    (hfind : d.find? title = some definition) : definition.title = d.normalize title :=
  h.own_title _ (Table.mem_of_get? hfind)

/-- A title is known to `contains` exactly if it is a synonym or is defined: no synonym dangles. -/
theorem contains_iff {title : String} :
    d.contains title = true ↔ title ∈ d.synonyms.keys ∨ title ∈ d.titles := by
  have hcontains : d.contains title = d.definitions.contains (d.normalize title) := rfl
  rw [hcontains, normalize]
  -- A synonym is known because its target is defined, and any other title is its own canonical one.
  cases hsynonym : d.synonyms.get? title with
  | some canonical =>
    have hentry := Table.mem_of_get? hsynonym
    rw [Option.getD_some, h.defined _ hentry]
    exact iff_of_true rfl (.inl (List.mem_map_of_mem hentry))
  | none =>
    have hnone : title ∉ d.synonyms.keys := by
      intro hmem
      have hsome := Table.contains_iff.mpr hmem
      rw [Table.contains, hsynonym] at hsome
      cases hsome
    rw [Option.getD_none, Table.contains_iff]
    exact (or_iff_right hnone).symm

/-- A title that `find?` does not find is no synonym, so it is its own canonical title. -/
theorem normalize_of_find?_none {title : String} (hfind : d.find? title = none) :
    d.normalize title = title := by
  have hunknown : ¬d.contains title = true := by
    rw [contains, hfind]
    exact Bool.false_ne_true
  have hnone : d.synonyms.get? title = none := by
    rw [h.contains_iff, not_or, ← Table.contains_iff, Table.contains] at hunknown
    simpa using hunknown.1
  rw [normalize, hnone, Option.getD_none]

end Consistent

theorem Reached.consistent (h : Reached d) : Consistent d := by
  obtain ⟨changes, rfl⟩ := h
  exact consistent_empty.afterAll changes

/-! ### Lookups -/

theorem definition?_lookup (d : Dictionary) (title : String) :
    (d.lookup title).definition? = d.find? title := by
  unfold lookup
  split
  · next hfind => exact hfind.symm
  · next hfind => exact hfind.symm

theorem isKnown_lookup (d : Dictionary) (title : String) :
    (d.lookup title).isKnown = d.contains title := by
  rw [contains, ← definition?_lookup]
  cases d.lookup title <;> rfl

theorem lookup_eq_known_iff {title : String} {definition : Definition} :
    d.lookup title = .known definition ↔ d.find? title = some definition := by
  rw [← definition?_lookup]
  cases d.lookup title <;> simp [Lookup.definition?]

/-- The title that `lookup` answers with is the canonical one, for known and unknown titles
alike. -/
theorem Consistent.title_lookup (h : Consistent d) (title : String) :
    (d.lookup title).title = d.normalize title := by
  unfold lookup
  split
  · next definition hfind => exact h.title_of_find? hfind
  · next hfind => exact (h.normalize_of_find?_none hfind).symm

/-- How a dictionary is **kept**: what its tables hold, what `lookup` gives, what stays under
further changes, and what a refused synonym does. -/
structure WellKept (d : Dictionary) : Prop where
  /-- Each definition is stored at its own title. -/
  own_title : ∀ e ∈ d.definitions.entries, e.2.title = e.1
  /-- Each synonym leads to a title that is defined. -/
  defined : ∀ e ∈ d.synonyms.entries, e.2 ∈ d.titles
  /-- Just the synonyms and the defined titles are known. -/
  known_iff : ∀ title, (d.lookup title).isKnown = true ↔
    title ∈ d.synonyms.keys ∨ title ∈ d.titles
  /-- What is found has the canonical title. -/
  canonical_title : ∀ title, (d.lookup title).title = d.normalize title
  /-- An unknown tag keeps its title as it was written. -/
  unknown_title : ∀ title, (d.lookup title).isKnown = false → d.lookup title = .unknown title
  /-- The other two ways to ask for a title agree with the lookup. -/
  agree : ∀ title, d.find? title = (d.lookup title).definition? ∧
    d.contains title = (d.lookup title).isKnown
  /-- A known title stays known. -/
  known_stays : ∀ title, (d.lookup title).isKnown = true →
    ∀ more, ((d.afterAll more).lookup title).isKnown = true
  /-- A kind with a name space keeps it. -/
  namespace_stays : ∀ kind, d.isNamespace kind = true →
    ∀ more, (d.afterAll more).isNamespace kind = true
  /-- A synonym is refused exactly if the title it is to lead to is not defined. -/
  refused_iff : ∀ synonym title fault, d.addSynonym synonym title = .error fault ↔
    d.normalize title ∉ d.titles ∧ fault = .undefinedTitle synonym title
  /-- A refused synonym leaves the dictionary as it is. -/
  refused : ∀ synonym title, d.normalize title ∉ d.titles → d.after (.addSynonym synonym title) = d

theorem isNamespace_iff {kind : String} :
    d.isNamespace kind = true ↔ kind ≠ "" ∧ kind ∈ d.namespaces := by
  simp [isNamespace]

/-- **Every dictionary that is `Reached` is `WellKept`.** -/
theorem wellKept_of_reached (d : Dictionary) (hd : Reached d) : WellKept d := by
  have hconsistent := hd.consistent
  constructor
  case own_title => exact hconsistent.own_title
  case defined => exact fun e he => Table.contains_iff.mp (hconsistent.defined e he)
  case known_iff =>
    intro title
    rw [isKnown_lookup]
    exact hconsistent.contains_iff
  case canonical_title => exact hconsistent.title_lookup
  case unknown_title =>
    intro title hunknown
    -- An unknown title is told back as it was asked for.
    unfold lookup at hunknown ⊢
    split
    · next hfind =>
      rw [hfind] at hunknown
      cases hunknown
    · rfl
  case agree =>
    intro title
    exact ⟨(definition?_lookup d title).symm, (isKnown_lookup d title).symm⟩
  case known_stays =>
    intro title hknown more
    -- Known are the synonyms and the defined titles, before and after, and neither get lost.
    have hcovers := Covers.afterAll d more
    rw [isKnown_lookup, hconsistent.contains_iff] at hknown
    rw [isKnown_lookup, (hconsistent.afterAll more).contains_iff]
    exact hknown.imp (hcovers.synonyms title) (hcovers.titles title)
  case namespace_stays =>
    intro kind hkind more
    rw [isNamespace_iff] at hkind ⊢
    exact hkind.imp_right ((Covers.afterAll d more).namespaces kind)
  case refused_iff => exact fun _ _ _ => addSynonym_eq_error_iff
  case refused =>
    intro synonym title hundefined
    have hrefused : d.addSynonym synonym title = .error (.undefinedTitle synonym title) :=
      addSynonym_eq_error_iff.mpr ⟨hundefined, rfl⟩
    exact after_of_error hrefused

/-- A synonym that shadows a defined title, a title that is defined anew, a synonym that is
redirected, one that is refused, and one that shadows the title it led to. -/
theorem wellKept_of_reached_shadowed :
    let changes : List Change := [.define { title := "widget", synonyms := ["gadget"] },
      .define { title := "gadget", hasNamespace := true }, .addSynonym "gizmo" "gadget",
      .addSynonym "gizmo" "doodad", .define { title := "widget", needsValue := true },
      .define { title := "gear", synonyms := ["gizmo", "gear"] }, .addNamespace "gear",
      .addSynonym "widget" "gear"]
    (empty.afterAll changes).lookup "gadget" = .known { title := "widget", needsValue := true } ∧
      (empty.afterAll changes).titles = ["widget", "gadget", "gear"] ∧
      Reached (empty.afterAll changes) ∧ WellKept (empty.afterAll changes) := by
  intro changes
  have hreached : Reached (empty.afterAll changes) := ⟨changes, rfl⟩
  exact ⟨rfl, by decide +kernel, hreached, wellKept_of_reached _ hreached⟩

/-! ### Dictionaries that are built -/

theorem Reached.defineAll (h : Reached d) (definitions : List Definition) :
    Reached (d.defineAll definitions) := by
  have hsame : d.afterAll (definitions.map .define) = d.defineAll definitions := by
    unfold Dictionary.afterAll Dictionary.defineAll
    rw [List.foldl_map]
    rfl
  exact hsame ▸ h.afterAll _

theorem reached_standard : Reached standard :=
  Reached.defineAll ⟨[], rfl⟩ Standard.definitions

/-- What every step keeps is kept by a `foldlM`, if none of them fails. -/
theorem of_foldlM_ok {α : Type} {step : Dictionary → α → Except DictionaryError Dictionary}
    {P : Dictionary → Prop} {xs : List α}
    (hstep : ∀ x ∈ xs, ∀ d d', P d → step d x = .ok d' → P d') (hd : P d)
    (hok : xs.foldlM step d = .ok d') : P d' := by
  induction xs generalizing d with
  | nil =>
    cases hok
    exact hd
  | cons x xs ih =>
    obtain ⟨hx, hxs⟩ := List.forall_mem_cons.mp hstep
    rw [List.foldlM_cons] at hok
    cases hfirst : step d x with
    | error fault =>
      rw [hfirst] at hok
      cases hok
    | ok d₁ =>
      rw [hfirst] at hok
      exact ih hxs (hx d d₁ hd hfirst) hok

theorem Reached.addSynonym (h : Reached d) {synonym title : String}
    (hok : d.addSynonym synonym title = .ok d') : Reached d' := by
  have hafter : d.afterAll [.addSynonym synonym title] = d' := after_of_ok hok
  exact hafter ▸ h.afterAll _

/-- The code of an extension makes changes only, whatever it looks at in between: what `runCode`
ends in is `Reached`. -/
theorem Reached.runCode {code : Extension.Code} (h : Reached d) (hok : d.runCode code = .ok d') :
    Reached d' := by
  induction code generalizing d with
  | done =>
    cases hok
    exact h
  | raises e => cases hok
  | change c next ih => exact ih _ (h.afterAll [c]) hok

/-- **All dictionaries that `build` makes are `Reached`**, whatever the extensions and the
settings. -/
theorem reached_of_build {extensions : List Extension} {a : Adjustments}
    (h : build extensions a = .ok d) : Reached d := by
  unfold build at h
  cases hextended : extensions.foldlM extend standard with
  | error fault =>
    rw [hextended] at h
    cases h
  | ok d₁ =>
    rw [hextended] at h
    -- The standard tags are defined, then extensions run, then synonyms and kinds come in: all of
    -- these are changes.
    have h₁ : Reached d₁ := by
      refine of_foldlM_ok (fun e _ _ _ hd hok => ?_) reached_standard hextended
      unfold extend at hok
      split at hok
      · exact hd.runCode hok
      · cases hok
      · cases hok
      · cases hok
    have hadjust : d₁.adjust a = .ok d := h
    unfold adjust at hadjust
    cases hsynonyms : a.synonyms.entries.foldlM (fun d s => d.addSynonym s.1 s.2) d₁ with
    | error fault =>
      rw [hsynonyms] at hadjust
      cases hadjust
    | ok d₂ =>
      rw [hsynonyms] at hadjust
      cases hadjust
      have h₂ : Reached d₂ := of_foldlM_ok (fun _ _ _ _ hd hok => hd.addSynonym hok) h₁ hsynonyms
      -- Kinds are never refused, so they are changes in a row.
      have hspaces : d₂.afterAll (a.namespaceKinds.map .addNamespace) =
          a.namespaceKinds.foldl addNamespace d₂ := by
        unfold Dictionary.afterAll
        rw [List.foldl_map]
        rfl
      exact hspaces ▸ h₂.afterAll _

/-! ### Registering -/

/-- **Where a definition can be found** once it is registered, in any dictionary that was reached.
For `lookup`, all its synonyms lead to it. Its title does exactly if it is one of these synonyms or
was no synonym for another title before. Otherwise the title still leads to what it led to, which is
another definition. -/
theorem lookup_define (d : Dictionary) (hd : Reached d) (x : Definition) :
    (∀ synonym ∈ x.synonyms, (d.define x).lookup synonym = .known x) ∧
      ((d.define x).lookup x.title = .known x ↔
        x.title ∈ x.synonyms ∨ d.normalize x.title = x.title) ∧
      (x.title ∉ x.synonyms → d.normalize x.title ≠ x.title →
        ∃ other, other.title = d.normalize x.title ∧ d.lookup x.title = .known other ∧
          (d.define x).lookup x.title = .known other) := by
  have hconsistent := hd.consistent
  -- A title that is an alias for another one is known, for no alias dangles.
  have hother : d.normalize x.title ≠ x.title →
      ∃ other, d.find? x.title = some other ∧ other.title = d.normalize x.title := by
    intro halias
    cases hfind : d.find? x.title with
    | none => exact absurd (hconsistent.normalize_of_find?_none hfind) halias
    | some other => exact ⟨other, rfl, hconsistent.title_of_find? hfind⟩
  simp only [lookup_eq_known_iff, find?_define]
  refine ⟨fun synonym hsynonym => if_pos (.inl hsynonym),
    ⟨fun hfound => ?_, fun hfree => if_pos hfree⟩, ?_⟩
  · by_cases hfree : x.title ∈ x.synonyms ∨ d.normalize x.title = x.title
    · exact hfree
    · -- Then what is found was there before, and at its own title, so this is no alias.
      rw [if_neg hfree] at hfound
      exact .inr (hconsistent.title_of_find? hfound).symm
  · intro hnew halias
    obtain ⟨other, hfind, htitle⟩ := hother halias
    exact ⟨other, htitle, hfind, by rw [if_neg (not_or.mpr ⟨hnew, halias⟩), hfind]⟩

/-- With settings that make *mixin* a synonym for *class*, `lookup` finds a tag of that title if the
title is among its synonyms too, and not if it is not. -/
theorem lookup_define_mixin :
    let d := standard.after (.addSynonym "mixin" "constructor")
    let hidden : Definition := { title := "mixin", synonyms := ["mixes"] }
    let found : Definition := { title := "mixin", synonyms := ["mixes", "mixin"] }
    Reached d ∧
      ((d.define hidden).lookup "mixes" = .known hidden ∧
        (d.define hidden).lookup "mixin" = .known (Standard.kindTag "class" ["constructor"])) ∧
      (d.define found).lookup "mixin" = .known found := by
  intro d hidden found
  have hd : Reached d := reached_standard.afterAll [.addSynonym "mixin" "constructor"]
  have hlookup : d.lookup "mixin" = .known (Standard.kindTag "class" ["constructor"]) := rfl
  obtain ⟨hsynonyms, -, hold⟩ := lookup_define d hd hidden
  obtain ⟨other, -, hbefore, hafter⟩ := hold (by decide) (by decide +kernel)
  refine ⟨hd, ⟨hsynonyms _ (by decide), ?_⟩, (lookup_define d hd found).2.1.mpr (.inl (by decide))⟩
  exact hafter.trans (hbefore.symm.trans hlookup)

/-- **A definition that `lookup` cannot find**: the standard dictionary has *member* for a synonym
of *property*, so a tag of this title is listed but never comes up. -/
theorem lookup_define_member :
    Reached standard ∧
      "member" ∈ (standard.define { title := "member" }).titles ∧
      (standard.define { title := "member" }).lookup "member" ≠ .known { title := "member" } := by
  refine ⟨reached_standard, by decide +kernel, fun hknown => ?_⟩
  have htitle : ((standard.define { title := "member" }).find? "member").map (·.title) =
      some "property" := by
    decide +kernel
  rw [lookup_eq_known_iff.mp hknown] at htitle
  exact absurd htitle (by decide)

end DocComment.Dictionary
