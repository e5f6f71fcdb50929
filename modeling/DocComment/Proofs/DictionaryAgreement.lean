import DocComment.Proofs.DictionaryChanges

/-!
# Dictionaries that give the same answers

A dictionary is asked three things: what a title leads to, what its canonical title is, and whether
a kind has a name space. Two dictionaries with other tables may answer all of them alike
(`SameAnswers`). This module asks that of two pairs of dictionaries.

* Settings bring synonyms, which are added in the order in which they are written. Each one is read
  with the synonyms before it in place. If none of them leads to another one, the order does not
  matter, neither for the answers nor for whether there is a dictionary at all
  (`adjust_reordered`). What the run over the synonyms does is told by the dictionary before it
  alone (`normalize_withSynonyms_of_mem`, `normalize_withSynonyms_of_notMem`).
* A definition replaces an earlier one with its title, but what the earlier one wrote next to it
  stays: its synonyms, and the name space of its kind. `define_define_iff` says for which pairs of
  definitions this cannot be seen.
-/

namespace DocComment.Dictionary

/-- Whether two dictionaries **give the same answers**, to `lookup`, `normalize` and
`isNamespace`. -/
structure SameAnswers (d e : Dictionary) : Prop where
  /-- Each title leads to the same. -/
  lookup : ∀ title, d.lookup title = e.lookup title
  /-- Each title has the same canonical title. -/
  normalize : ∀ title, d.normalize title = e.normalize title
  /-- The same kinds have a name space. -/
  isNamespace : ∀ kind, d.isNamespace kind = e.isNamespace kind

variable {d e : Dictionary}

theorem lookup_congr {title other : String} (hfind : d.find? title = e.find? other)
    (hknown : title = other ∨ e.contains other = true) : d.lookup title = e.lookup other := by
  rcases hknown with rfl | hknown
  · unfold lookup
    rw [hfind]
  · rw [contains, Option.isSome_iff_exists] at hknown
    obtain ⟨x, hx⟩ := hknown
    rw [lookup_eq_known_iff.mpr (hfind.trans hx), lookup_eq_known_iff.mpr hx]

/-! ### Adding one synonym -/

/-- The dictionary with `synonym` leading where `title` leads. -/
def withSynonym (d : Dictionary) (synonym title : String) : Dictionary :=
  { d with synonyms := d.synonyms.insert synonym (d.normalize title) }

theorem normalize_withSynonym (d : Dictionary) (synonym title other : String) :
    (d.withSynonym synonym title).normalize other =
      if synonym = other then d.normalize title else d.normalize other := by
  rw [withSynonym, normalize, Table.get?_insert]
  split
  · rfl
  · rfl

/-- `find?` finds a title other than the synonym as before. -/
theorem find?_withSynonym_of_ne {synonym title other : String} (h : synonym ≠ other) :
    (d.withSynonym synonym title).find? other = d.find? other := by
  rw [find?, normalize_withSynonym, if_neg h]
  rfl

theorem addSynonym_of_contains {synonym title : String} (h : d.contains title = true) :
    d.addSynonym synonym title = .ok (d.withSynonym synonym title) :=
  if_pos h

theorem addSynonym_of_not_contains {synonym title : String} (h : d.contains title = false) :
    d.addSynonym synonym title = .error (.undefinedTitle synonym title) :=
  if_neg (Bool.eq_false_iff.mp h)

/-! ### Adding several -/

/-- The dictionary with each synonym of a list leading where its title leads. -/
def withSynonyms (d : Dictionary) (entries : List (String × String)) : Dictionary :=
  entries.foldl (fun d s => d.withSynonym s.1 s.2) d

/-- Whether no title of a list of synonyms is **itself one of the synonyms**. -/
def Unchained (entries : List (String × String)) : Prop :=
  ∀ s ∈ entries, s.2 ∉ entries.map (·.1)

theorem Unchained.of_cons {s : String × String} {entries : List (String × String)}
    (h : Unchained (s :: entries)) : Unchained entries := by
  intro t ht hmem
  exact h t (List.mem_cons_of_mem s ht) (List.mem_cons_of_mem _ hmem)

/-- In an `Unchained` list the first synonym is none of the titles, so it changes nothing for the
rest. -/
theorem Unchained.ne {s t : String × String} {entries : List (String × String)}
    (h : Unchained (s :: entries)) (ht : t ∈ s :: entries) : s.1 ≠ t.2 := by
  intro heq
  exact h t ht (heq ▸ List.mem_cons_self)

theorem Unchained.perm {entries others : List (String × String)} (h : Unchained entries)
    (hperm : entries.Perm others) : Unchained others := by
  intro s hs hmem
  exact h s (hperm.mem_iff.mpr hs) ((hperm.map _).mem_iff.mpr hmem)

/-- **The step**: a known title behind the first synonym is as good as before it. -/
theorem Unchained.contains_withSynonym {s t : String × String} {entries : List (String × String)}
    (h : Unchained (s :: entries)) (ht : t ∈ entries) :
    (d.withSynonym s.1 s.2).contains t.2 = d.contains t.2 := by
  rw [contains, contains, find?_withSynonym_of_ne (h.ne (List.mem_cons_of_mem s ht))]

/-- **The run of `addSynonym`**, if all titles are known before it: all synonyms are added. -/
theorem foldlM_addSynonym_of_known {entries : List (String × String)} (h : Unchained entries)
    (hknown : ∀ s ∈ entries, d.contains s.2 = true) :
    entries.foldlM (fun d s => d.addSynonym s.1 s.2) d = .ok (d.withSynonyms entries) := by
  induction entries generalizing d with
  | nil => rfl
  | cons s entries ih =>
    obtain ⟨hs, hrest⟩ := List.forall_mem_cons.mp hknown
    rw [List.foldlM_cons, addSynonym_of_contains hs]
    refine ih h.of_cons fun t ht => ?_
    rw [h.contains_withSynonym ht, hrest t ht]

/-- **The run of `addSynonym`**, if a title is unknown before it: it ends at such a title. -/
theorem foldlM_addSynonym_of_unknown {entries : List (String × String)} (h : Unchained entries)
    (hunknown : ∃ s ∈ entries, d.contains s.2 = false) :
    ∃ s ∈ entries, d.contains s.2 = false ∧
      entries.foldlM (fun d s => d.addSynonym s.1 s.2) d = .error (.undefinedTitle s.1 s.2) := by
  induction entries generalizing d with
  | nil =>
    obtain ⟨s, hs, -⟩ := hunknown
    exact absurd hs List.not_mem_nil
  | cons s entries ih =>
    cases hs : d.contains s.2 with
    | false =>
      refine ⟨s, List.mem_cons_self, hs, ?_⟩
      rw [List.foldlM_cons, addSynonym_of_not_contains hs]
      rfl
    | true =>
      -- The unknown title is further back, and the synonym does not make it known.
      obtain ⟨t, ht, hfalse⟩ := hunknown
      have htail : t ∈ entries := by
        rcases List.mem_cons.mp ht with rfl | htail
        · rw [hs] at hfalse
          cases hfalse
        · exact htail
      obtain ⟨u, hu, hcontains, hrun⟩ := ih (d := d.withSynonym s.1 s.2) h.of_cons
        ⟨t, htail, by rw [h.contains_withSynonym htail, hfalse]⟩
      rw [h.contains_withSynonym hu] at hcontains
      refine ⟨u, List.mem_cons_of_mem s hu, hcontains, ?_⟩
      rw [List.foldlM_cons, addSynonym_of_contains hs]
      exact hrun

theorem definitions_withSynonyms (d : Dictionary) (entries : List (String × String)) :
    (d.withSynonyms entries).definitions = d.definitions ∧
      (d.withSynonyms entries).namespaces = d.namespaces := by
  induction entries generalizing d with
  | nil => exact ⟨rfl, rfl⟩
  | cons s entries ih => exact ih (d.withSynonym s.1 s.2)

theorem normalize_withSynonyms_of_notMem {entries : List (String × String)} {title : String}
    (h : title ∉ entries.map (·.1)) :
    (d.withSynonyms entries).normalize title = d.normalize title := by
  induction entries generalizing d with
  | nil => rfl
  | cons s entries ih =>
    rw [List.map_cons, List.mem_cons, not_or] at h
    calc ((d.withSynonym s.1 s.2).withSynonyms entries).normalize title
        = (d.withSynonym s.1 s.2).normalize title := ih h.2
      _ = d.normalize title := by rw [normalize_withSynonym, if_neg (Ne.symm h.1)]

/-- **Where a synonym leads in the end**: to the canonical title that its title had at the start. -/
theorem normalize_withSynonyms_of_mem {entries : List (String × String)}
    (hkeys : (entries.map (·.1)).Nodup) (h : Unchained entries) {s : String × String}
    (hs : s ∈ entries) : (d.withSynonyms entries).normalize s.1 = d.normalize s.2 := by
  induction entries generalizing d with
  | nil => exact absurd hs List.not_mem_nil
  | cons t entries ih =>
    obtain ⟨hfresh, hkeys⟩ := List.nodup_cons.mp hkeys
    -- The synonym is the first one or stands further back, where its title still means the same.
    rcases List.mem_cons.mp hs with rfl | htail
    · -- None of the others writes at the same synonym.
      calc ((d.withSynonym s.1 s.2).withSynonyms entries).normalize s.1
          = (d.withSynonym s.1 s.2).normalize s.1 := normalize_withSynonyms_of_notMem hfresh
        _ = d.normalize s.2 := by rw [normalize_withSynonym, if_pos rfl]
    · calc ((d.withSynonym t.1 t.2).withSynonyms entries).normalize s.1
          = (d.withSynonym t.1 t.2).normalize s.2 := ih hkeys h.of_cons htail
        _ = d.normalize s.2 := by rw [normalize_withSynonym, if_neg (h.ne hs)]

/-- What `normalize` makes of a title does not depend on the order of the synonyms. -/
theorem normalize_withSynonyms_perm {entries others : List (String × String)}
    (hkeys : (entries.map (·.1)).Nodup) (h : Unchained entries) (hperm : entries.Perm others)
    (title : String) :
    (d.withSynonyms entries).normalize title = (d.withSynonyms others).normalize title := by
  have hsame := (hperm.map (·.1)).mem_iff (a := title)
  by_cases hmem : title ∈ entries.map (·.1)
  · obtain ⟨s, hs, rfl⟩ := List.mem_map.mp hmem
    rw [normalize_withSynonyms_of_mem hkeys h hs,
      normalize_withSynonyms_of_mem ((hperm.map _).nodup_iff.mp hkeys) (h.perm hperm)
        (hperm.mem_iff.mp hs)]
  · rw [normalize_withSynonyms_of_notMem hmem,
      normalize_withSynonyms_of_notMem (fun hother => hmem (hsame.mpr hother))]

theorem find?_withSynonyms (d : Dictionary) (entries : List (String × String)) (title : String) :
    (d.withSynonyms entries).find? title =
      d.definitions.get? ((d.withSynonyms entries).normalize title) := by
  rw [find?, (definitions_withSynonyms d entries).1]

/-- **The order of the synonyms does not change the answers**: both orders are `SameAnswers`. -/
theorem sameAnswers_withSynonyms {entries others : List (String × String)}
    (hkeys : (entries.map (·.1)).Nodup) (h : Unchained entries) (hperm : entries.Perm others) :
    SameAnswers (d.withSynonyms entries) (d.withSynonyms others) := by
  have hnormalize := @normalize_withSynonyms_perm d _ _ hkeys h hperm
  refine ⟨fun title => lookup_congr ?_ (.inl rfl), hnormalize, fun kind => ?_⟩
  · rw [find?_withSynonyms, find?_withSynonyms, hnormalize]
  · rw [isNamespace, isNamespace, (definitions_withSynonyms d _).2,
      (definitions_withSynonyms d _).2]

/-! ### Adding kinds -/

theorem isNamespace_addNamespace_iff {kind other : String} :
    (d.addNamespace kind).isNamespace other = true ↔
      (other ≠ "" ∧ other = kind) ∨ d.isNamespace other = true := by
  rw [isNamespace_iff, isNamespace_iff, ← and_or_left]
  refine and_congr_right fun _ => ?_
  unfold addNamespace
  split
  · next hmem =>
    -- The kind is there already, and is not added twice.
    have hkind : kind ∈ d.namespaces := List.contains_iff_mem.mp hmem
    refine ⟨.inr, fun h => ?_⟩
    rcases h with rfl | h
    · exact hkind
    · exact h
  · rw [List.mem_append, List.mem_singleton]
    exact or_comm

theorem lookup_addNamespace (d : Dictionary) (kind title : String) :
    (d.addNamespace kind).lookup title = d.lookup title ∧
      (d.addNamespace kind).normalize title = d.normalize title := by
  obtain ⟨hdefinitions, hsynonyms⟩ := definitions_addNamespace d kind
  unfold lookup find? normalize
  rw [hdefinitions, hsynonyms]
  exact ⟨rfl, rfl⟩

theorem SameAnswers.addNamespace (h : SameAnswers d e) (kind : String) :
    SameAnswers (d.addNamespace kind) (e.addNamespace kind) := by
  refine ⟨fun title => ?_, fun title => ?_, fun other => ?_⟩
  · rw [(lookup_addNamespace d kind title).1, (lookup_addNamespace e kind title).1, h.lookup]
  · rw [(lookup_addNamespace d kind title).2, (lookup_addNamespace e kind title).2, h.normalize]
  · rw [Bool.eq_iff_iff, isNamespace_addNamespace_iff, isNamespace_addNamespace_iff, h.isNamespace]

theorem SameAnswers.addNamespaces (h : SameAnswers d e) (kinds : List String) :
    SameAnswers (kinds.foldl Dictionary.addNamespace d)
      (kinds.foldl Dictionary.addNamespace e) := by
  induction kinds generalizing d e with
  | nil => exact h
  | cons kind kinds ih => exact ih (h.addNamespace kind)

theorem lookup_addNamespaces (d : Dictionary) (kinds : List String) (title : String) :
    (kinds.foldl Dictionary.addNamespace d).lookup title = d.lookup title := by
  induction kinds generalizing d with
  | nil => rfl
  | cons kind kinds ih =>
    exact (ih (d.addNamespace kind)).trans (lookup_addNamespace d kind title).1

/-! ### Synonyms from the settings -/

theorem adjust_of_ok {a : Adjustments}
    (h : a.synonyms.entries.foldlM (fun d s => d.addSynonym s.1 s.2) d = .ok e) :
    d.adjust a = .ok (a.namespaceKinds.foldl Dictionary.addNamespace e) := by
  unfold adjust
  rw [h]
  rfl

theorem adjust_of_error {a : Adjustments} {fault : DictionaryError}
    (h : a.synonyms.entries.foldlM (fun d s => d.addSynonym s.1 s.2) d = .error fault) :
    d.adjust a = .error fault := by
  unfold adjust
  rw [h]
  rfl

theorem build_of_extended {extensions : List Extension}
    (h : extensions.foldlM extend standard = .ok d) (a : Adjustments) :
    build extensions a = d.adjust a := by
  unfold build
  rw [h]
  rfl

/-- **The order of the synonyms in the settings does not matter**, if none of them leads to another
one. For every dictionary `d` and two settings that differ in the order of their synonyms: if all
titles that the synonyms lead to are known to `d`, both settings can be applied, the two
dictionaries give the same answers, and each synonym leads to what its title led to in `d`. If one
is not known, both settings are refused, each for a synonym whose title is not. This is what is
built with the settings, whatever extensions have made `d`. -/
theorem adjust_reordered (d : Dictionary) (a b : Adjustments)
    (hkeys : a.synonyms.keys.Nodup) (htargets : ∀ s ∈ a.synonyms.entries, s.2 ∉ a.synonyms.keys)
    (hperm : a.synonyms.entries.Perm b.synonyms.entries)
    (hkinds : a.namespaceKinds = b.namespaceKinds) :
    ((∀ s ∈ a.synonyms.entries, (d.lookup s.2).isKnown = true) →
        ∃ x y, d.adjust a = .ok x ∧ d.adjust b = .ok y ∧ SameAnswers x y ∧
          ∀ s ∈ a.synonyms.entries, x.lookup s.1 = d.lookup s.2) ∧
      ((∃ s ∈ a.synonyms.entries, (d.lookup s.2).isKnown = false) →
        ∃ s ∈ a.synonyms.entries, ∃ t ∈ a.synonyms.entries,
          (d.lookup s.2).isKnown = false ∧ (d.lookup t.2).isKnown = false ∧
          d.adjust a = .error (.undefinedTitle s.1 s.2) ∧
          d.adjust b = .error (.undefinedTitle t.1 t.2)) ∧
      ∀ extensions, extensions.foldlM extend standard = .ok d →
        build extensions a = d.adjust a ∧ build extensions b = d.adjust b := by
  simp only [isKnown_lookup]
  have hchain : Unchained a.synonyms.entries := htargets
  have hchain' := hchain.perm hperm
  refine ⟨fun hknown => ?_, fun hunknown => ?_, fun extensions hextended =>
    ⟨build_of_extended hextended a, build_of_extended hextended b⟩⟩
  · have hknown' : ∀ s ∈ b.synonyms.entries, d.contains s.2 = true :=
      fun s hs => hknown s (hperm.mem_iff.mpr hs)
    refine ⟨_, _, adjust_of_ok (foldlM_addSynonym_of_known hchain hknown),
      adjust_of_ok (foldlM_addSynonym_of_known hchain' hknown'), ?_, fun s hs => ?_⟩
    · rw [hkinds]
      exact (sameAnswers_withSynonyms hkeys hchain hperm).addNamespaces b.namespaceKinds
    · rw [lookup_addNamespaces]
      refine lookup_congr ?_ (.inr (hknown s hs))
      rw [find?_withSynonyms, normalize_withSynonyms_of_mem hkeys hchain hs]
      rfl
  · have hunknown' : ∃ s ∈ b.synonyms.entries, d.contains s.2 = false := by
      obtain ⟨s, hs, hfalse⟩ := hunknown
      exact ⟨s, hperm.mem_iff.mp hs, hfalse⟩
    -- The two runs may end at different synonyms, for each ends at the first one in its order.
    obtain ⟨s, hs, hfalse, hrun⟩ := foldlM_addSynonym_of_unknown hchain hunknown
    obtain ⟨t, ht, hfalse', hrun'⟩ := foldlM_addSynonym_of_unknown hchain' hunknown'
    exact ⟨s, hs, t, hperm.mem_iff.mpr ht, hfalse, hfalse', adjust_of_error hrun,
      adjust_of_error hrun'⟩

/-- Two synonyms, one of which shadows a standard title, in both orders, with titles that are known
and with titles that are not: `adjust` gives the same answers, or no dictionary at all. -/
theorem adjust_reordered_shadowed :
    let a : Adjustments := { synonyms := ⟨[("mixin", "constructor"), ("param", "prop")]⟩ }
    let b : Adjustments := { synonyms := ⟨[("param", "prop"), ("mixin", "constructor")]⟩ }
    let bad : Adjustments := { synonyms := ⟨[("mixin", "nothing"), ("param", "none")]⟩ }
    let worse : Adjustments := { synonyms := ⟨[("param", "none"), ("mixin", "nothing")]⟩ }
    (∃ x y, standard.adjust a = .ok x ∧ standard.adjust b = .ok y ∧ SameAnswers x y ∧
        ∀ s ∈ a.synonyms.entries, x.lookup s.1 = standard.lookup s.2) ∧
      (∃ s ∈ bad.synonyms.entries, ∃ t ∈ bad.synonyms.entries,
        (standard.lookup s.2).isKnown = false ∧ (standard.lookup t.2).isKnown = false ∧
        standard.adjust bad = .error (.undefinedTitle s.1 s.2) ∧
        standard.adjust worse = .error (.undefinedTitle t.1 t.2)) ∧
      build [] a = standard.adjust a ∧ build [] b = standard.adjust b := by
  intro a b bad worse
  have hgood := adjust_reordered standard a b (by decide) (by decide) (.swap _ _ _) rfl
  have hbad := adjust_reordered standard bad worse (by decide) (by decide) (.swap _ _ _) rfl
  -- The known titles are looked up by evaluation, which leaves the order to the theorem.
  refine ⟨hgood.1 ?_, hbad.2.1 ⟨("param", "none"), by decide, by decide +kernel⟩,
    hgood.2.2 [] rfl⟩
  decide +kernel

/-! ### Defining a title anew -/

/-- **What `find?` gives after two definitions of one title**: the second one, also at the synonyms
of the first. -/
theorem find?_define_define {x y : Definition} (htitle : x.title = y.title) (title : String) :
    ((d.define x).define y).find? title =
      if title ∈ x.synonyms then some y else (d.define y).find? title := by
  rw [find?_define, find?_define, find?_define, normalize_define, htitle]
  by_cases hfirst : title ∈ x.synonyms
  · rw [if_pos hfirst, if_pos (.inr rfl), if_pos hfirst]
  · rw [if_neg hfirst, if_neg hfirst]
    -- What the first definition could still give is the second one by now.
    by_cases hsecond : title ∈ y.synonyms ∨ d.normalize title = y.title
    · rw [if_pos hsecond, if_pos hsecond]
    · have hnone : ¬(title ∈ x.synonyms ∨ d.normalize title = y.title) :=
        not_or.mpr ⟨hfirst, (not_or.mp hsecond).2⟩
      rw [if_neg hsecond, if_neg hsecond, if_neg hnone]

theorem normalize_define_define {x y : Definition} (htitle : x.title = y.title) (title : String) :
    ((d.define x).define y).normalize title =
      if title ∈ x.synonyms then y.title else (d.define y).normalize title := by
  rw [normalize_define, normalize_define, normalize_define, htitle]
  by_cases hsecond : title ∈ y.synonyms
  · rw [if_pos hsecond, if_pos hsecond, ite_self]
  · rw [if_neg hsecond, if_neg hsecond]

theorem isNamespace_define_iff {x : Definition} {kind : String} :
    (d.define x).isNamespace kind = true ↔
      (x.hasNamespace = true ∧ kind ≠ "" ∧ kind = x.title) ∨ d.isNamespace kind = true := by
  unfold define
  dsimp only
  split
  · next hspace =>
    rw [isNamespace_addNamespace_iff]
    exact or_congr_left (and_iff_right hspace).symm
  · next hspace => exact (or_iff_right fun h => hspace h.1).symm

/-- A title that is no synonym is its own canonical title, by `normalize`. -/
theorem normalize_of_notMem {title : String} (h : title ∉ d.synonyms.keys) :
    d.normalize title = title := by
  rw [← Table.contains_iff, Table.contains] at h
  have hnone : d.synonyms.get? title = none := by simpa using h
  rw [normalize, hnone, Option.getD_none]

/-- **When a definition replaces an earlier one without a trace.** Let `x` and `y` have the same
title, let it be no kind with a name space in `d`, and let no synonym of `x` be one of `d`. Defining
`x` and then `y` gives the same answers as defining `y` alone exactly if each synonym of `x` is one
of `y` or the title, and `y` has a name space if `x` has one. Any other synonym of `x` stays: it
leads to `y`, where without `x` it would lead to what it led to in `d`. And the kind keeps its name
space. No other title or kind is affected. -/
theorem define_define_iff (d : Dictionary) (x y : Definition) (htitle : x.title = y.title)
    (hfresh : ∀ s ∈ x.synonyms, s ∉ d.synonyms.keys) (hspace : y.title ∉ d.namespaces) :
    (SameAnswers ((d.define x).define y) (d.define y) ↔
        (∀ s ∈ x.synonyms, s ∈ y.synonyms ∨ s = y.title) ∧
          (x.hasNamespace = true → y.hasNamespace = true ∨ y.title = "")) ∧
      (∀ s ∈ x.synonyms, s ∉ y.synonyms → s ≠ y.title →
        ((d.define x).define y).normalize s = y.title ∧ (d.define y).normalize s = s ∧
          ((d.define x).define y).lookup s = .known y ∧ (d.define y).lookup s = d.lookup s) ∧
      (∀ title, title ∉ x.synonyms →
        ((d.define x).define y).normalize title = (d.define y).normalize title ∧
          ((d.define x).define y).lookup title = (d.define y).lookup title) ∧
      (x.hasNamespace = true → y.title ≠ "" →
        ((d.define x).define y).isNamespace y.title = true) ∧
      ∀ kind, kind ≠ y.title →
        ((d.define x).define y).isNamespace kind = (d.define y).isNamespace kind := by
  -- What is left of the first definition, at a synonym and at the kind.
  have hleft : ∀ s ∈ x.synonyms, s ∉ y.synonyms → s ≠ y.title →
      ((d.define x).define y).normalize s = y.title ∧ (d.define y).normalize s = s ∧
        ((d.define x).define y).lookup s = .known y ∧ (d.define y).lookup s = d.lookup s := by
    intro s hs hother hne
    have hself := normalize_of_notMem (hfresh s hs)
    refine ⟨?_, ?_, ?_, lookup_congr ?_ (.inl rfl)⟩
    · rw [normalize_define_define htitle, if_pos hs]
    · rw [normalize_define, if_neg hother, hself]
    · rw [lookup_eq_known_iff, find?_define_define htitle, if_pos hs]
    · rw [find?_define, hself, if_neg (not_or.mpr ⟨hother, hne⟩)]
  have helsewhere : ∀ title, title ∉ x.synonyms →
      ((d.define x).define y).normalize title = (d.define y).normalize title ∧
        ((d.define x).define y).lookup title = (d.define y).lookup title := by
    intro title hnot
    refine ⟨?_, lookup_congr ?_ (.inl rfl)⟩
    · rw [normalize_define_define htitle, if_neg hnot]
    · rw [find?_define_define htitle, if_neg hnot]
  have hkind : x.hasNamespace = true → y.title ≠ "" →
      ((d.define x).define y).isNamespace y.title = true := by
    intro hhas hne
    rw [isNamespace_define_iff, isNamespace_define_iff, htitle]
    exact .inr (.inl ⟨hhas, hne, rfl⟩)
  have hkinds : ∀ kind, kind ≠ y.title →
      ((d.define x).define y).isNamespace kind = (d.define y).isNamespace kind := by
    intro kind hne
    rw [Bool.eq_iff_iff, isNamespace_define_iff, isNamespace_define_iff, isNamespace_define_iff,
      htitle]
    simp only [hne, and_false, false_or]
  refine ⟨⟨fun hsame => ⟨fun s hs => ?_, fun hhas => ?_⟩, fun hcovered => ?_⟩, hleft, helsewhere,
    hkind, hkinds⟩
  · -- A synonym that is left over has another canonical title.
    by_cases hother : s ∈ y.synonyms
    · exact .inl hother
    · by_cases hne : s = y.title
      · exact .inr hne
      · obtain ⟨hboth, halone, -⟩ := hleft s hs hother hne
        have hsame_title := hsame.normalize s
        rw [hboth, halone] at hsame_title
        exact absurd hsame_title.symm hne
  · by_cases hempty : y.title = ""
    · exact .inr hempty
    · have hspaced := hsame.isNamespace y.title
      rw [hkind hhas hempty, eq_comm, isNamespace_define_iff, isNamespace_iff] at hspaced
      exact .inl (hspaced.elim And.left fun hold => absurd hold.2 hspace)
  · have hsynonym : ∀ title ∈ x.synonyms,
        (d.define y).normalize title = y.title ∧ (d.define y).find? title = some y := by
      intro title hmem
      rw [normalize_define, find?_define, normalize_of_notMem (hfresh title hmem)]
      rcases hcovered.1 title hmem with hother | rfl
      · exact ⟨if_pos hother, if_pos (.inl hother)⟩
      · exact ⟨ite_self _, if_pos (.inr rfl)⟩
    refine ⟨fun title => ?_, fun title => ?_, fun kind => ?_⟩
    · by_cases hmem : title ∈ x.synonyms
      · refine lookup_congr ?_ (.inl rfl)
        rw [find?_define_define htitle, if_pos hmem, (hsynonym title hmem).2]
      · exact (helsewhere title hmem).2
    · by_cases hmem : title ∈ x.synonyms
      · rw [normalize_define_define htitle, if_pos hmem, (hsynonym title hmem).1]
      · exact (helsewhere title hmem).1
    · by_cases hne : kind = y.title
      · subst hne
        rw [Bool.eq_iff_iff, isNamespace_define_iff, isNamespace_define_iff,
          isNamespace_define_iff, htitle]
        constructor
        · rintro (hnew | ⟨hhas, hempty, -⟩ | hold)
          · exact .inl hnew
          · exact .inl ⟨(hcovered.2 hhas).resolve_right hempty, hempty, rfl⟩
          · exact .inr hold
        · exact Or.imp_right .inr
      · exact hkinds kind hne

/-- A tag that `define` brings in anew, with the synonym it had and with one more, leaves no
trace. -/
theorem define_define_iff_extended :
    let x : Definition := { title := "widget", synonyms := ["gadget", "widget"] }
    let y : Definition :=
      { title := "widget", synonyms := ["gizmo", "gadget"], hasNamespace := true }
    (∀ s ∈ x.synonyms, s ∉ standard.synonyms.keys) ∧ y.title ∉ standard.namespaces ∧
      SameAnswers ((standard.define x).define y) (standard.define y) := by
  intro x y
  have hfresh : ∀ s ∈ x.synonyms, s ∉ standard.synonyms.keys := by decide +kernel
  have hspace : y.title ∉ standard.namespaces := by decide +kernel
  exact ⟨hfresh, hspace, (define_define_iff standard x y rfl hfresh hspace).1.mpr (by decide)⟩

/-- **A definition that `define` does not replace as a whole**: a tag that is defined anew without
its synonym and its name space keeps both, in a dictionary that knew nothing before. -/
theorem define_define_iff_leftover :
    let x : Definition := { title := "widget", synonyms := ["gadget"], hasNamespace := true }
    let y : Definition := { title := "widget" }
    ((∀ s ∈ x.synonyms, s ∉ empty.synonyms.keys) ∧ y.title ∉ empty.titles ∧
        y.title ∉ empty.synonyms.keys ∧ y.title ∉ empty.namespaces) ∧
      ((empty.define x).define y).lookup "gadget" = .known y ∧
      (empty.define y).lookup "gadget" = .unknown "gadget" ∧
      ((empty.define x).define y).isNamespace "widget" = true ∧
      (empty.define y).isNamespace "widget" = false ∧
      ¬SameAnswers ((empty.define x).define y) (empty.define y) := by
  intro x y
  have hboth : ((empty.define x).define y).lookup "gadget" = .known y := rfl
  have halone : (empty.define y).lookup "gadget" = .unknown "gadget" := rfl
  refine ⟨by decide +kernel, hboth, halone, by decide +kernel, by decide +kernel, fun hsame => ?_⟩
  -- One answer that differs is enough: the synonym is known to one dictionary and not to the other.
  have hlookup := hsame.lookup "gadget"
  rw [hboth, halone] at hlookup
  cases hlookup

end DocComment.Dictionary
