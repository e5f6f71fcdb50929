import DocComment.Proofs.TagOrder

/-!
# A kind that is inferred and a kind that is given

A doclet whose tags give no kind gets the one that its code suggests, but only when its names are
complete. The same kind given by a tag is there before the names are made, and a name path takes the
name space of the kind that is there. So the two doclets go side by side, with one difference:
`Prefixed` says that each path of the second is the path of the first, with the name space. All that
is done to the names keeps it (`respects_completeNames`).

In the end the kinds are the same, and so are all other fields but the name path, which is the same
only if the kind has no name space or the path cannot take one (`buildFrom_inferredKind`).
-/

namespace DocComment.Doclet

open DocComment.Namepath (Parts withNamespace)

variable {kind : String} {d e d' e' : Doclet}

/-! ### Side by side -/

/-- Whether `e` is **`d` with a kind**: `d` has none, the paths of `e` have the name space of the
kind, and all else is the same. -/
structure Prefixed (kind : String) (d e : Doclet) : Prop where
  setting_eq : e.setting = d.setting
  unkinded : d.fields .kind = .absent
  kind_eq : e.fields .kind = .text kind
  name : isTextual (d.fields .name) = true
  longname : isTextual (d.fields .longname) = true
  longname_eq : e.fields .longname = e.namespaced (d.fields .longname)
  other : ∀ f, f ≠ .kind → f ≠ .longname → e.fields f = d.fields f

namespace Prefixed

/-- `Prefixed` stays when the same value is written to both doclets, to a field other than the kind
and the path. -/
theorem wrote (h : Prefixed kind d e) {f : Field} {v : FieldValue} (hkind : f ≠ .kind)
    (hlong : f ≠ .longname) (hname : f = .name → isTextual v = true) (hd : Wrote d f v d')
    (he : Wrote e f v e') : Prefixed kind d' e' := by
  -- Only the written field can differ from before, and it holds one value on both sides; the name
  -- space of the path depends on the kind, which stays.
  have hsetting : e'.setting = e.setting := he.setting_eq
  have hkind' : e'.fields .kind = e.fields .kind := he.other _ hkind.symm
  refine ⟨?_, ?_, hkind'.trans h.kind_eq, ?_, ?_, ?_, fun g hg hg' => ?_⟩
  · rw [hsetting, hd.setting_eq, h.setting_eq]
  · rw [hd.other _ hkind.symm, h.unkinded]
  · by_cases hf : f = .name
    · subst hf
      rw [hd.field_eq]
      exact hname rfl
    · rw [hd.other _ (Ne.symm hf)]
      exact h.name
  · rw [hd.other _ hlong.symm]
    exact h.longname
  · rw [he.other _ hlong.symm, hd.other _ hlong.symm, namespaced_congr hsetting hkind',
      h.longname_eq]
  · by_cases hf : g = f
    · subst hf
      rw [he.field_eq, hd.field_eq]
    · rw [he.other g hf, hd.other g hf, h.other g hg hg']

/-- `Prefixed` stays when the same value is written to a field that is not even the name. -/
theorem wroteOther (h : Prefixed kind d e) {f : Field} {v : FieldValue}
    (hf : f ∉ [Field.kind, .longname, .name]) (hd : Wrote d f v d') (he : Wrote e f v e') :
    Prefixed kind d' e' := by
  simp only [List.mem_cons, List.not_mem_nil, or_false, not_or] at hf
  exact h.wrote hf.1 hf.2.1 (fun hname => absurd hname hf.2.2) hd he

/-- `Prefixed` stays when the same path is given to both doclets: only the second takes it with a
name space. -/
theorem wroteLongname (h : Prefixed kind d e) {v : FieldValue} (hv : isTextual v = true)
    (hd : Wrote d .longname (d.namespaced v) d') (he : Wrote e .longname (e.namespaced v) e') :
    Prefixed kind d' e' := by
  -- Without a kind the first doclet takes the path as it is.
  have hplain : d'.fields .longname = v := by
    rw [hd.field_eq, namespaced_of_no_kind h.unkinded]
  have hkind' : e'.fields .kind = e.fields .kind := he.other _ (by decide)
  refine ⟨?_, ?_, hkind'.trans h.kind_eq, ?_, ?_, ?_, fun g hg hg' => ?_⟩
  · rw [he.setting_eq, hd.setting_eq, h.setting_eq]
  · rw [hd.other _ (by decide), h.unkinded]
  · rw [hd.other _ (by decide)]
    exact h.name
  · rw [hplain]
    exact hv
  · rw [hplain, he.field_eq, namespaced_congr he.setting_eq hkind']
  · rw [he.other g hg', hd.other g hg', h.other g hg hg']

theorem noting (h : Prefixed kind d e) (remarks : List Log.Remark) :
    Prefixed kind (d.noting remarks) (e.noting remarks) :=
  ⟨h.setting_eq, h.unkinded, h.kind_eq, h.name, h.longname, h.longname_eq, h.other⟩

/-- A path does not get lost when `namespaced` gives it a name space, nor does one come out of
nothing. -/
theorem longname_isEmpty (h : Prefixed kind d e) :
    (e.fields .longname).isEmpty = (d.fields .longname).isEmpty := by
  rw [h.longname_eq]
  cases hempty : (d.fields .longname).isEmpty with
  | false => exact namespaced_ne h.longname hempty
  | true =>
    rw [namespaced, hempty, Bool.not_true, Bool.false_and, if_neg (by decide)]
    exact hempty

end Prefixed

/-! ### Names brought into line -/

theorem respects_setMemberof {v : FieldValue} (hv : isTextual v = true) :
    Respects (Prefixed kind) (setMemberof v) := by
  have hplain : isPlainWrite (.memberof v) = true := by
    rcases isTextual_iff.mp hv with rfl | ⟨s, rfl⟩ <;> rfl
  intro d e h
  rw [setMemberof, attempt_of_not_refused d _ rfl, attempt_of_not_refused e _ rfl]
  exact ⟨rfl, h.wroteOther (f := .memberof) (by decide) (wrote_perform hplain d)
    (wrote_perform hplain e)⟩

theorem respects_setLongname {v : FieldValue} (hv : isTextual v = true) :
    Respects (Prefixed kind) (setLongname v) := by
  intro d e h
  obtain ⟨d', hd, hwrote⟩ := exists_setLongname (d := d) (by rw [h.unkinded]; rfl) hv
  obtain ⟨e', he, hwrote'⟩ := exists_setLongname (d := e) (by rw [h.kind_eq]; rfl) hv
  rw [hd, he]
  exact ⟨rfl, h.wroteLongname hv hwrote hwrote'⟩

theorem respects_takeNames (parts : Parts) : Respects (Prefixed kind) (takeNames parts) := by
  rw [takeNames_eq]
  have hname : Respects (Prefixed kind)
      (modify fun d => d.put .name (.text parts.name) : DocletStep Unit) :=
    respects_modify fun d e h => h.wrote (by decide) (by decide) (fun _ => rfl)
      (wrote_put d .name _) (wrote_put e .name _)
  refine respects_bind (respects_ite (respects_pure ()) hname) fun _ =>
    respects_bind (respects_ite (respects_pure ()) (respects_setMemberof rfl)) fun _ =>
      respects_get fun d e h => ?_
  -- Both have a path already, or both have none.
  rw [h.longname_isEmpty]
  exact respects_ite (respects_setLongname rfl) (respects_pure ()) _ _ h

theorem respects_makeStatic : Respects (Prefixed kind) makeStatic := by
  refine respects_bind (respects_modify fun d e h => h.wroteOther (by decide)
    (wrote_put d .scope _) (wrote_put e .scope _)) fun _ => respects_get fun d e h => ?_
  rw [h.other .memberof (by decide) (by decide), h.other .name (by decide) (by decide)]
  cases staticPath (d.fields .memberof) (d.fields .name) with
  | ok path => exact respects_setLongname rfl _ _ h
  | error fault => exact respects_throw fault _ _ h

theorem respects_settleScope (parts : Parts) : Respects (Prefixed kind) (settleScope parts) := by
  refine respects_get fun d e h => ?_
  have hname : e.fields .name = d.fields .name := h.other _ (by decide) (by decide)
  have hglobal : e.isGlobal = d.isGlobal := by
    rw [isGlobal, isGlobal, h.other .scope (by decide) (by decide)]
  have hlacks : e.lacksPath = d.lacksPath := by
    rw [lacksPath, lacksPath, hname, h.other .memberof (by decide) (by decide), h.longname_isEmpty]
  -- All that the step decides by is the same on both sides, so both take the same branch.
  rw [hglobal, hlacks, hname]
  cases d.isGlobal with
  | true =>
    exact respects_bind (respects_setLongname h.name) (fun _ => respects_setMemberof rfl) _ _ h
  | false =>
    cases parts.scope with
    | some s =>
      exact ⟨rfl, h.wroteOther (by decide) (wrote_put d .scope _) (wrote_put e .scope _)⟩
    | none => exact respects_ite respects_makeStatic (respects_pure ()) _ _ h

theorem respects_takeVariation (parts : Parts) :
    Respects (Prefixed kind) (modify (takeVariation parts) : DocletStep Unit) :=
  respects_modify fun d e h => by
    have hsame : e.fields .variation = d.fields .variation := h.other _ (by decide) (by decide)
    have hwrote := wrote_takeVariation parts e
    rw [hsame] at hwrote
    exact h.wroteOther (by decide) (wrote_takeVariation parts d) hwrote

/-- **`completeNames` goes side by side** on both doclets, with the name space in the paths of the
second. -/
theorem respects_completeNames : Respects (Prefixed kind) completeNames := by
  have hparts : Respects (Prefixed kind) findParts := by
    refine respects_findParts (fun d e h f hf => h.other f ?_ ?_) fun d e h => h.noting
    · rintro rfl
      exact absurd hf (by decide)
    · rintro rfl
      exact absurd hf (by decide)
  -- The four stages of `resolve`, one after the other.
  have hresolve : Respects (Prefixed kind) resolve :=
    respects_bind hparts fun parts => respects_bind (respects_takeNames parts) fun _ =>
      respects_bind (respects_settleScope parts) fun _ => respects_takeVariation parts
  -- The name stands in for a path that is missing, and one is missing on both sides or on neither.
  have hstandIn : Respects (Prefixed kind) (do
      let d ← get
      if !(d.fields .name).isEmpty && (d.fields .longname).isEmpty then
        setLongname (d.fields .name) : DocletStep Unit) := by
    refine respects_get fun d e h => ?_
    rw [h.other .name (by decide) (by decide), h.longname_isEmpty]
    exact respects_ite (respects_setLongname h.name) (respects_pure ()) _ _ h
  intro d e h
  have hkeeps : e.keepsName = d.keepsName := by
    rw [keepsName, keepsName, show e.preserveName = d.preserveName from
      congrArg (·.2.2) h.setting_eq]
  unfold completeNames
  rw [get_bind, get_bind, hkeeps]
  cases d.keepsName with
  | true => exact hstandIn _ _ h
  | false => exact respects_bind hresolve (fun _ => hstandIn) _ _ h

/-! ### Tags that give no kind -/

theorem addTags_append (tags more : List RawTag) :
    addTags (tags ++ more) = (do addTags tags; addTags more) := by
  induction tags with
  | nil => rfl
  | cons raw tags ih =>
    rw [List.cons_append, addTags, addTags, ih]
    simp only [bind_assoc]

/-- Operations that are `IsOrderly` leave the name path alone. -/
theorem field_ne_longname {op : Operation} (h : IsOrderly op) : op.field ≠ .longname := by
  cases op with
  | set f v => exact fun heq => h.2.1 (by simp [show f = .longname from heq])
  | append f v =>
    intro heq
    have hlist : Field.longname ∈ Field.lists := (show f = .longname from heq) ▸ h.1
    exact absurd hlist (by decide)
  | memberof v => exact nofun
  | longname v => exact h.elim

section Tags

variable {dictionary : Dictionary} {origin : Origin} {a : Adjustments}
  (hbuild : Dictionary.build [] a = .ok dictionary)
include hbuild

/-- **Tags that give no kind** all succeed in `addTags` and leave neither a kind nor a path. -/
theorem exists_addTags_unkinded {tags : List RawTag}
    (htags : ∀ raw ∈ tags, Field.kind ∉ writtenFields dictionary origin raw) (comment : String)
    (preserveName warnUnknown : Bool) :
    ∃ d b, addTags tags
        { blank dictionary comment origin preserveName warnUnknown with recording := true } =
          .ok () d ∧
      d.setting = (dictionary, origin, .flag b) ∧ Textual dictionary d ∧
      d.fields .kind = .absent ∧ d.fields .longname = .absent := by
  obtain ⟨d, b, hadd, -, htextual, hsetting, hslots⟩ :=
    exists_addTags_blank hbuild comment origin preserveName warnUnknown tags
  -- A field that no operation of the tags is on is as blank as before.
  have hblank : ∀ f, (∀ raw ∈ tags, f ∉ (operationsOf dictionary origin raw).map Operation.field) →
      d.fields f = .absent := by
    intro f hf
    have hnone : operationsOn dictionary origin f tags = [] := by
      rw [operationsOn, List.filter_eq_nil_iff]
      intro op hop heq
      obtain ⟨raw, hraw, hop⟩ := List.mem_flatMap.mp hop
      exact hf raw hraw (List.mem_map.mpr ⟨op, hop, by simpa using heq⟩)
    have hslot := hslots f
    rw [hnone] at hslot
    exact congrArg Prod.fst hslot
  refine ⟨d, b, hadd, hsetting, htextual, hblank .kind fun raw hraw => ?_, hblank .longname ?_⟩
  · rw [← writtenFields_eq hbuild]
    exact htags raw hraw
  · intro raw _ hmem
    obtain ⟨op, hop, heq⟩ := List.mem_map.mp hmem
    exact field_ne_longname (isOrderly_tagOperations hbuild origin _ _ op hop) heq

/-- In `postProcess`, when the names are complete, a doclet without a kind gets the one that its
code suggests. -/
theorem exists_postProcess_unkinded (hkind : "kind" ∉ a.synonyms.keys) {d₁ : Doclet} {b : Bool}
    (hnames : completeNames d = .ok () d₁) (hsetting : d₁.setting = (dictionary, origin, .flag b))
    (hunkinded : d₁.fields .kind = .absent) (hcode : origin.code.isEmpty = false) :
    ∃ d', postProcess d = .ok () d' ∧
      Wrote d₁ .kind (.text (Code.kindOfType origin.code.type)) d' := by
  obtain rfl : d₁.origin = origin := congrArg (·.2.1) hsetting
  have hremarked : (remarkInferred (Code.kindOfType d₁.origin.code.type) d₁).setting =
      (dictionary, d₁.origin, .flag b) := hsetting
  obtain ⟨t, d', hadd, hwrote⟩ := writes_kindOfType hbuild hkind d₁.origin b _ _ hremarked
  refine ⟨d', ?_, hwrote.setting_eq, hwrote.field_eq, hwrote.other⟩
  unfold postProcess
  rw [bind_ok hnames, get_bind, if_pos (by rw [hunkinded, hcode]; rfl)]
  exact bind_ok hadd

end Tags

/-- In `postProcess`, a kind that is there when the names are complete stays. -/
theorem postProcess_of_kind {d₁ : Doclet} (hnames : completeNames d = .ok () d₁)
    (hkind : (d₁.fields .kind).isEmpty = false) : postProcess d = .ok () d₁ := by
  unfold postProcess
  rw [bind_ok hnames, get_bind, hkind, Bool.false_and]
  rfl

/-- What the name path takes from a kind by `namespaced`: its name space, if it has one and there is
a path. -/
theorem namespaced_text (h : d.fields .kind = .text kind)
    (hlong : isTextual (d.fields .longname) = true) :
    (d.dictionary.isNamespace kind = false ∨ (d.fields .longname).isEmpty = true) ∧
        d.namespaced (d.fields .longname) = d.fields .longname ∨
      d.dictionary.isNamespace kind = true ∧ ∃ path, path ≠ "" ∧ d.fields .longname = .text path ∧
        d.namespaced (d.fields .longname) = .text (withNamespace path kind) := by
  unfold namespaced hasNamespaceKind
  rw [h]
  -- No path or a kind without a name space: nothing changes. Else the path is a text, and takes it.
  cases hempty : (d.fields .longname).isEmpty with
  | true => exact .inl ⟨.inr rfl, rfl⟩
  | false =>
    cases hspace : d.dictionary.isNamespace kind with
    | false => exact .inl ⟨.inl rfl, if_neg (by simp [hspace])⟩
    | true =>
      rcases isTextual_iff.mp hlong with habsent | ⟨path, hpath⟩
      · rw [habsent] at hempty
        cases hempty
      · refine .inr ⟨rfl, path, ?_, hpath, ?_⟩
        · rw [hpath] at hempty
          simpa using hempty
        · rw [hpath, if_pos (by simp [hspace])]
          rfl

/-- **A kind that is inferred and a kind that is given** make the same doclet, the name path apart.
Take the standard tags with any further synonyms but one for *kind* and any kinds with a name space,
tags that give no kind, and an origin with code. `buildFrom` succeeds both from these tags and with
the kind of the code added as a last tag. Both doclets have this kind and agree in all fields but
the name path. They agree in the path too if the kind has no name space or there is no path; else
only the kind that was given has put its name space into the path. -/
theorem buildFrom_inferredKind (a : Adjustments) (dictionary : Dictionary)
    (hbuild : Dictionary.build [] a = .ok dictionary) (hkind : "kind" ∉ a.synonyms.keys)
    (comment : String) (patch : Origin.Patch) (preserveName warnUnknown : Bool)
    (tags : List RawTag) (origin : Origin) (horigin : ({} : Origin).merge patch = origin)
    (hcode : origin.code.isEmpty = false)
    (htags : ∀ raw ∈ tags, Field.kind ∉ writtenFields dictionary origin raw)
    (kind : String) (hsuggests : Code.kindOfType origin.code.type = kind) :
    ∃ inferred given,
      buildFrom dictionary comment patch preserveName warnUnknown tags = .ok () inferred ∧
      buildFrom dictionary comment patch preserveName warnUnknown (tags ++ [⟨"kind", some kind⟩]) =
        .ok () given ∧
      inferred.fields .kind = .text kind ∧
      (∀ f, f ≠ .longname → given.fields f = inferred.fields f) ∧
      ((dictionary.isNamespace kind = false ∨ (inferred.fields .longname).isEmpty = true) ∧
          given.fields .longname = inferred.fields .longname ∨
        dictionary.isNamespace kind = true ∧ ∃ path, path ≠ "" ∧
          inferred.fields .longname = .text path ∧
          given.fields .longname = .text (withNamespace path kind)) := by
  subst horigin hsuggests
  obtain ⟨d, b, hadd, hsetting, htextual, hunkinded, hlong⟩ :=
    exists_addTags_unkinded hbuild htags comment preserveName warnUnknown
  obtain ⟨t, e, hadd', hwrote⟩ := writes_kindOfType hbuild hkind _ b _ d hsetting
  have hsame : e.fields .longname = d.fields .longname := hwrote.other _ (by decide)
  -- The last tag gives the kind and nothing else; there is no path yet that could take a name
  -- space.
  have hprefixed : Prefixed (Code.kindOfType (({} : Origin).merge patch).code.type)
      { d with recording := false } { e with recording := false } := by
    refine ⟨hwrote.setting_eq, hunkinded, hwrote.field_eq, htextual.names .name (by decide),
      htextual.names .longname (by decide), ?_, fun f hf _ => hwrote.other f hf⟩
    change e.fields .longname = Doclet.namespaced { e with recording := false } (d.fields .longname)
    rw [hsame, hlong]
    rfl
  -- The names of both are completed side by side.
  have htextual' : Textual dictionary { d with recording := false } :=
    ⟨htextual.dictionary_eq, htextual.switch, htextual.names⟩
  obtain ⟨d₁, hnames, h₁⟩ := htextual'.exists_completeNames hbuild
  obtain ⟨e₁, hnames', h⟩ := respects_completeNames.exists_ok hprefixed hnames
  obtain ⟨d₂, hpost, hlast⟩ := exists_postProcess_unkinded hbuild hkind hnames
    (h₁.setting_eq.trans hsetting) h.unkinded hcode
  have hpost' : postProcess { e with recording := false } = .ok () e₁ := by
    refine postProcess_of_kind hnames' ?_
    rw [h.kind_eq, Code.kindOfType]
    split <;> rfl
  have hpath : d₂.fields .longname = d₁.fields .longname := hlast.other _ (by decide)
  -- The inferred kind comes after the path, so all that is missing in it is the name space.
  have hgiven : e₁.fields .longname = d₂.namespaced (d₂.fields .longname) := by
    rw [h.longname_eq, hpath]
    exact namespaced_congr (h.setting_eq.trans hlast.setting_eq.symm)
      (h.kind_eq.trans hlast.field_eq.symm) _
  refine ⟨d₂.remarkBuilt, e₁.remarkBuilt, applyTags_of_ok hadd hpost, applyTags_of_ok ?_ hpost',
    hlast.field_eq, fun f hf => ?_, ?_⟩
  · rw [addTags_append, bind_ok hadd, addTags, bind_ok hadd']
    rfl
  · change e₁.fields f = d₂.fields f
    by_cases hf' : f = .kind
    · rw [hf', h.kind_eq, hlast.field_eq]
    · rw [hlast.other f hf', h.other f hf' hf]
  · have hcases := namespaced_text hlast.field_eq (by rw [hpath]; exact h.longname)
    have hdictionary : d₂.dictionary = dictionary :=
      congrArg Prod.fst (hlast.setting_eq.trans (h₁.setting_eq.trans hsetting))
    rw [hdictionary, ← hgiven] at hcases
    exact hcases

/-- A function with an owner under a synonym, for which functions have a name space, and so have
widgets. -/
theorem buildFrom_inferredKind_member :
    let a : Adjustments :=
      { synonyms := .ofList [("within", "memberof")], namespaceKinds := ["widget", "function"] }
    let patch : Origin.Patch := { code := { type := some "FunctionExpression" } }
    let origin : Origin := ({} : Origin).merge patch
    let tags : List RawTag := [⟨"within", some "shop.prototype"⟩, ⟨"name", some "sell"⟩,
      ⟨"instance", none⟩, ⟨"see", some "elsewhere"⟩]
    ∃ dictionary, Dictionary.build [] a = .ok dictionary ∧ "kind" ∉ a.synonyms.keys ∧
      origin.code.isEmpty = false ∧
      (∀ raw ∈ tags, Field.kind ∉ writtenFields dictionary origin raw) ∧
      Code.kindOfType origin.code.type = "function" ∧
      ∃ inferred given, buildFrom dictionary "" patch false true tags = .ok () inferred ∧
        buildFrom dictionary "" patch false true (tags ++ [⟨"kind", some "function"⟩]) =
          .ok () given ∧
        inferred.fields .kind = .text "function" ∧
        (∀ f, f ≠ .longname → given.fields f = inferred.fields f) ∧
        ((dictionary.isNamespace "function" = false ∨
            (inferred.fields .longname).isEmpty = true) ∧
            given.fields .longname = inferred.fields .longname ∨
          dictionary.isNamespace "function" = true ∧ ∃ path, path ≠ "" ∧
            inferred.fields .longname = .text path ∧
            given.fields .longname = .text (withNamespace path "function")) := by
  intro a patch origin tags
  -- The fields that the tags write are evaluated with the dictionary, which is never spelled out.
  have hkind : "kind" ∉ a.synonyms.keys := by decide +kernel
  obtain ⟨dictionary, hbuild, hchecked⟩ := Dictionary.exists_of_any_build (a := a)
    (p := fun dictionary => ∀ raw ∈ tags, Field.kind ∉ writtenFields dictionary origin raw)
    (by decide +kernel)
  have htags : ∀ raw ∈ tags, Field.kind ∉ writtenFields dictionary origin raw :=
    of_decide_eq_true hchecked
  have hsuggests : Code.kindOfType origin.code.type = "function" := by decide +kernel
  exact ⟨dictionary, hbuild, hkind, rfl, htags, hsuggests,
    buildFrom_inferredKind a dictionary hbuild hkind "" patch false true tags origin rfl rfl htags
      "function" hsuggests⟩

/-- With `function` among the `namespaceKinds`, the path of a function whose kind is inferred lacks
the name space. -/
theorem buildFrom_inferredKind_path :
    let patch : Origin.Patch := { code := { type := some "function" } }
    ∃ dictionary inferred given,
      Dictionary.build [] { namespaceKinds := ["function"] } = .ok dictionary ∧
      buildFrom dictionary "" patch false false [⟨"name", some "foo"⟩] = .ok () inferred ∧
      buildFrom dictionary "" patch false false [⟨"name", some "foo"⟩, ⟨"kind", some "function"⟩] =
        .ok () given ∧
      (inferred.fields .longname).display = "foo" ∧
      (given.fields .longname).display = "function:foo" := by
  intro patch
  -- One evaluation goes through both builds.
  obtain ⟨dictionary, hbuild, hchecked⟩ := Dictionary.exists_of_any_build
    (a := { namespaceKinds := ["function"] })
    (p := fun dictionary =>
      endsIn (fun d => (d.fields .longname).display == "foo")
        (buildFrom dictionary "" patch false false [⟨"name", some "foo"⟩]) &&
      endsIn (fun d => (d.fields .longname).display == "function:foo")
        (buildFrom dictionary "" patch false false
          [⟨"name", some "foo"⟩, ⟨"kind", some "function"⟩]))
    (by decide +kernel)
  obtain ⟨hinferred, hgiven⟩ := Bool.and_eq_true_iff.mp hchecked
  obtain ⟨_, inferred, hd, hpath⟩ := exists_ok_of_endsIn hinferred
  obtain ⟨_, given, he, hpath'⟩ := exists_ok_of_endsIn hgiven
  exact ⟨dictionary, inferred, given, hbuild, hd, he, eq_of_beq hpath, eq_of_beq hpath'⟩

end DocComment.Doclet
