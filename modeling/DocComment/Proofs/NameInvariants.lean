import DocComment.Proofs.NonemptyPaths
import DocComment.Proofs.StandardTags
import DocComment.Proofs.StepInvariants

/-!
# What names look like when all tags are in

A doclet may have gone through any calls whatever (`Reachable`): tags, setters, earlier rounds of
resolving. As long as the setters write texts, the fields that names are made of hold texts
(`Textual`), and then the last step always succeeds. `WellNamed` says what it leaves:

* a global symbol has no owner, and its name is its path;
* a name comes with a path;
* a path that is there stays, unless the symbol is global;
* a global scope stays, and any other scope changes only to the scope of the cut, or to *static*
  where a name and an owner were left without a path.

The proof follows the stages of the last step: what resolving leaves (`Settled`), then the name that
stands in for a missing path, then the kind that is inferred from the code.
-/

namespace DocComment.Doclet

open DocComment.Namepath

/-! ### Texts for names -/

/-- Whether the fields that names are made of hold texts, in a doclet that is read with
`dictionary`. -/
structure Textual (dictionary : Dictionary) (d : Doclet) : Prop where
  dictionary_eq : d.dictionary = dictionary
  switch : ∃ b, d.preserveName = .flag b
  names : ∀ f ∈ nameFields, isTextual (d.fields f) = true

/-- Whether an operation writes nothing but texts to the `nameFields`, those that names are made
of. -/
def IsNaming : Operation → Prop
  | .set f v => f ∈ nameFields → isTextual v = true
  | .append f _ => f ∉ nameFields
  | .memberof v => isTextual v = true
  | .longname v => isTextual v = true

theorem isNaming_of_isOrderly {op : Operation} (h : IsOrderly op) : IsNaming op := by
  cases op with
  | set f v => exact h.2.2.2
  | append f v =>
    have hdisjoint : ∀ f ∈ Field.lists, f ∉ nameFields := by decide
    exact hdisjoint f h.1
  | memberof v => exact h
  | longname v => exact h.elim

namespace Textual

variable {dictionary : Dictionary} {d d' : Doclet}

/-- For `Textual`, fields that names are not made of do not matter, and neither do log and
remarks. -/
theorem of_fields (h : Textual dictionary d) (hsetting : d'.setting = d.setting)
    (hfields : ∀ f ∈ nameFields, isTextual (d'.fields f) = true) : Textual dictionary d' := by
  obtain ⟨b, hb⟩ := h.switch
  exact ⟨(congrArg Prod.fst hsetting).trans h.dictionary_eq,
    ⟨b, (congrArg (·.2.2) hsetting).trans hb⟩, hfields⟩

theorem of_wrote (h : Textual dictionary d) {f : Field} {v : FieldValue} (hwrote : Wrote d f v d')
    (hv : f ∈ nameFields → isTextual v = true) : Textual dictionary d' := by
  refine h.of_fields hwrote.setting_eq fun g hg => ?_
  by_cases hgf : g = f
  · rw [hgf, hwrote.field_eq]
    exact hv (hgf ▸ hg)
  · rw [hwrote.other g hgf]
    exact h.names g hg

/-- Texts do not grow with the lists of other fields: `push` leaves them alone. -/
theorem push (h : Textual dictionary d) {f : Field} (hf : f ∉ nameFields)
    (hgrows : growthRefusal? (d.fields f) = none) (item : FieldValue) :
    ∀ g ∈ nameFields, isTextual ((d.push f item).fields g) = true := by
  intro g hg
  have hgf : g ≠ f := fun heq => hf (heq ▸ hg)
  rcases push_cases hgrows item with ⟨-, hpush⟩ | ⟨key, items, -, hpush⟩ | ⟨items, -, hpush⟩
  · rw [hpush, fields_put_ne _ _ hgf, fields_startList]
    exact h.names g hg
  · rw [hpush, fields_extend, FieldValue.extend_of_notMem]
    · exact h.names g hg
    · -- A text holds no list that could grow.
      rw [keys_of_isTextual (h.names g hg)]
      exact List.not_mem_nil
  · rw [hpush, fields_put_ne _ _ hgf]
    exact h.names g hg

theorem record (h : Textual dictionary d) (op : Operation) : Textual dictionary (d.record op) :=
  h.of_fields (d.setting_record op) fun f hf => by
    rw [fields_record]
    exact h.names f hf

theorem perform (h : Textual dictionary d) {op : Operation} (hop : IsNaming op)
    (hrefusal : d.refusal? op = none) : Textual dictionary (d.perform op) := by
  obtain ⟨b, hb⟩ := h.switch
  -- An item goes to a field that is no name; any write to a name is one of a text.
  refine h.of_fields (d.setting_perform hb op) fun g hg => ?_
  cases op with
  | append f v =>
    have hgrows : growthRefusal? ((d.record (.append f v)).fields f) = none := by
      rw [fields_record]
      exact hrefusal
    exact (h.record _).push hop hgrows _ g hg
  | longname v =>
    exact (h.of_wrote (wrote_longname hop d) fun _ => isTextual_namespaced hop d).names g hg
  | memberof v =>
    have hplain : isPlainWrite (.memberof v) = true := by
      rcases isTextual_iff.mp hop with rfl | ⟨s, rfl⟩ <;> rfl
    exact (h.of_wrote (wrote_perform hplain d) fun _ => hop).names g hg
  | set f v =>
    by_cases hgf : g = f
    · have hv := hop (hgf ▸ hg)
      have hplain : isPlainWrite (.set f v) = true := by
        rcases isTextual_iff.mp hv with rfl | ⟨s, rfl⟩ <;> rfl
      exact (h.of_wrote (wrote_perform hplain d) fun _ => hv).names g hg
    · rw [fields_perform_ne d _ hgf rfl]
      exact h.names g hg

end Textual

/-- **Names stay `Textual`**, whatever happens to a doclet with the standard tags. -/
theorem upheld_textual {a : Adjustments} {dictionary : Dictionary}
    (h : Dictionary.build [] a = .ok dictionary) :
    UpheldThroughout dictionary (Textual dictionary) IsNaming where
  dictionary_eq hd := hd.dictionary_eq
  perform hd hop hrefusal := hd.perform hop hrefusal
  refuse hd _ _ := hd.record _
  noting hd _ := ⟨hd.dictionary_eq, hd.switch, hd.names⟩
  keeping hd keeps := by
    cases keeps with
    | false => exact hd
    | true => exact ⟨hd.dictionary_eq, ⟨true, rfl⟩, hd.names⟩
  unknown _ := show Field.tags ∉ nameFields by decide
  stray _ _ _ := show Field.tags ∉ nameFields by decide
  direct hfield v := isNaming_of_isOrderly (isOrderly_direct hfield v)
  rule hfind r hr _ _ op hop := by
    -- The rules of the standard tags are orderly, and orderly operations write texts to names.
    have horderly := (isOrderly_standard (Dictionary.mem_standard h hfind)).2 r hr
    exact isNaming_of_isOrderly (isOrderly_of_rule horderly _ _ _ op hop)
  change hp := absurd hp (not_isProgramOf_of_build h _)
  assign hp := absurd hp (not_isProgramOf_of_build h _)
  put hd f _ s := hd.of_wrote (wrote_put _ f (.text s)) fun _ => rfl
  memberof _ := rfl
  dropped := rfl
  longname _ := rfl
  named hd := hd.names .name (by decide)

/-- The doclets that `Call`s can lead to, from one with all fields unset: tags may be applied, and
setters may write texts to the fields that names are made of, and anything to the others. -/
inductive Reachable (dictionary : Dictionary) : Doclet → Prop
  /-- All fields are unset. -/
  | start (comment : String) (origin : Origin) (preserveName warnUnknown : Bool) :
      Reachable dictionary (blank dictionary comment origin preserveName warnUnknown)
  /-- The log is turned on or off. -/
  | record {d : Doclet} (b : Bool) (h : Reachable dictionary d) :
      Reachable dictionary { d with recording := b }
  /-- A call is made, and succeeds or fails. -/
  | call {d : Doclet} (c : Call) (hc : ∀ op, c = .change op → IsNaming op)
      (h : Reachable dictionary d) : Reachable dictionary (d.after c)

theorem Reachable.foldl {dictionary : Dictionary} {d : Doclet} (h : Reachable dictionary d)
    {calls : List Call} (hcalls : ∀ c ∈ calls, ∀ op, c = .change op → IsNaming op) :
    Reachable dictionary (calls.foldl after d) := by
  induction calls generalizing d with
  | nil => exact h
  | cons c calls ih =>
    obtain ⟨hc, hcalls⟩ := List.forall_mem_cons.mp hcalls
    exact ih (.call c hc h) hcalls

theorem Reachable.textual {a : Adjustments} {dictionary : Dictionary}
    (hbuild : Dictionary.build [] a = .ok dictionary) {d : Doclet} (h : Reachable dictionary d) :
    Textual dictionary d := by
  induction h with
  | start comment origin preserveName warnUnknown =>
    exact ⟨rfl, ⟨preserveName, rfl⟩, fun _ _ => rfl⟩
  | record b _ ih => exact ⟨ih.dictionary_eq, ih.switch, ih.names⟩
  | call c hc _ ih => exact (upheld_textual hbuild).after hc ih

/-! ### What resolving leaves -/

theorem isGlobal_congr {d d' : Doclet} (h : d'.fields .scope = d.fields .scope) :
    d'.isGlobal = d.isGlobal := by
  rw [isGlobal, isGlobal, h]

/-- The parts that `knownParts` gives have a path, unless they were made of nothing. -/
theorem longname_knownParts {name owner : List Char} {scope : Option Scope} {parts : Parts}
    (h : knownParts name owner scope = some parts) :
    parts.longname ≠ "" ∨ (owner = [] ∧ parts.memberof = "") := by
  -- The parts are the cut of some path in all three cases, and the owner is in it.
  obtain ⟨path, hcut, hpath⟩ : ∃ path, parts = cut (String.ofList path) ∧
      (path = [] → owner = []) := by
    unfold knownParts at h
    split at h
    · next hbegins =>
      refine ⟨name, (Option.some.inj h).symm, ?_⟩
      rintro rfl
      simpa using hbegins
    · split at h
      · refine ⟨owner ++ name, (Option.some.inj h).symm, fun hnil => ?_⟩
        exact (List.append_eq_nil_iff.mp hnil).1
      · obtain ⟨s, -, hparts⟩ := Option.map_eq_some_iff.mp h
        exact ⟨owner ++ s.mark :: name, hparts.symm, fun hnil => by simp at hnil⟩
  rw [hcut]
  by_cases hnil : path = []
  · have hempty : (cut (String.ofList [])).memberof = "" := by decide
    exact .inr ⟨hpath hnil, hnil ▸ hempty⟩
  · exact .inl (longname_cut_ne (by simpa using hnil))

/-- How a doclet changes when `resolve` has **settled** its names. -/
structure Settled (d d' : Doclet) : Prop where
  setting_eq : d'.setting = d.setting
  global : d.isGlobal = true → d'.fields .scope = d.fields .scope ∧ d'.fields .memberof = .absent ∧
    d'.fields .longname = d.namespaced (d'.fields .name)
  kept : d.isGlobal = false → (d.fields .longname).isEmpty = false →
    d'.fields .longname = d.fields .longname
  scope : d'.fields .scope ≠ d.fields .scope →
    (∃ parts s, partsOf? d = some parts ∧ parts.scope = some s ∧
      d'.fields .scope = .text s.word) ∨
    (d'.fields .scope = .text Scope.static.word ∧ partsOf? d = none ∧ d.lacksPath = true)
  other : ∀ g, g ∉ [Field.name, .memberof, .longname, .scope, .variation] →
    d'.fields g = d.fields g

section Resolved

variable {dictionary : Dictionary} {d d₁ d₂ : Doclet}

theorem Settled.of_variation (h : Settled d d₁) {v : FieldValue}
    (hwrote : Wrote d₁ .variation v d₂) :
    Settled d d₂ := by
  have hfield : ∀ g, g ≠ .variation → d₂.fields g = d₁.fields g := hwrote.other
  constructor
  · rw [hwrote.setting_eq, h.setting_eq]
  · rw [hfield _ (by decide), hfield _ (by decide), hfield _ (by decide), hfield _ (by decide)]
    exact h.global
  · rw [hfield _ (by decide)]
    exact h.kept
  · rw [hfield _ (by decide)]
    exact h.scope
  · intro g hg
    rw [hfield g fun heq => hg (by simp [heq]), h.other g hg]

/-- What `takeNames` leaves of a doclet before the scope is settled. -/
structure Named (d d₁ : Doclet) : Prop where
  setting_eq : d₁.setting = d.setting
  textual : isTextual (d₁.fields .name) = true
  kept : (d.fields .longname).isEmpty = false → d₁.fields .longname = d.fields .longname
  lacksPath : d₁.lacksPath = true → partsOf? d = none ∧ d.lacksPath = true
  other : ∀ g, g ∉ [Field.name, .memberof, .longname] → d₁.fields g = d.fields g

/-- An owner whose `ownerPath` is empty counts as nothing. -/
theorem isEmpty_of_ownerPath {v : FieldValue} (h : ownerPath v = .ok []) : v.isEmpty = true := by
  unfold ownerPath at h
  split at h
  · next s =>
    have hnil : shortenPrototypes s.toList = [] := Except.ok.inj h
    by_cases hs : s.toList = []
    · simpa using hs
    · -- Shortening never leaves nothing of something.
      exact absurd hnil (shortenPrototypes_ne_nil hs)
  · split at h
    · assumption
    · cases h

/-- **`findParts` and `takeNames` end without a fault**, and a name and an owner are left without a
path only if no parts were known. -/
theorem Textual.exists_named (h : Textual dictionary d) :
    ∃ d₁ remarks, findParts d = .ok ((partsOf? d).getD {}) (d.noting remarks) ∧
      takeNames ((partsOf? d).getD {}) (d.noting remarks) = .ok () d₁ ∧ Named d d₁ := by
  obtain ⟨owner, howner⟩ : ∃ owner, ownerPath (d.fields .memberof) = .ok owner := by
    rcases isTextual_iff.mp (h.names .memberof (by decide)) with hv | ⟨s, hv⟩ <;> rw [hv] <;>
      exact ⟨_, rfl⟩
  -- Owner and scope are texts or absent, so neither is refused.
  have hscope : scopeRefusal? (d.fields .scope) = none := by
    rcases isTextual_iff.mp (h.names .scope (by decide)) with hv | ⟨s, hv⟩ <;>
      simp [hv, scopeRefusal?, FieldValue.unkeyed?]
  have hkey : (d.fields .kind).isKey = true := isKey_of_isTextual (h.names .kind (by decide))
  obtain ⟨remarks, hfind⟩ := exists_findParts howner hscope
  obtain ⟨d₁, hnames, hsetting, hname₁, hmemberof₁, hlong₁, hother₁⟩ :=
    exists_takeNames (d := d.noting remarks) hkey ((partsOf? d).getD {})
  simp only [fields_noting] at hname₁ hmemberof₁ hother₁
  refine ⟨d₁, remarks, hfind, hnames, hsetting, ?_, ?_, ?_, hother₁⟩
  · rw [hname₁]
    split
    · exact h.names .name (by decide)
    · rfl
  · intro hlong
    rw [hlong₁, if_neg (by simp [hlong]), fields_noting]
  · intro hlacks
    -- A path is missing: there are no parts, as parts would bring one.
    cases hparts : partsOf? d with
    | none =>
      rw [hparts] at hname₁ hmemberof₁ hlong₁
      refine ⟨rfl, ?_⟩
      rw [lacksPath, hname₁, hmemberof₁, hlong₁] at hlacks
      exact hlacks
    | some parts =>
      rw [hparts, Option.getD_some] at hmemberof₁ hlong₁
      simp only [lacksPath, Bool.and_eq_true, Bool.not_eq_true'] at hlacks
      obtain ⟨⟨-, howned⟩, hempty⟩ := hlacks
      rw [partsOf?, howner] at hparts
      exfalso
      rcases longname_knownParts hparts with hpath | ⟨rfl, hnone⟩
      · -- The path of the parts was taken, or there was one before.
        cases hlong : (d.fields .longname).isEmpty with
        | true =>
          rw [hlong₁, if_pos (by simp [hpath, hlong]), namespaced_ne rfl (by simpa using hpath)]
            at hempty
          cases hempty
        | false =>
          rw [hlong₁, if_neg (by simp [hlong]), fields_noting, hlong] at hempty
          cases hempty
      · -- Parts without a path come from an empty owner, but there is one.
        rw [hmemberof₁, hnone, if_pos (by decide), isEmpty_of_ownerPath howner] at howned
        cases howned

namespace Named

variable (h₁ : Named d d₁)
include h₁

theorem scope_eq : d₁.fields .scope = d.fields .scope :=
  h₁.other _ (by decide)

theorem kind_eq : d₁.fields .kind = d.fields .kind :=
  h₁.other _ (by decide)

/-- By `settleScope` a global symbol has no owner, and its name for a path. -/
theorem exists_settled_global (hglobal : d.isGlobal = true) (hkey : (d.fields .kind).isKey = true)
    (parts : Parts) : ∃ d₂, settleScope parts d₁ = .ok () d₂ ∧ Settled d d₂ := by
  obtain ⟨d₂, hsettle, hsetting, hlong, hmemberof, hother⟩ := exists_settleScope_global
    ((isGlobal_congr h₁.scope_eq).trans hglobal) (h₁.kind_eq ▸ hkey) h₁.textual parts
  have hscope : d₂.fields .scope = d.fields .scope := (hother _ (by decide)).trans h₁.scope_eq
  refine ⟨d₂, hsettle, hsetting.trans h₁.setting_eq, fun _ => ⟨hscope, hmemberof, ?_⟩,
    by simp [hglobal], fun hne => absurd hscope hne, fun g hg => ?_⟩
  · rw [hlong, hother .name (by decide)]
    exact namespaced_congr h₁.setting_eq h₁.kind_eq _
  · simp only [List.mem_cons, List.not_mem_nil, or_false, not_or] at hg
    rw [hother g (by simp [hg]), h₁.other g (by simp [hg])]

/-- With neither a cut nor a path, `settleScope` makes this a static member. -/
theorem exists_settled_static (hglobal : d.isGlobal = false) (hkey : (d.fields .kind).isKey = true)
    {parts : Parts} (hunscoped : parts.scope = none) (hlacks₁ : d₁.lacksPath = true) :
    ∃ d₂, settleScope parts d₁ = .ok () d₂ ∧ Settled d d₂ := by
  have hglobal₁ : d₁.isGlobal = false := (isGlobal_congr h₁.scope_eq).trans hglobal
  obtain ⟨hnone, hlacks⟩ := h₁.lacksPath hlacks₁
  obtain ⟨name, hname⟩ : ∃ name, d₁.fields .name = .text name := by
    rcases isTextual_iff.mp h₁.textual with hv | hv
    · simp [Doclet.lacksPath, hv] at hlacks₁
    · exact hv
  obtain ⟨d₂, hmake, hsetting, hscope, -, hother⟩ := exists_makeStatic (h₁.kind_eq ▸ hkey) hname
  refine ⟨d₂, (settleScope_of_lacksPath hglobal₁ hunscoped hlacks₁).trans hmake,
    hsetting.trans h₁.setting_eq, by simp [hglobal], fun _ hlong => ?_,
    fun _ => .inr ⟨hscope, hnone, hlacks⟩, fun g hg => ?_⟩
  · -- There was no path that could have been kept.
    simp [Doclet.lacksPath, hlong] at hlacks
  · simp only [List.mem_cons, List.not_mem_nil, or_false, not_or] at hg
    rw [hother g (by simp [hg]), h₁.other g (by simp [hg])]

/-- Otherwise `settleScope` takes the scope of the cut, if it tells one. -/
theorem exists_settled_scope (hglobal : d.isGlobal = false)
    (hstatic : ((partsOf? d).getD {}).scope = none → d₁.lacksPath = false) :
    ∃ d₂, settleScope ((partsOf? d).getD {}) d₁ = .ok () d₂ ∧ Settled d d₂ := by
  have hglobal₁ : d₁.isGlobal = false := (isGlobal_congr h₁.scope_eq).trans hglobal
  obtain ⟨d₂, hsettle, hwrote⟩ := exists_settleScope hglobal₁ ((partsOf? d).getD {}) hstatic
  refine ⟨d₂, hsettle, hwrote.setting_eq.trans h₁.setting_eq, by simp [hglobal],
    fun _ hlong => ?_, fun hne => ?_, fun g hg => ?_⟩
  · rw [hwrote.other _ (by decide), h₁.kept hlong]
  · -- The scope changed, so the cut told one.
    rw [hwrote.field_eq] at hne ⊢
    cases hparts : partsOf? d with
    | none =>
      rw [hparts] at hne
      exact absurd h₁.scope_eq hne
    | some parts =>
      rw [hparts] at hne
      cases hscope : parts.scope with
      | none =>
        simp only [Option.getD_some, hscope] at hne
        exact absurd h₁.scope_eq hne
      | some s => exact .inl ⟨parts, s, rfl, hscope, by simp [hscope]⟩
  · simp only [List.mem_cons, List.not_mem_nil, or_false, not_or] at hg
    rw [hwrote.other g hg.2.2.2.1, h₁.other g (by simp [hg])]

end Named

/-- **`resolve` ends without a fault**, and leaves the names `Settled`. -/
theorem Textual.exists_resolve (h : Textual dictionary d) :
    ∃ d', resolve d = .ok () d' ∧ Settled d d' := by
  obtain ⟨d₁, remarks, hfind, hnames, h₁⟩ := h.exists_named
  have hkey : (d.fields .kind).isKey = true := isKey_of_isTextual (h.names .kind (by decide))
  obtain ⟨d₂, hsettle, h₂⟩ : ∃ d₂, settleScope ((partsOf? d).getD {}) d₁ = .ok () d₂ ∧
      Settled d d₂ := by
    cases hglobal : d.isGlobal with
    | true => exact h₁.exists_settled_global hglobal hkey _
    | false =>
      -- The three ways of `settleScope`: global, made static, or with the scope of the parts.
      by_cases hstatic : ((partsOf? d).getD {}).scope = none ∧ d₁.lacksPath = true
      · exact h₁.exists_settled_static hglobal hkey hstatic.1 hstatic.2
      · exact h₁.exists_settled_scope hglobal fun hunscoped => by simpa [hunscoped] using hstatic
  refine ⟨takeVariation ((partsOf? d).getD {}) d₂, ?_, h₂.of_variation (wrote_takeVariation _ d₂)⟩
  unfold resolve
  rw [bind_ok hfind, bind_ok hnames, bind_ok hsettle]
  rfl

end Resolved

/-! ### What the last step leaves -/

section Completed

variable {a : Adjustments} {dictionary : Dictionary}
  (hbuild : Dictionary.build [] a = .ok dictionary) {d : Doclet}

/-- A name stands in for a path where there is none: this part of `completeNames` writes it or
nothing. -/
theorem Textual.exists_standIn (h : Textual dictionary d) :
    ∃ d', (do
        let d ← get
        if !(d.fields .name).isEmpty && (d.fields .longname).isEmpty then
          setLongname (d.fields .name) : DocletStep Unit) d = .ok () d' ∧
      ((d.fields .name).isEmpty = false → (d'.fields .longname).isEmpty = false) ∧
      ((d.fields .longname).isEmpty = false ∨ (d.fields .name).isEmpty = true →
        d'.fields .longname = d.fields .longname) ∧
      Wrote d .longname (d'.fields .longname) d' := by
  have hname := h.names .name (by decide)
  rw [get_bind]
  -- Is there a name, and no path yet?
  cases hcond : !(d.fields .name).isEmpty && (d.fields .longname).isEmpty with
  | true =>
    rw [Bool.and_eq_true, Bool.not_eq_true'] at hcond
    obtain ⟨d', hset, hwrote⟩ :=
      exists_setLongname (isKey_of_isTextual (h.names .kind (by decide))) hname
    refine ⟨d', hset, fun hne => ?_, fun hkept => ?_, hwrote.setting_eq, rfl, hwrote.other⟩
    · rw [hwrote.field_eq]
      exact namespaced_ne hname hne
    · simp [hcond] at hkept
  | false =>
    refine ⟨d, rfl, fun hne => ?_, fun _ => rfl, wrote_self d .longname⟩
    simpa [hne] using hcond

/-- How a doclet changes when `completeNames` has **completed** its names. -/
structure Completed (d d' : Doclet) : Prop where
  setting_eq : d'.setting = d.setting
  global : d.isGlobal = true → d'.fields .scope = d.fields .scope ∧
    (d.keepsName = false → d'.fields .memberof = .absent ∧
      d'.fields .longname = d.namespaced (d'.fields .name))
  named : (d'.fields .name).isEmpty = false → (d'.fields .longname).isEmpty = false
  kept : d.isGlobal = false → (d.fields .longname).isEmpty = false →
    d'.fields .longname = d.fields .longname
  scope : d.keepsName = false → d'.fields .scope ≠ d.fields .scope →
    (∃ parts s, partsOf? d = some parts ∧ parts.scope = some s ∧
      d'.fields .scope = .text s.word) ∨
    (d'.fields .scope = .text Scope.static.word ∧ partsOf? d = none ∧ d.lacksPath = true)
  other : ∀ g, g ∉ [Field.name, .memberof, .longname, .scope, .variation] →
    d'.fields g = d.fields g

include hbuild

/-- **`completeNames` ends without a fault**, and leaves the names `Completed`. -/
theorem Textual.exists_completeNames (h : Textual dictionary d) :
    ∃ d', completeNames d = .ok () d' ∧ Completed d d' := by
  unfold completeNames
  rw [get_bind]
  cases hkeeps : d.keepsName with
  | true =>
    obtain ⟨d', hstep, hnamed, hkept, hwrote⟩ := h.exists_standIn
    have hname : d'.fields .name = d.fields .name := hwrote.other _ (by decide)
    refine ⟨d', hstep, hwrote.setting_eq, fun _ => ⟨hwrote.other _ (by decide), ?_⟩, ?_,
      fun _ hlong => hkept (.inl hlong), ?_, fun g hg => hwrote.other g ?_⟩
    · simp [hkeeps]
    · rw [hname]
      exact hnamed
    · simp [hkeeps]
    · rintro rfl
      exact hg (by decide)
  | false =>
    -- The names are resolved first, and then the name may stand in for a path.
    obtain ⟨d₁, hresolve, h₁⟩ := h.exists_resolve
    have htextual : Textual dictionary d₁ := by
      have hleaves := (upheld_textual hbuild).resolve h
      rw [hresolve] at hleaves
      exact hleaves
    obtain ⟨d', hstep, hnamed, hkept, hwrote⟩ := htextual.exists_standIn
    have hname : d'.fields .name = d₁.fields .name := hwrote.other _ (by decide)
    have hscope : d'.fields .scope = d₁.fields .scope := hwrote.other _ (by decide)
    refine ⟨d', (bind_ok hresolve).trans hstep, hwrote.setting_eq.trans h₁.setting_eq, ?_, ?_,
      ?_, ?_, fun g hg => ?_⟩
    · intro hglobal
      obtain ⟨hsame, hmemberof, hlong⟩ := h₁.global hglobal
      refine ⟨hscope.trans hsame, fun _ => ⟨(hwrote.other _ (by decide)).trans hmemberof, ?_⟩⟩
      -- The path of a global symbol is empty only if its name is.
      rw [hname, ← hlong]
      refine hkept ?_
      cases hempty : (d₁.fields .name).isEmpty with
      | true => exact .inr rfl
      | false =>
        rw [hlong]
        exact .inl (namespaced_ne (htextual.names .name (by decide)) hempty)
    · rw [hname]
      exact hnamed
    · intro hglobal hlong
      have hkept₁ := h₁.kept hglobal hlong
      rw [← hkept₁] at hlong ⊢
      exact hkept (.inl hlong)
    · intro _
      rw [hscope]
      exact h₁.scope
    · rw [hwrote.other g fun heq => hg (by simp [heq]), h₁.other g hg]

/-- Where *kind* leads to its own definition, the kind that `kindOfType` suggests can be written as
a tag. -/
theorem writes_kindOfType (hkind : "kind" ∉ a.synonyms.keys) (origin : Origin) (b : Bool)
    (type : Option String) :
    Writes (dictionary, origin, .flag b) ⟨"kind", some (Code.kindOfType type)⟩ .kind
      (.text (Code.kindOfType type)) := by
  have hfind : dictionary.find? "kind" = some { title := "kind", needsValue := true } := by
    rw [Dictionary.find?_of_build hbuild hkind]
    rfl
  have htrim : Text.trim (Code.kindOfType type) = Code.kindOfType type := by
    unfold Code.kindOfType
    split <;> decide
  have hfield : directField? "kind" = some .kind := by
    decide +kernel
  exact writes_direct htrim hfind hfield

/-- Where *kind* leads to its own definition, `postProcess` changes nothing but the kind after the
names are completed. -/
theorem exists_postProcess (hkind : "kind" ∉ a.synonyms.keys) (h : Textual dictionary d)
    {d₁ : Doclet}
    (hnames : completeNames d = .ok () d₁) (h₁ : Completed d d₁) :
    ∃ d', postProcess d = .ok () d' ∧ Wrote d₁ .kind (d'.fields .kind) d' := by
  unfold postProcess
  rw [bind_ok hnames, get_bind]
  -- The kind is inferred where there is none and there is code; it then comes in as a tag.
  cases (d₁.fields .kind).isEmpty && !d₁.origin.code.isEmpty with
  | false => exact ⟨d₁, rfl, wrote_self d₁ .kind⟩
  | true =>
    obtain ⟨b, hb⟩ := h.switch
    have hsetting : (remarkInferred (Code.kindOfType d₁.origin.code.type) d₁).setting =
        (dictionary, d.origin, .flag b) := by
      refine h₁.setting_eq.trans ?_
      rw [setting, h.dictionary_eq, hb]
    obtain ⟨t, d', hadd, hwrote⟩ :=
      writes_kindOfType hbuild hkind d.origin b d₁.origin.code.type _ hsetting
    refine ⟨d', ?_, hwrote.setting_eq, rfl, hwrote.other⟩
    rw [if_pos rfl]
    exact bind_ok hadd

end Completed

/-- What names look like after the last step, given the doclet `d` before it. -/
structure WellNamed (d d' : Doclet) : Prop where
  /-- If the name is not kept, a global symbol has no owner, and its path is its name, with the name
  space of the kind that was there before. -/
  global_path : d'.keepsName = false → d'.isGlobal = true →
    d'.fields .memberof = .absent ∧ d'.fields .longname = d.namespaced (d'.fields .name)
  /-- A name comes with a path. -/
  path_of_name : (d'.fields .name).isEmpty = false → (d'.fields .longname).isEmpty = false
  /-- A path that was there stays, unless the scope was global. -/
  path_kept : (d.fields .longname).isEmpty = false → d.isGlobal = false →
    d'.fields .longname = d.fields .longname
  /-- A global scope stays. -/
  global_kept : d.isGlobal = true → d'.isGlobal = true
  /-- If the name is not kept, a scope that changed is the scope of the cut that name, owner and
  scope gave, or it is *static* and there were a name and an owner, but neither a cut nor a path. -/
  scope_changed : d'.keepsName = false → d'.fields .scope ≠ d.fields .scope →
    (∃ parts s, partsOf? d = some parts ∧ parts.scope = some s ∧
      d'.fields .scope = .text s.word) ∨
    (d'.fields .scope = .text Scope.static.word ∧ partsOf? d = none ∧ d.lacksPath = true)

theorem Completed.wellNamed {d d₁ d' : Doclet} (h : Completed d d₁) {v : FieldValue}
    (hwrote : Wrote d₁ .kind v d') : WellNamed d d' := by
  have hfield : ∀ f, f ≠ .kind → d'.fields f = d₁.fields f := hwrote.other
  have hscope : d'.fields .scope = d₁.fields .scope := hfield _ (by decide)
  have hkeeps : d'.keepsName = d.keepsName := by
    rw [keepsName, keepsName, show d'.preserveName = d.preserveName from
      congrArg (·.2.2) (hwrote.setting_eq.trans h.setting_eq)]
  constructor
  · rw [hkeeps, isGlobal_congr hscope, hfield .memberof (by decide), hfield .longname (by decide),
      hfield .name (by decide)]
    intro hkept hglobal₁
    refine (h.global ?_).2 hkept
    -- A scope that is global in the end was global before: no cut tells it.
    by_cases hsame : d₁.fields .scope = d.fields .scope
    · rwa [isGlobal_congr hsame] at hglobal₁
    · rcases h.scope hkept hsame with ⟨parts, s, -, -, hword⟩ | ⟨hword, -⟩ <;>
        simp [isGlobal_word hword] at hglobal₁
  · rw [hfield .longname (by decide), hfield .name (by decide)]
    exact h.named
  · rw [hfield .longname (by decide)]
    exact fun hlong hglobal => h.kept hglobal hlong
  · intro hglobal
    rw [isGlobal_congr hscope, isGlobal_congr (h.global hglobal).1, hglobal]
  · rw [hkeeps, hscope]
    exact h.scope

/-- **What names look like when all tags are in.** Take the standard tags, with any further synonyms
that are no standard titles themselves and any kinds with a name space, and a doclet that any calls
led to, even ones that failed. The last step succeeds and leaves the names as `WellNamed` says. -/
theorem postProcess_wellNamed (a : Adjustments) (dictionary : Dictionary)
    (hbuild : Dictionary.build [] a = .ok dictionary)
    (haliases : ∀ s ∈ a.synonyms.keys, s ∉ Standard.definitions.map (·.title))
    (d : Doclet) (hd : Reachable dictionary d) :
    ∃ d', postProcess d = .ok () d' ∧ WellNamed d d' := by
  have hkind : "kind" ∉ a.synonyms.keys := fun hmem => haliases _ hmem (by decide)
  have htextual := hd.textual hbuild
  obtain ⟨d₁, hnames, h₁⟩ := htextual.exists_completeNames hbuild
  obtain ⟨d', hpost, hwrote⟩ := exists_postProcess hbuild hkind htextual hnames h₁
  exact ⟨d', hpost, h₁.wellNamed hwrote⟩

/-- The `Call`s use a kind with a name space of its own, a synonym for *memberof*, a path that is
set and then dropped, and an item that is added to a field which holds a text: the last call but one
fails. -/
theorem postProcess_wellNamed_widget :
    let a : Adjustments :=
      { synonyms := .ofList [("within", "memberof")], namespaceKinds := ["widget"] }
    let calls : List Call := [.addTag "kind" "widget", .addTag "within" "shop.prototype",
      .change (.longname (.text "elsewhere")), .resolve, .change (.longname .absent),
      .addTag "global" "", .change (.set .see (.text "none")), .addTag "see" "there",
      .addTag "name" "a.b"]
    ∃ dictionary, Dictionary.build [] a = .ok dictionary ∧
      (∀ s ∈ a.synonyms.keys, s ∉ Standard.definitions.map (·.title)) ∧
      Reachable dictionary (calls.foldl after (blank dictionary "" {} false false)) ∧
      ∃ d', postProcess (calls.foldl after (blank dictionary "" {} false false)) = .ok () d' ∧
        WellNamed (calls.foldl after (blank dictionary "" {} false false)) d' := by
  intro a calls
  obtain ⟨dictionary, hbuild⟩ : ∃ dictionary, Dictionary.build [] a = .ok dictionary := by
    -- Only that there is a dictionary is evaluated.
    have hok : (Dictionary.build [] a).isOk = true := by decide +kernel
    cases hresult : Dictionary.build [] a with
    | ok dictionary => exact ⟨dictionary, rfl⟩
    | error fault =>
      rw [hresult] at hok
      cases hok
  have haliases : ∀ s ∈ a.synonyms.keys, s ∉ Standard.definitions.map (·.title) := by
    decide +kernel
  -- All calls are reachable ones, whether or not they fail, for they write texts to names.
  have hreachable : Reachable dictionary
      (calls.foldl after (blank dictionary "" {} false false)) := by
    refine (Reachable.start "" {} false false).foldl ?_
    simp [calls, IsNaming, isTextual, nameFields]
  exact ⟨dictionary, hbuild, haliases, hreachable,
    postProcess_wellNamed a dictionary hbuild haliases _ hreachable⟩

end DocComment.Doclet
