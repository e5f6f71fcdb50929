import DocComment.Proofs.DocletSteps
import DocComment.Proofs.NonemptyPaths

/-!
# What resolving names comes to

When all tags are in, name and owner are put together to a path, the path is cut, and the parts are
written back. Each stage is told by the fields it writes: `exists_findParts`, `exists_takeNames`,
and for the scope `exists_settleScope`, `exists_settleScope_global` and `exists_makeStatic`.

Two ways through all stages are put together here, for a doclet that has no path yet.
`Resolvable.exists_resolve` is the way with a cut: the path is that of the parts, and a name, an
owner and a scope that the parts do not tell stay as they were. `exists_resolve_deferred` is the way
without one. `build_of_resolve` adds what comes before and after, so that the fields of the doclet
of a comment follow from the fields that its tags leave.
-/

namespace DocComment.Doclet

open DocComment.Namepath (Parts withNamespace_ne)

/-! ### Writing the parts -/

/-- Whether a value is a `text` or `absent`. -/
def isTextual : FieldValue → Bool
  | .absent => true
  | .text _ => true
  | _ => false

theorem isTextual_iff {v : FieldValue} :
    isTextual v = true ↔ v = .absent ∨ ∃ s, v = .text s := by
  cases v <;> simp [isTextual]

theorem isKey_of_isTextual {v : FieldValue} (h : isTextual v = true) : v.isKey = true := by
  rcases isTextual_iff.mp h with rfl | ⟨s, rfl⟩ <;> rfl

theorem isLeaf_of_isTextual {v : FieldValue} (h : isTextual v = true) : v.isLeaf = true := by
  rcases isTextual_iff.mp h with rfl | ⟨s, rfl⟩ <;> rfl

/-- What `namespaced` gives depends on the dictionary and the kind alone. -/
theorem namespaced_congr {d d' : Doclet} (hsetting : d'.setting = d.setting)
    (hkind : d'.fields .kind = d.fields .kind) (v : FieldValue) :
    d'.namespaced v = d.namespaced v := by
  unfold namespaced hasNamespaceKind
  rw [hkind, show d'.dictionary = d.dictionary from congrArg Prod.fst hsetting]

/-- Without a kind `namespaced` takes a path as it is. -/
theorem namespaced_of_no_kind {d : Doclet} (hkind : d.fields .kind = .absent) (v : FieldValue) :
    d.namespaced v = v := by
  unfold namespaced hasNamespaceKind
  rw [hkind, Bool.and_false, if_neg (by decide)]

theorem isTextual_namespaced {v : FieldValue} (hv : isTextual v = true) (d : Doclet) :
    isTextual (d.namespaced v) = true := by
  unfold namespaced
  split
  · rfl
  · exact hv

theorem namespaced_ne {d : Doclet} {v : FieldValue} (hv : isTextual v = true)
    (hne : v.isEmpty = false) : (d.namespaced v).isEmpty = false := by
  rcases isTextual_iff.mp hv with rfl | ⟨s, rfl⟩
  · cases hne
  · have hs : s ≠ "" := by simpa using hne
    unfold namespaced
    split
    · simpa using withNamespace_ne hs _
    · exact hne

theorem wrote_longname {v : FieldValue} (hv : isTextual v = true) (d : Doclet) :
    Wrote d .longname (d.namespaced v) (d.perform (.longname v)) := by
  have hperform : d.perform (.longname v) = (d.record (.longname v)).put .longname
      ((d.record (.longname v)).namespaced (d.adopt Field.longname v).1) := rfl
  rw [adopt_leaf (isLeaf_of_isTextual hv)] at hperform
  refine ⟨?_, ?_, fun g hg => fields_perform_ne d _ hg rfl⟩
  · rw [hperform, setting_put, setting_record]
  · rw [hperform, fields_put_same]
    exact namespaced_congr (d.setting_record _) (d.fields_record _ _) v

/-- A text for a path has no `refusal?` if the kind can be looked up. -/
theorem refusal?_longname {d : Doclet} (hkind : (d.fields .kind).isKey = true) {v : FieldValue}
    (hv : isTextual v = true) : d.refusal? (.longname v) = none := by
  rcases isTextual_iff.mp hv with rfl | ⟨s, rfl⟩
  · rfl
  · simp [refusal?, longnameRefusal?, hkind, FieldValue.kind]

/-- `setLongname` takes a path with the name space of the kind, if the kind can be looked up. -/
theorem exists_setLongname {d : Doclet} (hkind : (d.fields .kind).isKey = true) {v : FieldValue}
    (hv : isTextual v = true) :
    ∃ d', setLongname v d = .ok () d' ∧ Wrote d .longname (d.namespaced v) d' :=
  ⟨_, attempt_of_not_refused d _ (refusal?_longname hkind hv), wrote_longname hv d⟩

/-- The owner of the parts is written by `setMemberof`, unless they have none. -/
theorem exists_takeOwner (d : Doclet) (s : String) :
    ∃ d', (if s.isEmpty = true then pure () else setMemberof (.text s) : DocletStep Unit) d =
        .ok () d' ∧
      Wrote d .memberof (if s.isEmpty = true then d.fields .memberof else .text s) d' := by
  by_cases hs : s.isEmpty = true
  · simp only [if_pos hs]
    exact ⟨d, rfl, wrote_self d .memberof⟩
  · simp only [if_neg hs]
    exact ⟨_, attempt_of_not_refused d _ rfl, @wrote_perform (.memberof (.text s)) rfl d⟩

/-- The path of the parts is written by `setLongname`, unless they have none or there is one
already. -/
theorem exists_takePath {d : Doclet} (hkind : (d.fields .kind).isKey = true) (s : String) :
    ∃ d', (if !s.isEmpty && (d.fields .longname).isEmpty then setLongname (.text s)
        else pure () : DocletStep Unit) d = .ok () d' ∧
      Wrote d .longname (if !s.isEmpty && (d.fields .longname).isEmpty then d.namespaced (.text s)
        else d.fields .longname) d' := by
  by_cases hs : (!s.isEmpty && (d.fields .longname).isEmpty) = true
  · simp only [if_pos hs]
    exact exists_setLongname hkind rfl
  · simp only [if_neg hs]
    exact ⟨d, rfl, wrote_self d .longname⟩

theorem takeNames_eq (parts : Parts) : takeNames parts = (do
    (if parts.name.isEmpty = true then pure ()
      else modify fun d => d.put .name (.text parts.name))
    (if parts.memberof.isEmpty = true then pure () else setMemberof (.text parts.memberof))
    let d ← get
    if !parts.longname.isEmpty && (d.fields .longname).isEmpty then
      setLongname (.text parts.longname)) := by
  unfold takeNames
  cases parts.name.isEmpty <;> cases parts.memberof.isEmpty <;> rfl

/-- **`takeNames` takes name, owner and path of the parts**, each unless the parts have none; a path
that is there already stays. -/
theorem exists_takeNames {d : Doclet} (hkind : (d.fields .kind).isKey = true) (parts : Parts) :
    ∃ d', takeNames parts d = .ok () d' ∧ d'.setting = d.setting ∧
      d'.fields .name =
        (if parts.name.isEmpty = true then d.fields .name else .text parts.name) ∧
      d'.fields .memberof =
        (if parts.memberof.isEmpty = true then d.fields .memberof else .text parts.memberof) ∧
      d'.fields .longname =
        (if !parts.longname.isEmpty && (d.fields .longname).isEmpty then
          d.namespaced (.text parts.longname) else d.fields .longname) ∧
      ∀ g, g ∉ [Field.name, .memberof, .longname] → d'.fields g = d.fields g := by
  obtain ⟨d₁, hname, h₁⟩ : ∃ d₁, (if parts.name.isEmpty = true then pure ()
        else modify fun d => d.put .name (.text parts.name) : DocletStep Unit) d = .ok () d₁ ∧
      Wrote d .name (if parts.name.isEmpty = true then d.fields .name else .text parts.name)
        d₁ := by
    cases parts.name.isEmpty with
    | true => exact ⟨d, rfl, wrote_self d .name⟩
    | false => exact ⟨_, rfl, wrote_put d .name _⟩
  -- Three writes to three fields: each leaves what the next one looks at.
  obtain ⟨d₂, howner, h₂⟩ := exists_takeOwner d₁ parts.memberof
  have hkind₂ : d₂.fields .kind = d.fields .kind := by
    rw [h₂.other _ (by decide), h₁.other _ (by decide)]
  have hlong₂ : d₂.fields .longname = d.fields .longname := by
    rw [h₂.other _ (by decide), h₁.other _ (by decide)]
  obtain ⟨d₃, hpath, h₃⟩ := exists_takePath (d := d₂) (by rw [hkind₂, hkind]) parts.longname
  have hsetting : d₂.setting = d.setting := by
    rw [h₂.setting_eq, h₁.setting_eq]
  refine ⟨d₃, ?_, ?_, ?_, ?_, ?_, ?_⟩
  · rw [takeNames_eq, bind_ok hname, bind_ok howner, get_bind, hpath]
  · rw [h₃.setting_eq, hsetting]
  · rw [h₃.other _ (by decide), h₂.other _ (by decide), h₁.field_eq]
  · rw [h₃.other _ (by decide), h₂.field_eq, h₁.other _ (by decide)]
  · rw [h₃.field_eq, hlong₂, namespaced_congr hsetting hkind₂]
  · intro g hg
    simp only [List.mem_cons, List.not_mem_nil, or_false, not_or] at hg
    rw [h₃.other g hg.2.2, h₂.other g hg.2.1, h₁.other g hg.1]

theorem isGlobal_word {d : Doclet} {s : Scope} (h : d.fields .scope = .text s.word) :
    d.isGlobal = false := by
  rw [isGlobal, h]
  cases s <;> decide

/-- Without a global scope, `settleScope` writes the scope of the parts; if they have none, it
stays, unless there are a name and an owner without a path. -/
theorem exists_settleScope {d : Doclet} (hglobal : d.isGlobal = false) (parts : Parts)
    (hlacks : parts.scope = none → d.lacksPath = false) :
    ∃ d', settleScope parts d = .ok () d' ∧
      Wrote d .scope ((parts.scope.map fun s => .text s.word).getD (d.fields .scope)) d' := by
  unfold settleScope
  rw [get_bind, if_neg (by simp [hglobal])]
  cases hscope : parts.scope with
  | none =>
    dsimp only
    rw [if_neg (by simp [hlacks hscope])]
    exact ⟨d, rfl, wrote_self d .scope⟩
  | some s => exact ⟨_, rfl, wrote_put d .scope _⟩

/-- By `settleScope` a global symbol gets its name for a path, and no owner. -/
theorem exists_settleScope_global {d : Doclet} (hglobal : d.isGlobal = true)
    (hkind : (d.fields .kind).isKey = true) (hname : isTextual (d.fields .name) = true)
    (parts : Parts) :
    ∃ d', settleScope parts d = .ok () d' ∧ d'.setting = d.setting ∧
      d'.fields .longname = d.namespaced (d.fields .name) ∧ d'.fields .memberof = .absent ∧
      ∀ g, g ∉ [Field.longname, .memberof] → d'.fields g = d.fields g := by
  -- First the path, then no owner: two writes to two fields.
  obtain ⟨d₁, hlong, h₁⟩ := exists_setLongname hkind hname
  have h₂ := @wrote_perform (.memberof .absent) rfl d₁
  refine ⟨d₁.perform (.memberof .absent), ?_, ?_, ?_, h₂.field_eq, ?_⟩
  · unfold settleScope
    rw [get_bind, if_pos hglobal, bind_ok hlong]
    exact attempt_of_not_refused d₁ _ rfl
  · rw [h₂.setting_eq, h₁.setting_eq]
  · rw [h₂.other _ (by decide), h₁.field_eq]
  · intro g hg
    simp only [List.mem_cons, List.not_mem_nil, or_false, not_or] at hg
    rw [h₂.other g hg.2, h₁.other g hg.1]

/-- By `makeStatic` a name and an owner that no scope joins make a static member. -/
theorem exists_makeStatic {d : Doclet} (hkind : (d.fields .kind).isKey = true) {name : String}
    (hname : d.fields .name = .text name) :
    ∃ d', makeStatic d = .ok () d' ∧ d'.setting = d.setting ∧
      d'.fields .scope = .text Scope.static.word ∧
      d'.fields .longname = d.namespaced
        (.text ((d.fields .memberof).display ++ String.ofList [Scope.static.mark] ++ name)) ∧
      ∀ g, g ∉ [Field.scope, .longname] → d'.fields g = d.fields g := by
  -- The scope is written first, which leaves name, owner and kind for the path as they were.
  have h₁ := wrote_put d .scope (.text Scope.static.word)
  have hkind₁ : (d.put .scope (.text Scope.static.word)).fields .kind = d.fields .kind :=
    h₁.other _ (by decide)
  obtain ⟨d₂, hlong, h₂⟩ := exists_setLongname (by rw [hkind₁, hkind])
    (v := .text ((d.fields .memberof).display ++ String.ofList [Scope.static.mark] ++ name)) rfl
  refine ⟨d₂, ?_, ?_, ?_, ?_, ?_⟩
  · unfold makeStatic
    rw [modify_bind, get_bind, h₁.other .memberof (by decide), h₁.other .name (by decide), hname]
    exact hlong
  · rw [h₂.setting_eq, h₁.setting_eq]
  · rw [h₂.other _ (by decide), h₁.field_eq]
  · rw [h₂.field_eq, namespaced_congr h₁.setting_eq hkind₁]
  · intro g hg
    simp only [List.mem_cons, List.not_mem_nil, or_false, not_or] at hg
    rw [h₂.other g hg.2, h₁.other g hg.1]

/-- Without a scope, `settleScope` makes a name and an owner that lack a path a static member. -/
theorem settleScope_of_lacksPath {d : Doclet} (hglobal : d.isGlobal = false) {parts : Parts}
    (hscope : parts.scope = none) (hlacks : d.lacksPath = true) :
    settleScope parts d = makeStatic d := by
  unfold settleScope
  rw [get_bind, if_neg (by simp [hglobal]), hscope]
  dsimp only
  rw [if_pos hlacks]

theorem wrote_takeVariation (parts : Parts) (d : Doclet) :
    Wrote d .variation (((presentText parts.variation).map .text).getD (d.fields .variation))
      (takeVariation parts d) := by
  unfold takeVariation
  cases presentText parts.variation with
  | none => exact wrote_self d .variation
  | some v => exact wrote_put d .variation _

/-! ### Finding the parts -/

/-- The `knownParts` of name, owner and scope of a doclet, if they suffice for a cut. -/
def partsOf? (d : Doclet) : Option Parts :=
  match ownerPath (d.fields .memberof) with
  | .ok owner => knownParts (namePath (d.fields .name)) owner (scopeOf? (d.fields .scope))
  | .error _ => none

/-- `findParts` gives `partsOf?` the doclet and leaves nothing but a remark. -/
theorem exists_findParts {d : Doclet} {owner : List Char}
    (howner : ownerPath (d.fields .memberof) = .ok owner)
    (hscope : scopeRefusal? (d.fields .scope) = none) :
    ∃ remarks, findParts d = .ok ((partsOf? d).getD {}) (d.noting remarks) := by
  have hnoting : d.noting [] = d := by
    simp [noting]
  unfold findParts partsOf?
  rw [get_bind, howner]
  dsimp only
  rw [hscope]
  cases hparts : knownParts (namePath (d.fields .name)) owner (scopeOf? (d.fields .scope)) with
  -- Only where parts are missing for want of a scope is there a remark.
  | none => cases needsScope (namePath (d.fields .name)) owner <;> exact ⟨_, rfl⟩
  | some parts =>
    refine ⟨[], ?_⟩
    rw [hnoting]
    cases needsScope (namePath (d.fields .name)) owner <;> rfl

/-- **Where name and owner do not suffice for a cut**, `resolve` makes a doclet without a path a
static member. -/
theorem exists_resolve_deferred {d : Doclet} {name owner : String} {path : List Char}
    (hname : d.fields .name = .text name) (hmemberof : d.fields .memberof = .text owner)
    (hpath : ownerPath (.text owner) = .ok path)
    (hscope : scopeRefusal? (d.fields .scope) = none) (hparts : partsOf? d = none)
    (hkind : (d.fields .kind).isKey = true) (hglobal : d.isGlobal = false)
    (hlacks : d.lacksPath = true) :
    ∃ d', resolve d = .ok () d' ∧ d'.setting = d.setting ∧
      d'.fields .scope = .text Scope.static.word ∧
      d'.fields .longname =
        d.namespaced (.text (owner ++ String.ofList [Scope.static.mark] ++ name)) ∧
      ∀ g, g ∉ [Field.scope, .longname] → d'.fields g = d.fields g := by
  obtain ⟨remarks, hfind⟩ := exists_findParts (hmemberof ▸ hpath) hscope
  rw [hparts] at hfind
  -- Empty parts leave every field as it was.
  obtain ⟨d₁, hnames, hsetting, hname₁, hmemberof₁, hlong₁, hother₁⟩ :=
    exists_takeNames (d := d.noting remarks) hkind {}
  have hfields : ∀ g, d₁.fields g = d.fields g := by
    intro g
    by_cases hg : g ∈ [Field.name, .memberof, .longname]
    · simp only [List.mem_cons, List.not_mem_nil, or_false] at hg
      rcases hg with rfl | rfl | rfl
      · exact hname₁
      · exact hmemberof₁
      · exact hlong₁
    · exact hother₁ g hg
  obtain ⟨d₂, hstatic, hsetting₂, hscope₂, hlong₂, hother₂⟩ :=
    exists_makeStatic (d := d₁) (by rw [hfields, hkind]) (by rw [hfields, hname])
  refine ⟨d₂, ?_, ?_, hscope₂, ?_, ?_⟩
  · have hglobal₁ : d₁.isGlobal = false := by
      rw [isGlobal, hfields]
      exact hglobal
    have hlacks₁ : d₁.lacksPath = true := by
      rw [lacksPath, hfields, hfields, hfields]
      exact hlacks
    -- There is still no path, so the scope is settled by making the doclet static.
    have hsettle := @settleScope_of_lacksPath d₁ hglobal₁ {} rfl hlacks₁
    unfold resolve
    rw [bind_ok hfind, Option.getD_none, bind_ok hnames, bind_ok (hsettle.trans hstatic)]
    rfl
  · exact hsetting₂.trans hsetting
  · rw [hlong₂, hfields, hmemberof, FieldValue.display_text]
    exact namespaced_congr hsetting (hfields .kind) _
  · intro g hg
    rw [hother₂ g hg, hfields]

/-! ### Resolving -/

/-- Whether the names of a doclet **resolve to** `parts`: name, owner and scope give these parts,
and there is neither a path nor a global scope that would make a difference. -/
structure Resolvable (d : Doclet) (parts : Parts) : Prop where
  /-- Name, owner and scope give the parts. -/
  known : ∃ owner, ownerPath (d.fields .memberof) = .ok owner ∧
    knownParts (namePath (d.fields .name)) owner (scopeOf? (d.fields .scope)) = some parts
  /-- The scope can be looked up. -/
  scope_key : scopeRefusal? (d.fields .scope) = none
  /-- The parts have a path. -/
  longname_ne : parts.longname ≠ ""
  /-- There is no path yet. -/
  no_path : d.fields .longname = .absent
  /-- The kind can be looked up. -/
  kind_key : (d.fields .kind).isKey = true
  /-- The scope is not global. -/
  not_global : d.isGlobal = false

/-- What a doclet holds once the names of `d` are resolved to `parts`. -/
structure Resolved (d : Doclet) (parts : Parts) (d' : Doclet) : Prop where
  /-- The setting stays. -/
  setting_eq : d'.setting = d.setting
  /-- A name that the parts do not tell stays. -/
  name_eq : d'.fields .name =
    if parts.name.isEmpty = true then d.fields .name else .text parts.name
  /-- An owner that the parts do not tell stays. -/
  memberof_eq : d'.fields .memberof =
    if parts.memberof.isEmpty = true then d.fields .memberof else .text parts.memberof
  /-- The path is that of the parts, with the name space of the kind. -/
  longname_eq : d'.fields .longname = d.namespaced (.text parts.longname)
  /-- A scope that the parts do not tell stays. -/
  scope_eq : d'.fields .scope =
    (parts.scope.map fun s => .text s.word).getD (d.fields .scope)
  /-- A variation that the parts do not tell stays. -/
  variation_eq : d'.fields .variation =
    ((presentText parts.variation).map .text).getD (d.fields .variation)
  /-- All other fields stay. -/
  other : ∀ g, g ∉ [Field.name, .memberof, .longname, .scope, .variation] →
    d'.fields g = d.fields g

theorem Resolved.name_of_ne {d d' : Doclet} {parts : Parts} (h : Resolved d parts d')
    (hne : parts.name ≠ "") : d'.fields .name = .text parts.name := by
  rw [h.name_eq, if_neg (by simpa using hne)]

namespace Resolvable

/-- For `Resolvable`, a scope that is absent or one of the three of members will do. -/
theorem of_scope {d : Doclet} {parts : Parts}
    (hscope : d.fields .scope = .absent ∨ ∃ s : Scope, d.fields .scope = .text s.word)
    (known : ∃ owner, ownerPath (d.fields .memberof) = .ok owner ∧
      knownParts (namePath (d.fields .name)) owner (scopeOf? (d.fields .scope)) = some parts)
    (longname_ne : parts.longname ≠ "") (no_path : d.fields .longname = .absent)
    (kind_key : (d.fields .kind).isKey = true) :
    Resolvable d parts := by
  have hkey : scopeRefusal? (d.fields .scope) = none ∧ d.isGlobal = false := by
    rcases hscope with habsent | ⟨s, hword⟩
    · rw [isGlobal, habsent]
      exact ⟨rfl, rfl⟩
    · refine ⟨?_, isGlobal_word hword⟩
      rw [hword]
      cases s <;> rfl
  exact ⟨known, hkey.1, longname_ne, no_path, kind_key, hkey.2⟩

variable {d : Doclet} {parts : Parts} (h : Resolvable d parts)
include h

theorem findParts_eq : findParts d = .ok parts d := by
  obtain ⟨owner, howner, hparts⟩ := h.known
  unfold findParts
  rw [get_bind, howner]
  dsimp only
  rw [h.scope_key, hparts]
  cases needsScope (namePath (d.fields .name)) owner <;> rfl

/-- **`resolve` writes the parts**: the doclet is `Resolved`. -/
theorem exists_resolve : ∃ d', resolve d = .ok () d' ∧ Resolved d parts d' := by
  obtain ⟨d₁, hnames, hsetting, hname, hmember, hlong, hother⟩ :=
    exists_takeNames h.kind_key parts
  -- The parts bring a path, so there is nothing to make static, and only scope and variation are
  -- left.
  rw [if_pos (by simp [h.longname_ne, h.no_path])] at hlong
  have hglobal : d₁.isGlobal = false := by
    rw [isGlobal, hother _ (by decide)]
    exact h.not_global
  -- A path stays one in a name space.
  have hpath : (d₁.fields .longname).isEmpty = false := by
    rw [hlong]
    exact namespaced_ne rfl (by simpa using h.longname_ne)
  obtain ⟨d₂, hscope, h₂⟩ := exists_settleScope hglobal parts fun _ => by
    simp [lacksPath, hpath]
  have h₃ := wrote_takeVariation parts d₂
  refine ⟨takeVariation parts d₂, ?_, ?_⟩
  · unfold resolve
    rw [bind_ok h.findParts_eq, bind_ok hnames, bind_ok hscope]
    rfl
  · constructor
    · rw [h₃.setting_eq, h₂.setting_eq, hsetting]
    · rw [h₃.other _ (by decide), h₂.other _ (by decide), hname]
    · rw [h₃.other _ (by decide), h₂.other _ (by decide), hmember]
    · rw [h₃.other _ (by decide), h₂.other _ (by decide), hlong]
    · rw [h₃.other _ (by decide), h₂.field_eq, hother _ (by decide)]
    · rw [h₃.field_eq, h₂.other _ (by decide), hother _ (by decide)]
    · intro g hg
      simp only [List.mem_cons, List.not_mem_nil, or_false, not_or] at hg
      obtain ⟨hname, hmemberof, hlongname, hscope, hvariation⟩ := hg
      rw [h₃.other g hvariation, h₂.other g hscope, hother g (by simp [*])]

end Resolvable

/-! ### Building -/

/-- Where the name is not kept and there is no code, `resolve` is all that `postProcess` is left to
do, if it leaves a path. -/
theorem postProcess_of_resolve {d d' : Doclet} (hresolve : resolve d = .ok () d')
    (hkeeps : d.preserveName = .flag false) (hpath : (d'.fields .longname).isEmpty = false)
    (hcode : d'.origin.code.isEmpty = true) : postProcess d = .ok () d' := by
  have hnames : completeNames d = .ok () d' := by
    unfold completeNames
    rw [get_bind, if_neg (by simp [keepsName, hkeeps, FieldValue.isEmpty]), bind_ok hresolve]
    dsimp only
    rw [get_bind, if_neg (by simp [hpath])]
    rfl
  -- If there is no kind, there is no code to infer one from.
  unfold postProcess
  rw [bind_ok hnames, get_bind, if_neg (by simp [hcode])]
  rfl

/-- **`build` for a comment**, where the tags leave names that `resolve` to a path. -/
theorem build_of_resolve {dictionary : Dictionary} {comment : String} {warnUnknown : Bool}
    {d d' : Doclet}
    (htags : addTags (RawTag.ofComment comment)
      { blank dictionary comment {} false warnUnknown with recording := true } = .ok () d)
    (hsetting : d.setting = (dictionary, {}, .flag false))
    (hresolve : resolve { d with recording := false } = .ok () d')
    (hkept : d'.setting = d.setting) (hpath : (d'.fields .longname).isEmpty = false) :
    build dictionary comment {} false warnUnknown = .ok () d'.remarkBuilt := by
  have hcode : d'.origin.code.isEmpty = true := by
    rw [show d'.origin = {} from congrArg (·.2.1) (hkept.trans hsetting)]
    decide
  have hpost := postProcess_of_resolve hresolve (congrArg (·.2.2) hsetting) hpath hcode
  exact applyTags_of_ok htags hpost

theorem Resolvable.exists_build {dictionary : Dictionary} {comment : String} {warnUnknown : Bool}
    {d : Doclet} {parts : Parts} (h : Resolvable d parts)
    (htags : addTags (RawTag.ofComment comment)
      { blank dictionary comment {} false warnUnknown with recording := true } = .ok () d)
    (hsetting : d.setting = (dictionary, {}, .flag false)) :
    ∃ d', build dictionary comment {} false warnUnknown = .ok () d' ∧ Resolved d parts d' := by
  -- The log is off from here on, which no field tells.
  have hquiet : Resolvable { d with recording := false } parts :=
    ⟨h.known, h.scope_key, h.longname_ne, h.no_path, h.kind_key, h.not_global⟩
  obtain ⟨d', hresolve, hd'⟩ := hquiet.exists_resolve
  have hpath : (d'.fields .longname).isEmpty = false := by
    rw [hd'.longname_eq]
    exact namespaced_ne rfl (by simpa using h.longname_ne)
  exact ⟨d'.remarkBuilt, build_of_resolve htags hsetting hresolve hd'.setting_eq hpath,
    hd'.setting_eq, hd'.name_eq, hd'.memberof_eq, hd'.longname_eq, hd'.scope_eq, hd'.variation_eq,
    hd'.other⟩

end DocComment.Doclet
