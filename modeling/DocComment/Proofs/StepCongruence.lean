import DocComment.Proofs.Resolution

/-!
# Steps on doclets that are alike

Two doclets can be alike without being the same: they may differ in what no step ever looks at.
`Congruence R` lists what a relation `R` has to give for this: the same setting and the same fields,
and doclets that are still alike after an operation, a write past the log, or a remark. As programs
may look at all there is, log and comment included, the dictionary must have none. All steps then
end alike on both doclets (`Respects`): they succeed with the same value or fail with the same
fault, and leave doclets that are alike again. This is shown once for all such relations, by
following the definition of each step: tags (`Congruence.addTag`), the last step
(`Congruence.postProcess`), and building as a whole (`Congruence.applyTags`).
-/

namespace DocComment.Doclet

open DocComment.Namepath (Parts)

variable {R : Doclet → Doclet → Prop}

/-! ### Ending alike -/

/-- Whether two steps **ended alike**: both succeeded with the same value, or both failed with the
same fault, in doclets that are alike. -/
def Matches (R : Doclet → Doclet → Prop) {α : Type} :
    EStateM.Result DocletFault Doclet α → EStateM.Result DocletFault Doclet α → Prop
  | .ok a d, .ok b e => a = b ∧ R d e
  | .error fault d, .error fault' e => fault = fault' ∧ R d e
  | _, _ => False

/-- Whether a step ends alike on all doclets that are alike: its results are `Matches`. -/
def Respects (R : Doclet → Doclet → Prop) {α : Type} (x : DocletStep α) : Prop :=
  ∀ d e : Doclet, R d e → Matches R (x d) (x e)

/-- If a step `Respects` a relation and succeeds on one doclet, it succeeds on the other. -/
theorem Respects.exists_ok {α : Type} {x : DocletStep α} (hx : Respects R x) {d e d' : Doclet}
    {a : α} (h : R d e) (hd : x d = .ok a d') : ∃ e', x e = .ok a e' ∧ R d' e' := by
  have hmatches := hx d e h
  rw [hd] at hmatches
  cases he : x e with
  | ok b e' =>
    rw [he] at hmatches
    obtain ⟨rfl, halike⟩ := hmatches
    exact ⟨e', rfl, halike⟩
  | error fault e' =>
    rw [he] at hmatches
    exact hmatches.elim

theorem respects_pure {α : Type} (a : α) : Respects R (pure a) :=
  fun _ _ h => ⟨rfl, h⟩

theorem respects_throw {α : Type} (fault : DocletFault) : Respects R (throw fault : DocletStep α) :=
  fun _ _ h => ⟨rfl, h⟩

theorem respects_modify {f : Doclet → Doclet} (hf : ∀ d e, R d e → R (f d) (f e)) :
    Respects R (modify f : DocletStep Unit) :=
  fun d e h => ⟨rfl, hf d e h⟩

theorem respects_bind {α β : Type} {x : DocletStep α} {f : α → DocletStep β} (hx : Respects R x)
    (hf : ∀ a, Respects R (f a)) : Respects R (x >>= f) := by
  intro d e h
  have hmatches := hx d e h
  change Matches R (EStateM.bind x f d) (EStateM.bind x f e)
  unfold EStateM.bind
  -- Only two of the four ways to end are left, and only success goes on.
  cases hd : x d with
  | ok a d' =>
    cases he : x e with
    | ok b e' =>
      rw [hd, he] at hmatches
      obtain ⟨rfl, halike⟩ := hmatches
      exact hf a d' e' halike
    | error fault e' =>
      rw [hd, he] at hmatches
      exact hmatches.elim
  | error fault d' =>
    cases he : x e with
    | ok b e' =>
      rw [hd, he] at hmatches
      exact hmatches.elim
    | error fault' e' =>
      rw [hd, he] at hmatches
      exact hmatches

theorem respects_ite {α : Type} {c : Bool} {x y : DocletStep α} (hx : Respects R x)
    (hy : Respects R y) : Respects R (if c = true then x else y) := by
  cases c with
  | true => exact hx
  | false => exact hy

/-- A step that starts with `get` may go on with what doclets have in common. -/
theorem respects_get {α : Type} {f : Doclet → DocletStep α}
    (hf : ∀ d e, R d e → Matches R (f d d) (f e e)) : Respects R (get >>= f) :=
  fun d e h => hf d e h

/-- `findParts` looks at name, owner and scope, and leaves nothing but a remark. -/
theorem respects_findParts
    (hfields : ∀ d e, R d e → ∀ f ∈ [Field.name, .memberof, .scope], e.fields f = d.fields f)
    (hnoting : ∀ d e, R d e → ∀ remarks, R (d.noting remarks) (e.noting remarks)) :
    Respects R findParts := by
  refine respects_get fun d e h => ?_
  dsimp only
  rw [hfields d e h .name (by decide), hfields d e h .memberof (by decide),
    hfields d e h .scope (by decide)]
  -- All that is decided here is decided by these three fields, so both doclets take the same
  -- branch.
  cases ownerPath (d.fields .memberof) with
  | error fault => exact ⟨rfl, h⟩
  | ok owner =>
    dsimp only
    cases needsScope (namePath (d.fields .name)) owner with
    | false =>
      cases knownParts (namePath (d.fields .name)) owner (scopeOf? (d.fields .scope)) with
      | some parts => exact ⟨rfl, h⟩
      | none => exact ⟨rfl, hnoting d e h _⟩
    | true =>
      cases scopeRefusal? (d.fields .scope) with
      | some fault => exact ⟨rfl, h⟩
      | none =>
        cases knownParts (namePath (d.fields .name)) owner (scopeOf? (d.fields .scope)) with
        | some parts => exact ⟨rfl, h⟩
        | none => exact ⟨rfl, hnoting d e h _⟩

/-! ### Congruences -/

/-- Whether doclets related by `R` have all in common that steps look at, and **stay related**. -/
structure Congruence (R : Doclet → Doclet → Prop) : Prop where
  setting_eq : ∀ {d e}, R d e → e.setting = d.setting
  fields_eq : ∀ {d e}, R d e → ∀ f, e.fields f = d.fields f
  perform : ∀ {d e}, R d e → ∀ op, R (d.perform op) (e.perform op)
  record : ∀ {d e}, R d e → ∀ op, R (d.record op) (e.record op)
  put : ∀ {d e}, R d e → ∀ f v, R (d.put f v) (e.put f v)
  keeping : ∀ {d e}, R d e → ∀ keeps, R (d.keeping keeps) (e.keeping keeps)
  recording : ∀ {d e}, R d e → ∀ b, R { d with recording := b } { e with recording := b }
  noting : ∀ {d e}, R d e → ∀ remarks, R (d.noting remarks) (e.noting remarks)
  /-- Unknown tags may be remarked upon in one doclet and not in the other, if remarks do not
  count. -/
  warning : ∀ {d e}, R d e → ∀ remarks, R (if d.warnsUnknown then d.noting remarks else d)
    (if e.warnsUnknown then e.noting remarks else e)
  /-- Nothing but rules is followed. -/
  ruled : ∀ {d e}, R d e → ∀ p, ¬ IsProgramOf d.dictionary p

namespace Congruence

variable (hR : Congruence R) {d e : Doclet}
include hR

theorem dictionary_eq (h : R d e) : e.dictionary = d.dictionary :=
  congrArg Prod.fst (hR.setting_eq h)

theorem origin_eq (h : R d e) : e.origin = d.origin :=
  congrArg (·.2.1) (hR.setting_eq h)

theorem keepsName_eq (h : R d e) : e.keepsName = d.keepsName := by
  rw [keepsName, keepsName, show e.preserveName = d.preserveName from
    congrArg (·.2.2) (hR.setting_eq h)]

theorem refusal?_eq (h : R d e) (op : Operation) : e.refusal? op = d.refusal? op := by
  have hspace : e.hasNamespaceKind = d.hasNamespaceKind := by
    rw [hasNamespaceKind, hasNamespaceKind, hR.fields_eq h, hR.dictionary_eq h]
  cases op with
  | append f v => rw [refusal?, refusal?, hR.fields_eq h f]
  | longname v =>
    rw [refusal?, refusal?, longnameRefusal?, longnameRefusal?, hR.fields_eq h, hspace]
  | set f v => rfl
  | memberof v => rfl

theorem attempt (op : Operation) : Respects R (attempt op) := by
  refine respects_get fun d e h => ?_
  rw [hR.refusal?_eq h op]
  cases d.refusal? op with
  | none => exact ⟨rfl, hR.perform h op⟩
  | some fault => exact ⟨rfl, hR.record h op⟩

theorem modifyPut (f : Field) (v : FieldValue) :
    Respects R (modify fun d => d.put f v : DocletStep Unit) :=
  respects_modify fun _ _ h => hR.put h f v

/-! ### Hooks -/

theorem attemptAll (ops : List Operation) : Respects R (attemptAll ops) := by
  induction ops with
  | nil => exact respects_pure ()
  | cons op ops ih => exact respects_bind (hR.attempt op) fun _ => ih

theorem followAll (t : Tag) (rs : List Rule) : Respects R (followAll t rs) := by
  induction rs with
  | nil => exact respects_pure ()
  | cons r rs ih =>
    refine respects_bind (fun d e h => ?_) fun _ => ih
    rw [follow_eq, follow_eq, hR.dictionary_eq h, hR.origin_eq h]
    exact hR.attemptAll _ _ _ (hR.keeping h r.keepsName)

theorem keepUnknown (title : String) (tag : FieldValue) : Respects R (keepUnknown title tag) := by
  intro d e h
  -- Whether there is a warning may differ, the rest does not.
  have hkeep : ∀ d : Doclet, Doclet.keepUnknown title tag d =
      appendField .tags tag (if d.warnsUnknown then d.noting [⟨.warning, Log.logger "doclet",
        s!"Unknown tag @{title} {d.origin.location}"⟩] else d) := by
    intro d
    unfold Doclet.keepUnknown
    rw [get_bind]
    cases d.warnsUnknown <;> rfl
  rw [hkeep, hkeep, hR.origin_eq h]
  exact hR.attempt _ _ _ (hR.warning h _)

/-! ### Tags -/

theorem writeDirect (t : Tag) : Respects R (writeDirect t) := by
  unfold Doclet.writeDirect
  cases directField? t.title with
  | none => exact respects_pure ()
  | some f => exact hR.attempt _

theorem closeTag (t : Tag) : Respects R (closeTag t) :=
  respects_bind (hR.writeDirect t) fun _ => respects_pure t

/-- **`addTag` ends alike on doclets that are alike.** -/
theorem addTag (title text : String) : Respects R (addTag title text) := by
  intro d e h
  rw [addTag_steps title text d, addTag_steps title text e, hR.dictionary_eq h, hR.origin_eq h]
  -- The tag and the remarks on it are the same, and the steps start from doclets that are alike.
  refine respects_bind ?_ hR.closeTag _ _ (hR.noting h _)
  cases hfind : d.dictionary.find? title with
  | none => exact respects_bind (hR.keepUnknown _ _) fun _ => respects_pure _
  | some definition =>
    dsimp only [tagStep]
    cases hhook : definition.hook with
    | none => exact respects_pure _
    | some hook =>
      cases hook with
      | rules rs =>
        rw [runHook_rules]
        exact respects_bind (hR.followAll _ rs) fun _ => respects_pure _
      | program p => exact absurd ⟨title, definition, hfind, hhook⟩ (hR.ruled h p)

theorem addTags (tags : List RawTag) : Respects R (addTags tags) := by
  induction tags with
  | nil => exact respects_pure ()
  | cons raw tags ih => exact respects_bind (hR.addTag _ _) fun _ => ih

/-! ### Resolving names -/

theorem findParts : Respects R findParts :=
  respects_findParts (fun _ _ h f _ => hR.fields_eq h f) fun _ _ h => hR.noting h

theorem takeNames (parts : Parts) : Respects R (takeNames parts) := by
  rw [takeNames_eq]
  refine respects_bind (respects_ite (respects_pure ()) (hR.modifyPut .name _)) fun _ =>
    respects_bind (respects_ite (respects_pure ()) (hR.attempt _)) fun _ =>
      respects_get fun d e h => ?_
  rw [hR.fields_eq h]
  exact respects_ite (hR.attempt _) (respects_pure ()) _ _ h

theorem makeStatic : Respects R makeStatic := by
  refine respects_bind (hR.modifyPut .scope _) fun _ => respects_get fun d e h => ?_
  rw [hR.fields_eq h, hR.fields_eq h]
  cases staticPath (d.fields .memberof) (d.fields .name) with
  | ok path => exact hR.attempt _ _ _ h
  | error fault => exact respects_throw fault _ _ h

theorem settleScope (parts : Parts) : Respects R (settleScope parts) := by
  refine respects_get fun d e h => ?_
  have hglobal : e.isGlobal = d.isGlobal := by
    rw [isGlobal, isGlobal, hR.fields_eq h]
  -- Both take the same branch, as it is chosen by fields.
  have hlacks : e.lacksPath = d.lacksPath := by
    rw [lacksPath, lacksPath, hR.fields_eq h, hR.fields_eq h, hR.fields_eq h]
  rw [hglobal, hlacks, hR.fields_eq h]
  cases d.isGlobal with
  | true => exact respects_bind (hR.attempt _) (fun _ => hR.attempt _) _ _ h
  | false =>
    cases parts.scope with
    | some s => exact ⟨rfl, hR.put h .scope _⟩
    | none => exact respects_ite hR.makeStatic (respects_pure ()) _ _ h

theorem takeVariation (parts : Parts) :
    Respects R (modify (takeVariation parts) : DocletStep Unit) := by
  refine respects_modify fun d e h => ?_
  unfold Doclet.takeVariation
  cases presentText parts.variation with
  | none => exact h
  | some v => exact hR.put h .variation _

theorem resolve : Respects R resolve :=
  respects_bind hR.findParts fun parts => respects_bind (hR.takeNames parts) fun _ =>
    respects_bind (hR.settleScope parts) fun _ => hR.takeVariation parts

theorem completeNames : Respects R completeNames := by
  have hstandIn : Respects R (do
      let d ← get
      if !(d.fields .name).isEmpty && (d.fields .longname).isEmpty then
        setLongname (d.fields .name) : DocletStep Unit) := by
    refine respects_get fun d e h => ?_
    rw [hR.fields_eq h, hR.fields_eq h]
    exact respects_ite (hR.attempt _) (respects_pure ()) _ _ h
  intro d e h
  unfold Doclet.completeNames
  rw [get_bind, get_bind, hR.keepsName_eq h]
  cases d.keepsName with
  | true => exact hstandIn _ _ h
  | false => exact respects_bind hR.resolve (fun _ => hstandIn) _ _ h

/-- **`postProcess` ends alike** on doclets that are alike. -/
theorem postProcess : Respects R postProcess := by
  refine respects_bind hR.completeNames fun _ => respects_get fun d e h => ?_
  dsimp only
  rw [hR.fields_eq h, hR.origin_eq h]
  cases (d.fields .kind).isEmpty && !d.origin.code.isEmpty with
  | false => exact respects_pure () _ _ h
  | true =>
    -- The kind of the code is remarked upon, then added as a tag.
    have hinferred : Respects R (modify (remarkInferred (Code.kindOfType d.origin.code.type))) := by
      refine respects_modify fun d e h => ?_
      unfold remarkInferred
      rw [hR.fields_eq h, hR.origin_eq h]
      exact hR.noting h _
    exact respects_bind hinferred
      (fun _ => respects_bind (hR.addTag _ _) fun _ => respects_pure ()) _ _ h

end Congruence

/-! ### Building from tags -/

theorem Congruence.applyTags (hR : Congruence R) (tags : List RawTag) :
    Respects R (applyTags tags) := by
  have hrecording : ∀ b, Respects R (modify fun d => { d with recording := b } : DocletStep Unit) :=
    fun b => respects_modify fun _ _ h => hR.recording h b
  have hbuilt : Respects R (modify remarkBuilt : DocletStep Unit) := by
    refine respects_modify fun d e h => ?_
    unfold remarkBuilt
    rw [hR.fields_eq h, hR.fields_eq h]
    exact hR.noting h _
  exact respects_bind (hrecording true) fun _ => respects_bind (hR.addTags tags) fun _ =>
    respects_bind (hrecording false) fun _ => respects_bind hR.postProcess fun _ => hbuilt

end DocComment.Doclet
