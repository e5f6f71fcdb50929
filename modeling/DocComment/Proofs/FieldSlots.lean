import DocComment.Proofs.NameInvariants
import DocComment.Proofs.StepCongruence

/-!
# What tags leave in a field

What a field holds in the end follows from the operations on this field alone, in their order
(`Regular.slot_performAll`): no operation of a standard tag reads another field or hands a list on.
With the standard tags no operation is refused either, so all tags of a comment succeed
(`Regular.exists_addTags`), and so does building as a whole (`exists_buildFrom`).
-/

namespace DocComment.Doclet

/-! ### What a field holds -/

/-- The **slot** of a field: its value in `fields`, and how many lists were `started` in it. -/
def slot (d : Doclet) (f : Field) : FieldValue × Nat :=
  (d.fields f, d.started f)

/-- What an operation on the field `f` makes of its value and of the number of its lists. -/
def slotAfter (f : Field) (s : FieldValue × Nat) : Operation → FieldValue × Nat
  | .append _ item =>
    let settled := item.settle f s.2
    match s.1 with
    | .absent => (.list (some ⟨f, settled.2⟩) [settled.1], settled.2 + 1)
    | .list (some key) items =>
    (FieldValue.extend key settled.1 (.list (some key) items), settled.2)
    | v => (v, settled.2)
  | op => op.value.settle f s.2

variable {d : Doclet} {op : Operation}

/-- Whether items can be added to all fields of `Field.lists`. -/
def Growable (d : Doclet) : Prop :=
  ∀ f ∈ Field.lists, growthRefusal? (d.fields f) = none

theorem Growable.refusal? (h : Growable d) (hop : IsOrderly op) : d.refusal? op = none := by
  cases op with
  | append f v => exact h f hop.1
  | set f v => rfl
  | memberof v => rfl
  | longname v => exact hop.elim

theorem growthRefusal?_extend {v : FieldValue} (h : growthRefusal? v = none) (key : ListKey)
    (item : FieldValue) : growthRefusal? (FieldValue.extend key item v) = none := by
  cases v <;> simp_all [growthRefusal?, FieldValue.extend]

theorem Growable.perform (h : Growable d) (hop : IsOrderly op) : Growable (d.perform op) := by
  intro g hg
  cases op with
  | append f v =>
    have hgrows : growthRefusal? ((d.record (.append f v)).fields f) = none := by
      rw [fields_record]
      exact h f hop.1
    rw [Doclet.perform_append]
    -- A list is started in the field, or the one that is there grows, wherever it is held.
    rcases push_cases hgrows (d.adopt f v).1 with
      ⟨-, hpush⟩ | ⟨key, items, -, hpush⟩ | ⟨items, -, hpush⟩
    · rw [hpush]
      by_cases hgf : g = f
      · rw [hgf, fields_put_same]
        rfl
      · rw [fields_put_ne _ _ hgf, fields_startList, fields_record]
        exact h g hg
    · rw [hpush, fields_extend, fields_record]
      exact growthRefusal?_extend (h g hg) key _
    · rw [hpush]
      by_cases hgf : g = f
      · rw [hgf, fields_put_same]
        rfl
      · rw [fields_put_ne _ _ hgf, fields_record]
        exact h g hg
  -- A write to another field; those for lists are never written.
  | set f v =>
    rw [fields_perform_ne d _ (show g ≠ f from fun heq => hop.1 (heq ▸ hg)) rfl]
    exact h g hg
  | memberof v =>
    have hne : g ≠ .memberof := by
      rintro rfl
      exact absurd hg (by decide)
    rw [fields_perform_ne d _ hne rfl]
    exact h g hg
  | longname v => exact hop.elim

/-- **Operations that are `IsOrderly` are never refused** by a doclet that is `Growable`. -/
theorem Growable.unrefused (h : Growable d) {ops : List Operation}
    (hops : ∀ op ∈ ops, IsOrderly op) : Unrefused d ops := by
  induction ops generalizing d with
  | nil => trivial
  | cons op ops ih =>
    obtain ⟨hop, hops⟩ := List.forall_mem_cons.mp hops
    exact ⟨h.refusal? hop, ih (h.perform hop) hops⟩

/-- Whether each list is held in its own field only, and the fields for lists hold lists. -/
structure Regular (d : Doclet) : Prop where
  own : ∀ f, ∀ k ∈ (d.fields f).keys, k.home = f
  listed : ∀ f ∈ Field.lists,
    d.fields f = .absent ∨ ∃ n items, d.fields f = .list (some ⟨f, n⟩) items

theorem Regular.growable (h : Regular d) : Growable d := by
  intro f hf
  rcases h.listed f hf with hv | ⟨n, items, hv⟩ <;> rw [hv] <;> rfl

theorem started_log (d : Doclet) (op : Operation) : (d.log op).started = d.started := by
  unfold Doclet.log
  split <;> rfl

/-- In `record`, only the field of an operation counts the new lists in its value. -/
theorem slot_record (d : Doclet) (op : Operation) (f : Field) :
    (d.record op).slot f = (d.fields f,
      if f = op.field then (op.value.settle op.field (d.started op.field)).2 else d.started f) := by
  rw [slot, fields_record, record, started_log]
  simp only [Doclet.adopt, Slot.field.injEq]

theorem slot_put (d : Doclet) (f g : Field) (v : FieldValue) :
    (d.put f v).slot g = if g = f then (v, d.started f) else d.slot g := by
  split
  · next heq =>
    subst heq
    rw [slot, fields_put_same]
    rfl
  · next hne =>
    rw [slot, fields_put_ne d v hne]
    rfl

theorem slot_startList (d : Doclet) {f g : Field} (hg : g ≠ f) (items : List FieldValue) :
    (d.startList f items).2.slot g = d.slot g := by
  have hslot : (g : Slot) ≠ f := fun heq => hg (Slot.field.inj heq)
  rw [slot, fields_startList]
  exact congrArg (Prod.mk _) (if_neg hslot)

theorem started_startList (d : Doclet) (f : Field) (items : List FieldValue) :
    (d.startList f items).2.started f = d.started f + 1 :=
  if_pos rfl

/-- A value without keys gets from `settle` keys of the field only. -/
theorem home_of_mem_keys_settle {f : Field} {n : Nat} {v : FieldValue} (hv : v.keys = []) :
    ∀ k ∈ (v.settle f n).1.keys, k.home = f := by
  intro k hk
  rcases (FieldValue.mem_keys_settle n v).2 k hk with hold | hnew
  · rw [hv] at hold
    cases hold
  · exact hnew.1

theorem keys_of_isOrderly (h : IsOrderly op) : op.value.keys = [] := by
  cases op with
  | set f v => exact h.2.2.1
  | append f v => exact h.2
  | memberof v => exact keys_of_isTextual h
  | longname v => exact h.elim

/-- A write that is `IsOrderly` puts the adopted value into its field. -/
theorem perform_eq_put (hop : IsOrderly op) (happend : op.isAppend = false) (d : Doclet) :
    d.perform op = (d.record op).put op.field (d.adopt op.field op.value).1 := by
  obtain ⟨v, hperform, rfl | ⟨hfield, -⟩⟩ := exists_perform_put happend d
  · exact hperform
  · cases op with
    | set f v =>
      have hlongname : f = .longname := hfield
      exact absurd (by simp [hlongname]) hop.2.1
    | memberof v => cases hfield
    | append f v => cases happend
    | longname v => exact hop.elim

namespace Regular

variable (h : Regular d)
include h

/-- An `append` starts a list, or extends the one in its field wherever it is held. -/
theorem perform_append_cases {f : Field} (hf : f ∈ Field.lists) (v : FieldValue) :
    (d.fields f = .absent ∧ d.perform (.append f v) =
      ((d.record (.append f v)).startList f [(d.adopt f v).1]).2.put f
        (.list (some ⟨f, (d.record (.append f v)).started f⟩) [(d.adopt f v).1])) ∨
    ∃ n items, d.fields f = .list (some ⟨f, n⟩) items ∧
      d.perform (.append f v) = (d.record (.append f v)).extend ⟨f, n⟩ (d.adopt f v).1 := by
  rw [Doclet.perform_append, push, fields_record]
  rcases h.listed f hf with hv | ⟨n, items, hv⟩
  · rw [hv]
    exact .inl ⟨rfl, rfl⟩
  · rw [hv]
    exact .inr ⟨n, items, rfl, rfl⟩

/-- The list of one field is in no other, so `extend` changes no other field. -/
theorem extend_eq {f g : Field} (hg : g ≠ f) (n : Nat) (item : FieldValue) :
    FieldValue.extend ⟨f, n⟩ item (d.fields g) = d.fields g :=
  FieldValue.extend_of_notMem item fun hmem => hg (Slot.field.inj (h.own g _ hmem)).symm

/-- **Operations on one field leave the `slot` of the others alone.** -/
theorem slot_perform_ne (hop : IsOrderly op) {g : Field} (hg : g ≠ op.field) :
    (d.perform op).slot g = d.slot g := by
  have hrecord : (d.record op).slot g = d.slot g := by
    rw [slot_record, if_neg hg]
    rfl
  cases happend : op.isAppend with
  | false => rw [perform_eq_put hop happend, slot_put, if_neg hg, hrecord]
  | true =>
    cases op with
    | append f v =>
      have hgf : g ≠ f := hg
      rcases h.perform_append_cases hop.1 v with ⟨-, hperform⟩ | ⟨n, items, -, hperform⟩
      · rw [hperform, slot_put, if_neg hgf, slot_startList _ hgf, hrecord]
      · -- The list grows wherever it is held, which is in its own field only.
        rw [hperform, slot, fields_extend, fields_record, h.extend_eq hgf]
        exact congrArg (Prod.mk _) (congrArg Prod.snd hrecord)
    | _ => cases happend

/-- **What an operation makes of its field** follows from the `slot` of the field alone, by
`slotAfter`. -/
theorem slot_perform (hop : IsOrderly op) :
    (d.perform op).slot op.field = slotAfter op.field (d.slot op.field) op := by
  have hstarted : (d.record op).started op.field =
      (op.value.settle op.field (d.started op.field)).2 := by
    have hslot := congrArg Prod.snd (d.slot_record op op.field)
    rwa [if_pos rfl] at hslot
  cases happend : op.isAppend with
  | false =>
    -- A write forgets the old value, so the settled value is all there is.
    have hafter : slotAfter op.field (d.slot op.field) op =
        op.value.settle op.field (d.started op.field) := by
      cases op with
      | append f v => cases happend
      | _ => rfl
    rw [perform_eq_put hop happend, slot_put, if_pos rfl, hafter, hstarted]
    rfl
  | true =>
    cases op with
    | append f v =>
      change (d.perform (.append f v)).slot f = slotAfter f (d.slot f) (.append f v)
      change (d.record (.append f v)).started f = (v.settle f (d.started f)).2 at hstarted
      -- The item is the first of a list that is started here, or goes into the one that is there.
      rcases h.perform_append_cases hop.1 v with ⟨hv, hperform⟩ | ⟨n, items, hv, hperform⟩
      · rw [hperform, slot_put, if_pos rfl, started_startList, slotAfter, slot, hv, hstarted]
        rfl
      · rw [hperform, slot, fields_extend, fields_record, slotAfter, slot, hv]
        exact congrArg (Prod.mk _) hstarted
    | _ => cases happend

theorem perform (hop : IsOrderly op) : Regular (d.perform op) := by
  have hother : ∀ g, g ≠ op.field → (d.perform op).fields g = d.fields g := fun g hg =>
    congrArg Prod.fst (h.slot_perform_ne hop hg)
  have hfield : (d.perform op).fields op.field =
      (slotAfter op.field (d.slot op.field) op).1 := congrArg Prod.fst (h.slot_perform hop)
  have hkeys := keys_of_isOrderly hop
  constructor
  · intro g k hk
    by_cases hg : g = op.field
    · subst hg
      rw [hfield] at hk
      cases op with
      | append f v =>
        have hitem := home_of_mem_keys_settle (f := f) (n := (d.slot f).2) hop.2
        rcases h.listed f hop.1 with hv | ⟨n, items, hv⟩
        · -- The new list has a key of the field, and so has what is in the item.
          rw [slotAfter, slot, Operation.field, hv] at hk
          rw [FieldValue.keys, Option.toList_some, FieldValue.keysOfItems, FieldValue.keysOfItems,
            List.append_nil, List.singleton_append, List.mem_cons] at hk
          rcases hk with rfl | hk
          · rfl
          · exact hitem k hk
        · rw [slotAfter, slot, Operation.field, hv] at hk
          rcases FieldValue.mem_keys_extend.2 hk with hold | hnew
          · exact h.own f k (hv ▸ hold)
          · exact hitem k hnew
      | set f v => exact home_of_mem_keys_settle hkeys k hk
      | memberof v => exact home_of_mem_keys_settle hkeys k hk
      | longname v => exact hop.elim
    · rw [hother g hg] at hk
      exact h.own g k hk
  · intro g hlist
    by_cases hg : g = op.field
    · subst hg
      rw [hfield]
      -- Only items are added to the fields for lists.
      cases op with
      | append f v =>
        rcases h.listed f hop.1 with hv | ⟨n, items, hv⟩
        · rw [slotAfter, slot, Operation.field, hv]
          exact .inr ⟨_, _, rfl⟩
        · rw [slotAfter, slot, Operation.field, hv]
          exact .inr ⟨n, _, FieldValue.extend_list_same _ _ _⟩
      | set f v => exact absurd hlist hop.1
      | memberof v => exact absurd hlist (show Field.memberof ∉ Field.lists by decide)
      | longname v => exact hop.elim
    · rw [hother g hg]
      exact h.listed g hlist

/-- **What a field holds after `performAll`** follows from the operations on this field, in their
order. -/
theorem slot_performAll {ops : List Operation} (hops : ∀ op ∈ ops, IsOrderly op) (f : Field) :
    (d.performAll ops).slot f =
      (ops.filter (·.field = f)).foldl (slotAfter f) (d.slot f) := by
  induction ops generalizing d with
  | nil => rfl
  | cons op ops ih =>
    obtain ⟨hop, hops⟩ := List.forall_mem_cons.mp hops
    rw [performAll_cons, ih (h.perform hop) hops]
    by_cases hf : op.field = f
    · subst hf
      rw [List.filter_cons_of_pos (by simp), List.foldl_cons, h.slot_perform hop]
    · rw [List.filter_cons_of_neg (by simpa using hf), h.slot_perform_ne hop (Ne.symm hf)]

end Regular

/-! ### What tags write -/

/-- The `tagOperations` of a raw tag, once it is read. -/
def operationsOf (dictionary : Dictionary) (origin : Origin) (raw : RawTag) : List Operation :=
  tagOperations dictionary origin raw.title (raw.text.getD "")

/-- The operations of tags on the field `f`, in their order. -/
def operationsOn (dictionary : Dictionary) (origin : Origin) (f : Field) (tags : List RawTag) :
    List Operation :=
  (tags.flatMap (operationsOf dictionary origin)).filter (·.field = f)

section Tags

variable {dictionary : Dictionary} {origin : Origin} {a : Adjustments}
  (hbuild : Dictionary.build [] a = .ok dictionary)
include hbuild

/-- **Tags of the standard dictionary all succeed**, and leave in each field what `slotAfter` makes
of it with their operations on it. -/
theorem Regular.exists_addTags (hd : Regular d) {b : Bool}
    (hsetting : d.setting = (dictionary, origin, .flag b)) (tags : List RawTag) :
    ∃ d', addTags tags d = .ok () d' ∧ Regular d' ∧
      d'.setting =
        (dictionary, origin, .flag (tags.any (fun raw => keepsNameOf dictionary raw.title) || b)) ∧
      ∀ f, d'.slot f = (operationsOn dictionary origin f tags).foldl (slotAfter f) (d.slot f) := by
  induction tags generalizing d b with
  | nil => exact ⟨d, rfl, hd, hsetting, fun _ => rfl⟩
  | cons raw tags ih =>
    obtain ⟨rfl, rfl, hflag⟩ : d.dictionary = dictionary ∧ d.origin = origin ∧
        d.preserveName = .flag b := by
      simpa [setting] using hsetting
    have hops : ∀ op ∈ operationsOf d.dictionary d.origin raw, IsOrderly op :=
      isOrderly_tagOperations hbuild d.origin raw.title (raw.text.getD "")
    -- Neither remarks nor the name switch touch a field.
    have hready : ∀ remarks,
        Regular ((d.noting remarks).keeping (keepsNameOf d.dictionary raw.title)) ∧
        ∀ f, ((d.noting remarks).keeping (keepsNameOf d.dictionary raw.title)).slot f =
            d.slot f := by
      intro remarks
      cases keepsNameOf d.dictionary raw.title <;>
        exact ⟨⟨hd.own, hd.listed⟩, fun _ => rfl⟩
    obtain ⟨remarks, hadd⟩ := exists_addTag hflag raw.title (raw.text.getD "")
      (fun _ hfind => isRuleBased_of_build hbuild hfind) fun remarks =>
        (hready remarks).1.growable.unrefused hops
    obtain ⟨hregular, hslot⟩ := hready remarks
    -- The tag succeeds by its operations; the rest go on from the doclet that they leave.
    have hkeeping := preserveName_keeping (d := d.noting remarks) hflag
      (keepsNameOf d.dictionary raw.title)
    obtain ⟨d', htags, hregular', hsetting', hslots⟩ :=
      ih (performAll_of_perform Regular.perform hregular hops)
        (b := keepsNameOf d.dictionary raw.title || b) (by
        rw [operationsOf, setting_performAll _ hkeeping, setting, hkeeping]
        cases keepsNameOf d.dictionary raw.title <;> rfl)
    refine ⟨d', ?_, hregular', ?_, fun f => ?_⟩
    · rw [addTags, bind_ok hadd]
      exact htags
    · rw [hsetting', List.any_cons]
      cases keepsNameOf d.dictionary raw.title <;> simp
    · rw [hslots f, hregular.slot_performAll hops, hslot, ← List.foldl_append, operationsOn,
        operationsOn, List.flatMap_cons, List.filter_append]

/-- The same from a `blank` doclet with the log on: all tags succeed, the doclet stays regular, and
names are texts. -/
theorem exists_addTags_blank (comment : String) (origin : Origin) (preserveName warnUnknown : Bool)
    (tags : List RawTag) :
    ∃ d b, addTags tags
        { blank dictionary comment origin preserveName warnUnknown with recording := true } =
          .ok () d ∧
      Regular d ∧ Textual dictionary d ∧ d.setting = (dictionary, origin, .flag b) ∧
      ∀ f, d.slot f =
        (operationsOn dictionary origin f tags).foldl (slotAfter f) (.absent, 0) := by
  let start : Doclet :=
    { blank dictionary comment origin preserveName warnUnknown with recording := true }
  have hregular : Regular start :=
    ⟨fun _ _ hk => by simp [start, fields, blank] at hk, fun _ _ => .inl rfl⟩
  have hstart : start.setting = (dictionary, origin, .flag preserveName) := rfl
  obtain ⟨d, hadd, hregular', hsetting, hslots⟩ := hregular.exists_addTags hbuild hstart tags
  -- That names are texts is upheld by all tags, from the blank doclet on.
  have htextual := (upheld_textual hbuild).addTags tags
    (d := start) ⟨rfl, ⟨preserveName, rfl⟩, fun _ _ => rfl⟩
  rw [hadd] at htextual
  exact ⟨d, _, hadd, hregular', htextual, hsetting, hslots⟩

/-- **What `postProcess` is left to do succeeds**, for then no operation is refused either. -/
theorem Growable.exists_postProcess (hd : Growable d) (htextual : Textual dictionary d) :
    ∃ d', postProcess d = .ok () d' := by
  obtain ⟨d₁, hnames, h₁⟩ := htextual.exists_completeNames hbuild
  obtain ⟨b, hb⟩ := htextual.switch
  obtain ⟨hdictionary, -, hflag⟩ : d₁.dictionary = d.dictionary ∧ d₁.origin = d.origin ∧
      d₁.preserveName = d.preserveName := by
    simpa [setting] using h₁.setting_eq
  -- Completing the names writes no field for lists.
  have hgrows : Growable d₁ := by
    intro f hf
    have hnone : ∀ f ∈ Field.lists, f ∉ [Field.name, .memberof, .longname, .scope, .variation] := by
      decide
    rw [h₁.other f (hnone f hf)]
    exact hd f hf
  unfold postProcess
  rw [bind_ok hnames, get_bind]
  cases (d₁.fields .kind).isEmpty && !d₁.origin.code.isEmpty with
  | false => exact ⟨d₁, rfl⟩
  | true =>
    -- The kind may be written under a synonym for another tag, so all there is to say is that it
    -- works.
    let e := remarkInferred (Code.kindOfType d₁.origin.code.type) d₁
    have hsame : e.dictionary = dictionary := hdictionary.trans htextual.dictionary_eq
    have hready : ∀ remarks keeps, Growable ((e.noting remarks).keeping keeps) := by
      intro remarks keeps
      cases keeps <;> exact hgrows
    have hops := isOrderly_tagOperations hbuild e.origin "kind"
      (Code.kindOfType d₁.origin.code.type)
    obtain ⟨remarks, hadd⟩ := exists_addTag (d := e) (hflag.trans hb) "kind"
      (Code.kindOfType d₁.origin.code.type)
      (fun _ hfind => isRuleBased_of_build hbuild (hsame ▸ hfind))
      fun remarks => (hready remarks _).unrefused (hsame ▸ hops)
    exact ⟨_, bind_ok hadd⟩

/-- **`buildFrom` succeeds** with the standard tags. A field that has no part in names and kind
holds in the end what the operations of the tags on it make of it. -/
theorem exists_buildFrom (hkind : "kind" ∉ a.synonyms.keys) (comment : String)
    (patch : Origin.Patch) (preserveName warnUnknown : Bool) (tags : List RawTag) :
    ∃ d, buildFrom dictionary comment patch preserveName warnUnknown tags = .ok () d ∧
      ∀ f, f ∉ [Field.name, .memberof, .longname, .scope, .variation, .kind] → d.fields f =
        ((operationsOn dictionary (({} : Origin).merge patch) f tags).foldl (slotAfter f)
          (.absent, 0)).1 := by
  obtain ⟨d₁, b, hadd, -, htextual, -, hslots⟩ := exists_addTags_blank hbuild comment
    (({} : Origin).merge patch) preserveName warnUnknown tags
  have htextual₁ : Textual dictionary { d₁ with recording := false } :=
    ⟨htextual.dictionary_eq, htextual.switch, htextual.names⟩
  -- What comes after the tags touches nothing but names and kind.
  obtain ⟨d₂, hnames, h₂⟩ := htextual₁.exists_completeNames hbuild
  obtain ⟨d₃, hpost, hwrote⟩ := exists_postProcess hbuild hkind htextual₁ hnames h₂
  refine ⟨d₃.remarkBuilt, applyTags_of_ok hadd hpost, fun f hf => ?_⟩
  simp only [List.mem_cons, List.not_mem_nil, or_false, not_or] at hf
  calc d₃.fields f
      = d₂.fields f := hwrote.other f hf.2.2.2.2.2
    _ = d₁.fields f := h₂.other f (by simp [hf])
    _ = _ := congrArg Prod.fst (hslots f)

end Tags

end DocComment.Doclet
