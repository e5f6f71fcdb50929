import DocComment.Proofs.FieldAgreement
import DocComment.Proofs.FieldSlots
import Mathlib.Data.List.FinRange

/-!
# The order of tags

Only the order of tags that write a common field matters. What a field holds in the end follows from
the operations on this field alone, in their order (`Regular.slot_performAll`). So two orders of the
same tags leave the same fields if, for each field, the tags that write it come in the same order;
and this is so if any two tags that conflict keep their order (`IsReordering.filter_eq`). From there
on both doclets go the same way, for what is left to do depends on the fields alone
(`FieldAgreement`).
-/

namespace DocComment.Doclet

/-! ### Reordering -/

/-- Whether `ys` is `xs` **in another order** that keeps any two items in conflict in theirs. -/
def IsReordering {α : Type} (conflict : α → α → Prop) (xs ys : List α) : Prop :=
  ∃ σ : Fin xs.length ≃ Fin ys.length, (∀ i, ys.get (σ i) = xs.get i) ∧
    ∀ i j, i < j → conflict (xs.get i) (xs.get j) → σ i < σ j

namespace IsReordering

variable {α : Type} {conflict : α → α → Prop} {xs ys : List α}

/-- The places of `ys`, as the items of `xs` take them. -/
theorem map_perm (σ : Fin xs.length ≃ Fin ys.length) :
    ((List.finRange xs.length).map σ).Perm (List.finRange ys.length) := by
  rw [List.perm_ext_iff_of_nodup ((List.nodup_finRange _).map σ.injective) (List.nodup_finRange _)]
  intro j
  simp only [List.mem_map, List.mem_finRange, true_and, iff_true]
  exact ⟨σ.symm j, σ.apply_symm_apply j⟩

theorem eq_map {σ : Fin xs.length ≃ Fin ys.length} (hσ : ∀ i, ys.get (σ i) = xs.get i) :
    xs = ((List.finRange xs.length).map σ).map ys.get := by
  rw [List.map_map]
  conv_lhs => rw [← List.map_get_finRange xs]
  exact List.map_congr_left fun i _ => (hσ i).symm

theorem perm (h : IsReordering conflict xs ys) : xs.Perm ys := by
  obtain ⟨σ, hσ, -⟩ := h
  have hperm := (map_perm σ).map ys.get
  rwa [← eq_map hσ, List.map_get_finRange] at hperm

/-- **Items that are all in `conflict` with one another** come in the same order. -/
theorem filter_eq (h : IsReordering conflict xs ys) {p : α → Bool}
    (hp : ∀ x y, p x = true → p y = true → conflict x y) : xs.filter p = ys.filter p := by
  obtain ⟨σ, hσ, horder⟩ := h
  -- Both sides are the items at certain places of `ys`, so compare the places.
  have hplaces : ((List.finRange xs.length).map σ).filter (p ∘ ys.get) =
      (List.finRange ys.length).filter (p ∘ ys.get) := by
    have hsorted : (((List.finRange xs.length).map σ).filter (p ∘ ys.get)).Pairwise (· < ·) := by
      rw [List.pairwise_filter, List.pairwise_map]
      refine (List.pairwise_lt_finRange _).imp fun {i j} hij hi hj => horder i j hij ?_
      exact hp _ _ (by rw [← hσ]; exact hi) (by rw [← hσ]; exact hj)
    have hsorted' : ((List.finRange ys.length).filter (p ∘ ys.get)).Pairwise (· < ·) :=
      (List.pairwise_lt_finRange _).filter _
    exact List.Perm.eq_of_pairwise (fun i j _ _ hij hji => absurd hij (lt_asymm hji))
      hsorted hsorted'
      ((map_perm σ).filter _)
  calc xs.filter p
      = (((List.finRange xs.length).map σ).map ys.get).filter p := by rw [← eq_map hσ]
    _ = (((List.finRange xs.length).map σ).filter (p ∘ ys.get)).map ys.get := List.filter_map
    _ = ((List.finRange ys.length).filter (p ∘ ys.get)).map ys.get := by rw [hplaces]
    _ = ((List.finRange ys.length).map ys.get).filter p := List.filter_map.symm
    _ = ys.filter p := by rw [List.map_get_finRange]

end IsReordering

/-! ### Tags in conflict -/

/-- The **fields that a tag writes**: those in the log of a `blank` doclet to which it alone was
applied. -/
def writtenFields (dictionary : Dictionary) (origin : Origin) (raw : RawTag) : List Field :=
  -- On a blank doclet nothing is refused, so the log has just the operations of the tag.
  let start : Doclet := { blank dictionary "" origin false false with recording := true }
  (start.after (.addTag raw.title (raw.text.getD ""))).operations.map Operation.field

/-- Whether two tags **write a common field**: their `writtenFields` meet. -/
def Conflict (dictionary : Dictionary) (origin : Origin) (raw raw' : RawTag) : Prop :=
  ∃ f ∈ writtenFields dictionary origin raw, f ∈ writtenFields dictionary origin raw'

instance (dictionary : Dictionary) (origin : Origin) (raw raw' : RawTag) :
    Decidable (Conflict dictionary origin raw raw') :=
  inferInstanceAs (Decidable (∃ f ∈ _, f ∈ _))

section Tags

variable {d : Doclet} {dictionary : Dictionary} {origin : Origin} {tags tags' : List RawTag}

/-- A `push` may change the values in the log, but not their fields. -/
theorem loggedFields_push (d : Doclet) (f : Field) (item : FieldValue) :
    (d.push f item).operations.map Operation.field = d.operations.map Operation.field := by
  unfold push
  split
  · rfl
  · rw [extend, List.map_map]
    exact List.map_congr_left fun op _ => op.field_withValue _
  · rfl
  · rfl

theorem loggedFields_perform (hd : d.recording = true) (op : Operation) :
    (d.perform op).operations.map Operation.field =
      d.operations.map Operation.field ++ [op.field] := by
  have hrecord : (d.record op).operations.map Operation.field =
      d.operations.map Operation.field ++ [op.field] := by
    rw [operations_record d hd, List.map_append, List.map_singleton, logged,
      Operation.field_withValue]
  cases op with
  | append f v => rw [perform_append, loggedFields_push, hrecord]
  | set f v => exact hrecord
  | memberof v => exact hrecord
  | longname v => exact hrecord

theorem loggedFields_performAll (hd : d.recording = true) (ops : List Operation) :
    (d.performAll ops).operations.map Operation.field =
      d.operations.map Operation.field ++ ops.map Operation.field := by
  induction ops generalizing d with
  | nil => rw [performAll_nil, List.map_nil, List.append_nil]
  | cons op ops ih =>
    have hrecording : (d.perform op).recording = true :=
      (congrArg (·.2.2) (d.frame_perform op)).trans hd
    rw [performAll_cons, ih hrecording, loggedFields_perform hd, List.append_assoc, List.map_cons]
    rfl

variable {a : Adjustments} (hbuild : Dictionary.build [] a = .ok dictionary)
include hbuild

/-- The `writtenFields` are those of the operations that the tag comes down to. -/
theorem writtenFields_eq (raw : RawTag) :
    writtenFields dictionary origin raw =
      (operationsOf dictionary origin raw).map Operation.field := by
  have hops : ∀ op ∈ operationsOf dictionary origin raw, IsOrderly op :=
    isOrderly_tagOperations hbuild origin raw.title (raw.text.getD "")
  -- The fields are read off the log of the tag alone, from a blank doclet.
  let start : Doclet := { blank dictionary "" origin false false with recording := true }
  have hready : ∀ remarks,
      Growable ((start.noting remarks).keeping (keepsNameOf dictionary raw.title)) ∧
      ((start.noting remarks).keeping (keepsNameOf dictionary raw.title)).recording = true ∧
      ((start.noting remarks).keeping (keepsNameOf dictionary raw.title)).operations = [] := by
    intro remarks
    cases keepsNameOf dictionary raw.title <;> exact ⟨fun _ _ => rfl, rfl, rfl⟩
  obtain ⟨remarks, hadd⟩ := exists_addTag (d := start) (b := false) rfl raw.title
    (raw.text.getD "") (fun _ hfind => isRuleBased_of_build hbuild hfind) fun remarks =>
      (hready remarks).1.unrefused hops
  obtain ⟨-, hrecording, hnone⟩ := hready remarks
  -- No operation is refused, so all of them are in the log.
  have hrun : (Call.addTag raw.title (raw.text.getD "")).run start = .ok () _ := bind_ok hadd
  rw [writtenFields, after, hrun]
  exact (loggedFields_performAll hrecording _).trans (by rw [hnone]; rfl)

/-- Only the tags that write the field contribute to `operationsOn` it. -/
theorem operationsOn_filter (f : Field) (tags : List RawTag) :
    operationsOn dictionary origin f
        (tags.filter fun raw => decide (f ∈ writtenFields dictionary origin raw)) =
      operationsOn dictionary origin f tags := by
  induction tags with
  | nil => rfl
  | cons raw tags ih =>
    by_cases hf : f ∈ writtenFields dictionary origin raw
    · rw [List.filter_cons_of_pos (by simpa using hf)]
      simp only [operationsOn, List.flatMap_cons, List.filter_append] at ih ⊢
      rw [ih]
    · -- A tag that is left out has no operation on the field.
      have hnone : (operationsOf dictionary origin raw).filter (·.field = f) = [] := by
        rw [List.filter_eq_nil_iff]
        intro op hop heq
        rw [writtenFields_eq hbuild] at hf
        exact hf (List.mem_map.mpr ⟨op, hop, by simpa using heq⟩)
      rw [List.filter_cons_of_neg (by simpa using hf), ih]
      simp only [operationsOn, List.flatMap_cons, List.filter_append, hnone, List.nil_append]

/-- Tags that write the same field are in `Conflict`, so they keep their order. -/
theorem operationsOn_eq (h : IsReordering (Conflict dictionary origin) tags tags') (f : Field) :
    operationsOn dictionary origin f tags = operationsOn dictionary origin f tags' := by
  have hfilter := h.filter_eq (p := fun raw => decide (f ∈ writtenFields dictionary origin raw))
    fun raw raw' hraw hraw' => ⟨f, of_decide_eq_true hraw, of_decide_eq_true hraw'⟩
  rw [← operationsOn_filter hbuild, hfilter, operationsOn_filter hbuild]

end Tags

/-- **Only the order of conflicting tags matters.** Take the standard tags, with any further
synonyms and kinds with a name space, and two orders of the same tags in which any two in
`Conflict`, which write a common field, come in the same order. All tags succeed either way, and so
does what is left to do; all fields and the name switch are then the same. -/
theorem addTags_reordered (a : Adjustments) (dictionary : Dictionary)
    (hbuild : Dictionary.build [] a = .ok dictionary) (comment : String) (origin : Origin)
    (preserveName warnUnknown recording : Bool) (tags tags' : List RawTag)
    (hreordered : IsReordering (Conflict dictionary origin) tags tags') :
    let start : Doclet :=
      { blank dictionary comment origin preserveName warnUnknown with recording := recording }
    ∃ d d', (do addTags tags; postProcess) start = .ok () d ∧
      (do addTags tags'; postProcess) start = .ok () d' ∧
      (∀ f, d'.fields f = d.fields f) ∧ d'.preserveName = d.preserveName := by
  intro start
  have hregular : Regular start :=
    ⟨fun _ _ hk => by simp [start, fields, blank] at hk, fun _ _ => .inl rfl⟩
  have htextual : Textual dictionary start := ⟨rfl, ⟨preserveName, rfl⟩, fun _ _ => rfl⟩
  have hstart : start.setting = (dictionary, origin, .flag preserveName) := rfl
  obtain ⟨d, hadd, hd, hsetting, hslots⟩ := hregular.exists_addTags hbuild hstart tags
  obtain ⟨d', hadd', -, hsetting', hslots'⟩ := hregular.exists_addTags hbuild hstart tags'
  -- Field by field the same operations come in the same order, so the doclets agree when all tags
  -- are in.
  have hagree : Agree d d' := by
    have hslot : ∀ f, d'.slot f = d.slot f := fun f => by
      rw [hslots, hslots', operationsOn_eq hbuild hreordered f]
    refine ⟨?_, fun f => congrArg Prod.fst (hslot f), fun f => congrArg Prod.snd (hslot f)⟩
    rw [hsetting, hsetting', hreordered.perm.any_eq]
  have htextual' : Textual dictionary d := by
    have hleaves := (upheld_textual hbuild).addTags tags htextual
    rw [hadd] at hleaves
    exact hleaves
  -- What is left to do looks at nothing but the fields and the switch.
  obtain ⟨e, hpost⟩ := hd.growable.exists_postProcess hbuild htextual'
  obtain ⟨e', hpost', -, hlast⟩ := (congruence_agree (not_isProgramOf_of_build hbuild)).postProcess
    |>.exists_ok ⟨htextual'.dictionary_eq, hagree⟩ hpost
  refine ⟨e, e', (bind_ok hadd).trans hpost, (bind_ok hadd').trans hpost', hlast.fields_eq, ?_⟩
  exact congrArg (·.2.2) hlast.setting_eq

/-- An `IsReordering` with a synonym for *memberof*, and three tags for kind and name: the items of
*see*, the two owners, and kind and name keep their order, while the rest is shuffled. -/
theorem addTags_reordered_file :
    let a : Adjustments :=
      { synonyms := .ofList [("within", "memberof")], namespaceKinds := ["widget"] }
    let origin : Origin := { filename := some "m.js" }
    let tags : List RawTag := [⟨"see", some "x"⟩, ⟨"within", some "shop#"⟩, ⟨"kind", some "widget"⟩,
      ⟨"function", some "f"⟩, ⟨"see", some "y"⟩, ⟨"global", none⟩, ⟨"file", some "about"⟩]
    let tags' : List RawTag := [⟨"within", some "shop#"⟩, ⟨"kind", some "widget"⟩,
      ⟨"see", some "x"⟩, ⟨"global", none⟩, ⟨"function", some "f"⟩, ⟨"file", some "about"⟩,
      ⟨"see", some "y"⟩]
    ∃ dictionary, Dictionary.build [] a = .ok dictionary ∧
      IsReordering (Conflict dictionary origin) tags tags' ∧
      ∃ d d', (do addTags tags; postProcess) (blank dictionary "" origin false true) = .ok () d ∧
        (do addTags tags'; postProcess) (blank dictionary "" origin false true) = .ok () d' ∧
        (∀ f, d'.fields f = d.fields f) ∧ d'.preserveName = d.preserveName := by
  intro a origin tags tags'
  let places : List (Fin 7) := [2, 0, 1, 4, 6, 3, 5]
  let places' : List (Fin 7) := [1, 2, 0, 5, 3, 6, 4]
  -- Where each tag goes and where it came from; the conflicts are evaluated with the dictionary.
  have hback : ∀ i : Fin 7, places'.get (places.get i) = i := by decide
  have hforth : ∀ i : Fin 7, places.get (places'.get i) = i := by decide
  have hitems : ∀ i : Fin 7, tags'.get (places.get i) = tags.get i := by decide
  have hchecked : (match Dictionary.build [] a with
      | .ok dictionary => decide (∀ i j : Fin 7, i < j →
          Conflict dictionary origin (tags.get i) (tags.get j) → places.get i < places.get j)
      | .error _ => false) = true := by
    decide +kernel
  cases hbuild : Dictionary.build [] a with
  | error fault =>
    rw [hbuild] at hchecked
    cases hchecked
  | ok dictionary =>
    rw [hbuild] at hchecked
    have hreordered : IsReordering (Conflict dictionary origin) tags tags' :=
      ⟨⟨places.get, places'.get, hback, hforth⟩, hitems, of_decide_eq_true hchecked⟩
    exact ⟨dictionary, rfl, hreordered,
      addTags_reordered a dictionary hbuild "" origin false true false tags tags' hreordered⟩

end DocComment.Doclet
