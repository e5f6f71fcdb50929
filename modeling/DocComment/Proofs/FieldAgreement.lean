import DocComment.Proofs.StepCongruence

/-!
# Doclets that agree in their fields

Two doclets *agree* (`Agree`) if they have the same setting and the same fields, whatever their logs
and remarks are and in whatever order the fields were written. An operation leads from doclets that
agree to doclets that agree (`Agree.perform`). So agreement is a congruence where a dictionary has
no programs (`congruence_agree`): steps succeed or fail on both doclets, and with the same fault.
None of them looks at the log.
-/

namespace DocComment.Doclet

/-- Whether two doclets **agree**: in their `setting` and in all `fields`, log and remarks apart. -/
structure Agree (d e : Doclet) : Prop where
  setting_eq : e.setting = d.setting
  fields_eq : ∀ f, e.fields f = d.fields f
  started_eq : ∀ f : Field, e.started f = d.started f

/-! ### Operations -/

namespace Agree

variable {d e : Doclet}

variable (h : Agree d e)
include h

theorem dictionary_eq : e.dictionary = d.dictionary :=
  congrArg Prod.fst h.setting_eq

theorem log (op op' : Operation) : Agree (d.log op) (e.log op') := by
  have hstarted : ∀ (d : Doclet) (op : Operation), (d.log op).started = d.started := by
    intro d op
    unfold Doclet.log
    split <;> rfl
  refine ⟨by simp [h.setting_eq], fun f => by simp [h.fields_eq], fun f => ?_⟩
  rw [hstarted, hstarted, h.started_eq]

theorem put (f : Field) (v : FieldValue) : Agree (d.put f v) (e.put f v) := by
  refine ⟨h.setting_eq, fun g => ?_, h.started_eq⟩
  by_cases hg : g = f
  · rw [hg, fields_put_same, fields_put_same]
  · rw [fields_put_ne _ _ hg, fields_put_ne _ _ hg, h.fields_eq]

theorem startList (f : Field) (items : List FieldValue) :
    (e.startList f items).1 = (d.startList f items).1 ∧
      Agree (d.startList f items).2 (e.startList f items).2 := by
  simp only [Doclet.startList, h.started_eq]
  refine ⟨trivial, h.setting_eq, h.fields_eq, fun g => ?_⟩
  simp only [h.started_eq]

theorem adopt (f : Field) (v : FieldValue) :
    (e.adopt f v).1 = (d.adopt f v).1 ∧ Agree (d.adopt f v).2 (e.adopt f v).2 := by
  simp only [Doclet.adopt, h.started_eq]
  refine ⟨trivial, h.setting_eq, h.fields_eq, fun g => ?_⟩
  simp only [h.started_eq]

theorem logged_eq (op : Operation) : e.logged op = d.logged op := by
  rw [Doclet.logged, Doclet.logged, (h.adopt _ _).1]

theorem record (op : Operation) : Agree (d.record op) (e.record op) :=
  (h.adopt op.field op.value).2.log _ _

theorem namespaced (v : FieldValue) : e.namespaced v = d.namespaced v :=
  namespaced_congr h.setting_eq (h.fields_eq .kind) v

theorem extend (key : ListKey) (item : FieldValue) :
    Agree (d.extend key item) (e.extend key item) := by
  obtain ⟨hdictionary, horigin, hswitch⟩ : e.dictionary = d.dictionary ∧ e.origin = d.origin ∧
      e.preserveName = d.preserveName := by
    simpa [setting] using h.setting_eq
  refine ⟨?_, fun f => by simp [h.fields_eq], h.started_eq⟩
  simp [setting, Doclet.extend, hdictionary, horigin, hswitch]

theorem push (f : Field) (item : FieldValue) : Agree (d.push f item) (e.push f item) := by
  unfold Doclet.push
  rw [h.fields_eq f]
  cases d.fields f with
  | absent =>
    obtain ⟨hvalue, hlist⟩ := h.startList f [item]
    change Agree ((d.startList (.field f) [item]).2.put f (d.startList (.field f) [item]).1)
      ((e.startList (.field f) [item]).2.put f (e.startList (.field f) [item]).1)
    rw [hvalue]
    exact hlist.put f _
  | list key items =>
    cases key with
    | none => exact h.put f _
    | some key => exact h.extend key item
  | _ => exact h

theorem apply (op : Operation) : Agree (d.apply op) (e.apply op) := by
  cases op with
  | append f v => exact h.push f v
  | set f v => exact h.put f v
  | memberof v => exact h.put .memberof v
  | longname v =>
    rw [Doclet.apply, Doclet.apply, h.namespaced]
    exact h.put .longname _

/-- **Doclets that `Agree` still do after `perform`.** -/
theorem perform (op : Operation) : Agree (d.perform op) (e.perform op) := by
  unfold Doclet.perform
  rw [h.logged_eq op]
  exact (h.record op).apply _

theorem keeping (keeps : Bool) : Agree (d.keeping keeps) (e.keeping keeps) := by
  cases keeps with
  | false => exact h
  | true =>
    refine ⟨?_, h.fields_eq, h.started_eq⟩
    change (e.dictionary, e.origin, FieldValue.flag true) = (d.dictionary, d.origin, .flag true)
    rw [h.dictionary_eq, show e.origin = d.origin from congrArg (·.2.1) h.setting_eq]

end Agree

/-- **`Agree` is a `Congruence`** where there are no programs: neither log nor remarks count. -/
theorem congruence_agree {dictionary : Dictionary} (hruled : ∀ p, ¬ IsProgramOf dictionary p) :
    Congruence fun d e => d.dictionary = dictionary ∧ Agree d e where
  setting_eq h := h.2.setting_eq
  fields_eq h := h.2.fields_eq
  perform h op := ⟨(congrArg Prod.fst (frame_perform _ op)).trans h.1, h.2.perform op⟩
  record h op := ⟨(congrArg Prod.fst (frame_record _ op)).trans h.1, h.2.record op⟩
  put h f v := ⟨h.1, h.2.put f v⟩
  keeping h keeps := ⟨by cases keeps <;> exact h.1, h.2.keeping keeps⟩
  recording h _ := ⟨h.1, h.2.setting_eq, h.2.fields_eq, h.2.started_eq⟩
  noting h _ := ⟨h.1, h.2.setting_eq, h.2.fields_eq, h.2.started_eq⟩
  warning {d e} h remarks := by
    -- One may warn where the other does not: remarks are no fields.
    cases d.warnsUnknown <;> cases e.warnsUnknown <;>
      exact ⟨h.1, h.2.setting_eq, h.2.fields_eq, h.2.started_eq⟩
  ruled h p := by
    rw [h.1]
    exact hruled p

end DocComment.Doclet
