import DocComment.Proofs.StepInvariants

/-!
# What tags do, attempt by attempt

Whatever a program is made of, all it can do to the fields of a doclet through its setters is
attempt operations, one after another. A `Course` is such a sequence of attempts (`Attempt`), each
with the doclet as it was then: a refused one is only logged, and every other one is performed.
Between two attempts switches may be turned and remarks made, and neither counts (`Alike`). All that
tags do is a course, whatever their hooks are and however deeply programs add further tags, as long
as no program assigns a field past the setters (`UsesSetters`, `upheld_course`).

The log should tell the course. An entry is an operation as it was logged (`Attempt.entry`), and
replaying the entries of a course leads where the course led if nothing was refused
(`Course.exists_replay`), and fails if anything was (`Course.isRefused_of_replay`). The argument is
that an entry, on a doclet alike to the one it was logged in, does again what was done then
(`perform_logged`, `Alike.perform`): its new lists have their keys already, and would get the same
ones.
-/

namespace DocComment

namespace FieldValue

variable (home : Slot) (n : Nat) (v : FieldValue)

@[simp] theorem kind_settle : (settle home n v).1.kind = v.kind := by
  cases v <;> simp [settle, kind]

@[simp] theorem isEmpty_settle : (settle home n v).1.isEmpty = v.isEmpty := by
  cases v with
  | list key items => cases items <;> simp [settle, settleItems, isEmpty]
  | record members => cases members <;> simp [settle, settleMembers, isEmpty]
  | _ => simp [settle, isEmpty]

end FieldValue

namespace Doclet

/-! ### Doclets alike -/

/-- Whether two doclets are **alike**: they differ at most in their switches `preserveName` and
`warnUnknown`, with the lists that were started there, and in their `remarks`. -/
structure Alike (d e : Doclet) : Prop where
  comment_eq : e.comment = d.comment
  frame_eq : e.frame = d.frame
  written_eq : e.written = d.written
  started_eq : ∀ f : Field, e.started f = d.started f
  operations_eq : e.operations = d.operations

theorem Alike.refl (d : Doclet) : Alike d d :=
  ⟨rfl, rfl, rfl, fun _ => rfl, rfl⟩

namespace Alike

variable {d e : Doclet} (h : Alike d e)
include h

theorem trans {e' : Doclet} (h' : Alike e e') : Alike d e' :=
  ⟨h'.comment_eq.trans h.comment_eq, h'.frame_eq.trans h.frame_eq, h'.written_eq.trans h.written_eq,
    fun f => (h'.started_eq f).trans (h.started_eq f), h'.operations_eq.trans h.operations_eq⟩

theorem fields_eq (f : Field) : e.fields f = d.fields f := by
  rw [fields, fields, h.written_eq]

theorem dictionary_eq : e.dictionary = d.dictionary :=
  congrArg Prod.fst h.frame_eq

theorem hasNamespaceKind_eq : e.hasNamespaceKind = d.hasNamespaceKind := by
  rw [hasNamespaceKind, hasNamespaceKind, h.fields_eq, h.dictionary_eq]

theorem namespaced_eq (v : FieldValue) : e.namespaced v = d.namespaced v := by
  rw [namespaced, namespaced, h.hasNamespaceKind_eq, h.fields_eq]

theorem refusal?_eq (op : Operation) : e.refusal? op = d.refusal? op := by
  cases op with
  | append f v => rw [refusal?, refusal?, h.fields_eq]
  | longname v =>
    rw [refusal?, refusal?, longnameRefusal?, longnameRefusal?, h.fields_eq, h.hasNamespaceKind_eq]
  | set f v => rfl
  | memberof v => rfl

theorem logged_eq (op : Operation) : e.logged op = d.logged op := by
  rw [logged, logged, adopt, adopt, h.started_eq]

theorem log (op : Operation) : Alike (d.log op) (e.log op) := by
  have hrecording : e.recording = d.recording := congrArg (·.2.2) h.frame_eq
  cases hd : d.recording with
  | true =>
    rw [Doclet.log, Doclet.log, if_pos hd, if_pos (hrecording.trans hd)]
    exact ⟨h.comment_eq, h.frame_eq, h.written_eq, h.started_eq,
      congrArg (· ++ [op]) h.operations_eq⟩
  | false =>
    rw [Doclet.log, Doclet.log, if_neg (by simp [hd]), if_neg (by simp [hrecording, hd])]
    exact h

theorem adopt (f : Field) (v : FieldValue) : Alike (d.adopt f v).2 (e.adopt f v).2 := by
  refine ⟨h.comment_eq, h.frame_eq, h.written_eq, fun g => ?_, h.operations_eq⟩
  simp only [Doclet.adopt, h.started_eq]

theorem record (op : Operation) : Alike (d.record op) (e.record op) := by
  unfold Doclet.record
  rw [h.logged_eq op]
  exact (h.adopt _ _).log _

theorem put (f : Field) (v : FieldValue) : Alike (d.put f v) (e.put f v) :=
  ⟨h.comment_eq, h.frame_eq, congrArg (·.insert f v) h.written_eq, h.started_eq, h.operations_eq⟩

theorem extend (key : ListKey) (item : FieldValue) :
    Alike (d.extend key item) (e.extend key item) :=
  ⟨h.comment_eq, h.frame_eq, congrArg (·.map (FieldValue.extend key item)) h.written_eq,
    h.started_eq,
    congrArg (List.map fun op : Operation => op.withValue (FieldValue.extend key item op.value))
      h.operations_eq⟩

theorem push (f : Field) (item : FieldValue) : Alike (d.push f item) (e.push f item) := by
  unfold Doclet.push
  rw [h.fields_eq f]
  cases d.fields f with
  | absent =>
    -- Both doclets have started the same number of lists in the field, so the new one has one key.
    have hlist : Alike (d.startList f [item]).2 (e.startList f [item]).2 := by
      refine ⟨h.comment_eq, h.frame_eq, h.written_eq, fun g => ?_, h.operations_eq⟩
      simp only [startList, h.started_eq]
    have hkey : (e.startList f [item]).1 = (d.startList f [item]).1 := by
      simp only [startList, h.started_eq]
    change Alike ((d.startList f [item]).2.put f (d.startList f [item]).1)
      ((e.startList f [item]).2.put f (e.startList f [item]).1)
    rw [hkey]
    exact hlist.put f _
  | list key items =>
    cases key with
    | none => exact h.put f _
    | some key => exact h.extend key item
  | _ => exact h

/-- **`Doclet.perform` leads from alike doclets to alike doclets.** -/
theorem perform (op : Operation) : Alike (d.perform op) (e.perform op) := by
  have hrecord := h.record op
  unfold Doclet.perform
  rw [h.logged_eq op]
  -- The operation is logged alike; then it is the log that tells what is done.
  cases hop : d.logged op with
  | append f v => exact hrecord.push f v
  | set f v => exact hrecord.put f v
  | memberof v => exact hrecord.put .memberof v
  | longname v =>
    rw [Doclet.apply, Doclet.apply, hrecord.namespaced_eq]
    exact hrecord.put .longname _

end Alike

/-! ### Entries of the log -/

section Entries

variable (d : Doclet) (op : Operation)

theorem adopt_adopt (home : Slot) (v : FieldValue) :
    d.adopt home (d.adopt home v).1 = d.adopt home v := by
  simp only [adopt, FieldValue.settle_settle]

theorem logged_logged : d.logged (d.logged op) = d.logged op := by
  simp only [logged, Operation.field_withValue, Operation.value_withValue, adopt_adopt,
    Operation.withValue_withValue]

theorem record_logged : d.record (d.logged op) = d.record op := by
  unfold record
  rw [logged_logged]
  simp only [logged, Operation.field_withValue, Operation.value_withValue, adopt_adopt]

/-- **An entry does what the operation did**: `logged` has given keys to all lists in it, and there
is nothing left to settle. -/
theorem perform_logged : d.perform (d.logged op) = d.perform op := by
  rw [perform, perform, record_logged, logged_logged]

/-- And it is refused (`refusal?`) exactly if the operation was. -/
theorem refusal?_logged : d.refusal? (d.logged op) = d.refusal? op := by
  cases op with
  | longname v =>
    change d.longnameRefusal? (v.settle Field.longname _).1 = d.longnameRefusal? v
    simp only [longnameRefusal?, FieldValue.isEmpty_settle, FieldValue.kind_settle]
  | _ => rfl

end Entries

/-! ### Courses -/

/-- An operation that was **attempted**, and the doclet as it was then. -/
structure Attempt where
  /-- The doclet before. -/
  before : Doclet
  /-- The operation. -/
  op : Operation

namespace Attempt

/-- Whether the operation was refused, by `refusal?`. -/
def isRefused (s : Attempt) : Bool :=
  (s.before.refusal? s.op).isSome

/-- The operation **as it was logged** (`Doclet.logged`). -/
def entry (s : Attempt) : Operation :=
  s.before.logged s.op

/-- The doclet afterwards; an operation that is refused is logged all the same (`Doclet.record`). -/
def outcome (s : Attempt) : Doclet :=
  if s.isRefused then s.before.record s.op else s.before.perform s.op

theorem outcome_of_refused {s : Attempt} (h : s.isRefused = true) :
    s.outcome = s.before.record s.op :=
  if_pos h

theorem outcome_of_not_refused {s : Attempt} (h : s.isRefused = false) :
    s.outcome = s.before.perform s.op :=
  if_neg (by simp [h])

theorem frame_outcome (s : Attempt) : s.outcome.frame = s.before.frame := by
  unfold outcome
  split
  · exact frame_record _ _
  · exact frame_perform _ _

end Attempt

/-- The **courses** from a doclet to another: the attempts on the way, in their order. -/
inductive Course (start : Doclet) : List Attempt → Doclet → Prop
  /-- Nothing was attempted yet. -/
  | nil : Course start [] start
  /-- One more operation is attempted. -/
  | attempt {steps : List Attempt} {d : Doclet} (h : Course start steps d) (op : Operation) :
      Course start (steps ++ [⟨d, op⟩]) (Attempt.outcome ⟨d, op⟩)
  /-- Something happens that does not count. -/
  | aside {steps : List Attempt} {d e : Doclet} (h : Course start steps d) (he : Alike d e) :
      Course start steps e

theorem Course.frame_eq {start d : Doclet} {steps : List Attempt} (h : Course start steps d) :
    d.frame = start.frame := by
  induction h with
  | nil => rfl
  | attempt _ op ih => exact (Attempt.frame_outcome _).trans ih
  | aside _ he ih => exact he.frame_eq.trans ih

/-- Whether the programs of a dictionary change fields **through the setters only**: what they ask
for by `Request.assign` are switches. -/
def UsesSetters (dictionary : Dictionary) : Prop :=
  ∀ p, IsProgramOf dictionary p → ∀ t found seen f v,
    p.next t found seen ≠ .ask (.assign (.field f) v)

/-- **All that tags do is a `Course`**, whatever their hooks are. -/
theorem upheld_course {dictionary : Dictionary} (hsetters : UsesSetters dictionary) {start : Doclet}
    (hstart : start.dictionary = dictionary) :
    Upheld dictionary (fun d => ∃ steps, Course start steps d) fun _ => True where
  dictionary_eq := by
    rintro d ⟨steps, h⟩
    exact (congrArg Prod.fst h.frame_eq).trans hstart
  perform := by
    rintro d op ⟨steps, h⟩ - hrefusal
    -- Both kinds of attempts are steps of a course, and differ in their outcome only.
    have hdone : Attempt.isRefused ⟨d, op⟩ = false := by
      simp [Attempt.isRefused, hrefusal]
    exact ⟨_, Attempt.outcome_of_not_refused hdone ▸ h.attempt op⟩
  refuse := by
    rintro d op fault ⟨steps, h⟩ - hrefusal
    have hrefused : Attempt.isRefused ⟨d, op⟩ = true := by
      simp [Attempt.isRefused, hrefusal]
    exact ⟨_, Attempt.outcome_of_refused hrefused ▸ h.attempt op⟩
  noting := by
    rintro d ⟨steps, h⟩ remarks
    exact ⟨steps, h.aside ⟨rfl, rfl, rfl, fun _ => rfl, rfl⟩⟩
  keeping := by
    rintro d ⟨steps, h⟩ keeps
    cases keeps <;> exact ⟨steps, h.aside ⟨rfl, rfl, rfl, fun _ => rfl, rfl⟩⟩
  unknown _ := trivial
  stray _ _ _ := trivial
  direct _ _ := trivial
  rule _ _ _ _ _ _ _ := trivial
  change _ _ _ _ _ _ := trivial
  assign := by
    rintro p hp t found seen slot v hask d ⟨steps, h⟩
    -- A switch counts its new lists apart from all fields.
    cases slot with
    | field f => exact absurd hask (hsetters p hp t found seen f v)
    | preserveName => exact ⟨steps, h.aside ⟨rfl, rfl, rfl, fun _ => rfl, rfl⟩⟩
    | warnUnknown => exact ⟨steps, h.aside ⟨rfl, rfl, rfl, fun _ => rfl, rfl⟩⟩

/-! ### Replaying -/

theorem attemptAll_append (ops more : List Operation) (d : Doclet) :
    attemptAll (ops ++ more) d = (attemptAll ops >>= fun _ => attemptAll more) d := by
  induction ops generalizing d with
  | nil => rfl
  | cons op ops ih =>
    rw [List.cons_append, attemptAll, attemptAll, bind_assoc]
    exact congrFun (congrArg (attempt op >>= ·) (funext fun _ => funext ih)) d

theorem attemptAll_concat_of_ok {ops : List Operation} {op : Operation} {start r : Doclet}
    (h : attemptAll ops start = .ok () r) : attemptAll (ops ++ [op]) start = attempt op r := by
  rw [attemptAll_append, bind_ok h, attemptAll]
  exact congrFun (bind_pure_unit (x := attempt op)) r

/-- If `attemptAll` succeeds it has succeeded at every point on its way. -/
theorem exists_of_attemptAll_concat {ops : List Operation} {op : Operation} {start r : Doclet}
    (h : attemptAll (ops ++ [op]) start = .ok () r) :
    ∃ r₁, attemptAll ops start = .ok () r₁ ∧ r₁.refusal? op = none ∧ r = r₁.perform op := by
  rw [attemptAll_append] at h
  obtain ⟨_, r₁, hops, hlast⟩ := of_bind_ok h
  obtain ⟨_, r₂, hop, hend⟩ := of_bind_ok hlast
  cases hend
  refine ⟨r₁, hops, ?_⟩
  -- The last operation was not refused, for a refused one ends the replay with its fault.
  unfold attempt at hop
  rw [get_bind] at hop
  cases hrefusal : r₁.refusal? op with
  | none =>
    rw [hrefusal] at hop
    cases hop
    exact ⟨rfl, rfl⟩
  | some fault =>
    rw [hrefusal] at hop
    cases hop

namespace Course

variable {start d : Doclet} {steps : List Attempt}

/-- **Replaying the entries leads where the `Course` led**, if nothing was refused: `attemptAll`
ends in a doclet that is `Alike`. -/
theorem exists_replay (h : Course start steps d) (hdone : ∀ s ∈ steps, s.isRefused = false) :
    ∃ r, attemptAll (steps.map Attempt.entry) start = .ok () r ∧ Alike d r := by
  induction h with
  | nil => exact ⟨start, rfl, .refl start⟩
  | aside _ he ih =>
    obtain ⟨r, hreplay, halike⟩ := ih hdone
    have hback : ∀ {d e : Doclet}, Alike d e → Alike e d := fun h =>
      ⟨h.comment_eq.symm, h.frame_eq.symm, h.written_eq.symm, fun f => (h.started_eq f).symm,
        h.operations_eq.symm⟩
    exact ⟨r, hreplay, (hback he).trans halike⟩
  | @attempt steps d _ op ih =>
    obtain ⟨hearly, hlast⟩ := List.forall_mem_append.mp hdone
    have hlast := List.forall_mem_singleton.mp hlast
    obtain ⟨r, hreplay, halike⟩ := ih hearly
    -- The doclet replayed so far is alike, so its own entry for the operation is the one in the
    -- log.
    have hentry : Attempt.entry ⟨d, op⟩ = r.logged op := (halike.logged_eq op).symm
    have hrefusal : r.refusal? (r.logged op) = none := by
      rw [refusal?_logged, halike.refusal?_eq]
      simpa [Attempt.isRefused] using hlast
    refine ⟨r.perform op, ?_, ?_⟩
    · rw [List.map_append, List.map_singleton, attemptAll_concat_of_ok hreplay, hentry,
        attempt_of_not_refused r _ hrefusal, perform_logged]
    · rw [Attempt.outcome_of_not_refused hlast]
      exact halike.perform op

/-- And it **fails if anything was refused**. -/
theorem isRefused_of_replay (h : Course start steps d) {r : Doclet}
    (hreplay : attemptAll (steps.map Attempt.entry) start = .ok () r) :
    ∀ s ∈ steps, s.isRefused = false := by
  induction h generalizing r with
  | nil => simp
  | aside _ _ ih => exact ih hreplay
  | @attempt steps d h op ih =>
    rw [List.map_append, List.map_singleton] at hreplay
    obtain ⟨r₁, hearly, hrefusal, -⟩ := exists_of_attemptAll_concat hreplay
    have hdone := ih hearly
    -- Up to here the replay keeps step, so it meets the last entry as the course did.
    obtain ⟨r₂, hreplay₂, halike⟩ := h.exists_replay hdone
    obtain rfl : r₁ = r₂ := by
      have hsame := hearly.symm.trans hreplay₂
      cases hsame
      rfl
    have hlast : d.refusal? op = none := by
      rw [← d.refusal?_logged op, ← halike.refusal?_eq]
      exact hrefusal
    exact List.forall_mem_append.mpr ⟨hdone, List.forall_mem_singleton.mpr (by
      simp [Attempt.isRefused, hlast])⟩

end Course

end Doclet

end DocComment
