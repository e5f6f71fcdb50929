import Mathlib.Data.List.Forall2
import DocComment.Proofs.AttemptCourses
import DocComment.Proofs.StandardTags

/-!
# The log of operations

Operations are logged and applied at once, so the log should tell all that tags did to the fields.
It does not always. A list is one thing wherever it is held, and an entry of the log can hold one:
what is added to it later shows in the log as if it had been there from the start, and is added
twice when the log is replayed. And an operation that is refused is in the log, though nothing was
done; whoever replays the log is refused as well, and there it ends.

`build_log` says exactly when the log is good. The tags have run along a course of attempts
(`Course`), and the final log is made of their entries, which may have grown since (`GrownLog`).

* Replaying works at every moment of the course (`ReplaysThroughout`) exactly if nothing was refused
  and each entry still stands as it was logged (`Faithful`). Then what is left to do can be done on
  the replayed doclet too (`Completes`).
* The log is the state and stays it, whatever is called later (`LogIsState`), exactly if nothing was
  refused and no entry holds a list.

Both rest on what growing can do to a value (`FieldValue.Grown`): nothing where it holds no list,
and otherwise nothing that could be taken back, so that an entry which does again what was done has
not grown (`eq_entry_of_fields`).
-/

namespace DocComment

/-! ### Values that have grown -/

namespace FieldValue

/-- Whether a value has **grown** into another one: items were added to lists that it holds, by
`extend`. -/
inductive Grown (v : FieldValue) : FieldValue → Prop
  /-- Nothing was added. -/
  | refl : Grown v v
  /-- One more item was added. -/
  | extend {w item : FieldValue} (h : Grown v w) (key : ListKey) (hitem : item.isSettled = true) :
      Grown v (FieldValue.extend key item w)

theorem kind_extend (key : ListKey) (item v : FieldValue) : (extend key item v).kind = v.kind := by
  cases v <;> simp [extend, kind]

theorem isEmpty_extend (key : ListKey) (item : FieldValue) {v : FieldValue}
    (h : v.isEmpty = false) :
    (extend key item v).isEmpty = false := by
  cases v with
  | list k items => cases items <;> simp_all [extend, extendItems, isEmpty]
  | record members => cases members <;> simp_all [extend, extendMembers, isEmpty]
  | absent | text | flag | number | decimal => exact h
  | typed | tag | strayTag | borrowed => simp [extend, isEmpty]

namespace Grown

variable {v w : FieldValue} (h : Grown v w)
include h

theorem kind_eq : w.kind = v.kind := by
  induction h with
  | refl => rfl
  | extend _ key _ ih => exact (kind_extend key _ _).trans ih

theorem isEmpty_eq_false (hv : v.isEmpty = false) : w.isEmpty = false := by
  induction h with
  | refl => exact hv
  | extend _ key _ ih => exact isEmpty_extend key _ ih

theorem isSettled (hv : v.isSettled = true) : w.isSettled = true := by
  induction h with
  | refl => exact hv
  | extend _ key hitem ih => exact isSettled_extend hitem ih

theorem mem_keys {k : ListKey} (hk : k ∈ v.keys) : k ∈ w.keys := by
  induction h with
  | refl => exact hk
  | extend _ key _ ih => exact mem_keys_extend.1 ih

/-- **A value without `keys` does not grow.** -/
theorem eq_of_keys (hv : v.keys = []) : w = v := by
  induction h with
  | refl => rfl
  | extend _ key _ ih => rw [ih, extend_of_notMem _ (by simp [hv])]

end Grown

end FieldValue

namespace Doclet

open DocComment.FieldValue (Grown)

/-! ### Logs that have grown -/

/-- Whether a log has **grown** into another one: entry by entry, the value has `Grown`. -/
def GrownLog : List Operation → List Operation → Prop :=
  List.Forall₂ fun op op' => ∃ w, op' = op.withValue w ∧ Grown op.value w

section GrownLog

variable {ops ops' : List Operation}

theorem grownLog_refl (ops : List Operation) : GrownLog ops ops :=
  List.forall₂_same.mpr fun op _ => ⟨op.value, (Operation.withValue_value op).symm, .refl⟩

theorem GrownLog.extend (h : GrownLog ops ops') (key : ListKey) {item : FieldValue}
    (hitem : item.isSettled = true) :
    GrownLog ops (ops'.map fun op => op.withValue (FieldValue.extend key item op.value)) := by
  refine List.forall₂_map_right_iff.mpr (h.imp ?_)
  rintro op _ ⟨w, rfl, hgrown⟩
  refine ⟨FieldValue.extend key item w, ?_, hgrown.extend key hitem⟩
  rw [Operation.withValue_withValue, Operation.value_withValue]

theorem GrownLog.concat (h : GrownLog ops ops') (op : Operation) :
    GrownLog (ops ++ [op]) (ops' ++ [op]) :=
  List.rel_append h (grownLog_refl [op])

/-- Entries without `keys` have not grown. -/
theorem GrownLog.eq_of_keys (h : GrownLog ops ops') (hkeys : ∀ op ∈ ops, op.value.keys = []) :
    ops' = ops := by
  induction h with
  | nil => rfl
  | cons hop _ ih =>
    obtain ⟨w, rfl, hgrown⟩ := hop
    obtain ⟨hfirst, hmore⟩ := List.forall_mem_cons.mp hkeys
    rw [ih hmore, hgrown.eq_of_keys hfirst, Operation.withValue_value]

/-- And if they have no `keys` now, they never had. -/
theorem GrownLog.keys_eq_nil (h : GrownLog ops ops') (hkeys : ∀ op ∈ ops', op.value.keys = []) :
    ∀ op ∈ ops, op.value.keys = [] := by
  induction h with
  | nil => simp
  | cons hop _ ih =>
    obtain ⟨w, rfl, hgrown⟩ := hop
    obtain ⟨hfirst, hmore⟩ := List.forall_mem_cons.mp hkeys
    rw [Operation.value_withValue] at hfirst
    refine List.forall_mem_cons.mpr ⟨List.eq_nil_iff_forall_not_mem.mpr fun k hk => ?_, ih hmore⟩
    exact absurd (hgrown.mem_keys hk) (by simp [hfirst])

/-- A `push` to the list in a field makes a log grow at most. -/
theorem GrownLog.push {d : Doclet} (h : GrownLog ops d.operations) (f : Field) {item : FieldValue}
    (hitem : item.isSettled = true) : GrownLog ops (d.push f item).operations := by
  unfold Doclet.push
  split
  · exact h
  · exact h.extend _ hitem
  · exact h
  · exact h

theorem isSettled_adopt (d : Doclet) (home : Slot) (v : FieldValue) :
    (d.adopt home v).1.isSettled = true :=
  FieldValue.isSettled_settle _ v

/-- Whatever `perform` does after the operation is recorded, the log grows at most. -/
theorem GrownLog.perform {d : Doclet} {op : Operation} (h : GrownLog ops (d.record op).operations) :
    GrownLog ops (d.perform op).operations := by
  cases op with
  | append f v => exact h.push f (isSettled_adopt d f v)
  | set f v => exact h
  | memberof v => exact h
  | longname v => exact h

end GrownLog

/-- **The log of a `Course` is made of its entries**, which may have grown since. -/
theorem Course.grownLog {start d : Doclet} {steps : List Attempt} (h : Course start steps d)
    (hrecording : start.recording = true) (hstart : start.operations = []) :
    GrownLog (steps.map Attempt.entry) d.operations := by
  induction h with
  | nil =>
    rw [hstart]
    exact .nil
  | aside _ he ih =>
    rw [he.operations_eq]
    exact ih
  | @attempt steps d h op ih =>
    have hd : d.recording = true := (congrArg (·.2.2) h.frame_eq).trans hrecording
    -- The entry comes in as it is, refused or not; only a performed operation goes on to grow the
    -- log.
    have hrecord : GrownLog (steps.map Attempt.entry ++ [d.logged op])
        (d.record op).operations := by
      rw [operations_record d hd]
      exact ih.concat _
    rw [List.map_append, List.map_singleton]
    cases hrefused : Attempt.isRefused ⟨d, op⟩ with
    | true =>
      rw [Attempt.outcome_of_refused hrefused]
      exact hrecord
    | false =>
      rw [Attempt.outcome_of_not_refused hrefused]
      exact hrecord.perform

/-! ### The closed log -/

/-- Whether the log of a doclet is **closed**: nothing is logged any more, and all that can happen
to the entries `ops` is that they grow. -/
structure LogClosed (dictionary : Dictionary) (ops : List Operation) (d : Doclet) : Prop where
  dictionary_eq : d.dictionary = dictionary
  recording_eq : d.recording = false
  grown : GrownLog ops d.operations

theorem LogClosed.of_frame {dictionary : Dictionary} {ops : List Operation} {d e : Doclet}
    (h : LogClosed dictionary ops d) (hframe : e.frame = d.frame)
    (hgrown : GrownLog ops e.operations) : LogClosed dictionary ops e :=
  ⟨(congrArg Prod.fst hframe).trans h.dictionary_eq, (congrArg (·.2.2) hframe).trans h.recording_eq,
    hgrown⟩

theorem LogClosed.record {dictionary : Dictionary} {ops : List Operation} {d : Doclet}
    (h : LogClosed dictionary ops d) (op : Operation) : LogClosed dictionary ops (d.record op) := by
  refine h.of_frame (d.frame_record op) ?_
  have hoff : (d.adopt op.field op.value).2.recording ≠ true := by
    simp [adopt, h.recording_eq]
  rw [Doclet.record, log, if_neg hoff]
  exact h.grown

/-- **A log that is `LogClosed` stays so**, whatever happens to the doclet. -/
theorem upheld_logClosed (dictionary : Dictionary) (ops : List Operation) :
    UpheldThroughout dictionary (LogClosed dictionary ops) fun _ => True where
  dictionary_eq h := h.dictionary_eq
  -- Nothing is logged any more, so all that can happen to the log is that its lists grow.
  perform {d op} h _ _ := h.of_frame (d.frame_perform op) (h.record op).grown.perform
  refuse h _ _ := h.record _
  noting h _ := ⟨h.dictionary_eq, h.recording_eq, h.grown⟩
  keeping h keeps := by
    cases keeps <;> exact ⟨h.dictionary_eq, h.recording_eq, h.grown⟩
  unknown _ := trivial
  stray _ _ _ := trivial
  direct _ _ := trivial
  rule _ _ _ _ _ _ _ := trivial
  change _ _ _ _ _ _ := trivial
  assign _ _ _ _ slot _ _ _ h := by
    cases slot <;> exact ⟨h.dictionary_eq, h.recording_eq, h.grown⟩
  put h _ _ _ := ⟨h.dictionary_eq, h.recording_eq, h.grown⟩
  memberof _ := trivial
  dropped := trivial
  longname _ := trivial
  named _ := trivial

theorem LogClosed.calls {dictionary : Dictionary} {ops : List Operation} {d : Doclet}
    (h : LogClosed dictionary ops d) (calls : List Call) :
    LogClosed dictionary ops (calls.foldl after d) := by
  induction calls generalizing d with
  | nil => exact h
  | cons c calls ih => exact ih ((upheld_logClosed dictionary ops).after (fun _ _ => trivial) h)

/-- **A list in the log is open to anyone**: written to a field, it grows there and in the log. -/
theorem exists_calls_of_mem_keys {d : Doclet} (hrecording : d.recording = false) {op : Operation}
    (hop : op ∈ d.operations) {k : ListKey} (hk : k ∈ op.value.keys) :
    ∃ calls : List Call, (calls.foldl after d).operations ≠ d.operations := by
  let handed : Operation := .set .see (.list (some k) [])
  let e := d.perform handed
  refine ⟨[.change handed, .change (.append .see (.text ""))], ?_⟩
  -- Nothing is logged any more, so the only way to the log is through a list that it holds.
  have hoff : ∀ op, (d.record op).operations = d.operations := by
    intro op
    have hoff : (d.adopt op.field op.value).2.recording ≠ true := by
      simp [adopt, hrecording]
    rw [record, log, if_neg hoff]
    rfl
  have hoperations : e.operations = d.operations := hoff handed
  have hrecording' : e.recording = false :=
    (congrArg (·.2.2) (d.frame_perform handed)).trans hrecording
  have hsee : e.fields .see = .list (some k) [] := by
    simp [e, handed, perform, apply, logged, adopt, FieldValue.settle, FieldValue.settleItems,
      Operation.withValue, Operation.field, Operation.value]
  -- The first call writes the list to a field, and the second one adds to it.
  have hfirst : d.after (.change handed) = e := by
    rw [after, Call.run, attempt_of_not_refused d handed rfl]
    rfl
  have hsecond : e.after (.change (.append .see (.text ""))) =
      (e.record (.append .see (.text ""))).extend k (.text "") := by
    have hgrows : e.refusal? (.append .see (.text "")) = none := by
      rw [refusal?, hsee]
      rfl
    rw [after, Call.run, attempt_of_not_refused e _ hgrows, left, perform_append, push,
      fields_record, hsee, adopt_leaf rfl]
  rw [List.foldl_cons, List.foldl_cons, List.foldl_nil, hfirst, hsecond]
  intro hsame
  have hoff' : (e.record (.append .see (.text ""))).operations = d.operations := by
    have hoff : (e.adopt Field.see (.text "")).2.recording ≠ true := by
      simp [adopt, hrecording']
    rw [record, log]
    exact (congrArg operations (if_neg hoff)).trans hoperations
  rw [extend, hoff'] at hsame
  -- Were the log the same, the entry would not hold the list.
  have hself := List.map_eq_map_iff.mp (hsame.trans (List.map_id _).symm) op hop
  have hvalue := congrArg Operation.value hself
  rw [Operation.value_withValue] at hvalue
  exact FieldValue.extend_eq_self_iff.mp hvalue hk

/-! ### Entries that do again what was done -/

/-- An operation with a `refusal?` is refused again, however much its value has grown. -/
theorem refusal?_of_grown {d : Doclet} {op : Operation} {fault : DocletFault} {w : FieldValue}
    (h : d.refusal? op = some fault) (hgrown : Grown op.value w) :
    d.refusal? (op.withValue w) = some fault := by
  cases op with
  | append f v => exact h
  | set f v => cases h
  | memberof v => cases h
  | longname v =>
    -- What is there stays there and stays of its kind, and nothing else is looked at.
    change d.longnameRefusal? w = some fault
    change d.longnameRefusal? v = some fault at h
    have hempty : v.isEmpty = false := by
      by_contra hempty
      simp [longnameRefusal?, hempty] at h
    have hempty' := hgrown.isEmpty_eq_false hempty
    simpa [longnameRefusal?, hempty, hempty', hgrown.kind_eq, Operation.value] using h

theorem getLast?_push {d : Doclet} {f : Field} (h : growthRefusal? (d.fields f) = none)
    (item : FieldValue) : ((d.push f item).fields f).items.getLast? = some item := by
  rcases push_cases h item with ⟨-, hpush⟩ | ⟨key, items, hvalue, hpush⟩ | ⟨items, -, hpush⟩
  · simp [hpush, FieldValue.items]
  · simp [hpush, hvalue, FieldValue.items]
  · simp [hpush, FieldValue.items]

/-- A path that was `namespaced` to the same as it grew has not grown. -/
theorem eq_of_namespaced_eq {d : Doclet} {v w : FieldValue} (hgrown : Grown v w)
    (hrefusal : d.longnameRefusal? w = none) (hsame : d.namespaced w = d.namespaced v) : w = v := by
  by_cases hspace : w.isEmpty = false ∧ d.hasNamespaceKind = true
  · -- Only a text can have a name space put in front, and a text does not grow.
    have hkind : w.kind = .text := by
      simp only [longnameRefusal?, hspace.1, hspace.2] at hrefusal
      by_contra hkind
      split at hrefusal
      · contradiction
      · split at hrefusal
        · next hkey =>
          simp only [Bool.and_eq_true, Bool.not_eq_true'] at hkey
          cases hunkeyed : (d.fields .kind).unkeyed? with
          | none => simp [FieldValue.isKey, hunkeyed] at hkey
          | some kind => simp [hunkeyed] at hrefusal
        · simp [hkind] at hrefusal
    have hleaf : v.isLeaf = true := by
      rw [hgrown.kind_eq] at hkind
      cases v <;> simp_all [FieldValue.kind, FieldValue.isLeaf]
    exact hgrown.eq_of_keys (FieldValue.keys_leaf hleaf)
  · have hnamespaced : ∀ {v : FieldValue}, ¬ (v.isEmpty = false ∧ d.hasNamespaceKind = true) →
        d.namespaced v = v := fun hv => if_neg (by simpa using hv)
    -- Without a name space both are taken as they are.
    have hspace' : ¬ (v.isEmpty = false ∧ d.hasNamespaceKind = true) := by
      rintro ⟨hempty, hkind⟩
      exact hspace ⟨hgrown.isEmpty_eq_false hempty, hkind⟩
    rw [hnamespaced hspace, hnamespaced hspace'] at hsame
    exact hsame

theorem namespaced_record (d : Doclet) (op : Operation) (v : FieldValue) :
    (d.record op).namespaced v = d.namespaced v :=
  namespaced_congr (d.setting_record op) (d.fields_record op .kind) v

/-- An operation whose entry is not refused was not refused itself: it would have been refused
again, however its entry has grown. -/
theorem refusal?_eq_none_of_grown {d : Doclet} {op : Operation} {w : FieldValue}
    (hgrown : Grown (d.logged op).value w)
    (hrefusal : d.refusal? ((d.logged op).withValue w) = none) : d.refusal? op = none := by
  cases hrefused : d.refusal? op with
  | none => rfl
  | some fault =>
    rw [← d.refusal?_logged op] at hrefused
    rw [refusal?_of_grown hrefused hgrown] at hrefusal
    cases hrefusal

theorem isSettled_of_grown_logged {d : Doclet} {op : Operation} {w : FieldValue}
    (hgrown : Grown (d.logged op).value w) : w.isSettled = true := by
  refine hgrown.isSettled ?_
  rw [logged, Operation.value_withValue]
  exact isSettled_adopt d _ _

/-- **An entry that does again what was done has not grown**, and the operation was not refused. -/
theorem eq_entry_of_fields {d r : Doclet} {op : Operation} {w : FieldValue} (halike : Alike d r)
    (hgrown : Grown (d.logged op).value w)
    (hrefusal : r.refusal? ((d.logged op).withValue w) = none)
    (hfields : ∀ f, (r.perform ((d.logged op).withValue w)).fields f =
      (Attempt.outcome ⟨d, op⟩).fields f) :
    Attempt.isRefused ⟨d, op⟩ = false ∧ w = (d.logged op).value := by
  rw [halike.refusal?_eq] at hrefusal
  have hdone : d.refusal? op = none := refusal?_eq_none_of_grown hgrown hrefusal
  have hisDone : Attempt.isRefused ⟨d, op⟩ = false := by
    simp [Attempt.isRefused, hdone]
  rw [Attempt.outcome_of_not_refused hisDone] at hfields
  refine ⟨hisDone, ?_⟩
  -- What was logged has all its keys, so the replay adopts it as it is.
  have hadopt : ∀ home, (r.adopt home w).1 = w := fun home =>
    FieldValue.settle_of_isSettled _ (isSettled_of_grown_logged hgrown)
  cases op with
  | set f v =>
    have hfield := hfields f
    change (((r.record _).put f (r.adopt f w).1).fields f) =
      ((d.record _).put f (d.adopt f v).1).fields f at hfield
    rwa [fields_put_same, fields_put_same, hadopt] at hfield
  | memberof v =>
    have hfield := hfields .memberof
    change (((r.record _).put .memberof (r.adopt Field.memberof w).1).fields .memberof) =
      ((d.record _).put .memberof (d.adopt Field.memberof v).1).fields .memberof at hfield
    rwa [fields_put_same, fields_put_same, hadopt] at hfield
  | longname v =>
    have hfield := hfields .longname
    change (((r.record _).put .longname
        ((r.record _).namespaced (r.adopt Field.longname w).1)).fields .longname) =
      ((d.record _).put .longname ((d.record _).namespaced (d.adopt Field.longname v).1)).fields
        .longname at hfield
    rw [fields_put_same, fields_put_same, namespaced_record, namespaced_record, hadopt,
      halike.namespaced_eq] at hfield
    exact eq_of_namespaced_eq hgrown hrefusal hfield
  | append f v =>
    -- Of a list only the last item tells the value; a write tells it as a whole.
    have hfield := congrArg (·.items.getLast?) (hfields f)
    change (((r.record _).push f (r.adopt f w).1).fields f).items.getLast? =
      (((d.record _).push f (d.adopt f v).1).fields f).items.getLast? at hfield
    rw [getLast?_push, getLast?_push, hadopt] at hfield
    · exact Option.some.inj hfield
    · rw [fields_record]
      exact hdone
    · rw [fields_record, halike.fields_eq]
      exact hdone

/-! ### Replaying a course -/

/-- Whether operations can be **replayed** from `start`, and lead to the fields of `d`. -/
def Replays (start : Doclet) (ops : List Operation) (d : Doclet) : Prop :=
  ∃ r, attemptAll ops start = .ok () r ∧ ∀ f, r.fields f = d.fields f

/-- Whether operations can be replayed **at every moment** of a course that led to `d`: as many of
them as there were attempts lead to the fields that there were then. -/
def ReplaysThroughout (start : Doclet) (ops : List Operation) (steps : List Attempt) (d : Doclet) :
    Prop :=
  (∀ early s late, steps = early ++ s :: late → Replays start (ops.take early.length) s.before) ∧
    Replays start ops d

/-- Whether operations are **faithful** to a course: nothing was refused, and each of them stands as
it was logged. -/
def Faithful (steps : List Attempt) (ops : List Operation) : Prop :=
  (∀ s ∈ steps, s.isRefused = false) ∧ ops = steps.map Attempt.entry

theorem exists_of_grownLog_concat {ops ops' : List Operation} {op : Operation}
    (h : GrownLog (ops ++ [op]) ops') :
    ∃ more w, ops' = more ++ [op.withValue w] ∧ GrownLog ops more ∧ Grown op.value w := by
  induction ops generalizing ops' with
  | nil =>
    cases h with
    | cons hop hnil =>
      obtain ⟨w, rfl, hgrown⟩ := hop
      cases hnil
      exact ⟨[], w, rfl, .nil, hgrown⟩
  | cons first ops ih =>
    cases h with
    | cons hfirst hmore =>
      obtain ⟨more, w, rfl, hlog, hgrown⟩ := ih hmore
      exact ⟨_ :: more, w, rfl, .cons hfirst hlog, hgrown⟩

namespace Course

variable {start d : Doclet} {steps : List Attempt} {ops : List Operation}

/-- A beginning of a `Course` is one to the doclet as it was then. -/
theorem early (h : Course start steps d) {early late : List Attempt} {s : Attempt}
    (hsteps : steps = early ++ s :: late) : Course start early s.before := by
  induction h generalizing late with
  | nil => simp at hsteps
  | aside _ _ ih => exact ih hsteps
  | @attempt steps d h op ih =>
    -- The step is the last one, or one of those before it.
    rcases List.eq_nil_or_concat late with rfl | ⟨late, last, rfl⟩
    · obtain ⟨rfl, hlast⟩ := List.append_inj' hsteps rfl
      cases hlast
      exact h
    · rw [List.concat_eq_append, ← List.cons_append, ← List.append_assoc] at hsteps
      exact ih (List.append_inj' hsteps rfl).1

/-- The entries of a `Course` without refusals can be replayed to its end. -/
theorem replays (h : Course start steps d) (hdone : ∀ s ∈ steps, s.isRefused = false) :
    Replays start (steps.map Attempt.entry) d := by
  obtain ⟨r, hreplay, halike⟩ := h.exists_replay hdone
  exact ⟨r, hreplay, halike.fields_eq⟩

theorem replaysThroughout (h : Course start steps d) (hfaithful : Faithful steps ops) :
    ReplaysThroughout start ops steps d := by
  obtain ⟨hdone, rfl⟩ := hfaithful
  refine ⟨fun early s late hsteps => ?_, h.replays hdone⟩
  have hdone' : ∀ s ∈ early, s.isRefused = false := fun s hs =>
    hdone s (hsteps ▸ List.mem_append_left _ hs)
  have htake : (steps.map Attempt.entry).take early.length = early.map Attempt.entry := by
    rw [hsteps, List.map_append, List.take_append_of_le_length (by simp), List.take_of_length_le
      (by simp)]
  rw [htake]
  exact (h.early hsteps).replays hdone'

/-- **What can be replayed at every moment is `Faithful`.** -/
theorem faithful (h : Course start steps d) (hgrown : GrownLog (steps.map Attempt.entry) ops)
    (hreplays : ReplaysThroughout start ops steps d) : Faithful steps ops := by
  induction h generalizing ops with
  | nil =>
    cases hgrown
    exact ⟨by simp, rfl⟩
  | @aside steps d e _ he ih =>
    obtain ⟨hearly, r, hreplay, hfields⟩ := hreplays
    exact ih hgrown ⟨hearly, r, hreplay, fun f => (hfields f).trans (he.fields_eq f)⟩
  | @attempt steps d h op ih =>
    rw [List.map_append, List.map_singleton] at hgrown
    obtain ⟨more, w, rfl, hlog, hlast⟩ := exists_of_grownLog_concat hgrown
    obtain ⟨hearly, r', hreplay', hfields⟩ := hreplays
    have hlength : steps.length = more.length := by
      simpa using hlog.length_eq
    -- The moments before the last attempt are those of the course without it.
    obtain ⟨hdone, rfl⟩ := ih hlog (by
      refine ⟨fun early s late hsteps => ?_, ?_⟩
      · have hmoment := hearly early s (late ++ [⟨d, op⟩]) (by rw [hsteps]; simp)
        rwa [List.take_append_of_le_length (by rw [← hlength, hsteps]; simp)] at hmoment
      · have hmoment := hearly steps ⟨d, op⟩ [] rfl
        rwa [hlength, List.take_left] at hmoment)
    obtain ⟨r, hreplay, halike⟩ := h.exists_replay hdone
    obtain ⟨r₁, hreplay₁, hrefusal, rfl⟩ := exists_of_attemptAll_concat hreplay'
    obtain rfl : r = r₁ := by
      have hsame := hreplay.symm.trans hreplay₁
      cases hsame
      rfl
    -- The last entry does again what was done, so it stands as it was logged.
    obtain ⟨hdone', rfl⟩ := eq_entry_of_fields halike hlast hrefusal hfields
    refine ⟨List.forall_mem_append.mpr ⟨hdone, List.forall_mem_singleton.mpr hdone'⟩, ?_⟩
    rw [List.map_append, List.map_singleton]
    exact congrArg (fun op => steps.map Attempt.entry ++ [op]) (Operation.withValue_value _)

end Course

/-! ### Programs that end within a bound -/

/-- A program run as `runFrom` runs it, if its end is reached **within a number of moves**. This is
a recursion that can be evaluated. -/
def runWithin : Nat → Program → Tag → View → List Sight → Doclet →
    Option (EStateM.Result DocletFault Doclet Tag)
  | 0, _, _, _, _, _ => none
  | n + 1, p, t, found, seen, d =>
    match p.next t found seen with
    | .stop t => some (.ok t d)
    | .fail fault => some (.error fault d)
    | .ask request =>
      match begin request d with
      | .ok (.inl value) d' => runWithin n p t found (seen ++ [sight (.ok value d')]) d'
      | .error fault d' => runWithin n p t found (seen ++ [sight (.error fault d')]) d'
      | .ok (.inr (u, q)) d' => do
        let r ← runWithin n q u d'.view [] d'
        runWithin n p t found (seen ++ [sight (finish r)]) (left (finish r))

theorem runFrom_of_runWithin {n : Nat} {p : Program} {t : Tag} {found : View} {seen : List Sight}
    {d : Doclet} {r : EStateM.Result DocletFault Doclet Tag}
    (h : runWithin n p t found seen d = some r) : runFrom p t found seen d = some r := by
  induction n generalizing p t found seen d r with
  | zero => cases h
  | succ n ih =>
    -- Both runs do the same move, and an inner run that ended within the bound is the inner run.
    rw [runWithin] at h
    rw [runFrom]
    cases hnext : p.next t found seen with
    | stop t =>
      rw [hnext] at h
      exact h
    | fail fault =>
      rw [hnext] at h
      exact h
    | ask request =>
      rw [hnext] at h
      dsimp only at h ⊢
      cases hbegin : begin request d with
      | error fault d' =>
        rw [hbegin] at h
        exact ih h
      | ok result d' =>
        rw [hbegin] at h
        cases result with
        | inl value => exact ih h
        | inr opened =>
          obtain ⟨r', hinner, hrest⟩ := Option.bind_eq_some_iff.mp h
          exact Option.bind_eq_some_iff.mpr ⟨r', ih hinner, ih hrest⟩

/-- The `Program` run that a hook has left, within a number of moves. -/
def runLeftWithin (n : Nat) (t : Tag) : Option Program → DocletStep Tag
  | none => pure t
  | some p => fun d => (runWithin n p t d.view [] d).getD (.error .endless d)

/-- `RawTag`s applied, with programs that end within a number of moves. -/
def addTagsWithin (n : Nat) : List RawTag → DocletStep Unit
  | [] => pure ()
  | raw :: more => do
    let (t, program) ← openTag raw.title (raw.text.getD "")
    let _ ← closeTag (← runLeftWithin n t program)
    addTagsWithin n more

/-- **What `addTagsWithin` a bound succeeds in, `addTags` does.** -/
theorem addTags_of_within {n : Nat} {tags : List RawTag} {d d' : Doclet}
    (h : addTagsWithin n tags d = .ok () d') : addTags tags d = .ok () d' := by
  induction tags generalizing d with
  | nil => exact h
  | cons raw tags ih =>
    obtain ⟨⟨t, program⟩, d₁, hopen, h⟩ := of_bind_ok h
    obtain ⟨t', d₂, hrun, h⟩ := of_bind_ok h
    obtain ⟨_, d₃, hclose, h⟩ := of_bind_ok h
    -- Within the bound the program ended, for a run that does not has no result to go on with.
    have hleft : runLeft t program d₁ = .ok t' d₂ := by
      cases program with
      | none => exact hrun
      | some p =>
        change (runWithin n p t d₁.view [] d₁).getD _ = _ at hrun
        change (runFrom p t d₁.view [] d₁).getD _ = _
        cases hwithin : runWithin n p t d₁.view [] d₁ with
        | none =>
          rw [hwithin] at hrun
          cases hrun
        | some r =>
          rw [hwithin] at hrun
          rw [runFrom_of_runWithin hwithin]
          exact hrun
    have hadd : addTag raw.title (raw.text.getD "") d = .ok _ d₃ :=
      (bind_ok hopen).trans ((bind_ok hleft).trans hclose)
    rw [addTags, bind_ok hadd]
    exact ih h

/-- A doclet that can be evaluated is built: first `addTagsWithin`, and then `postProcess`. -/
theorem exists_build_of_within (n : Nat) (dictionary : Dictionary) (comment : String)
    (preserveName warnUnknown : Bool) (p : Doclet → Doclet → Bool)
    (h : endsIn (fun d₁ => endsIn (fun d₂ => p d₁ (remarkBuilt d₂))
        (postProcess { d₁ with recording := false }))
      (addTagsWithin n (RawTag.ofComment comment)
        { blank dictionary comment (({} : Origin).merge {}) preserveName warnUnknown with
          recording := true }) = true) :
    ∃ d₁ d, addTags (RawTag.ofComment comment)
        { blank dictionary comment (({} : Origin).merge {}) preserveName warnUnknown with
          recording := true } = .ok () d₁ ∧
      build dictionary comment {} preserveName warnUnknown = .ok () d ∧ p d₁ d = true := by
  obtain ⟨_, d₁, htags, h⟩ := exists_ok_of_endsIn h
  obtain ⟨_, d₂, hpost, h⟩ := exists_ok_of_endsIn h
  have htags := addTags_of_within htags
  exact ⟨d₁, _, htags, applyTags_of_ok htags hpost, h⟩

/-! ### Dictionaries that use the setters -/

/-- The standard tags have no programs, so the standard dictionary `UsesSetters`. -/
theorem usesSetters_standard : UsesSetters .standard := fun p hp =>
  absurd hp (not_isProgramOf_of_build (a := {}) rfl p)

/-- `UsesSetters` stays if the program of a new tag assigns no field. -/
theorem UsesSetters.define {dictionary : Dictionary} (h : UsesSetters dictionary) {x : Definition}
    (hx : ∀ p, x.hook = some (.program p) → ∀ t found seen f v,
      p.next t found seen ≠ .ask (.assign (.field f) v)) : UsesSetters (dictionary.define x) := by
  rintro p ⟨title, definition, hfind, hhook⟩
  rw [Dictionary.find?_define] at hfind
  split at hfind
  · cases hfind
    exact hx p hhook
  · exact h p ⟨title, definition, hfind, hhook⟩

theorem next_inOrder_ne {requests : List (Tag → View → Request)}
    (h : ∀ request ∈ requests, ∀ t view f v, request t view ≠ .assign (.field f) v) (t : Tag)
    (found : View) (seen : List Sight) (f : Field) (v : FieldValue) :
    (Program.inOrder requests).next t found seen ≠ .ask (.assign (.field f) v) := by
  intro hask
  unfold Program.inOrder at hask
  dsimp only at hask
  split at hask
  · cases hask
  · split at hask
    · next request hrequest =>
      exact h request (List.mem_of_getElem? hrequest) _ _ f v (Move.ask.inj hask)
    · cases hask

/-! ### Building a doclet -/

/-- A doclet from `build` has all its tags in, and then what was left to do is done. -/
theorem exists_of_build {dictionary : Dictionary} {comment : String} {patch : Origin.Patch}
    {preserveName warnUnknown : Bool} {d : Doclet}
    (h : build dictionary comment patch preserveName warnUnknown = .ok () d) :
    ∃ d₁ d₂, addTags (RawTag.ofComment comment)
        { blank dictionary comment (({} : Origin).merge patch) preserveName warnUnknown with
          recording := true } = .ok () d₁ ∧
      postProcess { d₁ with recording := false } = .ok () d₂ ∧ d = remarkBuilt d₂ := by
  unfold build buildFrom applyTags at h
  rw [EStateM.run, modify_bind] at h
  obtain ⟨_, d₁, htags, h⟩ := of_bind_ok h
  rw [modify_bind] at h
  obtain ⟨_, d₂, hpost, h⟩ := of_bind_ok h
  cases h
  exact ⟨d₁, d₂, htags, hpost, rfl⟩

/-- Whether what is left to do can be done **on the replayed doclet**, with the switches as the tags
left them, and leads to the fields of `d`. Remarks and the count of the lists go along. -/
def Completes (start d₁ d : Doclet) : Prop :=
  ∃ r e, attemptAll d.operations start = .ok () r ∧
    postProcess { r with
      recording := false, preserveName := d₁.preserveName, warnUnknown := d₁.warnUnknown,
      started := d₁.started, remarks := d₁.remarks } = .ok () e ∧
    ∀ f, e.fields f = d.fields f

/-- Whether **the log is the state** of a doclet `d` for which the tags, from `start`, left `d₁`. -/
structure LogIsState (start d₁ d : Doclet) : Prop where
  /-- Replaying the log leads to the fields that the tags left. -/
  replays : Replays start d.operations d₁
  /-- What is left to do leads from there to the fields of the doclet. -/
  completes : Completes start d₁ d
  /-- No call that comes later changes the log, whether or not it succeeds. -/
  stays : ∀ calls : List Call, (calls.foldl after d).operations = d.operations

namespace Course

variable {start d₁ d₂ : Doclet} {steps : List Attempt}

/-- Once the tags are in, the log is `LogClosed`: the entries of a `Course` can only have grown. -/
theorem logClosed (h : Course start steps d₁) (hrecording : start.recording = true)
    (hnone : start.operations = [])
    (hpost : postProcess { d₁ with recording := false } = .ok () d₂) :
    LogClosed start.dictionary (steps.map Attempt.entry) (remarkBuilt d₂) := by
  have hopen : LogClosed start.dictionary (steps.map Attempt.entry)
      { d₁ with recording := false } :=
    ⟨congrArg Prod.fst h.frame_eq, rfl, h.grownLog hrecording hnone⟩
  have hleaves := (upheld_logClosed start.dictionary _).postProcess hopen
  rw [hpost] at hleaves
  exact ⟨hleaves.dictionary_eq, hleaves.recording_eq, hleaves.grown⟩

/-- A log that is `Faithful` to the `Course` of the tags `Completes`. -/
theorem completes (h : Course start steps d₁)
    (hpost : postProcess { d₁ with recording := false } = .ok () d₂)
    (hfaithful : Faithful steps (remarkBuilt d₂).operations) :
    Completes start d₁ (remarkBuilt d₂) := by
  obtain ⟨hdone, hentries⟩ := hfaithful
  obtain ⟨r, hreplay, halike⟩ := h.exists_replay hdone
  -- Apart from what goes along, the replayed doclet is the one that the tags left.
  have hsame : { r with
      recording := false, preserveName := d₁.preserveName, warnUnknown := d₁.warnUnknown,
      started := d₁.started, remarks := d₁.remarks } = { d₁ with recording := false } := by
    obtain ⟨hcomment, hframe, hwritten, -, hoperations⟩ := halike
    simp only [frame, Prod.mk.injEq] at hframe
    simp only [hcomment, hframe, hwritten, hoperations]
  refine ⟨r, d₂, hentries ▸ hreplay, ?_, fun _ => rfl⟩
  rw [hsame]
  exact hpost

end Course

/-- **When the log is the state.** Let a dictionary be one that `UsesSetters`: its programs change
fields through the setters only. Let `build` make a doclet of a comment. The tags have then run
along a `Course` of attempts, and for every such course:

* `ReplaysThroughout`, that is, the final log can be replayed at every moment of the course, exactly
  if the log is `Faithful`: nothing was refused, and each entry stands as it was logged;
* then it `Completes`: what was left to do, done on the replayed doclet, leads to the final fields;
* `LogIsState`, that is, the log gives the state and no later `Call` changes it, exactly if nothing
  was refused and no entry holds a list. -/
theorem build_log (dictionary : Dictionary) (hsetters : UsesSetters dictionary) (comment : String)
    (patch : Origin.Patch) (preserveName warnUnknown : Bool) (d : Doclet)
    (hbuild : build dictionary comment patch preserveName warnUnknown = .ok () d) :
    let start : Doclet :=
      { blank dictionary comment (({} : Origin).merge patch) preserveName warnUnknown with
        recording := true }
    ∃ d₁, addTags (RawTag.ofComment comment) start = .ok () d₁ ∧
      (∃ steps, Course start steps d₁) ∧
      ∀ steps, Course start steps d₁ →
        (ReplaysThroughout start d.operations steps d₁ ↔ Faithful steps d.operations) ∧
        (Faithful steps d.operations → Completes start d₁ d) ∧
        (LogIsState start d₁ d ↔ (∀ s ∈ steps, s.isRefused = false) ∧
          ∀ op ∈ d.operations, op.value.keys = []) := by
  intro start
  obtain ⟨d₁, d₂, htags, hpost, rfl⟩ := exists_of_build hbuild
  have hcourse : ∃ steps, Course start steps d₁ := by
    have hstart : start.dictionary = dictionary := rfl
    have hleaves := (upheld_course hsetters hstart).addTags (RawTag.ofComment comment) ⟨[], .nil⟩
    rw [htags] at hleaves
    exact hleaves
  refine ⟨d₁, htags, hcourse, fun steps h => ?_⟩
  have hclosed : LogClosed dictionary (steps.map Attempt.entry) (remarkBuilt d₂) :=
    h.logClosed rfl rfl hpost
  have hcompletes : Faithful steps (remarkBuilt d₂).operations →
      Completes start d₁ (remarkBuilt d₂) := h.completes hpost
  refine ⟨⟨h.faithful hclosed.grown, h.replaysThroughout⟩, hcompletes, fun hstate => ?_, ?_⟩
  · -- A list in the log could be made to grow, so there is none, and the log has not grown.
    have hkeys : ∀ op ∈ (remarkBuilt d₂).operations, op.value.keys = [] := by
      refine fun op hop => List.eq_nil_iff_forall_not_mem.mpr fun k hk => ?_
      obtain ⟨calls, hchanged⟩ := exists_calls_of_mem_keys hclosed.recording_eq hop hk
      exact hchanged (hstate.stays calls)
    have hentries := hclosed.grown.eq_of_keys (hclosed.grown.keys_eq_nil hkeys)
    obtain ⟨r, hreplay, -⟩ := hstate.replays
    rw [hentries] at hreplay
    exact ⟨h.isRefused_of_replay hreplay, hkeys⟩
  · rintro ⟨hdone, hkeys⟩
    have hentries := hclosed.grown.eq_of_keys (hclosed.grown.keys_eq_nil hkeys)
    refine ⟨?_, hcompletes ⟨hdone, hentries⟩, fun calls => ?_⟩
    · rw [hentries]
      exact h.replays hdone
    · rw [(hclosed.calls calls).grown.eq_of_keys (hclosed.grown.keys_eq_nil hkeys), hentries]

/-- Programs that read fields, compute texts, branch, write new lists and add tags with programs of
their own; one of them turns the name switch. -/
theorem build_log_nested :
    let widget : Definition :=
      { title := "widget"
        hook := some (.program (.inOrder [
          fun t _ => .change (.set .see (.list none [.text t.text])),
          fun t view => .addTag (.text "gadget")
            (.text (if (view.fields .kind).isEmpty then t.text ++ "!" else "")),
          fun _ view => .change (.append .requires (view.fields .since))])) }
    let gadget : Definition :=
      { title := "gadget"
        hook := some (.program (.inOrder [
          fun _ _ => .assign .preserveName (.flag true),
          fun t _ => .change (.set .since (.text t.text)),
          fun _ view => .addTag (.text "see") (view.fields .since)])) }
    let dictionary := (Dictionary.standard.define widget).define gadget
    let comment := "/** @widget w\n@see b */"
    let start : Doclet :=
      { blank dictionary comment (({} : Origin).merge {}) false true with recording := true }
    UsesSetters dictionary ∧
      ∃ d d₁ steps, build dictionary comment {} false true = .ok () d ∧
        addTags (RawTag.ofComment comment) start = .ok () d₁ ∧ Course start steps d₁ ∧
        (ReplaysThroughout start d.operations steps d₁ ↔ Faithful steps d.operations) ∧
        (Faithful steps d.operations → Completes start d₁ d) ∧
        (LogIsState start d₁ d ↔ (∀ s ∈ steps, s.isRefused = false) ∧
          ∀ op ∈ d.operations, op.value.keys = []) := by
  intro widget gadget dictionary comment start
  have hsetters : UsesSetters dictionary := by
    refine (usesSetters_standard.define ?_).define ?_
    · rintro p ⟨⟩
      exact next_inOrder_ne (by simp)
    · rintro p ⟨⟩
      exact next_inOrder_ne (by simp)
  -- Twenty moves are enough for both programs, so the whole build can be evaluated.
  obtain ⟨_, d, -, hbuild, -⟩ :=
    exists_build_of_within 20 dictionary comment false true (fun _ _ => true) (by decide +kernel)
  obtain ⟨d₁, htags, ⟨steps, hsteps⟩, hlog⟩ :=
    build_log dictionary hsetters comment {} false true d hbuild
  exact ⟨hsetters, d, d₁, steps, hbuild, htags, hsteps, hlog steps hsteps⟩

/-- **A list that is handed on** spoils the log: here *see*, *requires* and an entry of the log hold
one list, so a replay adds the item twice, and an item that is added later changes the log. -/
theorem build_log_shared :
    let shares : Definition :=
      { title := "h"
        hook := some (.program (.inOrder [
          fun _ view => .change (.set .requires (view.fields .see)),
          fun _ _ => .change (.append .requires (.text "r"))])) }
    let dictionary := Dictionary.standard.define shares
    let comment := "/** @see a\n@h */"
    let start : Doclet :=
      { blank dictionary comment (({} : Origin).merge {}) false false with recording := true }
    UsesSetters dictionary ∧
      ∃ d d₁, build dictionary comment {} false false = .ok () d ∧
        addTags (RawTag.ofComment comment) start = .ok () d₁ ∧
        ¬ Replays start d.operations d₁ ∧
        (d.after (.change (.append .see (.text "s")))).operations ≠ d.operations := by
  intro shares dictionary comment start
  have hsetters : UsesSetters dictionary := by
    refine usesSetters_standard.define ?_
    rintro p ⟨⟩
    exact next_inOrder_ne (by simp)
  obtain ⟨d₁, d, htags, hbuild, hchecked⟩ := exists_build_of_within 10 dictionary
    comment false false
    (fun d₁ d => endsIn (fun r => (r.fields .requires).items.length !=
        (d₁.fields .requires).items.length) (attemptAll d.operations start) &&
      (d.after (.change (.append .see (.text "s")))).operations.map (·.value.items.length) !=
        d.operations.map (·.value.items.length))
    (by decide +kernel)
  simp only [Bool.and_eq_true, bne_iff_ne] at hchecked
  obtain ⟨hreplay, hlog⟩ := hchecked
  -- The replay succeeds too, but leaves a longer list: the item is in the entry and is added again.
  obtain ⟨_, r, hreplay, hrequires⟩ := exists_ok_of_endsIn hreplay
  refine ⟨hsetters, d, d₁, hbuild, htags, ?_, fun heq =>
    hlog (congrArg (List.map (·.value.items.length)) heq)⟩
  rintro ⟨r', hreplay', hfields⟩
  cases hreplay.symm.trans hreplay'
  exact bne_iff_ne.mp hrequires (congrArg (·.items.length) (hfields .requires))

end Doclet

end DocComment
