import DocComment.Doclet.Build
import DocComment.Proofs.SharedLists

/-!
# What tags do to a doclet

A tag without a program comes down to operations, `tagOperations`: those of the rules it follows, or
an entry among the unknown tags, and a write to the field it is named for. As long as none of them
is refused, the tag succeeds and the doclet is the one after these operations (`exists_addTag`),
with its name kept as it is if a rule says so.

Most tags write one field. `Writes` says this of a raw tag, for all doclets with the same
dictionary, origin and name switch, and `exists_addTags` carries it over to a list of tags: when
each writes a field of its own, all of them succeed, in whatever order they stand, and each field
holds what its tag says.
-/

namespace DocComment.Doclet

/-! ### Steps in a row -/

theorem bind_ok {α β : Type} {x : DocletStep α} {f : α → DocletStep β} {d d' : Doclet} {a : α}
    (h : x d = .ok a d') : (x >>= f) d = f a d' := by
  change EStateM.bind x f d = _
  unfold EStateM.bind
  rw [h]

/-- In a `bind`, a step may be replaced by one that ends in the same way, even if it starts
elsewhere. -/
theorem bind_of_eq {α β : Type} {x y : DocletStep α} {d e : Doclet} (h : x d = y e)
    (f : α → DocletStep β) : (x >>= f) d = (y >>= f) e := by
  change EStateM.bind x f d = EStateM.bind y f e
  unfold EStateM.bind
  rw [h]

theorem of_bind_ok {α β : Type} {x : DocletStep α} {f : α → DocletStep β} {d d' : Doclet} {b : β}
    (h : (x >>= f) d = .ok b d') : ∃ a d₁, x d = .ok a d₁ ∧ f a d₁ = .ok b d' := by
  cases hx : x d with
  | ok a d₁ =>
    rw [bind_ok hx] at h
    exact ⟨a, d₁, rfl, h⟩
  | error fault d₁ =>
    change EStateM.bind x f d = _ at h
    unfold EStateM.bind at h
    rw [hx] at h
    cases h

theorem modify_bind {α : Type} (f : Doclet → Doclet) (g : PUnit → DocletStep α) (d : Doclet) :
    (modify f >>= g) d = g ⟨⟩ (f d) := rfl

theorem get_bind {α : Type} (g : Doclet → DocletStep α) (d : Doclet) :
    (get >>= g : DocletStep α) d = g d d := rfl

/-- `applyTags` has two stages that can fail: `addTags` applies the tags, and then `postProcess`
does the rest. -/
theorem applyTags_of_ok {tags : List RawTag} {d d₁ d₂ : Doclet}
    (htags : addTags tags { d with recording := true } = .ok () d₁)
    (hpost : postProcess { d₁ with recording := false } = .ok () d₂) :
    applyTags tags d = .ok () d₂.remarkBuilt := by
  unfold applyTags
  rw [modify_bind, bind_ok htags, modify_bind, bind_ok hpost]
  rfl

/-! ### Operations in a row -/

/-- **What every operation keeps, all of them keep**, as long as they are of the kind `P`. -/
theorem performAll_of_perform {I : Doclet → Prop} {P : Operation → Prop}
    (hstep : ∀ {d op}, I d → P op → I (d.perform op)) {d : Doclet} {ops : List Operation} (hd : I d)
    (hops : ∀ op ∈ ops, P op) : I (d.performAll ops) := by
  induction ops generalizing d with
  | nil => exact hd
  | cons op ops ih =>
    obtain ⟨hop, hops⟩ := List.forall_mem_cons.mp hops
    exact ih (hstep hd hop) hops

/-! ### What stays as it is -/

/-- What a tag can depend on besides the fields: dictionary, origin, and whether the name is
kept. -/
def setting (d : Doclet) : Dictionary × Origin × FieldValue :=
  (d.dictionary, d.origin, d.preserveName)

/-- The doclet with further remarks. -/
def noting (d : Doclet) (remarks : List Log.Remark) : Doclet :=
  { d with remarks := d.remarks ++ remarks }

/-- The doclet, with its name kept as it is if `keeps` says so. -/
def keeping (d : Doclet) (keeps : Bool) : Doclet :=
  if keeps then { d with preserveName := .flag true } else d

section Frame

variable (d : Doclet)

@[simp] theorem setting_put (f : Field) (v : FieldValue) : (d.put f v).setting = d.setting := rfl

@[simp] theorem fields_noting (remarks : List Log.Remark) (f : Field) :
    (d.noting remarks).fields f = d.fields f := rfl

@[simp] theorem setting_log (op : Operation) : (d.log op).setting = d.setting := by
  unfold log
  split <;> rfl

@[simp] theorem setting_adopt (home : Slot) (v : FieldValue) :
    (d.adopt home v).2.setting = d.setting := rfl

@[simp] theorem setting_record (op : Operation) : (d.record op).setting = d.setting := by
  rw [record, setting_log, setting_adopt]

variable {b : Bool}

theorem setting_extend (hflag : d.preserveName = .flag b) (key : ListKey) (item : FieldValue) :
    (d.extend key item).setting = d.setting := by
  simp [extend, setting, hflag, FieldValue.extend]

theorem setting_push (hflag : d.preserveName = .flag b) (f : Field) (item : FieldValue) :
    (d.push f item).setting = d.setting := by
  unfold push
  split
  · rfl
  · exact d.setting_extend hflag _ _
  · rfl
  · rfl

/-- **No operation changes the `setting`**, as long as the switch is a switch and no list. -/
theorem setting_perform (hflag : d.preserveName = .flag b) (op : Operation) :
    (d.perform op).setting = d.setting := by
  cases op with
  | append f v =>
    have hrecord : (d.record (.append f v)).preserveName = .flag b := by
      rw [← hflag]
      exact congrArg (·.2.2) (d.setting_record _)
    exact (setting_push _ hrecord f _).trans (d.setting_record _)
  | set f v => exact d.setting_record _
  | memberof v => exact d.setting_record _
  | longname v => exact d.setting_record _

theorem setting_performAll (hflag : d.preserveName = .flag b) (ops : List Operation) :
    (d.performAll ops).setting = d.setting := by
  refine performAll_of_perform (I := fun e => e.setting = d.setting) (P := fun _ => True)
    (fun {e op} he _ => ?_) rfl fun _ _ => trivial
  have hkept : e.preserveName = .flag b := (congrArg (·.2.2) he).trans hflag
  exact (e.setting_perform hkept op).trans he

/-! Dictionary and origin never change while tags are applied, nor does the log start or stop. -/

/-- Dictionary and origin, and whether operations are logged. -/
def frame (d : Doclet) : Dictionary × Origin × Bool :=
  (d.dictionary, d.origin, d.recording)

@[simp] theorem frame_log (op : Operation) : (d.log op).frame = d.frame := by
  unfold log
  split <;> rfl

@[simp] theorem frame_record (op : Operation) : (d.record op).frame = d.frame := by
  rw [record, frame_log]
  rfl

theorem operations_record (hd : d.recording = true) (op : Operation) :
    (d.record op).operations = d.operations ++ [d.logged op] := by
  have hadopt : (d.adopt op.field op.value).2.recording = true := hd
  rw [record, log, if_pos hadopt]
  rfl

theorem frame_push (f : Field) (item : FieldValue) : (d.push f item).frame = d.frame := by
  unfold push
  split <;> rfl

theorem frame_perform (op : Operation) : (d.perform op).frame = d.frame := by
  cases op with
  | append f v => exact (frame_push _ f _).trans (d.frame_record _)
  | set f v => exact d.frame_record _
  | memberof v => exact d.frame_record _
  | longname v => exact d.frame_record _

end Frame

/-! ### What an operation comes to -/

theorem perform_append (d : Doclet) (f : Field) (v : FieldValue) :
    d.perform (.append f v) = (d.record (.append f v)).push f (d.adopt f v).1 := rfl

/-- **What a write comes to**: `record` logs it with the value that the field adopts, and the field
gets this value, unless it is a path that needs a name space. -/
theorem exists_perform_put {op : Operation} (h : op.isAppend = false) (d : Doclet) :
    ∃ v, d.perform op = (d.record op).put op.field v ∧
      (v = (d.adopt op.field op.value).1 ∨ op.field = .longname ∧ ∃ s, v = .text s) := by
  cases op with
  | set f v => exact ⟨_, rfl, .inl rfl⟩
  | memberof v => exact ⟨_, rfl, .inl rfl⟩
  | append f v => cases h
  | longname v =>
    refine ⟨_, rfl, ?_⟩
    -- A path is the one value that is not always taken as it is.
    unfold namespaced
    split
    · exact .inr ⟨rfl, _, rfl⟩
    · exact .inl rfl

/-- `adopt` takes a value with nothing inside as it is. -/
theorem adopt_leaf {v : FieldValue} (h : v.isLeaf = true) (d : Doclet) (home : Slot) :
    d.adopt home v = (v, d) := by
  have hstarted : (fun slot => if slot = home then d.started home else d.started slot) =
      d.started := by
    funext slot
    split
    · next hslot => rw [hslot]
    · rfl
  simp only [adopt, FieldValue.settle_leaf h, hstarted]

/-- Whether none of several operations meets with a `refusal?` when its turn comes. -/
def Unrefused : Doclet → List Operation → Prop
  | _, [] => True
  | d, op :: ops => d.refusal? op = none ∧ Unrefused (d.perform op) ops

theorem unrefused_append {d : Doclet} {ops more : List Operation} :
    Unrefused d (ops ++ more) ↔ Unrefused d ops ∧ Unrefused (d.performAll ops) more := by
  induction ops generalizing d with
  | nil => simp [Unrefused]
  | cons op ops ih => simp [Unrefused, ih, and_assoc]

theorem attemptAll_of_unrefused {d : Doclet} {ops : List Operation} (h : Unrefused d ops) :
    attemptAll ops d = .ok () (d.performAll ops) := by
  induction ops generalizing d with
  | nil => rfl
  | cons op ops ih =>
    rw [attemptAll, bind_ok (attempt_of_not_refused d op h.1), ih h.2, performAll_cons]

/-! ### A tag applied -/

/-- The rules that a `Definition` follows; there are none if its hook is a program. -/
def rulesOf (definition : Definition) : List Rule :=
  match definition.hook with
  | some (.rules rs) => rs
  | _ => []

/-- The write to the field that a tag is named for. -/
def directOperations (t : Tag) : List Operation :=
  (directField? t.title).toList.map fun f => .set f (plainValue t.value)

/-- The operations that rules come down to, in a doclet with the setting of `d`. -/
def ruleOperations (d : Doclet) (t : Tag) (rs : List Rule) : List Operation :=
  rs.flatMap (Rule.operations d.dictionary d.origin.filename t)

theorem ruleOperations_congr {d d' : Doclet} (h : d'.setting = d.setting) (t : Tag)
    (rs : List Rule) : ruleOperations d' t rs = ruleOperations d t rs := by
  unfold ruleOperations
  rw [show d'.dictionary = d.dictionary from congrArg Prod.fst h,
    show d'.origin = d.origin from congrArg (·.2.1) h]

/-- `follow` keeps the name, if the rule says so, before anything else. -/
theorem follow_eq (d : Doclet) (t : Tag) (r : Rule) :
    follow t r d =
      attemptAll (r.operations d.dictionary d.origin.filename t) (d.keeping r.keepsName) := by
  unfold follow keeping
  cases r.keepsName <;> rfl

theorem ruleOperations_cons (d : Doclet) (t : Tag) (r : Rule) (rs : List Rule) :
    ruleOperations d t (r :: rs) =
      r.operations d.dictionary d.origin.filename t ++ ruleOperations d t rs := by
  simp [ruleOperations]

theorem preserveName_keeping {d : Doclet} {b : Bool} (hflag : d.preserveName = .flag b)
    (keeps : Bool) : (d.keeping keeps).preserveName = .flag (keeps || b) := by
  cases keeps with
  | false => exact hflag
  | true => rfl

theorem ruleOperations_keeping (d : Doclet) (keeps : Bool) (t : Tag) (rs : List Rule) :
    ruleOperations (d.keeping keeps) t rs = ruleOperations d t rs := by
  cases keeps <;> rfl

/-- **`followAll` comes down to the operations of its rules.** Only the first of them may keep the
name, so that this is done before all operations. -/
theorem followAll_of_unrefused {d : Doclet} {b : Bool} (hflag : d.preserveName = .flag b) {t : Tag}
    {rs : List Rule} (hkeeps : ∀ r ∈ rs.tail, r.keepsName = false)
    (h : Unrefused (d.keeping (rs.any Rule.keepsName)) (ruleOperations d t rs)) :
    followAll t rs d =
      .ok () ((d.keeping (rs.any Rule.keepsName)).performAll (ruleOperations d t rs)) := by
  induction rs generalizing d b with
  | nil => rfl
  | cons r rs ih =>
    have hnone : rs.any Rule.keepsName = false :=
      List.any_eq_false.mpr fun r hr => by simp [hkeeps r hr]
    rw [List.any_cons, hnone, Bool.or_false, ruleOperations_cons] at h ⊢
    obtain ⟨hfirst, hmore⟩ := unrefused_append.mp h
    have hfollow := (follow_eq d t r).trans (attemptAll_of_unrefused hfirst)
    -- The rules that follow see the same setting, and so have the same operations.
    have hflag' := preserveName_keeping hflag r.keepsName
    have hsetting := setting_performAll _ hflag' (r.operations d.dictionary d.origin.filename t)
    have hsame := (ruleOperations_congr hsetting t rs).trans
      (ruleOperations_keeping d r.keepsName t rs)
    have hkept := (congrArg (·.2.2) hsetting).trans hflag'
    have hrest := ih hkept (fun r hr => hkeeps r (List.mem_of_mem_tail hr)) (by
      rw [hnone, hsame]
      exact hmore)
    rw [hnone, hsame] at hrest
    rw [followAll, bind_ok hfollow, performAll_append]
    exact hrest

/-- Whether a `Program` is the hook of a tag in the dictionary. -/
def IsProgramOf (dictionary : Dictionary) (p : Program) : Prop :=
  ∃ title definition, dictionary.find? title = some definition ∧
    definition.hook = some (.program p)

/-- Whether a definition has no program, and of its rules none but the first may keep the name. -/
def isRuleBased (definition : Definition) : Bool :=
  match definition.hook with
  | some (.program _) => false
  | _ => (rulesOf definition).tail.all fun r => !r.keepsName

/-- What a hook does to the doclet, be it by rules or by a program; the tag is as the hook leaves
it. -/
def runHook (t : Tag) (hook : Option Hook) : DocletStep Tag := do
  runLeft t (← startHook t hook)

theorem runHook_rules (t : Tag) (rs : List Rule) :
    runHook t (some (.rules rs)) = followAll t rs >>= fun _ => pure t := by
  unfold runHook startHook
  rw [bind_assoc]
  rfl

/-- `runHook` without a program follows the rules, and leaves the tag as it is. -/
theorem runHook_of_isRuleBased {definition : Definition} (h : isRuleBased definition = true)
    (t : Tag) :
    runHook t definition.hook = followAll t (rulesOf definition) >>= fun _ => pure t := by
  unfold isRuleBased at h
  unfold rulesOf
  cases hhook : definition.hook with
  | none => rfl
  | some hook =>
    cases hook with
    | rules rs => exact runHook_rules t rs
    | program p =>
      rw [hhook] at h
      cases h

theorem keepsName_of_isRuleBased {definition : Definition} (h : isRuleBased definition = true) :
    ∀ r ∈ (rulesOf definition).tail, r.keepsName = false := by
  intro r hr
  unfold isRuleBased at h
  split at h
  · cases h
  · simpa using List.all_eq_true.mp h r hr

theorem runHook_of_unrefused {d : Doclet} {b : Bool} (hflag : d.preserveName = .flag b) {t : Tag}
    {definition : Definition} (hbased : isRuleBased definition = true)
    (h : Unrefused (d.keeping ((rulesOf definition).any Rule.keepsName))
      (ruleOperations d t (rulesOf definition))) :
    runHook t definition.hook d =
      .ok t ((d.keeping ((rulesOf definition).any Rule.keepsName)).performAll
        (ruleOperations d t (rulesOf definition))) := by
  rw [runHook_of_isRuleBased hbased]
  exact bind_ok (followAll_of_unrefused hflag (keepsName_of_isRuleBased hbased) h)

theorem writeDirect_of_unrefused {d : Doclet} {t : Tag} (h : Unrefused d (directOperations t)) :
    writeDirect t d = .ok () (d.performAll (directOperations t)) := by
  unfold writeDirect
  unfold directOperations at h ⊢
  cases hfield : directField? t.title with
  | none => rfl
  | some f =>
    rw [hfield] at h
    exact attempt_of_not_refused d _ h.1

/-- The operations that a known tag's rules come down to; an unknown tag is kept as it is. -/
def hookOperations (dictionary : Dictionary) (origin : Origin) (title text : String) :
    List Operation :=
  let t := Tag.read dictionary title text
  match dictionary.find? title with
  | none => [.append .tags (.ofTag t)]
  | some definition =>
    (rulesOf definition).flatMap (Rule.operations dictionary origin.filename t)

/-- The **operations that a tag comes down to**, if it has no program. -/
def tagOperations (dictionary : Dictionary) (origin : Origin) (title text : String) :
    List Operation :=
  hookOperations dictionary origin title text ++ directOperations (Tag.read dictionary title text)

/-- Whether a tag without a program keeps the name as it is. -/
def keepsNameOf (dictionary : Dictionary) (title : String) : Bool :=
  match dictionary.find? title with
  | none => false
  | some definition => (rulesOf definition).any Rule.keepsName

section Applied

variable {d : Doclet} {b : Bool} (hflag : d.preserveName = .flag b) (title text : String)

theorem readWithRemarks_fst (dictionary : Dictionary) (origin : Origin) :
    (Tag.readWithRemarks dictionary origin title text).1 = Tag.read dictionary title text := by
  unfold Tag.readWithRemarks
  dsimp only
  split <;> rfl

/-- What happens between the reading of a tag and its closing. -/
def tagStep (title : String) (t : Tag) (definition : Option Definition) : DocletStep Tag :=
  match definition with
  | none => keepUnknown title (.ofTag t) >>= fun _ => pure t
  | some definition => runHook t definition.hook

/-- In `addTag`, reading the tag leaves nothing but remarks; what is left are its hook and its
direct write. -/
theorem addTag_steps (d : Doclet) :
    addTag title text d =
      (tagStep title (Tag.read d.dictionary title text) (d.dictionary.find? title) >>= closeTag)
        (d.noting (Tag.readWithRemarks d.dictionary d.origin title text).2) := by
  unfold addTag openTag tagStep
  rw [← readWithRemarks_fst title text d.dictionary d.origin, bind_assoc, get_bind]
  cases d.dictionary.find? title with
  | none =>
    simp only [bind_assoc, pure_bind]
    rfl
  | some definition =>
    simp only [runHook, bind_assoc, pure_bind]
    rfl

/-- `keepUnknown` makes a remark, perhaps, and keeps the tag. -/
theorem exists_keepUnknown (tag : FieldValue)
    (h : ∀ remarks, (d.noting remarks).refusal? (.append .tags tag) = none) :
    ∃ remarks, keepUnknown title tag d =
      .ok () ((d.noting remarks).perform (.append .tags tag)) := by
  have hnoting : d.noting [] = d := by
    simp [noting]
  unfold keepUnknown
  rw [get_bind]
  cases d.warnsUnknown with
  | false =>
    refine ⟨[], ?_⟩
    rw [hnoting]
    exact attempt_of_not_refused d _ (hnoting ▸ h [])
  | true => exact ⟨_, attempt_of_not_refused _ _ (h _)⟩

include hflag

/-- **A tag without a program is its `tagOperations`**: `addTag` performs them, with remarks made
and the name kept before. -/
theorem exists_addTag
    (hbased : ∀ definition, d.dictionary.find? title = some definition →
      isRuleBased definition = true)
    (h : ∀ remarks, Unrefused ((d.noting remarks).keeping (keepsNameOf d.dictionary title))
      (tagOperations d.dictionary d.origin title text)) :
    ∃ remarks, addTag title text d = .ok (Tag.read d.dictionary title text)
      (((d.noting remarks).keeping (keepsNameOf d.dictionary title)).performAll
        (tagOperations d.dictionary d.origin title text)) := by
  have hsteps := addTag_steps title text d
  generalize (Tag.readWithRemarks d.dictionary d.origin title text).2 = remarks at hsteps
  simp only [tagOperations, hookOperations, keepsNameOf, unrefused_append] at h ⊢
  cases hfind : d.dictionary.find? title with
  | none =>
    -- An unknown tag: its warning is one more remark, made after those of the reading.
    simp only [hfind] at hsteps h ⊢
    obtain ⟨more, hkeep⟩ := exists_keepUnknown (d := d.noting remarks) title
      (.ofTag (Tag.read d.dictionary title text)) fun more => by
        have hunrefused := (h (remarks ++ more)).1.1
        simpa [noting, List.append_assoc, keeping] using hunrefused
    have hnoting : (d.noting remarks).noting more = d.noting (remarks ++ more) := by
      simp [noting]
    rw [hnoting] at hkeep
    refine ⟨remarks ++ more, ?_⟩
    rw [hsteps, performAll_append]
    have hstep : tagStep title (Tag.read d.dictionary title text) none (d.noting remarks) =
        .ok (Tag.read d.dictionary title text) _ := bind_ok hkeep
    exact (bind_ok hstep).trans (bind_ok (writeDirect_of_unrefused (h (remarks ++ more)).2))
  | some definition =>
    simp only [hfind] at hsteps h ⊢
    -- A known tag: first its rules, then the write to the field it is named for.
    have hhook := runHook_of_unrefused (d := d.noting remarks) hflag (hbased definition hfind)
      (h remarks).1
    refine ⟨remarks, ?_⟩
    rw [hsteps, performAll_append]
    exact (bind_ok hhook).trans (bind_ok (writeDirect_of_unrefused (h remarks).2))

end Applied

/-! ### Tags that write one field -/

/-- Whether `d'` is `d` with the value `v` **in the field `f`**, log and remarks apart. -/
structure Wrote (d : Doclet) (f : Field) (v : FieldValue) (d' : Doclet) : Prop where
  /-- The setting stays. -/
  setting_eq : d'.setting = d.setting
  /-- The field holds the value. -/
  field_eq : d'.fields f = v
  /-- All other fields stay. -/
  other : ∀ g, g ≠ f → d'.fields g = d.fields g

theorem wrote_put (d : Doclet) (f : Field) (v : FieldValue) : Wrote d f v (d.put f v) :=
  ⟨rfl, fields_put_same d f v, fun _ hg => fields_put_ne d v hg⟩

/-- `Wrote` holds of a doclet and itself, for the value that the field has. -/
theorem wrote_self (d : Doclet) (f : Field) : Wrote d f (d.fields f) d :=
  ⟨rfl, rfl, fun _ _ => rfl⟩

/-- Whether an operation puts its value into its field as it is: it writes a field or the owner, and
the value has nothing inside. -/
def isPlainWrite : Operation → Bool
  | .set _ v => v.isLeaf
  | .memberof v => v.isLeaf
  | _ => false

theorem refusal?_of_isPlainWrite {op : Operation} (h : isPlainWrite op = true) (d : Doclet) :
    d.refusal? op = none := by
  cases op with
  | set f v => rfl
  | memberof v => rfl
  | append f v => cases h
  | longname v => cases h

theorem wrote_perform {op : Operation} (h : isPlainWrite op = true) (d : Doclet) :
    Wrote d op.field op.value (d.perform op) := by
  have hput : ∀ f v, Wrote d f v ((d.record op).put f v) := fun f v =>
    ⟨d.setting_record op, fields_put_same _ f v, fun g hg => by
      rw [fields_put_ne _ _ hg, fields_record]⟩
  -- Such a value is adopted as it is.
  cases op with
  | set f v =>
    change Wrote d f v ((d.record (.set f v)).put f (d.adopt f v).1)
    rw [adopt_leaf h]
    exact hput f v
  | memberof v =>
    change Wrote d .memberof v ((d.record (.memberof v)).put .memberof (d.adopt Field.memberof v).1)
    rw [adopt_leaf h]
    exact hput .memberof v
  | append f v => cases h
  | longname v => cases h

/-- Whether a raw tag **writes** the value `v` to the field `f` and nothing else, in all doclets
with the setting `s`. -/
def Writes (s : Dictionary × Origin × FieldValue) (raw : RawTag) (f : Field) (v : FieldValue) :
    Prop :=
  ∀ d : Doclet, d.setting = s →
    ∃ t d', addTag raw.title (raw.text.getD "") d = .ok t d' ∧ Wrote d f v d'

/-- A tag whose `tagOperations` are one plain write `Writes` its value. -/
theorem writes_of_operation {dictionary : Dictionary} {origin : Origin} {b : Bool} {raw : RawTag}
    (op : Operation)
    (hbased : ∀ definition, dictionary.find? raw.title = some definition →
      isRuleBased definition = true)
    (hkeeps : keepsNameOf dictionary raw.title = false)
    (hoperation : tagOperations dictionary origin raw.title (raw.text.getD "") = [op])
    (hplain : isPlainWrite op = true) :
    Writes (dictionary, origin, .flag b) raw op.field op.value := by
  intro d hd
  obtain ⟨rfl, rfl, hflag⟩ : d.dictionary = dictionary ∧ d.origin = origin ∧
      d.preserveName = .flag b := by
    simpa [setting] using hd
  -- One operation that is never refused, behind the remarks.
  obtain ⟨remarks, hadd⟩ := exists_addTag hflag raw.title (raw.text.getD "") hbased
    fun remarks => by
      rw [hoperation]
      exact ⟨refusal?_of_isPlainWrite hplain _, trivial⟩
  rw [hoperation, hkeeps] at hadd
  obtain ⟨hsetting, hfield, hother⟩ := wrote_perform hplain (d.noting remarks)
  exact ⟨_, _, hadd, hsetting, hfield, hother⟩

/-- A tag without a rule that is named for a field `Writes` its text to it. -/
theorem writes_direct {dictionary : Dictionary} {origin : Origin} {b : Bool} {f : Field}
    {title text : String} (htrim : Text.trim text = text)
    (hfind : dictionary.find? title = some { title := title, needsValue := true })
    (hfield : directField? title = some f) :
    Writes (dictionary, origin, .flag b) ⟨title, some text⟩ f (.text text) := by
  refine writes_of_operation (.set f (.text text)) (fun definition hfound => ?_) ?_ ?_ rfl
  · obtain rfl := Option.some.inj (hfind.symm.trans hfound)
    rfl
  · rw [keepsNameOf, hfind]
    rfl
  · simp [tagOperations, hookOperations, Tag.read, hfind, Tag.trimText, Tag.valueOf, htrim, rulesOf,
      directOperations, hfield, plainValue]

/-- **Tags of which each `Writes` a field of its own** all succeed, and each field holds what its
tag says. -/
theorem exists_addTags {s : Dictionary × Origin × FieldValue} {field : RawTag → Field}
    {value : RawTag → FieldValue} {tags : List RawTag}
    (hwrites : ∀ raw ∈ tags, Writes s raw (field raw) (value raw))
    (hnodup : (tags.map field).Nodup) {d : Doclet} (hd : d.setting = s) :
    ∃ d', addTags tags d = .ok () d' ∧ d'.setting = s ∧
      (∀ raw ∈ tags, d'.fields (field raw) = value raw) ∧
      ∀ g, g ∉ tags.map field → d'.fields g = d.fields g := by
  induction tags generalizing d with
  | nil => exact ⟨d, rfl, hd, by simp, fun _ _ => rfl⟩
  | cons raw tags ih =>
    obtain ⟨hraw, htags⟩ := List.forall_mem_cons.mp hwrites
    obtain ⟨hfresh, hnodup⟩ := List.nodup_cons.mp hnodup
    obtain ⟨t, d₁, hadd, hsetting, hvalue, hother⟩ := hraw d hd
    obtain ⟨d₂, hmore, hd₂, hvalues, hothers⟩ := ih htags hnodup (hsetting.trans hd)
    refine ⟨d₂, ?_, hd₂, ?_, ?_⟩
    · rw [addTags, bind_ok hadd, hmore]
    · -- A later tag does not write the field of the first.
      refine List.forall_mem_cons.mpr ⟨?_, hvalues⟩
      rw [hothers _ hfresh, hvalue]
    · intro g hg
      rw [List.map_cons, List.mem_cons, not_or] at hg
      rw [hothers g hg.2, hother g hg.1]

end DocComment.Doclet
