import DocComment.Proofs.Resolution

/-!
# What every step keeps

A property of doclets that all operations keep is kept by all that happens to a doclet: by a tag,
whatever its hook is and however deeply programs add further tags, and by what is left to do when
all tags are in.

`Upheld` lists what has to be shown of a property once: that single operations keep it, and that the
hooks of the dictionary come down to such operations. `Upheld.runFrom` then follows a program along
its own run, and `Upheld.addTag` and `Upheld.addTags` rest on it. `UpheldThroughout` adds the few
writes that resolving names makes past the log, and `UpheldThroughout.postProcess` follows. A step
that fails stops halfway, and a program may catch the fault and go on; so what a failed step leaves
has to have the property too (`Leaves`).
-/

namespace DocComment.Doclet

open DocComment.Namepath (Parts)

variable {I : Doclet → Prop} {d : Doclet}

/-! ### Steps -/

/-- Whether a step **left** a doclet with the property `I`, be it that it succeeded or that it
failed. -/
def Leaves (I : Doclet → Prop) {α : Type} (r : EStateM.Result DocletFault Doclet α) : Prop :=
  I (left r)

/-- Whether a step succeeded, with a doclet that passes the test `p`. -/
def endsIn (p : Doclet → Bool) {α : Type} : EStateM.Result DocletFault Doclet α → Bool
  | .ok _ d => p d
  | .error _ _ => false

theorem exists_ok_of_endsIn {p : Doclet → Bool} {α : Type}
    {r : EStateM.Result DocletFault Doclet α} (h : endsIn p r = true) :
    ∃ a d, r = .ok a d ∧ p d = true := by
  cases r with
  | ok a d => exact ⟨a, d, rfl, h⟩
  | error fault d => cases h

/-- `Leaves` for a step in two parts follows from both: the second starts where the first ends. -/
theorem leaves_bind {α β : Type} {x : DocletStep α} {f : α → DocletStep β}
    (hx : Leaves I (x d)) (hf : ∀ a d', I d' → Leaves I (f a d')) : Leaves I ((x >>= f) d) := by
  change Leaves I (EStateM.bind x f d)
  unfold EStateM.bind
  cases hresult : x d with
  | ok a d' =>
    rw [hresult] at hx
    exact hf a d' hx
  | error fault d' =>
    rw [hresult] at hx
    exact hx

/-- Whether a step left a doclet with the property `I`, and, if it succeeded, **yields** a result
with the property `P`. -/
def Yields (I : Doclet → Prop) {α : Type} (P : α → Prop) (r : EStateM.Result DocletFault Doclet α) :
    Prop :=
  Leaves I r ∧ ∀ a d, r = .ok a d → P a

theorem yields_pure {α : Type} {P : α → Prop} {a : α} (ha : P a) (hd : I d) :
    Yields I P ((pure a : DocletStep α) d) := by
  refine ⟨hd, fun b d' hresult => ?_⟩
  cases hresult
  exact ha

theorem yields_throw {α : Type} {P : α → Prop} {fault : DocletFault} (hd : I d) :
    Yields I P ((throw fault : DocletStep α) d) := by
  refine ⟨hd, fun b d' hresult => ?_⟩
  cases hresult

/-- `Yields` for a step in two parts follows from both: the second starts where the first ends. -/
theorem yields_bind {α β : Type} {x : DocletStep α} {f : α → DocletStep β} {P : α → Prop}
    {Q : β → Prop} (hx : Yields I P (x d)) (hf : ∀ a d', P a → I d' → Yields I Q (f a d')) :
    Yields I Q ((x >>= f) d) := by
  change Yields I Q (EStateM.bind x f d)
  unfold EStateM.bind
  cases hresult : x d with
  | ok a d' =>
    rw [hresult] at hx
    exact hf a d' (hx.2 a d' rfl) hx.1
  | error fault d' =>
    rw [hresult] at hx
    -- After a fault the second part is not run.
    refine ⟨hx.1, fun b d'' hend => ?_⟩
    cases hend

/-- What `Leaves` a property also `Yields` it, with nothing said of the result. -/
theorem Leaves.yields {α : Type} {r : EStateM.Result DocletFault Doclet α} (h : Leaves I r) :
    Yields I (fun _ => True) r :=
  ⟨h, fun _ _ _ => trivial⟩

/-- Two ways to go on are the same if they are on all doclets that the first part `Leaves`. -/
theorem bind_congr_of_leaves {α β : Type} {x : DocletStep α} {f g : α → DocletStep β}
    (hx : Leaves I (x d)) (hfg : ∀ a d', I d' → f a d' = g a d') : (x >>= f) d = (x >>= g) d := by
  change EStateM.bind x f d = EStateM.bind x g d
  unfold EStateM.bind
  cases hresult : x d with
  | ok a d' =>
    rw [hresult] at hx
    exact hfg a d' hx
  | error fault d' => rfl

/-- Whether the property `I` is **upheld** by all tags of a dictionary. The operations at hand are
those that `Sound` admits. -/
structure Upheld (dictionary : Dictionary) (I : Doclet → Prop) (Sound : Operation → Prop) :
    Prop where
  /-- The dictionary stays the same. -/
  dictionary_eq : ∀ {d}, I d → d.dictionary = dictionary
  /-- An operation keeps the property. -/
  perform : ∀ {d op}, I d → Sound op → d.refusal? op = none → I (d.perform op)
  /-- So does one that is refused, and only logged. -/
  refuse : ∀ {d op fault}, I d → Sound op → d.refusal? op = some fault → I (d.record op)
  /-- Remarks do not matter. -/
  noting : ∀ {d}, I d → ∀ remarks, I (d.noting remarks)
  /-- Neither does the name switch. -/
  keeping : ∀ {d}, I d → ∀ keeps, I (d.keeping keeps)
  /-- An unknown tag may be kept. -/
  unknown : ∀ t, Sound (.append .tags (.ofTag t))
  /-- So may one whose title is no text, if there are programs that could add it. -/
  stray : ∀ {p}, IsProgramOf dictionary p → ∀ title text,
    Sound (.append .tags (.strayTag title text))
  /-- A tag may write the field it is named for. -/
  direct : ∀ {title f}, directField? title = some f → ∀ v, Sound (.set f (plainValue v))
  /-- The rules of the dictionary come down to sound operations. -/
  rule : ∀ {title definition}, dictionary.find? title = some definition →
    ∀ r ∈ rulesOf definition, ∀ filename text,
      ∀ op ∈ r.operations dictionary filename (Tag.read dictionary title text), Sound op
  /-- Its programs ask for nothing but sound operations. -/
  change : ∀ {p}, IsProgramOf dictionary p → ∀ t found seen op,
    p.next t found seen = .ask (.change op) → Sound op
  /-- What programs assign keeps the property. -/
  assign : ∀ {p}, IsProgramOf dictionary p → ∀ t found seen slot v,
    p.next t found seen = .ask (.assign slot v) → ∀ {d}, I d → I (d.assign slot v)

namespace Upheld

variable {dictionary : Dictionary} {Sound : Operation → Prop}
  (h : Upheld dictionary I Sound)
include h

theorem attempt {op : Operation} (hop : Sound op) (hd : I d) : Leaves I (attempt op d) := by
  unfold Doclet.attempt
  rw [get_bind]
  cases hrefusal : d.refusal? op with
  | none => exact h.perform hd hop hrefusal
  | some fault => exact h.refuse hd hop hrefusal

theorem attemptAll {ops : List Operation} (hops : ∀ op ∈ ops, Sound op) (hd : I d) :
    Leaves I (attemptAll ops d) := by
  induction ops generalizing d with
  | nil => exact hd
  | cons op ops ih =>
    obtain ⟨hop, hops⟩ := List.forall_mem_cons.mp hops
    exact leaves_bind (h.attempt hop hd) fun _ _ hd' => ih hops hd'

/-! ### Tags without programs -/

theorem followAll {title : String} {definition : Definition}
    (hfind : dictionary.find? title = some definition) (text : String) {rs : List Rule}
    (hrs : ∀ r ∈ rs, r ∈ rulesOf definition) (hd : I d) :
    Leaves I (followAll (Tag.read dictionary title text) rs d) := by
  induction rs generalizing d with
  | nil => exact hd
  | cons r rs ih =>
    obtain ⟨hr, hrs⟩ := List.forall_mem_cons.mp hrs
    refine leaves_bind ?_ fun _ _ hd' => ih hrs hd'
    rw [follow_eq, h.dictionary_eq hd]
    exact h.attemptAll (h.rule hfind r hr _ _) (h.keeping hd _)

theorem keepUnknown {title : String} {tag : FieldValue} (htag : Sound (.append .tags tag))
    (hd : I d) : Leaves I (keepUnknown title tag d) := by
  unfold Doclet.keepUnknown
  rw [get_bind]
  cases d.warnsUnknown with
  | false => exact h.attempt htag hd
  | true => exact h.attempt htag (h.noting hd _)

/-- `startHook` leaves no program but one of the dictionary. -/
theorem startHook {title : String} {definition : Definition}
    (hfind : dictionary.find? title = some definition) (text : String) (hd : I d) :
    Yields I (fun left => ∀ p ∈ left, IsProgramOf dictionary p)
      (startHook (Tag.read dictionary title text) definition.hook d) := by
  cases hhook : definition.hook with
  | none => exact yields_pure (by simp) hd
  | some hook =>
    cases hook with
    | rules rs =>
      -- Rules are followed to their end here and leave no program to run.
      have hrs : ∀ r ∈ rs, r ∈ rulesOf definition := by
        intro r hr
        rw [rulesOf, hhook]
        exact hr
      exact yields_bind (h.followAll hfind text hrs hd).yields fun _ _ _ hd' =>
        yields_pure (by simp) hd'
    | program p =>
      refine yields_pure ?_ hd
      rintro q ⟨⟩
      exact ⟨title, definition, hfind, hhook⟩

/-- Neither does `openTag`. -/
theorem openTag (title text : String) (hd : I d) :
    Yields I (fun opened => ∀ p ∈ opened.2, IsProgramOf dictionary p) (openTag title text d) := by
  -- Reading the tag leaves remarks and nothing else.
  have hnoted := h.noting hd (Tag.readWithRemarks d.dictionary d.origin title text).2
  unfold Doclet.openTag
  rw [get_bind]
  refine yields_bind (Leaves.yields hnoted) fun _ d' _ hd' => ?_
  rw [h.dictionary_eq hd]
  cases hfind : dictionary.find? title with
  | none =>
    exact yields_bind (h.keepUnknown (h.unknown _) hd').yields fun _ _ _ hd'' =>
      yields_pure (by simp) hd''
  | some definition =>
    exact yields_bind (h.startHook hfind text hd') fun left _ hleft hd'' => yields_pure hleft hd''

theorem closeTag (t : Tag) (hd : I d) : Leaves I (closeTag t d) := by
  refine leaves_bind ?_ fun _ _ hd' => hd'
  unfold Doclet.writeDirect
  cases hfield : directField? t.title with
  | none => exact hd
  | some f => exact h.attempt (h.direct hfield _) hd

/-! ### Programs -/

theorem keepStray {p : Program} (hp : IsProgramOf dictionary p) (title text : FieldValue)
    (hd : I d) :
    Leaves I (keepStray title text d) := by
  unfold Doclet.keepStray
  cases title.unkeyed? with
  | some kind => exact hd
  | none =>
    cases tagText .empty "" text with
    | error fault => exact hd
    | ok body => exact leaves_bind (h.keepUnknown (h.stray hp _ _) hd) fun _ _ hd' => hd'

theorem addTagOf {p : Program} (hp : IsProgramOf dictionary p) {α : Type} {P : α → Prop}
    {addTag : String → String → DocletStep α} {kept : FieldValue → α}
    (hadd : ∀ title text {d}, I d → Yields I P (addTag title text d))
    (hkept : ∀ v, P (kept v)) (title text : FieldValue) (hd : I d) :
    Yields I P (addTagOf addTag kept title text d) := by
  unfold Doclet.addTagOf
  rw [get_bind]
  cases title with
  | text s =>
    dsimp only
    cases tagText d.dictionary s text with
    | ok body => exact hadd s body hd
    | error fault => exact yields_throw hd
  | _ =>
    exact yields_bind (h.keepStray hp _ text hd).yields fun _ _ _ hd' =>
      yields_pure (hkept _) hd'

/-- `begin` leaves no program to run but one of the dictionary. -/
theorem begin {p : Program} (hp : IsProgramOf dictionary p) {t : Tag} {found : View}
    {seen : List Sight} {request : Request} (hask : p.next t found seen = .ask request) (hd : I d) :
    Yields I (fun result => ∀ u q, result = .inr (u, q) → IsProgramOf dictionary q)
      (begin request d) := by
  cases request with
  | change op =>
    exact yields_bind (h.attempt (h.change hp t found seen op hask) hd).yields fun _ _ _ hd' =>
      yields_pure (by simp) hd'
  | assign slot value =>
    exact yields_pure (by simp) (h.assign hp t found seen slot value hask hd)
  | addTag title text =>
    -- The tag is opened; without a program it is closed at once.
    refine h.addTagOf hp (fun title text {d} hd => ?_) (by simp) title text hd
    refine yields_bind (h.openTag title text hd) fun opened d' hopened hd' => ?_
    obtain ⟨u, program⟩ := opened
    cases program with
    | some q =>
      refine yields_pure ?_ hd'
      rintro u' q' ⟨⟩
      exact hopened q rfl
    | none =>
      exact yields_bind (h.closeTag u hd').yields fun _ _ _ hd'' => yields_pure (by simp) hd''

theorem finish {r : EStateM.Result DocletFault Doclet Tag} (hr : Leaves I r) :
    Leaves I (finish r) := by
  cases r with
  | error fault d => exact hr
  | ok t d => exact leaves_bind (h.closeTag t hr) fun _ _ hd => hd

/-- **`runFrom` keeps the property** along a whole run, and so do all the programs that run within
it. -/
theorem runFrom {p : Program} {t : Tag} {found : View} {seen : List Sight}
    {r : EStateM.Result DocletFault Doclet Tag} (hrun : runFrom p t found seen d = some r)
    (hp : IsProgramOf dictionary p) (hd : I d) : Leaves I r := by
  -- The induction is on the run itself: `run` is a stage of it, and has the property by `ih`.
  refine Doclet.runFrom.partial_correctness
    (fun p _ _ _ d r => IsProgramOf dictionary p → I d → Leaves I r) ?_
    p t found seen d r hrun hp hd
  intro run ih p t found seen d r hrun hp hd
  cases hnext : p.next t found seen with
  | stop t =>
    rw [hnext] at hrun
    cases hrun
    exact hd
  | fail fault =>
    rw [hnext] at hrun
    cases hrun
    exact hd
  | ask request =>
    rw [hnext] at hrun
    dsimp only at hrun
    have hbegin := h.begin hp hnext hd
    cases hresult : Doclet.begin request d with
    | error fault d' =>
      rw [hresult] at hbegin hrun
      exact ih _ _ _ _ _ _ hrun hp hbegin.1
    | ok result d' =>
      rw [hresult] at hbegin hrun
      cases result with
      | inl value => exact ih _ _ _ _ _ _ hrun hp hbegin.1
      | inr opened =>
        -- The program of the added tag runs to its end before this one goes on.
        obtain ⟨r', hinner, hrest⟩ := Option.bind_eq_some_iff.mp hrun
        have hr' := ih _ _ _ _ _ _ hinner (hbegin.2 _ _ rfl _ _ rfl) hbegin.1
        exact ih _ _ _ _ _ _ hrest hp (h.finish hr')

theorem runProgram {p : Program} (hp : IsProgramOf dictionary p) (t : Tag) (hd : I d) :
    Leaves I (runProgram p t d) := by
  unfold Doclet.runProgram
  cases hrun : Doclet.runFrom p t d.view [] d with
  | none => exact hd
  | some r => exact h.runFrom hrun hp hd

/-! ### Tags -/

/-- **`addTag` keeps the property**, whatever the hook is. -/
theorem addTag (title text : String) (hd : I d) : Leaves I (addTag title text d) := by
  have hyields : Yields I (fun _ => True) (Doclet.addTag title text d) := by
    refine yields_bind (h.openTag title text hd) fun opened d' hopened hd' => ?_
    obtain ⟨t, program⟩ := opened
    cases program with
    | none => exact (h.closeTag t hd').yields
    | some p =>
      exact yields_bind (h.runProgram (hopened p rfl) t hd').yields fun t _ _ hd'' =>
        (h.closeTag t hd'').yields
  exact hyields.1

/-- `addTags` keeps the property, tag by tag. -/
theorem addTags (tags : List RawTag) (hd : I d) : Leaves I (addTags tags d) := by
  induction tags generalizing d with
  | nil => exact hd
  | cons raw tags ih => exact leaves_bind (h.addTag _ _ hd) fun _ _ hd' => ih hd'

end Upheld

/-! ### When all tags are in -/

/-- Whether a property is upheld by tags and **by `postProcess`**, what is left to do when they are
in. -/
structure UpheldThroughout (dictionary : Dictionary) (I : Doclet → Prop)
    (Sound : Operation → Prop) : Prop extends Upheld dictionary I Sound where
  /-- Name, scope and variation are written past the log. -/
  put : ∀ {d}, I d → ∀ f ∈ [Field.name, .scope, .variation], ∀ s, I (d.put f (.text s))
  /-- The owner may be any text. -/
  memberof : ∀ s, Sound (.memberof (.text s))
  /-- The owner may be dropped. -/
  dropped : Sound (.memberof .absent)
  /-- The path may be any text. -/
  longname : ∀ s, Sound (.longname (.text s))
  /-- The path may be the name. -/
  named : ∀ {d}, I d → Sound (.longname (d.fields .name))

namespace UpheldThroughout

variable {dictionary : Dictionary} {Sound : Operation → Prop}
  (h : UpheldThroughout dictionary I Sound)
include h

theorem findParts (hd : I d) : Leaves I (findParts d) := by
  unfold Doclet.findParts
  rw [get_bind]
  cases ownerPath (d.fields .memberof) with
  | error fault => exact hd
  | ok owner =>
    dsimp only
    -- Whatever branch is taken, nothing is written but a remark.
    cases needsScope (namePath (d.fields .name)) owner with
    | false =>
      cases knownParts (namePath (d.fields .name)) owner (scopeOf? (d.fields .scope)) with
      | some parts => exact hd
      | none => exact h.noting hd _
    | true =>
      cases scopeRefusal? (d.fields .scope) with
      | some fault => exact hd
      | none =>
        cases knownParts (namePath (d.fields .name)) owner (scopeOf? (d.fields .scope)) with
        | some parts => exact hd
        | none => exact h.noting hd _

theorem takeNames (parts : Parts) (hd : I d) : Leaves I (takeNames parts d) := by
  rw [takeNames_eq]
  refine leaves_bind ?_ fun _ _ hd' => leaves_bind ?_ fun _ d'' hd'' => ?_
  · cases parts.name.isEmpty with
    | true => exact hd
    | false => exact h.put hd .name (by decide) _
  · cases parts.memberof.isEmpty with
    | true => exact hd'
    | false => exact h.attempt (h.memberof _) hd'
  · rw [get_bind]
    cases !parts.longname.isEmpty && (d''.fields .longname).isEmpty with
    | true => exact h.attempt (h.longname _) hd''
    | false => exact hd''

theorem makeStatic (hd : I d) : Leaves I (makeStatic d) := by
  unfold Doclet.makeStatic
  rw [modify_bind, get_bind]
  have hd' := h.put hd .scope (by decide) Scope.static.word
  cases staticPath ((d.put .scope (.text Scope.static.word)).fields .memberof)
      ((d.put .scope (.text Scope.static.word)).fields .name) with
  | ok path => exact h.attempt (h.longname _) hd'
  | error fault => exact hd'

theorem settleScope (parts : Parts) (hd : I d) : Leaves I (settleScope parts d) := by
  unfold Doclet.settleScope
  rw [get_bind]
  cases d.isGlobal with
  | true =>
    exact leaves_bind (h.attempt (h.named hd) hd) fun _ _ hd' => h.attempt h.dropped hd'
  | false =>
    cases parts.scope with
    | some s => exact h.put hd .scope (by decide) _
    | none =>
      cases d.lacksPath with
      | true => exact h.makeStatic hd
      | false => exact hd

theorem takeVariation (parts : Parts) (hd : I d) : I (takeVariation parts d) := by
  unfold Doclet.takeVariation
  split
  · exact h.put hd .variation (by decide) _
  · exact hd

/-- **`resolve` keeps the property.** -/
theorem resolve (hd : I d) : Leaves I (resolve d) := by
  unfold Doclet.resolve
  exact leaves_bind (h.findParts hd) fun parts _ hd => leaves_bind (h.takeNames parts hd)
    fun _ _ hd => leaves_bind (h.settleScope parts hd) fun _ _ hd => h.takeVariation parts hd

theorem completeNames (hd : I d) : Leaves I (completeNames d) := by
  have hfallback : ∀ {d}, I d → Leaves I ((do
      let d ← get
      if !(d.fields .name).isEmpty && (d.fields .longname).isEmpty then
        setLongname (d.fields .name) : DocletStep Unit) d) := by
    intro d hd
    rw [get_bind]
    cases !(d.fields .name).isEmpty && (d.fields .longname).isEmpty with
    | true => exact h.attempt (h.named hd) hd
    | false => exact hd
  unfold Doclet.completeNames
  rw [get_bind]
  cases d.keepsName with
  | true => exact hfallback hd
  | false => exact leaves_bind (h.resolve hd) fun _ _ hd' => hfallback hd'

/-- **`postProcess` keeps the property.** -/
theorem postProcess (hd : I d) : Leaves I (postProcess d) := by
  unfold Doclet.postProcess
  refine leaves_bind (h.completeNames hd) fun _ d' hd' => ?_
  rw [get_bind]
  cases (d'.fields .kind).isEmpty && !d'.origin.code.isEmpty with
  | true =>
    have hnoted : I (remarkInferred (Code.kindOfType d'.origin.code.type) d') := h.noting hd' _
    exact leaves_bind hnoted fun _ _ hd => leaves_bind (h.addTag _ _ hd) fun _ _ hd'' => hd''
  | false => exact hd'

end UpheldThroughout

/-! ### Calls -/

/-- What can be done to a doclet from outside: a tag is applied, a field is changed by a setter, or
names are resolved. -/
inductive Call where
  /-- A tag is applied. -/
  | addTag (title text : String)
  /-- A setter makes an operation. -/
  | change (op : Operation)
  /-- What is left to do when all tags are in is done. -/
  | postProcess
  /-- Names are resolved. -/
  | resolve

/-- The `DocletStep` that a call makes. -/
def Call.run : Call → DocletStep Unit
  | addTag title text => do
    let _ ← Doclet.addTag title text
  | change op => attempt op
  | postProcess => Doclet.postProcess
  | resolve => Doclet.resolve

/-- The doclet **after a `Call`**, whether or not the call failed. -/
def after (d : Doclet) (c : Call) : Doclet :=
  left (c.run d)

/-- A property that is `UpheldThroughout` holds after every call that makes sound operations. -/
theorem UpheldThroughout.after {dictionary : Dictionary} {Sound : Operation → Prop}
    (h : UpheldThroughout dictionary I Sound) {c : Call} (hc : ∀ op, c = .change op → Sound op)
    (hd : I d) : I (d.after c) := by
  cases c with
  | addTag title text => exact leaves_bind (h.addTag title text hd) fun _ _ hd' => hd'
  | change op => exact h.attempt (hc op rfl) hd
  | postProcess => exact h.postProcess hd
  | resolve => exact h.resolve hd

end DocComment.Doclet
