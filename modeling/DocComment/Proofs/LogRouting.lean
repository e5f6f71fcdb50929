import DocComment.Log.Outlet
import DocComment.Proofs.FilePlaces

/-!
# Where the records of a whole run go

A run sets the outlets anew now and then, and logs records in between. Each time the outlets are set
an **epoch** begins, and it has the records up to the next one (`epochs`). What a run leaves behind
is told by its epochs alone: the stream of an epoch shows those of its records that reach the level
of the console, and a log file holds the records of all epochs that it was set for, in their order.

`Routed` says this of outlets. Setting the outlets anew keeps it, with an epoch more
(`Routed.configure`), and so does a record, which belongs to the latest epoch (`Routed.emit`). The
rest follows for whole runs (`Routed.run`).
-/

namespace DocComment.Log

/-! ### Runs and their epochs -/

/-- A step of a run: the outlets are set anew, or a record is logged at a `time`. -/
inductive Event where
  /-- The outlets are set anew. -/
  | configure (verbose : Bool) (logFile : Option Path)
  /-- A record is logged in the area `area`, at the time `time`. -/
  | log (time : String) (level : Level) (area message : String)
  deriving DecidableEq, Repr

/-- The outlets after an `Event`, unless the log file cannot be set. -/
def Outlets.step (here : Path) (o : Outlets) : Event → Except FileError Outlets
  | .configure verbose logFile => o.configure here verbose logFile
  | .log time level area message => .ok (o.emit here ⟨⟨level, logger area, message⟩, time⟩)

/-- The outlets after a run of `step`s. -/
def Outlets.run (here : Path) (o : Outlets) (events : List Event) : Except FileError Outlets :=
  events.foldlM (Outlets.step here) o

/-- An **epoch**: how the outlets were set, and the records that were logged until they were set
anew. -/
structure Epoch where
  verbose : Bool
  logFile : Option Path
  records : List Record
  deriving DecidableEq, Repr

/-- The records that are logged before the next `configure`. -/
def recordsUntilSet : List Event → List Record
  | .log time level area message :: events =>
    ⟨⟨level, logger area, message⟩, time⟩ :: recordsUntilSet events
  | .configure _ _ :: _ => []
  | [] => []

/-- The **epochs** of a run. Records before the first one belong to none. -/
def epochs : List Event → List Epoch
  | .configure verbose logFile :: events =>
    ⟨verbose, logFile, recordsUntilSet events⟩ :: epochs events
  | .log .. :: events => epochs events
  | [] => []

namespace Epoch

/-- What the stream of an epoch shows: each `consoleLine` of a record that reaches the level. -/
def shown (e : Epoch) : String :=
  String.join ((e.records.filter (·.level.reaches (Outlets.consoleLevel e.verbose))).map
    Record.consoleLine)

/-- The place of the `logFile`, if there is one. -/
def place? (here : Path) (e : Epoch) : Option (List String) :=
  e.logFile.map fun path => (Path.normal here path).parts

/-- What an epoch adds to its log file: the `fileLine` of each record, encoded. -/
def filed (e : Epoch) : List UInt8 :=
  e.records.flatMap fun r => Text.encodeUtf8 r.fileLine

/-- The outlets of an epoch whose stream has the number `number`. -/
def outlets (here : Path) (number : Nat) (e : Epoch) : List Outlet :=
  ⟨.stream number, Outlets.consoleLevel e.verbose⟩ ::
    e.logFile.toList.map fun path => ⟨.file (Path.normal here path), .debug⟩

/-- The least level that the logger lets through. -/
def threshold (e : Epoch) : Level :=
  if e.logFile.isSome then .debug else Outlets.consoleLevel e.verbose

/-- An `Epoch` with one more record. -/
def add (e : Epoch) (r : Record) : Epoch :=
  { e with records := e.records ++ [r] }

theorem shown_add (e : Epoch) (r : Record) : (e.add r).shown =
    if r.level.reaches (Outlets.consoleLevel e.verbose) then e.shown ++ r.consoleLine
    else e.shown := by
  unfold shown add
  dsimp only
  rw [List.filter_append, List.map_append]
  split
  · next hreaches => simp [String.join, List.foldl_append, hreaches]
  · next hbelow => simp [hbelow]

theorem filed_add (e : Epoch) (r : Record) :
    (e.add r).filed = e.filed ++ Text.encodeUtf8 r.fileLine := by
  simp [filed, add]

end Epoch

/-- What a run adds to the file at `place`. -/
def filedAt (here : Path) (place : List String) (es : List Epoch) : List UInt8 :=
  es.flatMap fun e => if e.place? here = some place then e.filed else []

section Epochs

variable {events : List Event}

theorem recordsUntilSet_append_of_set (h : epochs events ≠ []) (more : List Event) :
    recordsUntilSet (events ++ more) = recordsUntilSet events := by
  induction events with
  | nil => exact absurd rfl h
  | cons event events ih =>
    cases event with
    | configure verbose logFile => rfl
    | log time level area message =>
      rw [List.cons_append, recordsUntilSet, recordsUntilSet, ih h]

theorem recordsUntilSet_append_of_not_set (h : epochs events = []) (more : List Event) :
    recordsUntilSet (events ++ more) = recordsUntilSet events ++ recordsUntilSet more := by
  induction events with
  | nil => rfl
  | cons event events ih =>
    cases event with
    | configure verbose logFile => cases h
    | log time level area message =>
      rw [List.cons_append, recordsUntilSet, recordsUntilSet, ih h, List.cons_append]

/-- A `configure` begins an epoch. -/
theorem epochs_configure (events : List Event) (verbose : Bool) (logFile : Option Path) :
    epochs (events ++ [.configure verbose logFile]) =
      epochs events ++ [⟨verbose, logFile, []⟩] := by
  induction events with
  | nil => rfl
  | cons event events ih =>
    cases event with
    | log time level area message => exact ih
    | configure verbose' logFile' =>
      rw [List.cons_append, epochs, epochs, ih, List.cons_append]
      congr 2
      -- The records end at the first setting, be it the new one or not.
      by_cases hset : epochs events = []
      · rw [recordsUntilSet_append_of_not_set hset]
        exact List.append_nil _
      · exact recordsUntilSet_append_of_set hset _

/-- Without an epoch a `log` gets lost. -/
theorem epochs_log_of_none (h : epochs events = []) (time : String) (level : Level)
    (area message : String) : epochs (events ++ [.log time level area message]) = [] := by
  induction events with
  | nil => rfl
  | cons event events ih =>
    cases event with
    | log time' level' area' message' => exact ih h
    | configure verbose logFile => cases h

/-- A `log` belongs to the latest epoch. -/
theorem epochs_log {earlier : List Epoch} {e : Epoch} (h : epochs events = earlier ++ [e])
    (time : String) (level : Level) (area message : String) :
    epochs (events ++ [.log time level area message]) =
      earlier ++ [e.add ⟨⟨level, logger area, message⟩, time⟩] := by
  induction events generalizing earlier with
  | nil => simp [epochs] at h
  | cons event events ih =>
    cases event with
    | log time' level' area' message' => exact ih h
    | configure verbose logFile =>
      rw [List.cons_append, epochs]
      rw [epochs] at h
      rcases List.eq_nil_or_concat (epochs events) with hnone | ⟨es, last, hsome⟩
      · -- This is the latest epoch.
        rw [hnone] at h
        obtain ⟨rfl, rfl⟩ : earlier = [] ∧ e = ⟨verbose, logFile, recordsUntilSet events⟩ := by
          cases earlier with
          | nil => exact ⟨rfl, (List.cons.inj h).1.symm⟩
          | cons _ es => simp at h
        rw [epochs_log_of_none hnone, recordsUntilSet_append_of_not_set hnone]
        rfl
      · rw [List.concat_eq_append] at hsome
        -- A later epoch has the record, and this one stays as it is.
        have hset : epochs events ≠ [] := by simp [hsome]
        rw [recordsUntilSet_append_of_set hset]
        cases earlier with
        | nil => simp [hsome] at h
        | cons first es' =>
          obtain ⟨rfl, hrest⟩ := List.cons.inj h
          rw [ih hrest, List.cons_append]

/-- All `epochs` but the latest are over: what comes after does not change them. -/
theorem dropLast_epochs_isPrefix (events more : List Event) :
    (epochs events).dropLast <+: epochs (events ++ more) := by
  induction events with
  | nil => exact List.nil_prefix
  | cons event events ih =>
    cases event with
    | log time level area message => exact ih
    | configure verbose logFile =>
      rw [List.cons_append, epochs, epochs]
      by_cases hset : epochs events = []
      · rw [hset]
        exact List.nil_prefix
      · -- Further on the log is set again, which ends this epoch.
        rw [List.dropLast_cons_of_ne_nil hset, recordsUntilSet_append_of_set hset]
        exact (List.prefix_cons_inj _).mpr ih

end Epochs

/-! ### Files -/

/-- Whether `t'` is `t` with `bytes` at the end of the file at `place?`, which can take more;
without a place nothing is added. -/
structure AddedAt (here : Path) (place? : Option (List String)) (bytes : List UInt8)
    (t t' : FileTree) : Prop where
  appendable : ∀ place, place? = some place → t'.Appendable here place
  added : ∀ place, place? = some place →
    t'.bytes? place = some ((t.bytes? place).getD [] ++ bytes)
  other : ∀ place, place? ≠ some place → t'.bytes? place = t.bytes? place

theorem addedAt_none (here : Path) (bytes : List UInt8) (t : FileTree) :
    AddedAt here none bytes t t :=
  ⟨fun _ h => (Option.some_ne_none _ h.symm).elim, fun _ h => (Option.some_ne_none _ h.symm).elim,
    fun _ _ => rfl⟩

theorem addedAt_append {here path : Path} {bytes : List UInt8} {t t' : FileTree}
    (h : t.append here (Path.normal here path) bytes = .ok t') :
    AddedAt here (some (Path.normal here path).parts) bytes t t' := by
  -- In its normal form a path leads to one place only.
  have hdots : ".." ∉ (Path.normal here path).parts := Path.dots_notMem_collapse _
  obtain ⟨hne, heq⟩ := FileTree.append_eq hdots h
  refine ⟨?_, ?_, fun place hplace => ?_⟩
  · rintro _ ⟨rfl⟩
    exact FileTree.appendable_of_append hdots h
  · rintro _ ⟨rfl⟩
    rw [heq]
    exact FileTree.bytes?_put_file _ _ hne
  · rw [heq]
    exact FileTree.bytes?_put_ne _ _ fun heq => hplace (congrArg some heq)

/-- Whether the files hold **what the epochs added** to those in `files`, and else are as before. -/
structure Filed (here : Path) (files : FileTree) (es : List Epoch) (t : FileTree) : Prop where
  filed : ∀ place, (∃ e ∈ es, e.place? here = some place) →
    t.bytes? place = some ((files.bytes? place).getD [] ++ filedAt here place es)
  kept : ∀ place, (∀ e ∈ es, e.place? here ≠ some place) → t.bytes? place = files.bytes? place

section Filed

variable {here : Path} {files t t' : FileTree} {es : List Epoch}

/-- The bytes of a file that need not be there, for files that are `Filed`. -/
theorem Filed.getD_bytes? (h : Filed here files es t) (place : List String) :
    (t.bytes? place).getD [] = (files.bytes? place).getD [] ++ filedAt here place es := by
  by_cases hplace : ∃ e ∈ es, e.place? here = some place
  · rw [h.filed place hplace, Option.getD_some]
  · have hnone : ∀ e ∈ es, e.place? here ≠ some place := fun e he heq => hplace ⟨e, he, heq⟩
    have hnothing : filedAt here place es = [] :=
      List.flatMap_eq_nil_iff.mpr fun e he => if_neg (hnone e he)
    rw [h.kept place hnone, hnothing, List.append_nil]

/-- **More bytes in the file of the latest epoch.** The epochs `es'` differ from `es` in these. -/
theorem Filed.add (h : Filed here files es t) {es' : List Epoch} {place? : Option (List String)}
    {bytes : List UInt8} (hadded : AddedAt here place? bytes t t')
    (hplaces : ∀ place, (∃ e ∈ es', e.place? here = some place) ↔
      (∃ e ∈ es, e.place? here = some place) ∨ place? = some place)
    (hbytes : ∀ place, filedAt here place es' =
      filedAt here place es ++ if place? = some place then bytes else []) :
    Filed here files es' t' := by
  refine ⟨fun place hplace => ?_, fun place hplace => ?_⟩
  · rw [hbytes place]
    -- Only the file of the latest epoch gets more.
    by_cases hlatest : place? = some place
    · rw [hadded.added place hlatest, h.getD_bytes?, if_pos hlatest, List.append_assoc]
    · rw [hadded.other place hlatest, if_neg hlatest, List.append_nil]
      exact h.filed place (((hplaces place).mp hplace).resolve_right hlatest)
  · have hneither := mt (hplaces place).mpr fun ⟨e, he, heq⟩ => hplace e he heq
    obtain ⟨hearlier, hlatest⟩ := not_or.mp hneither
    rw [hadded.other place hlatest]
    exact h.kept place fun e he heq => hearlier ⟨e, he, heq⟩

end Filed

/-! ### Single steps -/

section Steps

variable {here : Path} {o o' : Outlets} {e : Epoch}

/-- What **`configure`** comes to: a new stream, the outlets of the epoch, and a log file that is
there. -/
theorem of_configure {verbose : Bool} {logFile : Option Path} (he : e = ⟨verbose, logFile, []⟩)
    (h : o.configure here verbose logFile = .ok o') :
    o'.streams = o.streams ++ [""] ∧ o'.outlets = e.outlets here o.streams.length ∧
      o'.threshold = some e.threshold ∧ AddedAt here (e.place? here) [] o.files o'.files := by
  subst he
  cases logFile with
  | none =>
    cases h
    exact ⟨rfl, rfl, rfl, addedAt_none here [] o.files⟩
  | some path =>
    cases hmake : o.files.makeDirectories here path.parent with
    | error fault =>
      simp [Outlets.configure, hmake, bind, Except.bind] at h
    | ok files₁ =>
      cases happend : files₁.append here (Path.normal here path) [] with
      | error fault =>
        simp [Outlets.configure, hmake, happend, bind, Except.bind] at h
      | ok files₂ =>
        -- The file is opened without a byte, in directories whose making changes no file.
        have hadded := addedAt_append happend
        have hbytes := FileTree.bytes?_makeDirectories hmake
        simp only [Outlets.configure, hmake, happend, bind, Except.bind, pure, Except.pure] at h
        cases h
        refine ⟨rfl, rfl, rfl, hadded.appendable, fun place hplace => ?_, fun place hplace => ?_⟩
        · rw [hadded.added place hplace, hbytes]
        · rw [hadded.other place hplace, hbytes]

theorem deliver_stream (here : Path) (r : Record) (o : Outlets) (number : Nat) (level : Level) :
    Outlets.deliver here r o ⟨.stream number, level⟩ = { o with
      streams := if r.level.reaches level then o.streams.modify number (· ++ r.consoleLine)
        else o.streams } := by
  unfold Outlets.deliver
  cases r.level.reaches level <;> rfl

theorem deliver_file {r : Record} (hlevel : r.level.reaches .debug = true) {path : Path}
    {files : FileTree} (h : o.files.append here path (Text.encodeUtf8 r.fileLine) = .ok files) :
    Outlets.deliver here r o ⟨.file path, .debug⟩ = { o with files := files } := by
  unfold Outlets.deliver
  rw [if_pos hlevel]
  dsimp only
  rw [h]

theorem passes_of_threshold {level : Level} (h : o.threshold = some level) (r : Record) :
    o.passes r = r.level.reaches level := by
  rw [Outlets.passes, h]

/-- `emit` with a console alone: logger and console have the same threshold. -/
theorem emit_console {number : Nat} {level : Level}
    (houtlets : o.outlets = [⟨.stream number, level⟩])
    (hthreshold : o.threshold = some level) (r : Record) :
    o.emit here r = { o with
      streams := if r.level.reaches level then o.streams.modify number (· ++ r.consoleLine)
        else o.streams } := by
  have hall : o.outlets.foldl (Outlets.deliver here r) o =
      Outlets.deliver here r o ⟨.stream number, level⟩ := by
    rw [houtlets]
    rfl
  rw [Outlets.emit, passes_of_threshold hthreshold, hall, deliver_stream]
  cases r.level.reaches level <;> rfl

/-- `emit` with a log file: the logger lets everything through, and the console has its own
threshold. -/
theorem emit_file {number : Nat} {level : Level} {path : Path} {r : Record} {files : FileTree}
    (houtlets : o.outlets = [⟨.stream number, level⟩, ⟨.file path, .debug⟩])
    (hthreshold : o.threshold = some .debug) (hlevel : r.level.reaches .debug = true)
    (hfiles : o.files.append here path (Text.encodeUtf8 r.fileLine) = .ok files) :
    o.emit here r = { o with
      streams := if r.level.reaches level then o.streams.modify number (· ++ r.consoleLine)
        else o.streams
      files := files } := by
  have hall : o.outlets.foldl (Outlets.deliver here r) o = Outlets.deliver here r
      (Outlets.deliver here r o ⟨.stream number, level⟩) ⟨.file path, .debug⟩ := by
    rw [houtlets]
    rfl
  rw [Outlets.emit, passes_of_threshold hthreshold, if_pos hlevel, hall, deliver_stream]
  exact deliver_file hlevel hfiles

/-- What **`emit`** comes to, if the outlets are those of an epoch. -/
theorem of_emit {number : Nat} {r : Record} (houtlets : o.outlets = e.outlets here number)
    (hthreshold : o.threshold = some e.threshold)
    (hopen : ∀ place, e.place? here = some place → o.files.Appendable here place)
    (hlevel : r.level.reaches .debug = true) :
    (o.emit here r).streams =
        (if r.level.reaches (Outlets.consoleLevel e.verbose) then
          o.streams.modify number (· ++ r.consoleLine) else o.streams) ∧
      (o.emit here r).outlets = o.outlets ∧ (o.emit here r).threshold = o.threshold ∧
      AddedAt here (e.place? here) (Text.encodeUtf8 r.fileLine) o.files (o.emit here r).files := by
  obtain ⟨verbose, logFile, records⟩ := e
  cases logFile with
  | none =>
    rw [emit_console houtlets hthreshold]
    exact ⟨rfl, rfl, rfl, addedAt_none here _ o.files⟩
  | some path =>
    have hfiles := (hopen _ rfl).2 (Text.encodeUtf8 r.fileLine)
    rw [emit_file houtlets hthreshold hlevel hfiles]
    exact ⟨rfl, rfl, rfl, addedAt_append hfiles⟩

end Steps

/-! ### Whole runs -/

theorem modify_length_append (texts : List String) (last : String) (f : String → String) :
    (texts ++ [last]).modify texts.length f = texts ++ [f last] := by
  induction texts with
  | nil => rfl
  | cons text texts ih => exact congrArg (text :: ·) ih

/-- Whether `Outlets` are **as the epochs say**, given the files that were there at first. -/
structure Routed (here : Path) (files : FileTree) (es : List Epoch) (o : Outlets) : Prop where
  streams : o.streams = es.map Epoch.shown
  silent : es = [] → o.outlets = []
  outlets : ∀ earlier e, es = earlier ++ [e] → o.outlets = e.outlets here earlier.length
  threshold : ∀ earlier e, es = earlier ++ [e] → o.threshold = some e.threshold
  appendable : ∀ earlier e, es = earlier ++ [e] →
    ∀ place, e.place? here = some place → o.files.Appendable here place
  filed : Filed here files es o.files

namespace Routed

variable {here : Path} {files : FileTree} {es earlier : List Epoch} {e : Epoch} {o o' : Outlets}

theorem start (here : Path) (files : FileTree) : Routed here files [] { files := files } where
  streams := rfl
  silent _ := rfl
  outlets earlier e h := by simp at h
  threshold earlier e h := by simp at h
  appendable earlier e h := by simp at h
  filed := ⟨fun _ ⟨_, h, _⟩ => absurd h List.not_mem_nil, fun _ _ => rfl⟩

/-- `Routed` holds after `configure`, which **begins an epoch**. -/
theorem configure (h : Routed here files es o) {verbose : Bool} {logFile : Option Path}
    (hstep : o.configure here verbose logFile = .ok o') :
    Routed here files (es ++ [⟨verbose, logFile, []⟩]) o' := by
  obtain ⟨hstreams, houtlets, hthreshold, hadded⟩ := of_configure rfl hstep
  -- The latest epoch is the new one, so what `Routed` says of the latest is said of it.
  have hlast : ∀ earlier e, es ++ [⟨verbose, logFile, []⟩] = earlier ++ [e] →
      earlier = es ∧ e = ⟨verbose, logFile, []⟩ := by
    intro earlier e heq
    obtain ⟨rfl, hlast⟩ := List.append_inj' heq rfl
    exact ⟨rfl, (List.singleton_inj.mp hlast).symm⟩
  refine ⟨?_, ?_, ?_, ?_, ?_, h.filed.add hadded (fun place => ?_) fun place => ?_⟩
  · rw [hstreams, h.streams, List.map_append]
    rfl
  · simp
  · intro earlier e heq
    obtain ⟨rfl, rfl⟩ := hlast earlier e heq
    rw [houtlets, h.streams, List.length_map]
  · intro earlier e heq
    obtain ⟨rfl, rfl⟩ := hlast earlier e heq
    exact hthreshold
  · intro earlier e heq
    obtain ⟨rfl, rfl⟩ := hlast earlier e heq
    exact hadded.appendable
  · simp [or_and_right, exists_or]
  · simp [filedAt, Epoch.filed]

/-- `Routed` holds after `emit`: a record goes to **the latest epoch**. -/
theorem emit (h : Routed here files (earlier ++ [e]) o) {r : Record}
    (hlevel : r.level.reaches .debug = true) :
    Routed here files (earlier ++ [e.add r]) (o.emit here r) := by
  obtain ⟨hstreams, houtlets, hthreshold, hadded⟩ := of_emit (h.outlets earlier e rfl)
    (h.threshold earlier e rfl) (h.appendable earlier e rfl) hlevel
  -- The latest epoch is the old one with the record, which has the same outlets.
  have hlast : ∀ earlier' e', earlier ++ [e.add r] = earlier' ++ [e'] →
      earlier' = earlier ∧ e' = e.add r := by
    intro earlier' e' heq
    obtain ⟨rfl, hlast⟩ := List.append_inj' heq rfl
    exact ⟨rfl, (List.singleton_inj.mp hlast).symm⟩
  refine ⟨?_, ?_, ?_, ?_, ?_, h.filed.add hadded (fun place => ?_) fun place => ?_⟩
  · -- The stream of the latest epoch is the last one.
    have hmodify : o.streams.modify earlier.length (· ++ r.consoleLine) =
        earlier.map Epoch.shown ++ [e.shown ++ r.consoleLine] := by
      have hlength : earlier.length = (earlier.map Epoch.shown).length :=
        List.length_map _ |>.symm
      rw [h.streams, List.map_append, List.map_singleton, hlength, modify_length_append]
    rw [hstreams, hmodify, List.map_append, List.map_singleton, Epoch.shown_add, h.streams,
      List.map_append, List.map_singleton]
    split <;> rfl
  · simp
  · intro earlier' e' heq
    obtain ⟨rfl, rfl⟩ := hlast earlier' e' heq
    exact houtlets.trans (h.outlets _ e rfl)
  · intro earlier' e' heq
    obtain ⟨rfl, rfl⟩ := hlast earlier' e' heq
    exact hthreshold.trans (h.threshold _ e rfl)
  · intro earlier' e' heq
    obtain ⟨rfl, rfl⟩ := hlast earlier' e' heq
    exact hadded.appendable
  · have hplace : (e.add r).place? here = e.place? here := rfl
    simp [or_and_right, exists_or, hplace]
  · have hplace : (e.add r).place? here = e.place? here := rfl
    simp only [filedAt, List.flatMap_append, List.flatMap_singleton, hplace, Epoch.filed_add]
    split <;> simp

/-- Before the first epoch `emit` goes nowhere. -/
theorem emit_silent (h : Routed here files [] o) (r : Record) :
    Routed here files [] (o.emit here r) := by
  have hemit : o.emit here r = o := by
    rw [Outlets.emit, h.silent rfl]
    exact ite_self o
  rw [hemit]
  exact h

/-- **What one `step` does** to outlets that are `Routed`. -/
theorem step {events : List Event} (h : Routed here files (epochs events) o) {event : Event}
    (hlevel : ∀ time level area message, event = .log time level area message →
      level.reaches .debug = true)
    (hstep : o.step here event = .ok o') : Routed here files (epochs (events ++ [event])) o' := by
  cases event with
  | configure verbose logFile =>
    rw [epochs_configure]
    exact h.configure hstep
  | log time level area message =>
    cases hstep
    have hlevel := hlevel time level area message rfl
    -- A record is lost before the first epoch, and goes to the latest one afterwards.
    rcases List.eq_nil_or_concat (epochs events) with hnone | ⟨earlier, e, hsome⟩
    · rw [hnone] at h
      rw [epochs_log_of_none hnone]
      exact h.emit_silent _
    · rw [List.concat_eq_append] at hsome
      rw [hsome] at h
      rw [epochs_log hsome]
      exact h.emit hlevel

/-- **What a `run` does** to outlets that are `Routed`, after the events that led there. -/
theorem run {before : List Event} (h : Routed here files (epochs before) o) {after : List Event}
    (hlevels : ∀ time level area message, .log time level area message ∈ after →
      level.reaches .debug = true)
    (hrun : o.run here after = .ok o') : Routed here files (epochs (before ++ after)) o' := by
  induction after generalizing before o with
  | nil =>
    cases hrun
    rwa [List.append_nil]
  | cons event after ih =>
    unfold Outlets.run at hrun
    rw [List.foldlM_cons] at hrun
    cases hstep : o.step here event with
    | error fault =>
      rw [hstep] at hrun
      cases hrun
    | ok o₁ =>
      rw [hstep] at hrun
      -- By induction on the events to come; the one that was just done joins those before.
      have hnext := h.step (fun time level area message heq =>
        hlevels time level area message (heq ▸ List.mem_cons_self)) hstep
      rw [← List.singleton_append, ← List.append_assoc]
      exact ih hnext (fun time level area message hmem =>
        hlevels time level area message (List.mem_cons_of_mem _ hmem)) hrun

end Routed

/-- A `run` that succeeds can be stopped anywhere. -/
theorem of_run_append {here : Path} {o o' : Outlets} {before after : List Event}
    (h : o.run here (before ++ after) = .ok o') :
    ∃ m, o.run here before = .ok m ∧ m.run here after = .ok o' := by
  unfold Outlets.run at h
  rw [List.foldlM_append] at h
  cases hbefore : before.foldlM (Outlets.step here) o with
  | error fault =>
    rw [hbefore] at h
    cases h
  | ok m =>
    rw [hbefore] at h
    exact ⟨m, hbefore, h⟩

/-- **Where the records of a `run` go.** Take any files and any run that sets the outlets and logs
records of the level *debug* or above, each at a time of its own, and stop it anywhere. There are as
many outlets as the latest setting gave, the console and a log file if there is one. The latest
stream shows the records since then that reach the level of the console, in order and once each, and
so does each earlier stream for its own epoch; it does not change any more. A file that some epoch
had for its log file holds what it held at first and then all records of these epochs, in order and
once each. All other files are as they were. -/
theorem run_routed (here : Path) (files : FileTree) (before after : List Event) (o : Outlets)
    (hlevels : ∀ time level area message, Event.log time level area message ∈ before ++ after →
      level.reaches .debug = true)
    (hrun : ({ files := files } : Outlets).run here (before ++ after) = .ok o) :
    ∃ m, ({ files := files } : Outlets).run here before = .ok m ∧ m.run here after = .ok o ∧
      (∀ earlier e, epochs before = earlier ++ [e] →
        m.outlets.length = (if e.logFile.isSome then 2 else 1) ∧ m.console = e.shown) ∧
      m.streams = (epochs before).map Epoch.shown ∧
      (∀ k, k + 1 < m.streams.length → o.streams[k]? = m.streams[k]?) ∧
      (∀ place, (∃ e ∈ epochs before, e.place? here = some place) → m.files.bytes? place =
        some ((files.bytes? place).getD [] ++ filedAt here place (epochs before))) ∧
      (∀ place, (∀ e ∈ epochs before, e.place? here ≠ some place) →
        m.files.bytes? place = files.bytes? place) := by
  obtain ⟨m, hbefore, hafter⟩ := of_run_append hrun
  have hstart : Routed here files (epochs []) { files := files } := Routed.start here files
  have hm : Routed here files (epochs before) m := hstart.run
    (fun time level area message hmem =>
      hlevels time level area message (List.mem_append_left _ hmem)) hbefore
  have ho : Routed here files (epochs (before ++ after)) o := hm.run
    (fun time level area message hmem =>
      hlevels time level area message (List.mem_append_right _ hmem)) hafter
  refine ⟨m, hbefore, hafter, fun earlier e hlast => ⟨?_, ?_⟩, hm.streams, fun k hk => ?_,
    hm.filed.filed, hm.filed.kept⟩
  · rw [hm.outlets earlier e hlast]
    cases hfile : e.logFile <;> simp [Epoch.outlets, hfile]
  · rw [Outlets.console, hm.streams, hlast, List.map_append, List.map_singleton,
      List.getLastD_concat]
  · -- An epoch that is over is not the latest one.
    obtain ⟨rest, hrest⟩ := dropLast_epochs_isPrefix before after
    rw [hm.streams, List.length_map] at hk
    have hover : k < (epochs before).dropLast.length := by
      rw [List.length_dropLast]
      omega
    rw [ho.streams, hm.streams, List.getElem?_map, List.getElem?_map, ← hrest,
      List.getElem?_append_left hover, List.getElem?_dropLast]
    rw [if_pos (by omega)]

/-- One file under two spellings, another one in between, and a console alone before and after. The
`run` is stopped when the first file is set again: it then has the records of two epochs. -/
theorem run_routed_reopened :
    let here : Path := ⟨.root, ["w"]⟩
    let files : FileTree := FileTree.empty.put ["w"] .directory
    let before : List Event := [.log "08:00" .error "cli" "lost", .configure true none,
      .log "08:01" .debug "name" "shown", .configure false (some (.ofString "a.log")),
      .log "08:02" ⟨15⟩ "name" "first", .log "08:02" .warning "" "odd",
      .configure true (some (.ofString "b/c.log")), .log "08:03" .info "tag" "elsewhere",
      .configure false (some (.ofString "b/../a.log")), .log "08:04" .debug "tag" "second"]
    let after : List Event := [.log "08:05" .critical "cli" "third", .configure false none]
    (∀ time level area message, Event.log time level area message ∈ before ++ after →
      level.reaches .debug = true) ∧
    ∃ o, ({ files := files } : Outlets).run here (before ++ after) = .ok o ∧
    ∃ m, ({ files := files } : Outlets).run here before = .ok m ∧ m.run here after = .ok o ∧
      (m.outlets.length = 2 ∧ m.console = "") ∧
      m.streams = ["[doclets] DEBUG doclets.name: shown\n", "[doclets] WARNING doclets: odd\n",
        "[doclets] INFO doclets.tag: elsewhere\n", ""] ∧
      (∀ k, k + 1 < m.streams.length → o.streams[k]? = m.streams[k]?) ∧
      m.files.bytes? ["w", "a.log"] = some (Text.encodeUtf8
        ("08:02 Level 15 doclets.name: first\n08:02 WARNING doclets: odd\n" ++
          "08:04 DEBUG doclets.tag: second\n")) ∧
      m.files.bytes? ["w", "c.log"] = none := by
  intro here files before after
  have hlevels : ∀ time level area message, Event.log time level area message ∈ before ++ after →
      level.reaches .debug = true := by
    intro time level area message hmem
    simp only [before, after, List.cons_append, List.nil_append, List.mem_cons, List.not_mem_nil,
      Event.log.injEq, reduceCtorEq, false_or, or_false] at hmem
    rcases hmem with h | h | h | h | h | h | h <;> (rw [h.2.1]; decide)
  -- That the run succeeds is evaluated; where its records are is read off the epochs.
  have hok : (({ files := files } : Outlets).run here (before ++ after)).isOk = true := by
    decide +kernel
  refine ⟨hlevels, ?_⟩
  cases hrun : ({ files := files } : Outlets).run here (before ++ after) with
  | error fault =>
    rw [hrun] at hok
    cases hok
  | ok o =>
    obtain ⟨m, hbefore, hafter, hlatest, hstreams, hover, hfiled, hkept⟩ :=
      run_routed here files before after o hlevels hrun
    -- The latest epoch writes to the first file under another spelling of its path.
    have hlast : epochs before = (epochs before).dropLast ++
        [⟨false, some (.ofString "b/../a.log"),
          [⟨⟨.debug, logger "tag", "second"⟩, "08:04"⟩]⟩] := by
      decide +kernel
    obtain ⟨hcount, hconsole⟩ := hlatest _ _ hlast
    have hplace : ∃ e ∈ epochs before, e.place? here = some ["w", "a.log"] := by decide +kernel
    have hother : ∀ e ∈ epochs before, e.place? here ≠ some ["w", "c.log"] := by decide +kernel
    refine ⟨o, rfl, m, hbefore, hafter, ⟨hcount, hconsole.trans (by decide +kernel)⟩, ?_, hover,
      ?_, ?_⟩
    · rw [hstreams]
      decide +kernel
    · rw [hfiled _ hplace]
      decide +kernel
    · rw [hkept _ hother]
      decide +kernel

end DocComment.Log
