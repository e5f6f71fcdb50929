import DocComment.Command.Run
import DocComment.Proofs.DictionaryChanges
import DocComment.Proofs.PrintedDoclets
import DocComment.Proofs.SettingsFaults

/-!
# How the command for a comment can end

The command reads the settings, sets the outlets, builds the dictionary, reads the comment, and
builds and prints the doclet of the comment (`Command.parseSteps`). Nearly all that can fail on the
way ends the run in an orderly way (`EndsCleanly`): with the exit code 1, one message and nothing on
standard output. `Interrupts` lists what does not, stage by stage, and `run_parse` says that this is
all.

A failure of the whole is the failure of one stage after the others have succeeded
(`bind_fails_iff`). For the settings there is `Settings.load_interrupted_iff`, for the log file
`configure_unexpected_iff`, for the dictionary `Dictionary.build_raised_iff`, for the comment
`readComment_unexpected_iff`. The doclet of a comment can be built and printed unless an extension
interferes (`describe_ne_error`): for this the line must not be too long a number, and one that the
command line accepts never is (`parse_lineno`).
-/

namespace DocComment

/-- **A dictionary fails by what an extension raises** if those before it succeed:
`Dictionary.adjust`, which comes after them, raises nothing. -/
theorem Dictionary.build_raised_iff {extensions : List Extension} {a : Adjustments} {e : Raised} :
    build extensions a = .error (.extensionRaised e) ↔
      ∃ before ext after d, extensions = before ++ ext :: after ∧
        before.foldlM extend standard = .ok d ∧ d.extend ext = .error (.extensionRaised e) := by
  rw [← foldlM_eq_error_iff]
  constructor
  · intro h
    rcases bind_eq_error_iff.mp h with hextend | ⟨d, -, hadjust⟩
    · exact hextend
    · -- The settings can only ask for a synonym that leads nowhere.
      rcases bind_eq_error_iff.mp hadjust with hsynonyms | ⟨d', -, hend⟩
      · obtain ⟨-, s, -, d', -, -, hs⟩ := foldlM_eq_error_iff.mp hsynonyms
        cases (addSynonym_eq_error_iff.mp hs).2
      · cases hend
  · exact fun h => bind_eq_error_iff.mpr (.inl h)

/-- **`Log.Outlets.configure` fails unexpectedly** just if the null character is in the path of the
directory for the log file, or in that of the log file itself. -/
theorem Log.Outlets.configure_unexpected_iff {here : Path} {verbose : Bool} {logFile : Option Path}
    {o : Outlets} {e : FileError} :
    configure here verbose logFile o = .error e ∧ e.isExpected = false ↔
      ∃ path, logFile = some path ∧
        ((FileTree.holdsNull path.parent = true ∧ e = ⟨.nullCharacter, path.parent.toText⟩) ∨
          ∃ files, o.files.makeDirectories here path.parent = .ok files ∧
            FileTree.holdsNull (.normal here path) = true ∧
            e = ⟨.nullCharacter, (Path.normal here path).toText⟩) := by
  cases logFile with
  | none =>
    constructor
    · rintro ⟨h, -⟩
      cases h
    · rintro ⟨path, h, -⟩
      cases h
  | some path =>
    constructor
    · rintro ⟨h, hfault⟩
      refine ⟨path, rfl, ?_⟩
      -- First the directories are made, then the file is opened to append to it.
      rcases bind_eq_error_iff.mp h with hmake | ⟨files, hmake, h⟩
      · exact .inl (FileTree.makeDirectories_null_iff.mp ⟨hmake, hfault⟩)
      · rcases bind_eq_error_iff.mp h with happend | ⟨files', -, hend⟩
        · exact .inr ⟨files, hmake, FileTree.append_null_iff.mp ⟨happend, hfault⟩⟩
        · cases hend
    · rintro ⟨path', ⟨⟩, ⟨hnull, rfl⟩ | ⟨files, hmake, hnull, rfl⟩⟩
      · refine ⟨bind_eq_error_iff.mpr (.inl ?_), rfl⟩
        exact (FileTree.makeDirectories_null_iff.mpr ⟨hnull, rfl⟩).1
      · refine ⟨bind_eq_error_iff.mpr (.inr ⟨files, hmake, bind_eq_error_iff.mpr (.inl ?_)⟩), rfl⟩
        exact (FileTree.append_null_iff.mpr ⟨hnull, rfl⟩).1

namespace Command

/-! ### Line numbers -/

theorem decimalValue?_lt {c : Char} {d : Nat} (h : Text.decimalValue? c = some d) : d < 10 := by
  obtain ⟨r, -, rfl⟩ := Option.map_eq_some_iff.mp h
  exact Nat.mod_lt _ (by decide)

/-- `spelledNumber?` gives each digit room for one more power of ten. The bound has `m + 1` in it
rather than `m` so that it still says something when all digits so far are zeros. -/
theorem spelledNumber?_lt {cs : List Char} {m n : Nat} {inside : Bool}
    (h : spelledNumber? m inside cs = some n) :
    n < (m + 1) * Nat.pow 10 (cs.filter (· != '_')).length := by
  induction cs generalizing m inside with
  | nil =>
    cases inside with
    | false => cases h
    | true =>
      cases h
      rw [List.filter_nil, List.length_nil, Nat.pow, Nat.mul_one]
      exact Nat.lt_succ_self _
  | cons c cs ih =>
    rw [spelledNumber?] at h
    split at h
    · next hunderscore =>
      -- An underscore is no digit, and counts for nothing.
      split at h
      · rw [List.filter_cons_of_neg (by simp [eq_of_beq hunderscore])]
        exact ih h
      · cases h
    · next hother =>
      split at h
      · next d hd =>
        have hdigit := decimalValue?_lt hd
        rw [List.filter_cons_of_pos (by simpa using hother), List.length_cons]
        calc n < (m * 10 + d + 1) * Nat.pow 10 (cs.filter (· != '_')).length := ih h
          _ ≤ ((m + 1) * 10) * Nat.pow 10 (cs.filter (· != '_')).length :=
            Nat.mul_le_mul_right _ (by omega)
          _ = (m + 1) * (Nat.pow 10 (cs.filter (· != '_')).length * 10) := by
            rw [Nat.mul_assoc, Nat.mul_comm 10]
      · cases h

theorem hasTooManyDigits_of_signedNumber? {negative : Bool} {digits : List Char} {n : Int}
    (h : signedNumber? negative digits = some n) : Text.hasTooManyDigits n = false := by
  unfold signedNumber? at h
  split at h
  · next hlength =>
    obtain ⟨m, hm, rfl⟩ := Option.map_eq_some_iff.mp h
    have habs : (if negative = true then -(m : Int) else m).natAbs = m := by
      cases negative <;> simp
    rw [Text.hasTooManyDigits, habs, decide_eq_false_iff_not, Nat.not_le]
    -- The limit is kept from being evaluated.
    generalize Text.digitLimit = limit at hlength ⊢
    calc m < (0 + 1) * Nat.pow 10 (digits.filter (· != '_')).length := spelledNumber?_lt hm
      _ = Nat.pow 10 (digits.filter (· != '_')).length := Nat.one_mul _
      _ ≤ Nat.pow 10 limit := Nat.pow_le_pow_right (by decide) hlength
  · cases h

/-- **A number that `number?` reads** is not too long to be written: both ways have the same limit,
`Text.digitLimit`. -/
theorem hasTooManyDigits_of_number? {s : String} {n : Int} (h : number? s = some n) :
    Text.hasTooManyDigits n = false := by
  unfold number? at h
  split at h <;> exact hasTooManyDigits_of_signedNumber? h

/-- Whether the line in a `Request`, if it gives one, is not too long a number. -/
def HasShortLine : Request → Prop
  | .parse r => ∀ n ∈ r.lineno, Text.hasTooManyDigits n = false
  | .shorten _ => True

theorem hasShortLine_readCommand {command : String} {args : List String}
    {result : Invocation × List String} (h : readCommand command args = .ok result) :
    HasShortLine result.1.request := by
  unfold readCommand at h
  split at h
  · obtain ⟨r, -, hend⟩ := bind_eq_ok_iff.mp h
    cases hend
    intro n hn
    obtain ⟨s, -, hs⟩ := Option.bind_eq_some_iff.mp hn
    -- Whatever `number?` reads is short enough to be printed.
    exact hasTooManyDigits_of_number? hs
  · split at h
    · obtain ⟨r, -, hend⟩ := bind_eq_ok_iff.mp h
      cases hpositional : r.positional with
      | none =>
        rw [hpositional] at hend
        cases hend
      | some longname =>
        rw [hpositional] at hend
        cases hend
        trivial
    · cases h

theorem hasShortLine_readProgram {args : List Sorted} {result : Invocation × List String}
    (h : readProgram args = .ok result) : HasShortLine result.1.request := by
  induction args generalizing result with
  | nil => cases h
  | cons arg args ih =>
    obtain ⟨text, shape⟩ := arg
    -- Options before the command change nothing but whether more remarks are wanted.
    cases shape with
    | option o flag value =>
      obtain ⟨met, inner, hinner, hend⟩ : ∃ met inner, readProgram args = .ok inner ∧
          result = ({ inner.1 with verbose := inner.1.verbose || wasGiven met .verbose },
            inner.2) := by
        cases value with
        | none | some v =>
          obtain ⟨given, -, h⟩ := bind_eq_ok_iff.mp h
          obtain ⟨met, -, h⟩ := bind_eq_ok_iff.mp h
          obtain ⟨inner, hinner, hend⟩ := bind_eq_ok_iff.mp h
          exact ⟨met, inner, hinner, (Except.ok.inj hend).symm⟩
      have hshort := ih hinner
      rw [hend]
      exact hshort
    | unknownOption =>
      obtain ⟨inner, hinner, hend⟩ := bind_eq_ok_iff.mp h
      have hshort := ih hinner
      rw [← Except.ok.inj hend]
      exact hshort
    | other => exact hasShortLine_readCommand h
    | dashes =>
      rw [readProgram] at h
      split at h <;> cases h

/-- **A line that `Invocation.parse` accepts** is not too long a number. -/
theorem parse_lineno {args : List String} {verbose : Bool} {r : ParseRequest}
    (h : Invocation.parse args = .ok ⟨verbose, .parse r⟩) :
    ∀ n ∈ r.lineno, Text.hasTooManyDigits n = false := by
  obtain ⟨sorted, -, h⟩ := bind_eq_ok_iff.mp h
  obtain ⟨result, hread, hend⟩ := bind_eq_ok_iff.mp h
  have hshort := hasShortLine_readProgram hread
  dsimp only at hend
  split at hend
  · rw [Except.ok.inj hend] at hshort
    exact hshort
  · cases hend

/-! ### Stages in a row -/

section Stages

variable {α β ε : Type} {x : Stage α} {f : α → Stage β} {o o' : Log.Outlets}
  {failure : ParseFailure}

theorem bind_succeeds_iff {b : β} :
    (x >>= f) o = .ok b o' ↔ ∃ a o₁, x o = .ok a o₁ ∧ f a o₁ = .ok b o' := by
  change EStateM.bind x f o = _ ↔ _
  unfold EStateM.bind
  cases x o <;> simp [and_assoc]

/-- **The failure of two stages** is that of the first, or that of the second after the first has
succeeded. -/
theorem bind_fails_iff : (x >>= f) o = .error failure o' ↔
    x o = .error failure o' ∨ ∃ a o₁, x o = .ok a o₁ ∧ f a o₁ = .error failure o' := by
  change EStateM.bind x f o = _ ↔ _
  unfold EStateM.bind
  cases x o <;> simp [and_assoc]

theorem bind_of_succeeds {a : α} {o₁ : Log.Outlets} (h : x o = .ok a o₁) :
    (x >>= f) o = f a o₁ := by
  change EStateM.bind x f o = _
  unfold EStateM.bind
  rw [h]

theorem orFail_succeeds_iff {g : ε → ParseFailure} {y : Except ε α} {a : α} :
    orFail g y o = .ok a o' ↔ y = .ok a ∧ o = o' := by
  cases y with
  | ok b =>
    change EStateM.Result.ok b o = _ ↔ _
    simp
  | error e =>
    change EStateM.Result.error (g e) o = _ ↔ _
    simp

theorem orFail_fails_iff {g : ε → ParseFailure} {y : Except ε α} :
    orFail g y o = .error failure o' ↔ ∃ e, y = .error e ∧ g e = failure ∧ o = o' := by
  cases y with
  | ok b =>
    change EStateM.Result.ok b o = _ ↔ _
    simp
  | error e =>
    change EStateM.Result.error (g e) o = _ ↔ _
    simp

end Stages

/-! ### Interruptions -/

/-- Whether the **first three stages** of the command succeed, and what they yield. -/
structure Prepared (w : World) (verbose : Bool) (r : ParseRequest) (s : Settings) (o : Log.Outlets)
    (dictionary : Dictionary) : Prop where
  settings : Settings.load w.reader w.homes w.files w.here (.ofString r.config) = .ok s
  outlets : Log.Outlets.configure w.here verbose s.logFile { files := w.files } = .ok o
  dictionary : Dictionary.build w.extensions s.adjustments = .ok dictionary

/-- What **interrupts the reading of the comment** at `path`, once the outlets are set. -/
inductive CommentInterrupted (w : World) (path : String) (o : Log.Outlets) : ReadError → Prop where
  /-- The bytes on standard input are no text. -/
  | input {e : Text.DecodeError} (hpath : path = "-")
      (hdecode : Text.decodeUtf8 w.input = .error e) :
    CommentInterrupted w path o (.decode e)
  /-- The path holds the null character. -/
  | path (hpath : path ≠ "-") (hnull : FileTree.holdsNull (.ofString path) = true) :
    CommentInterrupted w path o (.file ⟨.nullCharacter, (Path.ofString path).toText⟩)
  /-- The bytes of the file are no text. -/
  | bytes {bytes : List UInt8} {e : Text.DecodeError} (hpath : path ≠ "-")
    (hread : (o.emit w.here (readingRecord w path)).files.read w.here (.ofString path) = .ok bytes)
    (hdecode : Text.decodeUtf8 bytes = .error e) : CommentInterrupted w path o (.decode e)

/-- What **interrupts the command** for a comment. -/
inductive Interrupts (w : World) (verbose : Bool) (r : ParseRequest) : ParseFailure → Prop where
  /-- The loading of the settings is interrupted. -/
  | settings {e : SettingsError}
    (h : Settings.Interrupted w.reader w.homes w.files w.here (.ofString r.config) e) :
    Interrupts w verbose r (.settings e)
  /-- The path of the directory for the log file holds the null character. -/
  | logDirectory {s : Settings} {path : Path}
    (hload : Settings.load w.reader w.homes w.files w.here (.ofString r.config) = .ok s)
    (hlog : s.logFile = some path) (hnull : FileTree.holdsNull path.parent = true) :
    Interrupts w verbose r (.logFile ⟨.nullCharacter, path.parent.toText⟩)
  /-- The directory for the log file can be made, and the path of the log file holds the null
  character. -/
  | logFile {s : Settings} {path : Path} {files : FileTree}
    (hload : Settings.load w.reader w.homes w.files w.here (.ofString r.config) = .ok s)
    (hlog : s.logFile = some path)
    (hmake : w.files.makeDirectories w.here path.parent = .ok files)
    (hnull : FileTree.holdsNull (.normal w.here path) = true) :
    Interrupts w verbose r (.logFile ⟨.nullCharacter, (Path.normal w.here path).toText⟩)
  /-- An extension raises something that the program does not reckon with. -/
  | extension {s : Settings} {o : Log.Outlets} {before after : List Extension} {ext : Extension}
    {d : Dictionary} {e : Raised}
    (hload : Settings.load w.reader w.homes w.files w.here (.ofString r.config) = .ok s)
    (hset : Log.Outlets.configure w.here verbose s.logFile { files := w.files } = .ok o)
    (hsplit : w.extensions = before ++ ext :: after)
    (hbefore : before.foldlM Dictionary.extend .standard = .ok d)
    (hraises : d.extend ext = .error (.extensionRaised e)) (hfault : e.isExpected = false) :
    Interrupts w verbose r (.dictionary (.extensionRaised e))
  /-- The reading of the comment is interrupted. -/
  | comment {s : Settings} {o : Log.Outlets} {dictionary : Dictionary} {e : ReadError}
    (hready : Prepared w verbose r s o dictionary) (h : CommentInterrupted w r.path o e) :
    Interrupts w verbose r (.comment e)
  /-- With tags of extensions, the doclet cannot be built or printed. -/
  | doclet {s : Settings} {o o' : Log.Outlets} {dictionary : Dictionary} {comment : String}
    {fault : DocletFault} (hready : Prepared w verbose r s o dictionary)
    (hread : readComment w r.path o = .ok comment o') (hextended : w.extensions ≠ [])
    (hfault : describe r s dictionary comment = .error fault) :
    Interrupts w verbose r (.doclet fault)

/-- How the command for a comment **ends in an orderly way**: it prints one object, or gives up over
a failure that it reckons with, prints a message and nothing on standard output. Remarks may stand
before the message. -/
inductive EndsCleanly : Outcome → Prop where
  /-- An object is printed. -/
  | printed (members : List (String × Json)) (remarks : String) (files : FileTree) :
    EndsCleanly ⟨0, (Json.object members).render ++ "\n", remarks, files⟩
  /-- The command gives up. -/
  | gaveUp (failure : ParseFailure) (hexpected : failure.isExpected = true) (remarks : String)
      (files : FileTree) :
    EndsCleanly ⟨1, "", s!"{remarks}doclets parse failed: {failure.message}\n", files⟩

/-! ### The stages of the command -/

section Command

variable {w : World} {verbose : Bool} {r : ParseRequest} {s : Settings} {o o' : Log.Outlets}
  {dictionary : Dictionary} {failure : ParseFailure}

theorem setOutlets_succeeds_iff :
    setOutlets w verbose s o = .ok () o' ↔ o.configure w.here verbose s.logFile = .ok o' := by
  change (orFail .logFile (o.configure w.here verbose s.logFile) >>= fun o => set o) o = _ ↔ _
  rw [bind_succeeds_iff]
  constructor
  · rintro ⟨o₁, o₂, h, hend⟩
    cases hend
    exact (orFail_succeeds_iff.mp h).1
  · exact fun h => ⟨o', o, orFail_succeeds_iff.mpr ⟨h, rfl⟩, rfl⟩

theorem setOutlets_fails_iff : setOutlets w verbose s o = .error failure o' ↔
    ∃ e, o.configure w.here verbose s.logFile = .error e ∧ .logFile e = failure ∧ o = o' := by
  change (orFail .logFile (o.configure w.here verbose s.logFile) >>= fun o => set o) o = _ ↔ _
  rw [bind_fails_iff, orFail_fails_iff]
  refine ⟨fun h => h.resolve_right ?_, .inl⟩
  rintro ⟨o₁, o₂, -, hend⟩
  cases hend

/-- **Reading the comment fails unexpectedly** just as `CommentInterrupted` says. -/
theorem readComment_unexpected_iff :
    (∃ o', readComment w r.path o = .error failure o') ∧ failure.isExpected = false ↔
      ∃ e, failure = .comment e ∧ CommentInterrupted w r.path o e := by
  unfold readComment
  by_cases hpath : r.path = "-"
  · rw [if_pos (by simp [hpath])]
    constructor
    · rintro ⟨⟨o', h⟩, -⟩
      obtain ⟨e, htext, rfl, -⟩ := orFail_fails_iff.mp h
      exact ⟨.decode e, rfl, .input hpath (FileTree.textOfBytes_eq_error_iff.mp htext)⟩
    · rintro ⟨e, rfl, h⟩
      cases h with
      | input _ hdecode =>
        refine ⟨⟨o, orFail_fails_iff.mpr ⟨_, ?_, rfl, rfl⟩⟩, rfl⟩
        exact FileTree.textOfBytes_eq_error_iff.mpr hdecode
      | path hne _ => exact absurd hpath hne
      | bytes hne _ _ => exact absurd hpath hne
  · rw [if_neg (by simp [hpath])]
    -- The record comes first, so the file is read from the tree that it leaves.
    change (∃ o', orFail .comment ((o.emit w.here (readingRecord w r.path)).files.readText w.here
      (.ofString r.path)) (o.emit w.here (readingRecord w r.path)) = _) ∧ _ ↔ _
    constructor
    · rintro ⟨⟨o', h⟩, hfault⟩
      obtain ⟨e, hread, rfl, -⟩ := orFail_fails_iff.mp h
      refine ⟨e, rfl, ?_⟩
      rcases FileTree.readText_eq_error_iff.mp hread with
        ⟨e', rfl, hfile⟩ | ⟨e', bytes, rfl, hfile, hdecode⟩
      · obtain ⟨hnull, rfl⟩ := FileTree.read_null_iff.mp ⟨hfile, hfault⟩
        exact .path hpath hnull
      · exact .bytes hpath hfile hdecode
    · rintro ⟨e, rfl, h⟩
      refine ⟨⟨_, orFail_fails_iff.mpr ⟨e, FileTree.readText_eq_error_iff.mpr ?_, rfl, rfl⟩⟩, ?_⟩
      · cases h with
        | input heq _ => exact absurd heq hpath
        | path _ hnull => exact .inl ⟨_, rfl, (FileTree.read_null_iff.mpr ⟨hnull, rfl⟩).1⟩
        | bytes _ hread hdecode => exact .inr ⟨_, _, rfl, hread, hdecode⟩
      · cases h <;> rfl

/-- **Without extensions `describe` succeeds**: a doclet can be built and printed. -/
theorem describe_ne_error (hline : ∀ n ∈ r.lineno, Text.hasTooManyDigits n = false)
    (hbuild : Dictionary.build [] s.adjustments = .ok dictionary) (comment : String)
    (fault : DocletFault) : describe r s dictionary comment ≠ .error fault := by
  have hshort : Doclet.originFault? (({} : Origin).merge r.patch) = none := by
    rw [Doclet.originFault?, Option.bind_eq_none_iff]
    intro n hn
    -- The line zero counts as none, so a line of the origin is one that was given.
    have hgiven : n ∈ r.lineno := by
      simp only [Origin.merge, Option.or_none] at hn
      exact (Option.filter_eq_some_iff.mp hn).1
    rw [FieldValue.printFault?, hline n hgiven]
    rfl
  obtain ⟨d, members, hd, hprinted⟩ := Doclet.exists_buildFrom_print hbuild comment hshort false
    s.warnUnknown (RawTag.ofComment comment)
  intro h
  unfold describe Doclet.build at h
  rw [hd] at h
  dsimp only at h
  rw [hprinted] at h
  cases h

/-- **The command fails unexpectedly** only as `Interrupts` says. -/
theorem interrupts_of_fails (hline : ∀ n ∈ r.lineno, Text.hasTooManyDigits n = false)
    (h : parseSteps w verbose r { files := w.files } = .error failure o')
    (hfault : failure.isExpected = false) : Interrupts w verbose r failure := by
  -- One stage after the other is peeled off. The outlets are the same before and after those that
  -- only compute something, so the state of each is known.
  rcases bind_fails_iff.mp h with hload | ⟨s, o₁, hload, h⟩
  · obtain ⟨e, hsettings, rfl, -⟩ := orFail_fails_iff.mp hload
    exact .settings (Settings.load_interrupted_iff.mp ⟨hsettings, hfault⟩)
  obtain ⟨hsettings, rfl⟩ := orFail_succeeds_iff.mp hload
  rcases bind_fails_iff.mp h with hset | ⟨_, o, hset, h⟩
  · obtain ⟨e, houtlets, rfl, -⟩ := setOutlets_fails_iff.mp hset
    obtain ⟨path, hlog, ⟨hnull, rfl⟩ | ⟨files, hmake, hnull, rfl⟩⟩ :=
      Log.Outlets.configure_unexpected_iff.mp ⟨houtlets, hfault⟩
    · exact .logDirectory hsettings hlog hnull
    · exact .logFile hsettings hlog hmake hnull
  have houtlets := setOutlets_succeeds_iff.mp hset
  rcases bind_fails_iff.mp h with hbuild | ⟨dictionary, o₂, hbuild, h⟩
  · obtain ⟨e, hdictionary, rfl, -⟩ := orFail_fails_iff.mp hbuild
    cases e with
    | extensionRaised e =>
      obtain ⟨before, ext, after, d, hsplit, hbefore, hraises⟩ :=
        Dictionary.build_raised_iff.mp hdictionary
      exact .extension hsettings houtlets hsplit hbefore hraises hfault
    | _ => cases hfault
  obtain ⟨hdictionary, rfl⟩ := orFail_succeeds_iff.mp hbuild
  have hready : Prepared w verbose r s o dictionary := ⟨hsettings, houtlets, hdictionary⟩
  rcases bind_fails_iff.mp h with hread | ⟨comment, o₃, hread, h⟩
  · obtain ⟨e, rfl, hcomment⟩ := readComment_unexpected_iff.mp ⟨⟨_, hread⟩, hfault⟩
    exact .comment hready hcomment
  rcases bind_fails_iff.mp h with hdescribe | ⟨printed, o₄, -, hend⟩
  · obtain ⟨fault, hdoclet, rfl, -⟩ := orFail_fails_iff.mp hdescribe
    -- Without extensions the dictionary is a standard one, and its doclets can be printed.
    refine .doclet hready hread (fun hnone => ?_) hdoclet
    rw [hnone] at hdictionary
    exact describe_ne_error hline hdictionary comment fault hdoclet
  · cases hend

/-- Once the first three stages have succeeded, all that `parseSteps` still does is to read the
comment and print its doclet. -/
theorem Prepared.parseSteps_eq (h : Prepared w verbose r s o dictionary) :
    parseSteps w verbose r { files := w.files } =
      (readComment w r.path >>= printDoclet w r s dictionary) o := by
  unfold parseSteps loadSettings buildDictionary
  rw [bind_of_succeeds (orFail_succeeds_iff.mpr ⟨h.settings, rfl⟩),
    bind_of_succeeds (setOutlets_succeeds_iff.mpr h.outlets),
    bind_of_succeeds (orFail_succeeds_iff.mpr ⟨h.dictionary, rfl⟩)]

/-- An error of `Log.Outlets.configure` ends the second stage. -/
theorem parseSteps_of_configure {e : FileError}
    (hload : Settings.load w.reader w.homes w.files w.here (.ofString r.config) = .ok s)
    (h : Log.Outlets.configure w.here verbose s.logFile { files := w.files } = .error e) :
    parseSteps w verbose r { files := w.files } = .error (.logFile e) { files := w.files } := by
  unfold parseSteps loadSettings
  rw [bind_of_succeeds (orFail_succeeds_iff.mpr ⟨hload, rfl⟩)]
  exact bind_fails_iff.mpr (.inl (setOutlets_fails_iff.mpr ⟨e, h, rfl, rfl⟩))

/-- An error of `Dictionary.build` ends the third stage. -/
theorem parseSteps_of_build {e : DictionaryError}
    (hload : Settings.load w.reader w.homes w.files w.here (.ofString r.config) = .ok s)
    (hset : Log.Outlets.configure w.here verbose s.logFile { files := w.files } = .ok o)
    (h : Dictionary.build w.extensions s.adjustments = .error e) :
    parseSteps w verbose r { files := w.files } = .error (.dictionary e) o := by
  unfold parseSteps loadSettings
  rw [bind_of_succeeds (orFail_succeeds_iff.mpr ⟨hload, rfl⟩),
    bind_of_succeeds (setOutlets_succeeds_iff.mpr hset)]
  exact bind_fails_iff.mpr (.inl (orFail_fails_iff.mpr ⟨e, h, rfl, rfl⟩))

/-- **Whatever `Interrupts` lists** makes the command fail unexpectedly. -/
theorem fails_of_interrupts (h : Interrupts w verbose r failure) :
    (∃ o', parseSteps w verbose r { files := w.files } = .error failure o') ∧
      failure.isExpected = false := by
  cases h with
  | settings h =>
    obtain ⟨hload, hfault⟩ := Settings.load_interrupted_iff.mpr h
    exact ⟨⟨_, bind_fails_iff.mpr (.inl (orFail_fails_iff.mpr ⟨_, hload, rfl, rfl⟩))⟩, hfault⟩
  | logDirectory hload hlog hnull =>
    obtain ⟨hset, hfault⟩ :=
      Log.Outlets.configure_unexpected_iff.mpr ⟨_, hlog, .inl ⟨hnull, rfl⟩⟩
    exact ⟨⟨_, parseSteps_of_configure hload hset⟩, hfault⟩
  | logFile hload hlog hmake hnull =>
    obtain ⟨hset, hfault⟩ :=
      Log.Outlets.configure_unexpected_iff (o := { files := w.files }).mpr
        ⟨_, hlog, .inr ⟨_, hmake, hnull, rfl⟩⟩
    exact ⟨⟨_, parseSteps_of_configure hload hset⟩, hfault⟩
  -- Settings and log are in place; the extensions before this one do not raise.
  | extension hload hset hsplit hbefore hraises hfault =>
    refine ⟨⟨_, parseSteps_of_build hload hset ?_⟩, hfault⟩
    exact Dictionary.build_raised_iff.mpr ⟨_, _, _, _, hsplit, hbefore, hraises⟩
  | comment hready h =>
    obtain ⟨⟨o', hread⟩, hfault⟩ := readComment_unexpected_iff.mpr ⟨_, rfl, h⟩
    rw [hready.parseSteps_eq]
    exact ⟨⟨o', bind_fails_iff.mpr (.inl hread)⟩, hfault⟩
  | doclet hready hread _ hdoclet =>
    rw [hready.parseSteps_eq, bind_of_succeeds hread]
    exact ⟨⟨_, bind_fails_iff.mpr (.inl (orFail_fails_iff.mpr ⟨_, hdoclet, rfl, rfl⟩))⟩, rfl⟩

/-- What `parseSteps` yields is one object. -/
theorem exists_object_of_parseSteps {printed : Json}
    (h : parseSteps w verbose r o = .ok printed o') :
    ∃ members, printed = .object members := by
  obtain ⟨s, _, -, h⟩ := bind_succeeds_iff.mp h
  obtain ⟨_, _, -, h⟩ := bind_succeeds_iff.mp h
  obtain ⟨dictionary, _, -, h⟩ := bind_succeeds_iff.mp h
  obtain ⟨comment, _, -, h⟩ := bind_succeeds_iff.mp h
  -- Only the last stage matters: what it prints comes from `Doclet.print`.
  obtain ⟨result, _, hdescribe, hend⟩ := bind_succeeds_iff.mp h
  cases hend
  obtain ⟨hdescribe, -⟩ := orFail_succeeds_iff.mp hdescribe
  unfold describe at hdescribe
  split at hdescribe
  · cases hdescribe
  · next d _ =>
    cases hprint : d.print with
    | error fault =>
      rw [hprint] at hdescribe
      cases hdescribe
    | ok printed =>
      rw [hprint] at hdescribe
      cases hdescribe
      exact Doclet.exists_object_of_print hprint

/-- **`runParse` is interrupted** just as `Interrupts` says. -/
theorem runParse_eq_error_iff (hline : ∀ n ∈ r.lineno, Text.hasTooManyDigits n = false) :
    runParse w verbose r = .error failure ↔ Interrupts w verbose r failure := by
  change concluded (parseSteps w verbose r { files := w.files }) = _ ↔ _
  constructor
  · intro h
    cases hsteps : parseSteps w verbose r { files := w.files } with
    | ok printed o =>
      rw [hsteps] at h
      cases h
    | error failure' o =>
      rw [hsteps, concluded] at h
      split at h
      · cases h
      · next hfault =>
        cases h
        -- Only a failure that is not expected gets past `concluded`.
        exact interrupts_of_fails hline hsteps (by simpa using hfault)
  · intro h
    obtain ⟨⟨o, hsteps⟩, hfault⟩ := fails_of_interrupts h
    rw [hsteps, concluded, if_neg (by simp [hfault])]

/-- **An outcome of `runParse`** is an orderly one. -/
theorem endsCleanly_of_runParse {out : Outcome} (h : runParse w verbose r = .ok out) :
    EndsCleanly out := by
  change concluded (parseSteps w verbose r { files := w.files }) = _ at h
  cases hsteps : parseSteps w verbose r { files := w.files } with
  | ok printed o =>
    rw [hsteps] at h
    cases h
    obtain ⟨members, rfl⟩ := exists_object_of_parseSteps hsteps
    exact .printed members o.console o.files
  | error failure o =>
    rw [hsteps, concluded] at h
    split at h
    · next hexpected =>
      cases h
      exact .gaveUp failure hexpected o.console o.files
    · cases h

end Command

/-- **How a command line for a comment can end.** Take any command line that is understood as one
for a comment, any files, any standard input, any reader of documents and any extensions. The run is
interrupted exactly by what `Interrupts` lists: settings in the home of someone who has none, the
null character in the path of the settings, of the log file or of the comment, bytes of the settings
or of the comment that are no text, a reader that fails in a way of its own, a number in the
settings that is too long to be written, and extensions that raise something unexpected or whose
tags make a doclet that cannot be built or printed. In all other cases there is an outcome: one
object on standard output, or the exit code 1, nothing on standard output, and a message about a
failure that the command reckons with. -/
theorem run_parse (w : World) (args : List String) (verbose : Bool) (r : ParseRequest)
    (hargs : Invocation.parse args = .ok ⟨verbose, .parse r⟩) :
    (∀ i, run w args = .error i ↔ Interrupts w verbose r i) ∧
      ((∀ i, ¬Interrupts w verbose r i) → ∃ out, run w args = .ok out) ∧
      (∀ out, run w args = .ok out → EndsCleanly out) := by
  have hrun : run w args = runParse w verbose r := by
    rw [run, hargs]
  -- The line number comes from the arguments, so it is short enough to be printed.
  have hinterrupts : ∀ i, run w args = .error i ↔ Interrupts w verbose r i := by
    intro i
    rw [hrun]
    exact runParse_eq_error_iff (parse_lineno hargs)
  refine ⟨hinterrupts, fun hnone => ?_, fun out h => endsCleanly_of_runParse (hrun ▸ h)⟩
  cases hend : run w args with
  | ok out => exact ⟨out, rfl⟩
  | error i => exact absurd ((hinterrupts i).mp hend) (hnone i)

theorem eq_ok_of_toOption {ε α : Type} {x : Except ε α} {a : α} (h : x.toOption = some a) :
    x = .ok a := by
  cases x with
  | error e => cases h
  | ok b => exact congrArg Except.ok (Option.some.inj h)

/-- Options cut short and written together, settings in a directory of their own that the reader
calls malformed, and a comment that is a directory: `run_parse` applies. -/
theorem run_parse_directory :
    let w : World := {
      files := ((FileTree.empty.put ["w"] .directory).put ["w", "settings"] .directory).put
        ["w", "settings", ".doclets.yml"] (.file (Text.encodeUtf8 "logging: \x7bfile: a.log\x7d"))
      here := ⟨.root, ["w"]⟩
      homes := fun _ => none
      reader := fun _ => .error (.malformed "no document")
      extensions := []
      input := []
      clock := fun _ => "08:00" }
    let args : List String := ["-v", "parse", "--conf=settings", "--line", "7", "settings"]
    let r : ParseRequest := { path := "settings", lineno := some 7, config := "settings" }
    Invocation.parse args = .ok ⟨true, .parse r⟩ ∧
      (∀ i, run w args = .error i ↔ Interrupts w true r i) ∧
      ((∀ i, ¬Interrupts w true r i) → ∃ out, run w args = .ok out) ∧
      (∀ out, run w args = .ok out → EndsCleanly out) := by
  intro w args r
  have hargs : Invocation.parse args = .ok ⟨true, .parse r⟩ :=
    eq_ok_of_toOption (by decide +kernel)
  exact ⟨hargs, run_parse w args true r hargs⟩

/-- **Bytes that are no text** get past all that would end the run in an orderly way: `run` has no
outcome. -/
theorem run_parse_undecodable :
    run { files := (FileTree.empty.put ["w"] .directory).put ["w", "c.txt"] (.file [0xff])
          here := ⟨.root, ["w"]⟩
          homes := fun _ => none
          reader := fun _ => .error (.malformed "no document")
          extensions := []
          input := []
          clock := fun _ => "08:00" }
        ["parse", "c.txt"] = .error (.comment (.decode ⟨.invalidStart, 0, 1, 0xff⟩)) := by
  have hargs : Invocation.parse ["parse", "c.txt"] = .ok ⟨false, .parse { path := "c.txt" }⟩ :=
    eq_ok_of_toOption (by decide +kernel)
  rw [run, hargs]
  refine (runParse_eq_error_iff (parse_lineno hargs)).mpr ?_
  -- Without settings there is no log file, and the dictionary is the usual one.
  have hfile : Settings.documentPath (fun _ => none)
      ((FileTree.empty.put ["w"] .directory).put ["w", "c.txt"] (.file [0xff])) ⟨.root, ["w"]⟩
      (.ofString ".") = .ok ⟨.root, ["w", ".doclets.yml"]⟩ :=
    eq_ok_of_toOption (by decide +kernel)
  have htext : Settings.documentText
      ((FileTree.empty.put ["w"] .directory).put ["w", "c.txt"] (.file [0xff])) ⟨.root, ["w"]⟩
      ⟨.root, ["w", ".doclets.yml"]⟩ = .ok none :=
    eq_ok_of_toOption (by decide +kernel)
  obtain ⟨dictionary, hbuild, -⟩ := Dictionary.exists_of_any_build (a := {}) (p := fun _ => true)
    (by decide +kernel)
  have hdecode : Text.decodeUtf8 [0xff] = .error ⟨.invalidStart, 0, 1, 0xff⟩ := rfl
  refine .comment ⟨Settings.load_of_missing hfile htext, rfl, hbuild⟩
    (.bytes (by decide) ?_ hdecode)
  exact eq_ok_of_toOption (by decide +kernel)

end Command

end DocComment
