import DocComment.Settings

/-!
# What interrupts the loading of settings

Settings may fail to load for many reasons, and the program reckons with nearly all of them
(`SettingsError.isExpected`). `Settings.Interrupted` lists the others: a home that nobody has, the
null character in a path, bytes that are no text, a reader that fails in a way of its own, and a
number that is too long to be written. `Settings.load_interrupted_iff` says that the list is
complete.

Loading is a chain of stages in `Except`, so an error of `Settings.load` is the error of one of them
(`bind_eq_error_iff`). File operations fail with something unexpected only where the path holds the
null character (`FileTree.read_null_iff`, `FileTree.makeDirectories_null_iff`,
`FileTree.append_null_iff`), and documents only over a number that they hold
(`Settings.ofDocument_unexpected`).
-/

namespace DocComment

/-! ### Stages in a row -/

section Except

variable {ε ε' α β : Type} {x : Except ε α} {f : α → Except ε β}

/-- Two stages succeed if the first does and then the second. -/
theorem bind_eq_ok_iff {b : β} : x >>= f = .ok b ↔ ∃ a, x = .ok a ∧ f a = .ok b := by
  cases x <;> simp [bind, Except.bind]

/-- **The error of two stages** is that of the first, or that of the second after the first has
succeeded. -/
theorem bind_eq_error_iff {e : ε} :
    x >>= f = .error e ↔ x = .error e ∨ ∃ a, x = .ok a ∧ f a = .error e := by
  cases x <;> simp [bind, Except.bind]

theorem mapError_eq_ok_iff {g : ε → ε'} {a : α} : x.mapError g = .ok a ↔ x = .ok a := by
  cases x with
  | error e =>
    constructor <;> intro h <;> cases h
  | ok b =>
    change Except.ok b = .ok a ↔ Except.ok b = .ok a
    simp

theorem mapError_eq_error_iff {g : ε → ε'} {e : ε'} :
    x.mapError g = .error e ↔ ∃ e', x = .error e' ∧ g e' = e := by
  cases x with
  | error e' =>
    change Except.error (g e') = .error e ↔ _
    simp
  | ok a =>
    change Except.ok a = .error e ↔ _
    simp

/-- **A `foldlM` fails** at the first item that does, and the items before it succeed. -/
theorem foldlM_eq_error_iff {f : β → α → Except ε β} {items : List α} {start : β} {e : ε} :
    items.foldlM f start = .error e ↔
      ∃ before x after b, items = before ++ x :: after ∧ before.foldlM f start = .ok b ∧
        f b x = .error e := by
  constructor
  · intro h
    induction items generalizing start with
    | nil => cases h
    | cons x items ih =>
      rw [List.foldlM_cons] at h
      rcases bind_eq_error_iff.mp h with hx | ⟨b, hx, hrest⟩
      · exact ⟨[], x, items, start, rfl, rfl, hx⟩
      · -- The first item succeeds, so it goes to those before the failure.
        obtain ⟨before, y, after, b', rfl, hbefore, hy⟩ := ih hrest
        refine ⟨x :: before, y, after, b', rfl, ?_, hy⟩
        rw [List.foldlM_cons]
        exact bind_eq_ok_iff.mpr ⟨b, hx, hbefore⟩
  · rintro ⟨before, x, after, b, rfl, hbefore, hx⟩
    rw [List.foldlM_append]
    refine bind_eq_error_iff.mpr (.inr ⟨b, hbefore, ?_⟩)
    rw [List.foldlM_cons]
    exact bind_eq_error_iff.mpr (.inl hx)

end Except

/-! ### Paths that hold the null character -/

theorem FileError.isExpected_eq_false_iff {e : FileError} :
    e.isExpected = false ↔ e.fault = .nullCharacter := by
  simp [isExpected]

namespace FileTree

variable {t t' : FileTree} {here p : Path} {e : FileError}

theorem walk_ne_nullCharacter {start parts : List String} {fault : FileFault}
    (h : t.walk start parts = .error fault) : fault ≠ .nullCharacter := by
  induction parts generalizing start with
  | nil => cases h
  | cons name parts ih =>
    -- The walk ends here for a reason of its own, or goes on to the next name.
    unfold walk at h
    split at h
    · cases h
      decide
    · cases h
      decide
    · split at h
      · exact ih h
      · split at h
        · cases h
          decide
        · split at h
          · cases h
            decide
          · exact ih h

theorem locate_null_iff : t.locate here p = .error .nullCharacter ↔ holdsNull p = true := by
  unfold locate
  split
  · next hnull => exact ⟨fun _ => hnull, fun _ => rfl⟩
  · next hnull => exact ⟨fun h => absurd rfl (walk_ne_nullCharacter h), fun h => absurd h hnull⟩

/-- **`FileTree.read` fails unexpectedly** just where the path holds the null character. -/
theorem read_null_iff : t.read here p = .error e ∧ e.isExpected = false ↔
    holdsNull p = true ∧ e = ⟨.nullCharacter, p.toText⟩ := by
  rw [FileError.isExpected_eq_false_iff, ← @locate_null_iff t here p]
  unfold read
  constructor
  · rintro ⟨hread, hfault⟩
    split at hread
    · next fault hlocate =>
      cases hread
      obtain rfl : fault = .nullCharacter := hfault
      exact ⟨hlocate, rfl⟩
    · -- What stands at the end of the walk is to blame, and not the path.
      split at hread
      · cases hread
      · cases hread
        cases hfault
      · cases hread
        cases hfault
  · rintro ⟨hlocate, rfl⟩
    rw [hlocate]
    exact ⟨rfl, rfl⟩

theorem entryAt_of_holdsNull (h : holdsNull p = true) : t.entryAt here p = .ok none := by
  rw [entryAt, locate_null_iff.mpr h]

/-- `FileTree.entryAt` never fails unexpectedly: a path with the null character leads to nothing. -/
theorem entryAt_isExpected (h : t.entryAt here p = .error e) : e.isExpected = true := by
  unfold entryAt at h
  split at h
  · cases h
  · cases h
    rfl
  · cases h

/-- What can be read is there. -/
theorem entryAt_of_read {bytes : List UInt8} (h : t.read here p = .ok bytes) :
    t.entryAt here p = .ok (some (.file bytes)) := by
  unfold read at h
  split at h
  · cases h
  · next place hplace =>
    split at h
    · next hfound =>
      cases h
      rw [entryAt, hplace]
      exact congrArg Except.ok hfound
    · cases h
    · cases h

theorem placeIn_ne_nullCharacter {around : List String} {name? : Option String} {fault : FileFault}
    (h : t.placeIn around name? = .error fault) : fault ≠ .nullCharacter := by
  -- Every branch that fails names a fault of its own.
  unfold placeIn at h
  split at h
  · split at h
    · cases h
      decide
    · split at h
      · cases h
        decide
      · cases h
  · cases h
    decide
  · cases h
    decide
  · cases h
    decide

theorem newPlace_null_iff : t.newPlace here p = .error .nullCharacter ↔ holdsNull p = true := by
  unfold newPlace
  dsimp only
  split
  · next hnull => exact ⟨fun _ => hnull, fun _ => rfl⟩
  · next hnull =>
    refine ⟨fun h => ?_, fun h => absurd h hnull⟩
    rcases bind_eq_error_iff.mp h with hwalk | ⟨around, -, hplace⟩
    · exact absurd rfl (walk_ne_nullCharacter hwalk)
    · exact absurd rfl (placeIn_ne_nullCharacter hplace)

theorem ensureDirectory_null_iff : t.ensureDirectory here p = .error e ∧ e.isExpected = false ↔
    holdsNull p = true ∧ e = ⟨.nullCharacter, p.toText⟩ := by
  rw [FileError.isExpected_eq_false_iff, ← @newPlace_null_iff t here p]
  unfold ensureDirectory makeDirectory
  constructor
  · rintro ⟨hmake, hfault⟩
    -- A failure to make the directory is the failure of the whole, unless it is there already.
    split at hmake
    · cases hmake
    · next e' hnew =>
      split at hmake
      · cases hmake
      · obtain rfl : e' = e := Except.error.inj hmake
        split at hnew
        · next fault hplace =>
          cases hnew
          obtain rfl : fault = .nullCharacter := hfault
          exact ⟨hplace, rfl⟩
        · split at hnew
          · cases hnew
            cases hfault
          · cases hnew
  · rintro ⟨hplace, rfl⟩
    -- Nothing is found under such a path, so no directory excuses the failure.
    have hnone : t.isDirectory here p = false := by
      rw [isDirectory, entryAt_of_holdsNull (newPlace_null_iff.mp hplace)]
    rw [hplace]
    dsimp only
    rw [hnone, Bool.and_false]
    exact ⟨rfl, rfl⟩

theorem holdsNull_of_parent (h : holdsNull p.parent = true) : holdsNull p = true := by
  obtain ⟨name, hname, hnull⟩ := List.any_eq_true.mp h
  exact List.any_eq_true.mpr ⟨name, List.dropLast_subset _ hname, hnull⟩

theorem makeDirectoriesWithin_null {above : Nat}
    (h : makeDirectoriesWithin here above t p = .error e) (hfault : e.isExpected = false) :
    holdsNull p = true ∧ e = ⟨.nullCharacter, p.toText⟩ := by
  induction above generalizing t p with
  | zero => exact ensureDirectory_null_iff.mp ⟨h, hfault⟩
  | succ above ih =>
    unfold makeDirectoriesWithin at h
    split at h
    · cases h
    · next e' hensure =>
      split at h
      · next hmissing =>
        rcases bind_eq_error_iff.mp h with hparent | ⟨t', -, hagain⟩
        · -- A path above that holds the null character makes this one hold it, which has a fault of
          -- its own, and not that something is missing.
          have hnull := holdsNull_of_parent (ih hparent).1
          have hfirst := (ensureDirectory_null_iff.mpr ⟨hnull, rfl⟩).1.symm.trans hensure
          cases hfirst
          simp at hmissing
        · exact ensureDirectory_null_iff.mp ⟨hagain, hfault⟩
      · obtain rfl : e' = e := Except.error.inj h
        exact ensureDirectory_null_iff.mp ⟨hensure, hfault⟩

/-- **`FileTree.makeDirectories` fails unexpectedly** just where the path holds the null
character. -/
theorem makeDirectories_null_iff : t.makeDirectories here p = .error e ∧ e.isExpected = false ↔
    holdsNull p = true ∧ e = ⟨.nullCharacter, p.toText⟩ := by
  constructor
  · rintro ⟨hmake, hfault⟩
    exact makeDirectoriesWithin_null hmake hfault
  · rintro ⟨hnull, rfl⟩
    -- The innermost directory is tried first, and only one that is missing leads to those above.
    have hensure := (@ensureDirectory_null_iff t here p _).mpr ⟨hnull, rfl⟩
    refine ⟨?_, rfl⟩
    unfold makeDirectories
    cases p.parts.length with
    | zero => exact hensure.1
    | succ above =>
      rw [makeDirectoriesWithin, hensure.1]
      rfl

/-- **`FileTree.append` fails unexpectedly** just where the path holds the null character. -/
theorem append_null_iff {bytes : List UInt8} :
    t.append here p bytes = .error e ∧ e.isExpected = false ↔
      holdsNull p = true ∧ e = ⟨.nullCharacter, p.toText⟩ := by
  rw [FileError.isExpected_eq_false_iff, ← @newPlace_null_iff t here p]
  unfold append
  constructor
  · rintro ⟨happend, hfault⟩
    -- A directory in the place of the file has a fault of its own, which is not this one.
    split at happend
    · cases happend
      cases hfault
    · next fault _ hplace =>
      cases happend
      obtain rfl : fault = .nullCharacter := hfault
      exact ⟨hplace, rfl⟩
    · split at happend
      · cases happend
      · cases happend
      · cases happend
        cases hfault
  · rintro ⟨hplace, rfl⟩
    rw [hplace]
    exact ⟨rfl, rfl⟩

/-! ### Text files -/

theorem textOfBytes_eq_error_iff {bytes : List UInt8} {e : Text.DecodeError} :
    textOfBytes bytes = .error e ↔ Text.decodeUtf8 bytes = .error e := by
  unfold textOfBytes
  cases Text.decodeUtf8 bytes with
  | error e' => rfl
  | ok s =>
    constructor <;> intro h <;> cases h

theorem readText_eq_ok_iff {text : String} : t.readText here p = .ok text ↔
    ∃ bytes, t.read here p = .ok bytes ∧ textOfBytes bytes = .ok text := by
  unfold readText
  cases t.read here p with
  | error e => simp
  | ok bytes =>
    dsimp only
    rw [mapError_eq_ok_iff]
    refine ⟨fun h => ⟨bytes, rfl, h⟩, ?_⟩
    rintro ⟨bytes', ⟨⟩, h⟩
    exact h

/-- **`FileTree.readText` fails** because the file cannot be read, or because its bytes are no
text. -/
theorem readText_eq_error_iff {e : ReadError} : t.readText here p = .error e ↔
    (∃ e', e = .file e' ∧ t.read here p = .error e') ∨
      ∃ e' bytes, e = .decode e' ∧ t.read here p = .ok bytes ∧
        Text.decodeUtf8 bytes = .error e' := by
  unfold readText
  cases t.read here p with
  | error e' =>
    constructor
    · intro h
      exact .inl ⟨e', (Except.error.inj h).symm, rfl⟩
    · rintro (⟨e'', rfl, ⟨⟩⟩ | ⟨e'', bytes, -, h, -⟩)
      · rfl
      · cases h
  | ok bytes =>
    dsimp only
    rw [mapError_eq_error_iff]
    constructor
    · rintro ⟨e', htext, rfl⟩
      -- Unifying line ends cannot fail, so the bytes are no text.
      exact .inr ⟨e', bytes, rfl, rfl, textOfBytes_eq_error_iff.mp htext⟩
    · rintro (⟨e', -, h⟩ | ⟨e', bytes', rfl, ⟨⟩, h⟩)
      · cases h
      · exact ⟨e', textOfBytes_eq_error_iff.mpr h, rfl⟩

end FileTree

/-! ### Numbers that are too long -/

namespace Document

open DocComment.Text (hasTooManyDigits)

/-- Whether one of some single values is a number **too long to be written**. -/
def HasLongNumber (ss : List Scalar) : Prop :=
  ∃ n, .number n ∈ ss ∧ hasTooManyDigits n = true

theorem HasLongNumber.mono {ss ss' : List Scalar} (h : HasLongNumber ss) (hss : ss ⊆ ss') :
    HasLongNumber ss' := by
  obtain ⟨n, hn, hlong⟩ := h
  exact ⟨n, hss hn, hlong⟩

namespace Value

variable {entries : List (Scalar × Value)}

theorem scalars_subset_of_mem {items : List Value} {v : Value} (h : v ∈ items) :
    v.scalars ⊆ scalarsOfItems items := by
  induction items with
  | nil => cases h
  | cons item items ih =>
    rw [scalarsOfItems]
    rcases List.mem_cons.mp h with rfl | h
    · exact List.subset_append_left _ _
    · exact List.subset_append_of_subset_right _ (ih h)

/-- The key and the value of an entry are among the `scalarsOfEntries` of the mapping. -/
theorem subset_of_mem_entries {e : Scalar × Value} (h : e ∈ entries) :
    e.1 :: e.2.scalars ⊆ scalarsOfEntries entries := by
  induction entries with
  | nil => cases h
  | cons entry entries ih =>
    rw [scalarsOfEntries]
    rcases List.mem_cons.mp h with rfl | h
    · exact List.subset_append_left _ _
    · exact List.subset_append_of_subset_right _ (ih h)

theorem scalars_subset_of_valueAt? {key : String} {v : Value} (h : valueAt? entries key = some v) :
    v.scalars ⊆ scalarsOfEntries entries := by
  obtain ⟨e, hfind, rfl⟩ := Option.map_eq_some_iff.mp h
  exact List.subset_of_cons_subset (subset_of_mem_entries (List.mem_of_find?_eq_some hfind))

/-- So are the entries one level below, that `entriesOf` reaches by a key. -/
theorem subset_of_entriesOf (key : String) :
    scalarsOfEntries (entriesOf (valueAt? entries key)) ⊆ scalarsOfEntries entries := by
  cases hvalue : valueAt? entries key with
  | none => exact List.nil_subset _
  | some v =>
    cases v with
    | mapping inner => exact scalars_subset_of_valueAt? hvalue
    | scalar s => exact List.nil_subset _
    | list items => exact List.nil_subset _

end Value

end Document

/-! ### Settings in a document -/

namespace Settings

open DocComment.Document (Scalar Value HasLongNumber)

variable {e : SettingsError}

theorem written_eq_error {s : Scalar} (h : written s = .error e) :
    e = .tooManyDigits ∧ HasLongNumber [s] := by
  unfold written at h
  split at h
  · cases h
  · next hnone =>
    cases h
    refine ⟨rfl, ?_⟩
    cases s with
    | number n =>
      cases hlong : Text.hasTooManyDigits n with
      | true => exact ⟨n, List.mem_singleton_self _, hlong⟩
      | false => simp [Scalar.toText?, hlong] at hnone
    | _ => simp [Scalar.toText?] at hnone

theorem textOf?_eq_error {v : Value} (h : textOf? v = .error e) :
    e = .tooManyDigits ∧ HasLongNumber v.scalars := by
  cases v with
  | scalar s =>
    rw [textOf?] at h
    split at h
    · cases hwritten : written s with
      | error e' =>
        rw [hwritten] at h
        cases h
        -- Only a single value is written at all, and so can fail to be.
        exact written_eq_error hwritten
      | ok text =>
        rw [hwritten] at h
        cases h
    · cases h
  | list items => cases h
  | mapping entries => cases h

theorem textsOfItems_eq_error {items : List Value} (h : textsOfItems items = .error e) :
    e = .tooManyDigits ∧ HasLongNumber (Value.scalarsOfItems items) := by
  induction items with
  | nil => cases h
  | cons item items ih =>
    rw [textsOfItems] at h
    rcases bind_eq_error_iff.mp h with hitem | ⟨text, -, hrest⟩
    · obtain ⟨he, hlong⟩ := textOf?_eq_error hitem
      exact ⟨he, hlong.mono (Value.scalars_subset_of_mem List.mem_cons_self)⟩
    · rcases bind_eq_error_iff.mp hrest with hmore | ⟨texts, -, hend⟩
      · obtain ⟨he, hlong⟩ := ih hmore
        rw [Value.scalarsOfItems]
        exact ⟨he, hlong.mono (List.subset_append_right _ _)⟩
      · cases hend

theorem textsOf_eq_error {v? : Option Value} (h : textsOf v? = .error e) :
    e = .tooManyDigits ∧ ∃ v, v? = some v ∧ HasLongNumber v.scalars := by
  unfold textsOf at h
  split at h
  · cases h
  · cases h
  · next items =>
    obtain ⟨he, hlong⟩ := textsOfItems_eq_error h
    exact ⟨he, .list items, rfl, hlong⟩
  · cases h

theorem logFileOf_eq_error {root : Path} {v? : Option Value} (h : logFileOf root v? = .error e) :
    e = .tooManyDigits ∧ ∃ v, v? = some v ∧ HasLongNumber v.scalars := by
  rcases bind_eq_error_iff.mp h with htext | ⟨text, -, hend⟩
  · cases v? with
    | none => cases htext
    | some v =>
      obtain ⟨he, hlong⟩ := textOf?_eq_error htext
      exact ⟨he, v, rfl, hlong⟩
  · cases hend

/-- `synonymsOf` fails for a title that is missing, which is expected, or for a number that is too
long. -/
theorem synonymsOf_eq_error {entries : List (Scalar × Value)} (h : synonymsOf entries = .error e)
    (hfault : e.isExpected = false) :
    e = .tooManyDigits ∧ HasLongNumber (Value.scalarsOfEntries entries) := by
  obtain ⟨before, entry, after, table, rfl, -, hentry⟩ := foldlM_eq_error_iff.mp h
  have hmem : entry ∈ before ++ entry :: after := List.mem_append_right _ List.mem_cons_self
  have hsubset := Value.subset_of_mem_entries hmem
  -- The title is written before the synonym, and both may be numbers.
  rcases bind_eq_error_iff.mp hentry with htitle | ⟨title, -, hrest⟩
  · obtain ⟨he, hlong⟩ := textOf?_eq_error htitle
    exact ⟨he, hlong.mono (List.subset_of_cons_subset hsubset)⟩
  · rcases bind_eq_error_iff.mp hrest with hsynonym | ⟨synonym, -, hend⟩
    · obtain ⟨he, hlong⟩ := written_eq_error hsynonym
      exact ⟨he, hlong.mono (List.cons_subset.mpr ⟨hsubset List.mem_cons_self, List.nil_subset _⟩)⟩
    · cases title with
      | some title => cases hend
      | none =>
        cases hend
        cases hfault

/-- **`ofDocument` fails unexpectedly** only over a number that the document holds. -/
theorem ofDocument_unexpected {root : Path} {document : Value}
    (h : ofDocument root document = .error e) (hfault : e.isExpected = false) :
    e = .tooManyDigits ∧ HasLongNumber document.scalars := by
  cases document with
  | scalar s =>
    cases h
    cases hfault
  | list items =>
    cases h
    cases hfault
  | mapping entries =>
    rw [Value.scalars]
    -- Synonyms, kinds and log file are read in this order, each from its own place below the root.
    rcases bind_eq_error_iff.mp h with hsynonyms | ⟨synonyms, -, h⟩
    · obtain ⟨he, hlong⟩ := synonymsOf_eq_error hsynonyms hfault
      exact ⟨he, (hlong.mono (Value.subset_of_entriesOf _)).mono (Value.subset_of_entriesOf _)⟩
    · rcases bind_eq_error_iff.mp h with hkinds | ⟨kinds, -, h⟩
      · obtain ⟨he, v, hv, hlong⟩ := textsOf_eq_error hkinds
        exact ⟨he, (hlong.mono (Value.scalars_subset_of_valueAt? hv)).mono
          (Value.subset_of_entriesOf _)⟩
      · rcases bind_eq_error_iff.mp h with hlogFile | ⟨logFile, -, hend⟩
        · obtain ⟨he, v, hv, hlong⟩ := logFileOf_eq_error hlogFile
          exact ⟨he, (hlong.mono (Value.scalars_subset_of_valueAt? hv)).mono
            (Value.subset_of_entriesOf _)⟩
        · cases hend

/-! ### Loading -/

section Load

variable {reader : Document.Reader} {homes : Homes} {files : FileTree} {here p : Path}

/-- What **interrupts the loading of settings** at the path `p`, with the error that comes of it. -/
inductive Interrupted (reader : Document.Reader) (homes : Homes) (files : FileTree)
    (here p : Path) :
    SettingsError → Prop where
  /-- The path starts in the home of someone who has none, or whose home starts with a tilde
  again. -/
  | home {owner : String} (howner : p.homeOwner? = some owner)
    (hnull : owner.toList.contains '\x00' = false)
    (hhome : ∀ home, homes owner = some home → home.toList.head? = some '~') :
    Interrupted reader homes files here p .noHome
  /-- The name of the owner of the home holds the null character. -/
  | owner {owner : String} (howner : p.homeOwner? = some owner)
    (hnull : owner.toList.contains '\x00' = true) :
    Interrupted reader homes files here p (.unreadable ⟨.nullCharacter, p.toText⟩)
  /-- The path holds the null character once the home is in its place. -/
  | path {q : Path} (hhome : expandHome homes p = .ok q) (hnull : FileTree.holdsNull q = true) :
    Interrupted reader homes files here p (.unreadable ⟨.nullCharacter, q.toText⟩)
  /-- The bytes of the document are no text. -/
  | bytes {file : Path} {bytes : List UInt8} {e : Text.DecodeError}
    (hfile : documentPath homes files here p = .ok file) (hread : files.read here file = .ok bytes)
    (hdecode : Text.decodeUtf8 bytes = .error e) :
    Interrupted reader homes files here p (.undecodable e)
  /-- The reader of documents fails in a way of its own. -/
  | reader {file : Path} {text reason : String} (hfile : documentPath homes files here p = .ok file)
    (htext : files.readText here file = .ok text) (hblank : Text.allBlank text.toList = false)
    (hread : reader text = .error (.raised reason)) :
    Interrupted reader homes files here p (.raised reason)
  /-- A number in the document was to be written, and is too long. -/
  | number {file : Path} {text : String} {document : Value}
    (hfile : documentPath homes files here p = .ok file)
    (htext : files.readText here file = .ok text) (hblank : Text.allBlank text.toList = false)
    (hread : reader text = .ok document) (hlong : HasLongNumber document.scalars)
    (hdocument : ofDocument file.parent document = .error .tooManyDigits) :
    Interrupted reader homes files here p .tooManyDigits

/-- Whatever `expandHome` fails with interrupts: no failure of it is expected. -/
theorem expandHome_eq_error (h : expandHome homes p = .error e) :
    Interrupted reader homes files here p e := by
  unfold expandHome at h
  split at h
  · cases h
  · next owner howner =>
    split at h
    · next hnull =>
      cases h
      exact .owner howner hnull
    · next hnull =>
      -- The name of the owner can be looked up.
      have hnull : owner.toList.contains '\x00' = false := by simpa using hnull
      -- There is no home at all, or one that a tilde stands in front of.
      split at h
      · next home hhome =>
        split at h
        · next htilde =>
          cases h
          refine .home howner hnull fun home' hhome' => ?_
          rw [hhome] at hhome'
          cases hhome'
          exact eq_of_beq htilde
        · cases h
      · next hhome =>
        cases h
        refine .home howner hnull fun home' hhome' => ?_
        rw [hhome] at hhome'
        cases hhome'

theorem documentAt_unexpected_iff : documentAt files here p = .error e ∧ e.isExpected = false ↔
    FileTree.holdsNull p = true ∧ e = .unreadable ⟨.nullCharacter, p.toText⟩ := by
  constructor
  · rintro ⟨h, hfault⟩
    -- Only the last check can fail unexpectedly; it stands where a path that is none ends up.
    rcases bind_eq_error_iff.mp h with hentry | ⟨entry, -, h⟩
    · obtain ⟨e', hfails, rfl⟩ := mapError_eq_error_iff.mp hentry
      rw [SettingsError.isExpected, FileTree.entryAt_isExpected hfails] at hfault
      cases hfault
    · split at h
      · cases h
      · dsimp only at h
        split at h
        · next hnull =>
          cases h
          exact ⟨hnull, rfl⟩
        · cases h
  · rintro ⟨hnull, rfl⟩
    refine ⟨?_, rfl⟩
    unfold documentAt
    rw [FileTree.entryAt_of_holdsNull hnull]
    change (if FileTree.holdsNull p = true then _ else _) = _
    rw [if_pos hnull]
    rfl

theorem documentText_unexpected_iff {file : Path} :
    documentText files here file = .error e ∧ e.isExpected = false ↔
      ∃ bytes e', files.read here file = .ok bytes ∧ Text.decodeUtf8 bytes = .error e' ∧
        e = .undecodable e' := by
  constructor
  · rintro ⟨h, hfault⟩
    rcases bind_eq_error_iff.mp h with hentry | ⟨entry, hentry, h⟩
    · obtain ⟨e', hfails, rfl⟩ := mapError_eq_error_iff.mp hentry
      rw [SettingsError.isExpected, FileTree.entryAt_isExpected hfails] at hfault
      cases hfault
    · cases entry with
      | none => cases h
      | some entry =>
        rcases bind_eq_error_iff.mp h with htext | ⟨text, -, hend⟩
        · obtain ⟨e', hfails, rfl⟩ := mapError_eq_error_iff.mp htext
          rcases FileTree.readText_eq_error_iff.mp hfails with
            ⟨e'', rfl, hread⟩ | ⟨e'', bytes, rfl, hread, hdecode⟩
          · -- At a path with the null character nothing would have been found.
            obtain ⟨hnull, -⟩ := FileTree.read_null_iff.mp ⟨hread, hfault⟩
            rw [FileTree.entryAt_of_holdsNull hnull] at hentry
            cases hentry
          · exact ⟨bytes, e'', hread, hdecode, rfl⟩
        · cases hend
  · rintro ⟨bytes, e', hread, hdecode, rfl⟩
    refine ⟨?_, rfl⟩
    -- What can be read is there, so the failure to decode it is reached.
    have htext : files.readText here file = .error (.decode e') :=
      FileTree.readText_eq_error_iff.mpr (.inr ⟨e', bytes, rfl, hread, hdecode⟩)
    unfold documentText
    rw [FileTree.entryAt_of_read hread, htext]
    rfl

theorem documentText_of_readText {file : Path} {text : String}
    (h : files.readText here file = .ok text) : documentText files here file = .ok (some text) := by
  obtain ⟨bytes, hread, -⟩ := FileTree.readText_eq_ok_iff.mp h
  unfold documentText
  rw [FileTree.entryAt_of_read hread, h]
  rfl

theorem readText_of_documentText {file : Path} {text : String}
    (h : documentText files here file = .ok (some text)) : files.readText here file = .ok text := by
  obtain ⟨entry, -, h⟩ := bind_eq_ok_iff.mp h
  cases entry with
  | none => cases h
  | some entry =>
    obtain ⟨text', htext, hend⟩ := bind_eq_ok_iff.mp h
    cases hend
    exact mapError_eq_ok_iff.mp htext

/-- Where there is no document, `load` yields the usual settings. -/
theorem load_of_missing {file : Path} (hfile : documentPath homes files here p = .ok file)
    (htext : documentText files here file = .ok none) :
    load reader homes files here p = .ok { root := file.parent } :=
  bind_eq_ok_iff.mpr ⟨file, hfile, bind_eq_ok_iff.mpr ⟨none, htext, rfl⟩⟩

/-- `ofText` fails unexpectedly because the reader does, or because of a number in the document. -/
theorem ofText_unexpected {root : Path} {file text : String}
    (h : ofText reader root file text = .error e) (hfault : e.isExpected = false) :
    Text.allBlank text.toList = false ∧
      ((∃ reason, reader text = .error (.raised reason) ∧ e = .raised reason) ∨
        ∃ document, reader text = .ok document ∧ HasLongNumber document.scalars ∧
          ofDocument root document = .error .tooManyDigits ∧ e = .tooManyDigits) := by
  unfold ofText at h
  split at h
  · cases h
  · next hblank =>
    refine ⟨by simpa using hblank, ?_⟩
    split at h
    · cases h
      cases hfault
    · next reason hread =>
      cases h
      exact .inl ⟨reason, hread, rfl⟩
    · cases h
    · next document _ hread =>
      -- The reader gave a document, and only a number in it can do this.
      obtain ⟨rfl, hlong⟩ := ofDocument_unexpected h hfault
      exact .inr ⟨document, hread, hlong, h, rfl⟩

/-- `load` fails as `expandHome` does. -/
theorem load_of_expandHome (h : expandHome homes p = .error e) :
    load reader homes files here p = .error e :=
  bind_eq_error_iff.mpr (.inl (bind_eq_error_iff.mpr (.inl h)))

/-- Where there is a text, `load` yields what `ofText` makes of it. -/
theorem load_of_readText {file : Path} {text : String}
    (hfile : documentPath homes files here p = .ok file)
    (htext : files.readText here file = .ok text) :
    load reader homes files here p = ofText reader file.parent file.name text := by
  unfold load
  rw [hfile]
  change documentText files here file >>= _ = _
  rw [documentText_of_readText htext]
  rfl

theorem expandHome_noHome {owner : String} (howner : p.homeOwner? = some owner)
    (hnull : owner.toList.contains '\x00' = false)
    (hhome : ∀ home, homes owner = some home → home.toList.head? = some '~') :
    expandHome homes p = .error .noHome := by
  unfold expandHome
  rw [howner]
  dsimp only
  rw [hnull, if_neg Bool.false_ne_true]
  split
  · next home hfound => rw [if_pos (by simp [hhome home hfound])]
  · rfl

theorem expandHome_null {owner : String} (howner : p.homeOwner? = some owner)
    (hnull : owner.toList.contains '\x00' = true) :
    expandHome homes p = .error (.unreadable ⟨.nullCharacter, p.toText⟩) := by
  unfold expandHome
  rw [howner]
  exact if_pos hnull

theorem ofText_raised {root : Path} {file text reason : String}
    (hblank : Text.allBlank text.toList = false) (hread : reader text = .error (.raised reason)) :
    ofText reader root file text = .error (.raised reason) := by
  rw [ofText, if_neg (by simp [hblank]), hread]

theorem ofText_tooManyDigits {root : Path} {file text : String} {document : Value}
    (hblank : Text.allBlank text.toList = false) (hread : reader text = .ok document)
    (hdocument : ofDocument root document = .error .tooManyDigits) :
    ofText reader root file text = .error .tooManyDigits := by
  rw [ofText, if_neg (by simp [hblank]), hread]
  -- A document that is null would make the usual settings, but then nothing was to be written.
  split
  · next heq => cases heq
  · next heq => cases heq
  · next heq =>
    cases heq
    cases hdocument
  · next heq =>
    cases heq
    exact hdocument

theorem interrupted_of_load (h : load reader homes files here p = .error e)
    (hfault : e.isExpected = false) : Interrupted reader homes files here p e := by
  -- The stages in their order: the place of the document, its text, and what the text says.
  rcases bind_eq_error_iff.mp h with hplace | ⟨file, hfile, h⟩
  · rcases bind_eq_error_iff.mp hplace with hhome | ⟨q, hhome, hplace⟩
    · exact expandHome_eq_error hhome
    · obtain ⟨hnull, rfl⟩ := documentAt_unexpected_iff.mp ⟨hplace, hfault⟩
      exact .path hhome hnull
  · rcases bind_eq_error_iff.mp h with htext | ⟨text?, htext, h⟩
    · obtain ⟨bytes, e', hread, hdecode, rfl⟩ := documentText_unexpected_iff.mp ⟨htext, hfault⟩
      exact .bytes hfile hread hdecode
    · cases text? with
      | none => cases h
      | some text =>
        have hread := readText_of_documentText htext
        obtain ⟨hblank, ⟨reason, hreader, rfl⟩ | ⟨document, hreader, hlong, hdocument, rfl⟩⟩ :=
          ofText_unexpected h hfault
        · exact .reader hfile hread hblank hreader
        · exact .number hfile hread hblank hreader hlong hdocument

/-- **`load` is interrupted** just in the ways that `Interrupted` lists. -/
theorem load_interrupted_iff : load reader homes files here p = .error e ∧ e.isExpected = false ↔
    Interrupted reader homes files here p e := by
  refine ⟨fun ⟨h, hfault⟩ => interrupted_of_load h hfault, fun h => ?_⟩
  -- Each way stops the stage that it is about, and the stages before it succeed.
  cases h with
  | home howner hnull hhome =>
    exact ⟨load_of_expandHome (expandHome_noHome howner hnull hhome), rfl⟩
  | owner howner hnull => exact ⟨load_of_expandHome (expandHome_null howner hnull), rfl⟩
  | path hhome hnull =>
    refine ⟨bind_eq_error_iff.mpr (.inl (bind_eq_error_iff.mpr (.inr ⟨_, hhome, ?_⟩))), rfl⟩
    exact (documentAt_unexpected_iff.mpr ⟨hnull, rfl⟩).1
  | bytes hfile hread hdecode =>
    refine ⟨bind_eq_error_iff.mpr (.inr ⟨_, hfile, bind_eq_error_iff.mpr (.inl ?_)⟩), rfl⟩
    exact (documentText_unexpected_iff.mpr ⟨_, _, hread, hdecode, rfl⟩).1
  | reader hfile htext hblank hread =>
    rw [load_of_readText hfile htext]
    exact ⟨ofText_raised hblank hread, rfl⟩
  | number hfile htext hblank hread hlong hdocument =>
    rw [load_of_readText hfile htext]
    exact ⟨ofText_tooManyDigits hblank hread hdocument, rfl⟩

end Load

end Settings

end DocComment
