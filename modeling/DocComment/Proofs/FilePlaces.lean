import DocComment.File.Tree

/-!
# What file operations do to the places of a tree

A path from the root without double points leads to the place that it spells: `walk_eq` for the walk
and `newPlace_eq` for the place of something new. So appending to it writes to this place and to no
other (`append_eq`), and what was appended to once can be appended to again
(`appendable_of_append`). Making directories leaves the bytes of all files as they are
(`bytes?_makeDirectories`).
-/

namespace DocComment

/-- The bytes of a file; a directory has none. -/
def FileEntry.bytes? : FileEntry → Option (List UInt8)
  | .file bytes => some bytes
  | .directory => none

/-- Double points that `collapse` resolves are gone. -/
theorem Path.dots_notMem_collapse (parts : List String) : ".." ∉ collapse parts := by
  -- By induction on the parts, for any that are done: each one is kept as it is or takes one away.
  have hfold : ∀ done : List String, ".." ∉ done → ".." ∉ parts.foldl
      (fun done p => if p == ".." then done.dropLast else done ++ [p]) done := by
    induction parts with
    | nil => exact fun done hdone => hdone
    | cons p parts ih =>
      intro done hdone
      rw [List.foldl_cons]
      apply ih
      split
      · exact fun hmem => hdone (List.dropLast_subset _ hmem)
      · next hp =>
        intro hmem
        rcases List.mem_append.mp hmem with hold | hnew
        · exact hdone hold
        · exact hp (by rw [← List.mem_singleton.mp hnew]; rfl)
  exact hfold [] List.not_mem_nil

namespace FileTree

variable {t t' : FileTree} {here p : Path} {place parts other : List String}
  {entry : FileEntry} {bytes : List UInt8}

/-- The **bytes at a place**, if `find?` finds a file there. -/
def bytes? (t : FileTree) (place : List String) : Option (List UInt8) :=
  (t.find? place).bind FileEntry.bytes?

theorem find?_put_ne (t : FileTree) (entry : FileEntry) (h : place ≠ other) :
    (t.put place entry).find? other = t.find? other := by
  by_cases hother : other = []
  · rw [hother]
    rfl
  · rw [find?_put t place other entry hother, if_neg h]

theorem bytes?_put_ne (t : FileTree) (entry : FileEntry) (h : place ≠ other) :
    (t.put place entry).bytes? other = t.bytes? other := by
  rw [bytes?, bytes?, find?_put_ne t entry h]

theorem bytes?_put_file (t : FileTree) (bytes : List UInt8) (h : place ≠ []) :
    (t.put place (.file bytes)).bytes? place = some bytes := by
  rw [bytes?, find?_put t place place _ h, if_pos rfl]
  rfl

/-! ### Making directories -/

/-- A `.directory` that is put where nothing was takes no bytes away. -/
theorem bytes?_put_directory (h : t.find? place = none) (other : List String) :
    (t.put place .directory).bytes? other = t.bytes? other := by
  by_cases heq : place = other
  · subst heq
    have hne : place ≠ [] := by
      rintro rfl
      cases h
    rw [bytes?, bytes?, find?_put t place place _ hne, if_pos rfl, h]
    rfl
  · exact bytes?_put_ne t _ heq

theorem bytes?_makeDirectory (h : t.makeDirectory here p = .ok t') (other : List String) :
    t'.bytes? other = t.bytes? other := by
  unfold makeDirectory at h
  split at h
  · cases h
  · next place _ =>
    split at h
    · cases h
    · next hfree =>
      cases h
      exact bytes?_put_directory (by simpa using hfree) other

theorem bytes?_ensureDirectory (h : t.ensureDirectory here p = .ok t') (other : List String) :
    t'.bytes? other = t.bytes? other := by
  unfold ensureDirectory at h
  split at h
  · next hmake =>
    cases h
    exact bytes?_makeDirectory hmake other
  · split at h
    · cases h
      rfl
    · cases h

theorem bytes?_makeDirectoriesWithin (above : Nat)
    (h : makeDirectoriesWithin here above t p = .ok t') (other : List String) :
    t'.bytes? other = t.bytes? other := by
  induction above generalizing t t' p with
  | zero => exact bytes?_ensureDirectory h other
  | succ above ih =>
    -- The directory could be made, or the ones above it come first, which the induction covers.
    unfold makeDirectoriesWithin at h
    split at h
    · next hensure =>
      cases h
      exact bytes?_ensureDirectory hensure other
    · split at h
      · cases hparent : makeDirectoriesWithin here above t p.parent with
        | error fault =>
          rw [hparent] at h
          cases h
        | ok t₁ =>
          rw [hparent] at h
          exact (bytes?_ensureDirectory h other).trans (ih hparent)
      · cases h

/-- **`makeDirectories`** leaves the bytes of all files as they are. -/
theorem bytes?_makeDirectories (h : t.makeDirectories here p = .ok t') (other : List String) :
    t'.bytes? other = t.bytes? other :=
  bytes?_makeDirectoriesWithin _ h other

/-! ### Walking -/

/-- Without double points a `walk` ends where its names lead. -/
theorem walk_eq {start : List String} (hdots : ".." ∉ parts) (h : t.walk start parts = .ok place) :
    place = start ++ parts := by
  induction parts generalizing start with
  | nil =>
    cases h
    rw [List.append_nil]
  | cons name parts ih =>
    obtain ⟨hname, hdots⟩ := not_or.mp (mt List.mem_cons.mpr hdots)
    -- The walk goes on only from a directory to something that is there; all else is an error.
    unfold walk at h
    split at h
    · cases h
    · cases h
    · rw [if_neg (by simpa using Ne.symm hname)] at h
      split at h
      · cases h
      · split at h
        · cases h
        · rw [ih hdots h, List.append_assoc]
          rfl

/-- A `walk` looks only at places on its way, so `put` elsewhere does not matter to it. -/
theorem walk_put {start : List String} (hdots : ".." ∉ parts) (entry : FileEntry)
    (hplace : ¬place <+: start ++ parts) :
    (t.put place entry).walk start parts = t.walk start parts := by
  induction parts generalizing start with
  | nil => rfl
  | cons name parts ih =>
    obtain ⟨hname, hdots⟩ := not_or.mp (mt List.mem_cons.mpr hdots)
    -- The walk looks at the place where it stands and at the next one, and neither is the changed
    -- one.
    have hstart : place ≠ start := by
      rintro rfl
      exact hplace (List.prefix_append _ _)
    have hnext : ¬place <+: (start ++ [name]) ++ parts := by
      rwa [List.append_assoc]
    have hto : place ≠ start ++ [name] := by
      rintro rfl
      exact hnext (List.prefix_append _ _)
    have hplain : (name == "..") = false := by simpa using Ne.symm hname
    rw [walk, walk, find?_put_ne t entry hstart, find?_put_ne t entry hto, ih hdots hnext, hplain]
    rfl

/-! ### Appending -/

/-- By `placeIn` a new entry stands in a directory, under its name. -/
theorem placeIn_eq {around : List String} {name? : Option String}
    (h : t.placeIn around name? = .ok place) :
    ∃ name, name? = some name ∧ place = around ++ [name] := by
  unfold placeIn at h
  split at h
  · next name _ =>
    split at h
    · cases h
    · split at h
      · cases h
      · cases h
        exact ⟨name, rfl, rfl⟩
  all_goals cases h

section Root

variable (hdots : ".." ∉ parts)
include hdots

/-- By `newPlace` something new at a path from the root comes to the place that the path spells. -/
theorem newPlace_eq (h : t.newPlace here ⟨.root, parts⟩ = .ok place) :
    place = parts ∧ parts ≠ [] := by
  unfold newPlace at h
  dsimp only at h
  split at h
  · cases h
  · cases hwalk : t.walk [] (here.join ⟨.root, parts⟩).parts.dropLast with
    | error fault =>
      rw [hwalk] at h
      cases h
    | ok around =>
      rw [hwalk] at h
      -- The walk leads to the directory around, and the last part is the name in it.
      obtain rfl : around = parts.dropLast :=
        walk_eq (fun hmem => hdots (List.dropLast_subset _ hmem)) hwalk
      obtain ⟨name, hname, rfl⟩ := placeIn_eq h
      have hne : parts ≠ [] := by
        rintro rfl
        cases hname
      refine ⟨?_, hne⟩
      obtain rfl : parts.getLast hne = name :=
        Option.some.inj ((List.getLast?_eq_some_getLast hne).symm.trans hname)
      exact List.dropLast_concat_getLast hne

/-- The place itself is not on the way to it, so `newPlace` is the same after `put`. -/
theorem newPlace_put (hne : parts ≠ []) (entry : FileEntry) :
    (t.put parts entry).newPlace here ⟨.root, parts⟩ = t.newPlace here ⟨.root, parts⟩ := by
  have hshorter : parts.dropLast.length < parts.length := by
    rw [List.length_dropLast]
    exact Nat.sub_one_lt (mt List.length_eq_zero_iff.mp hne)
  have hdots' : ".." ∉ parts.dropLast := fun hmem => hdots (List.dropLast_subset _ hmem)
  -- The changed place is longer than the way to it, so it is no prefix of the way.
  have hwalk : (t.put parts entry).walk [] (here.join ⟨.root, parts⟩).parts.dropLast =
      t.walk [] (here.join ⟨.root, parts⟩).parts.dropLast :=
    walk_put hdots' entry fun hle => absurd hle.length_le (Nat.not_le_of_lt hshorter)
  unfold newPlace
  dsimp only
  rw [hwalk]
  cases hplace : t.walk [] (here.join ⟨.root, parts⟩).parts.dropLast with
  | error fault => rfl
  | ok around =>
    obtain rfl : around = parts.dropLast := walk_eq hdots' hplace
    have hfind : (t.put parts entry).find? parts.dropLast = t.find? parts.dropLast :=
      find?_put_ne t entry fun heq => absurd (congrArg List.length heq) (Nat.ne_of_gt hshorter)
    simp only [Except.bind, placeIn, hfind]

/-- **`append` to a path from the root** writes to the place that it spells. -/
theorem append_eq (h : t.append here ⟨.root, parts⟩ bytes = .ok t') :
    parts ≠ [] ∧ t' = t.put parts (.file ((t.bytes? parts).getD [] ++ bytes)) := by
  unfold append at h
  split at h
  · cases h
  · cases h
  · next place hplace =>
    -- The file goes on from its old bytes, or is new; to a directory nothing is appended.
    obtain ⟨rfl, hne⟩ := newPlace_eq hdots hplace
    refine ⟨hne, ?_⟩
    split at h
    · next old hold =>
      cases h
      rw [bytes?, hold]
      rfl
    · next hnone =>
      cases h
      rw [bytes?, hnone]
      rfl
    · cases h

end Root

/-- Whether `append` **succeeds** at a place, whatever the bytes are. -/
def Appendable (t : FileTree) (here : Path) (place : List String) : Prop :=
  place ≠ [] ∧ ∀ bytes, t.append here ⟨.root, place⟩ bytes =
    .ok (t.put place (.file ((t.bytes? place).getD [] ++ bytes)))

/-- **What was appended to once is `Appendable`.** -/
theorem appendable_of_append (hdots : ".." ∉ parts)
    (h : t.append here ⟨.root, parts⟩ bytes = .ok t') : t'.Appendable here parts := by
  obtain ⟨hne, rfl⟩ := append_eq hdots h
  refine ⟨hne, fun more => ?_⟩
  have hplace : t.newPlace here ⟨.root, parts⟩ = .ok parts := by
    unfold append at h
    split at h
    · cases h
    · cases h
    · next place hplace => rw [hplace, (newPlace_eq hdots hplace).1]
  unfold append
  -- The place of the file does not move when its bytes change.
  rw [newPlace_put hdots hne, hplace, bytes?_put_file _ _ hne]
  dsimp only
  rw [find?_put _ _ _ _ hne, if_pos rfl]
  rfl

end FileTree

end DocComment
