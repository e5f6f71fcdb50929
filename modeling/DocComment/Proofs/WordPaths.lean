import DocComment.Proofs.PlainPath

/-!
# Paths of words

A path of words is one or more words with a single mark between two of them. Its parts can be read
off it: the last word is the name, the mark before it tells the scope, and what stands before that
is the owner. `cut_wordPath` compares a cut with these parts, for all paths none of whose words is
*prototype* itself.

The two agree on every path but one kind. A static member whose name merely *starts* with
*prototype*, such as `a.prototypeOf`, is taken for an instance member with the rest for a name, here
`a#Of`: the search for `.prototype` does not ask where the word ends. So a cut gives the parts of
the path in which every such member is replaced, `WordPath.shortened`, and it gives the parts of the
path itself exactly if there is none, `WordPath.Unshortened`.

The proof follows the search through the path from left to right (`shortenPrototypes_chars`). What
makes the induction go through is that a search inside one word never depends on what follows: the
word ends at a mark or with the path, and no mark is a letter of *prototype*.
-/

namespace DocComment.Namepath

open DocComment.Text

/-! ### Words and paths -/

/-- A word of a path, with the proof that it `IsWord`. -/
structure Word where
  /-- Its characters. -/
  chars : List Char
  /-- They make a word. -/
  isWord : IsWord chars

/-- A **path of `Word`s**, any mark between two of them. -/
inductive WordPath where
  /-- A symbol without an owner. -/
  | root (word : Word)
  /-- A member of an owner. -/
  | member (owner : WordPath) (s : Scope) (word : Word)

/-- What follows *prototype* in a `Word` that starts with it and does not end there. -/
def Word.afterPrototype? (w : Word) : Option Word :=
  if h : "prototype".toList <+: w.chars ∧ w.chars ≠ "prototype".toList then
    some {
      chars := w.chars.drop "prototype".toList.length
      isWord := by
        obtain ⟨⟨rest, hrest⟩, hne⟩ := h
        refine ⟨?_, fun c hc => w.isWord.chars c (List.mem_of_mem_drop hc)⟩
        rw [← hrest, List.drop_left]
        rintro rfl
        exact hne (by rw [← hrest, List.append_nil]) }
  else none

namespace WordPath

/-- The characters of a `WordPath`. -/
def chars : WordPath → List Char
  | root w => w.chars
  | member owner s w => owner.chars ++ s.mark :: w.chars

/-- The text of a `WordPath`. -/
def text (p : WordPath) : String :=
  String.ofList p.chars

/-- The `Word`s of a path. -/
def words : WordPath → List Word
  | root w => [w]
  | member owner _ w => owner.words ++ [w]

/-- The **`Parts` of a path of words**, as it reads. -/
def parts : WordPath → Parts
  | root w => { longname := String.ofList w.chars, name := String.ofList w.chars }
  | member owner s w =>
    { longname := (member owner s w).text
      memberof := owner.text
      scope := some s
      name := String.ofList w.chars }

/-- The path in which every static member whose name starts with *prototype* has become an instance
member with the rest of that name, by `afterPrototype?`. -/
def shortened : WordPath → WordPath
  | root w => root w
  | member owner s w =>
    match s, w.afterPrototype? with
    | .static, some v => member owner.shortened .perInstance v
    | _, _ => member owner.shortened s w

/-- Whether no static member of a path has a name that starts with *prototype*, so that `shortened`
changes nothing. -/
def Unshortened : WordPath → Prop
  | root _ => True
  | member owner s w => owner.Unshortened ∧ (s = .static → ¬"prototype".toList <+: w.chars)

end WordPath

theorem Word.afterPrototype?_eq_some {w v : Word} (h : w.afterPrototype? = some v) :
    w.chars = "prototype".toList ++ v.chars := by
  by_cases hstart : "prototype".toList <+: w.chars ∧ w.chars ≠ "prototype".toList
  · rw [afterPrototype?, dif_pos hstart] at h
    obtain rfl := Option.some.inj h
    obtain ⟨⟨rest, hrest⟩, -⟩ := hstart
    change w.chars = "prototype".toList ++ w.chars.drop "prototype".toList.length
    rw [← hrest, List.drop_left]
  · rw [afterPrototype?, dif_neg hstart] at h
    cases h

theorem Word.afterPrototype?_eq_none {w : Word} (h : w.afterPrototype? = none)
    (hne : w.chars ≠ "prototype".toList) : ¬"prototype".toList <+: w.chars := by
  intro hstart
  rw [afterPrototype?, dif_pos ⟨hstart, hne⟩] at h
  cases h

theorem Word.afterPrototype?_of_not {w : Word} (h : ¬"prototype".toList <+: w.chars) :
    w.afterPrototype? = none := by
  rw [afterPrototype?, dif_neg]
  exact fun hstart => h hstart.1

namespace WordPath

/-! ### Shortening, word by word -/

/-- Whether a word can end before `rest`: the path ends there, or a mark follows. -/
def EndsWord (rest : List Char) : Prop :=
  rest = [] ∨ ∃ (s : Scope) (tail : List Char), rest = s.mark :: tail

/-- `prototypePart` finds nothing at the point before a word that does not start with
*prototype*. -/
theorem prototypePart_point {w : Word} (hw : ¬"prototype".toList <+: w.chars) {rest : List Char}
    (hrest : EndsWord rest) : prototypePart none ('.' :: (w.chars ++ rest)) = 0 := by
  have hletters : "prototype".toList.isPrefixOf (w.chars ++ rest) = false := by
    rw [← List.isPrefixOf_iff_prefix, Bool.not_eq_true] at hw
    rcases hrest with rfl | ⟨s, tail, rfl⟩
    · rwa [List.append_nil]
    · -- No mark is a letter, so the letters would have to end before it.
      have hmark : s.mark ∉ "prototype".toList := by
        cases s <;> decide
      rw [isPrefixOf_append_cons hmark, hw]
  have hsplit : prototypeText = '.' :: "prototype".toList := by decide
  rw [prototypePart, if_neg]
  rw [hsplit, List.isPrefixOf_cons_cons, hletters]
  simp

/-- By `shortenPrototypes`, a word that goes on behind *prototype* leaves its rest behind the mark
of instance members. -/
theorem shortenPrototypes_point_prototype (v : Word) (rest : List Char) :
    shortenPrototypes ('.' :: ("prototype".toList ++ v.chars ++ rest)) =
      '#' :: (v.chars ++ shortenPrototypes rest) := by
  have hcut : '.' :: ("prototype".toList ++ v.chars ++ rest) =
      prototypeText ++ (v.chars ++ rest) := by
    rw [List.append_assoc]
    rfl
  have hpoint : '.' ∉ v.chars := v.isWord.notMem (by decide)
  -- The rest of the word stands where a point might, so no point is taken along.
  have hlength : prototypePart none (prototypeText ++ (v.chars ++ rest)) =
      prototypeText.length := by
    obtain ⟨c, cs, hchars⟩ := List.exists_cons_of_ne_nil v.isWord.ne_nil
    have hc : c ≠ '.' := by
      rintro rfl
      exact hpoint (hchars ▸ List.mem_cons_self)
    simp [prototypePart, hchars, hc]
  rw [hcut, shortenPrototypes_prototype (.inl rfl) hlength,
    shortenPrototypes_append_of_notMem hpoint]

/-- **`shortenPrototypes` takes one member of a path by itself.** -/
theorem shortenPrototypes_member {owner : WordPath} {s : Scope} {w : Word}
    (hw : w.chars ≠ "prototype".toList) {rest : List Char} (hrest : EndsWord rest) :
    owner.shortened.chars ++ shortenPrototypes (s.mark :: (w.chars ++ rest)) =
      (member owner s w).shortened.chars ++ shortenPrototypes rest := by
  have hpoint : '.' ∉ w.chars := w.isWord.notMem (by decide)
  -- Where no prototype starts at the mark, mark and word stay.
  have hkept : prototypePart none (s.mark :: (w.chars ++ rest)) = 0 →
      owner.shortened.chars ++ shortenPrototypes (s.mark :: (w.chars ++ rest)) =
        (member owner.shortened s w).chars ++ shortenPrototypes rest := by
    intro hzero
    rw [shortenPrototypes_cons hzero, shortenPrototypes_append_of_notMem hpoint]
    simp [chars]
  -- Only behind a point can a prototype start.
  cases s with
  | static =>
    cases hafter : w.afterPrototype? with
    | none =>
      rw [hkept (prototypePart_point (Word.afterPrototype?_eq_none hafter hw) hrest)]
      simp only [shortened, hafter]
    | some v =>
      rw [Word.afterPrototype?_eq_some hafter]
      change owner.shortened.chars ++
        shortenPrototypes ('.' :: ("prototype".toList ++ v.chars ++ rest)) = _
      rw [shortenPrototypes_point_prototype]
      simp [shortened, hafter, chars, Scope.mark]
  | inner =>
    rw [hkept (prototypePart_of_ne (by decide) none _)]
    simp only [shortened]
  | perInstance =>
    rw [hkept (prototypePart_of_ne (by decide) none _)]
    simp only [shortened]

/-- **`shortenPrototypes` goes through a path word by word**, whatever follows the path. -/
theorem shortenPrototypes_chars {p : WordPath}
    (h : ∀ w ∈ p.words, w.chars ≠ "prototype".toList) {rest : List Char} (hrest : EndsWord rest) :
    shortenPrototypes (p.chars ++ rest) = p.shortened.chars ++ shortenPrototypes rest := by
  induction p generalizing rest with
  | root w => exact shortenPrototypes_append_of_notMem (w.isWord.notMem (by decide)) rest
  | member owner s w ih =>
    obtain ⟨howner, hw⟩ := List.forall_mem_append.mp h
    -- For the owner, the mark and the word are what follows.
    have hfollows : EndsWord (s.mark :: (w.chars ++ rest)) := .inr ⟨s, _, rfl⟩
    rw [chars, List.append_assoc, List.cons_append, ih howner hfollows,
      shortenPrototypes_member (hw w List.mem_cons_self) hrest]

theorem shortened_of_unshortened {p : WordPath} (h : p.Unshortened) : p.shortened = p := by
  induction p with
  | root w => rfl
  | member owner s w ih =>
    obtain ⟨howner, hw⟩ := h
    cases s with
    | static => simp only [shortened, Word.afterPrototype?_of_not (hw rfl), ih howner]
    | inner => simp only [shortened, ih howner]
    | perInstance => simp only [shortened, ih howner]

/-- A path without a `.prototype` in its text has no member that is shortened. -/
theorem unshortened_of_not_infix {p : WordPath} (h : ¬prototypeText <:+: p.chars) :
    p.Unshortened := by
  induction p with
  | root w => trivial
  | member owner s w ih =>
    refine ⟨ih fun howner => h (howner.trans (List.prefix_append _ _).isInfix), ?_⟩
    rintro rfl ⟨rest, hrest⟩
    refine h ⟨owner.chars, rest, ?_⟩
    rw [chars, ← hrest, List.append_assoc]
    rfl

/-! ### The cut -/

/-- A character that is neither in a word nor a mark is in no `WordPath`. -/
theorem notMem_chars {c : Char} (hword : isWordChar c = false) (hmark : Scope.isMark c = false)
    (p : WordPath) : c ∉ p.chars := by
  induction p with
  | root w => exact w.isWord.notMem hword
  | member owner s w ih =>
    rw [chars, List.mem_append, not_or]
    exact ⟨ih, w.isWord.notMem_mark_cons hword hmark s⟩

/-- Taking the text of a path apart gives its `parts`. -/
theorem parts_eq (p : WordPath) :
    { longname := String.ofList p.chars
      memberof := String.ofList (ownerParts p.chars).1
      scope := (ownerParts p.chars).2.1
      name := String.ofList (nameParts (ownerParts p.chars).2.2).1
      variation := (nameParts (ownerParts p.chars).2.2).2.map String.ofList } = p.parts := by
  -- A word holds neither a mark nor a parenthesis, so the last mark of the path is the one before
  -- it.
  have hname : ∀ w : Word, nameParts w.chars = (w.chars, none) := fun w =>
    nameParts_of_notMem (w.isWord.notMem (by decide)) (w.isWord.notMem (by decide))
  cases p with
  | root w =>
    have howner : ownerParts w.chars = ([], none, w.chars) := by
      rw [ownerParts, splitLast_eq_none_of_no_mark w.isWord.no_mark]
    rw [chars, howner, hname]
    rfl
  | member owner s w =>
    have howner : ownerParts (owner.chars ++ s.mark :: w.chars) =
        (owner.chars, some s, w.chars) := by
      rw [ownerParts, splitLast_append w.isWord.no_mark]
    rw [chars, howner, hname]
    rfl

/-- None of the `words` is *prototype*, in a form that can be evaluated. -/
theorem words_ne_prototype {p : WordPath}
    (h : p.words.all (fun w => w.chars != "prototype".toList) = true) :
    ∀ w ∈ p.words, w.chars ≠ "prototype".toList := by
  intro w hw
  simpa using List.all_eq_true.mp h w hw

theorem longname_parts (p : WordPath) : p.parts.longname = String.ofList p.chars := by
  cases p <;> rfl

end WordPath

/-- **What `cut` makes of a path of words**, none of which is *prototype* itself. It gives the parts
of the path in which every static member whose name starts with *prototype* has become an instance
member with the rest of the name; so it gives the parts of the path as it reads, with the path
unchanged, the last word for a name, the last mark for a scope and everything before it for an
owner, exactly if there is no such member. -/
theorem cut_wordPath (p : WordPath) (h : ∀ w ∈ p.words, w.chars ≠ "prototype".toList) :
    cut p.text = p.shortened.parts ∧ (cut p.text = p.parts ↔ p.Unshortened) := by
  have hshort : shortenPrototypes p.chars = p.shortened.chars := by
    have hend : WordPath.EndsWord [] := .inl rfl
    simpa using WordPath.shortenPrototypes_chars h hend
  have hcut : cut p.text = p.shortened.parts := by
    rw [WordPath.text, cut_unquoted (p.notMem_chars (by decide) (by decide))
      (p.notMem_chars (by decide) (by decide)), hshort]
    exact p.shortened.parts_eq
  refine ⟨hcut, ?_, ?_⟩
  · intro hparts
    -- The path is unchanged, so nothing was found in it.
    rw [hcut] at hparts
    have hpath := congrArg Parts.longname hparts
    rw [WordPath.longname_parts, WordPath.longname_parts, ← String.toList_inj,
      String.toList_ofList, String.toList_ofList] at hpath
    exact WordPath.unshortened_of_not_infix (shortenPrototypes_eq_self_iff.mp (hshort.trans hpath))
  · intro hplain
    rw [hcut, WordPath.shortened_of_unshortened hplain]

/-- For `Unshortened`, a word may start with *prototype* behind other marks, and behind a point with
*proto*. -/
theorem cut_wordPath_prototypes :
    let root : Word := ⟨"$1".toList, by decide⟩
    let inner : Word := ⟨"prototypes".toList, by decide⟩
    let short : Word := ⟨"protoType".toList, by decide⟩
    let instanced : Word := ⟨"prototype_".toList, by decide⟩
    let p : WordPath := .member (.member (.member (.root root) .inner inner) .static short)
      .perInstance instanced
    p.text = "$1~prototypes.protoType#prototype_" ∧
      (∀ w ∈ p.words, w.chars ≠ "prototype".toList) ∧ p.Unshortened ∧ cut p.text = p.parts := by
  intro root inner short instanced p
  have hwords := WordPath.words_ne_prototype (p := p) (by decide)
  have hplain : p.Unshortened :=
    ⟨⟨⟨trivial, nofun⟩, fun _ => by decide⟩, nofun⟩
  exact ⟨by decide, hwords, hplain, (cut_wordPath p hwords).2.mpr hplain⟩

/-- A static member named `prototypeOf` is cut as an instance member named `Of`. -/
theorem cut_wordPath_prototypeOf :
    let owner : Word := ⟨"a".toList, by decide⟩
    let name : Word := ⟨"prototypeOf".toList, by decide⟩
    let p : WordPath := .member (.root owner) .static name
    p.text = "a.prototypeOf" ∧ (∀ w ∈ p.words, w.chars ≠ "prototype".toList) ∧
      cut p.text =
        { longname := "a#Of", memberof := "a", scope := some .perInstance, name := "Of" } ∧
      cut p.text ≠ p.parts := by
  intro owner name p
  have hcut : cut p.text =
      { longname := "a#Of", memberof := "a", scope := some .perInstance, name := "Of" } := by
    decide
  refine ⟨by decide, WordPath.words_ne_prototype (by decide), hcut, ?_⟩
  rw [hcut]
  decide

end DocComment.Namepath
