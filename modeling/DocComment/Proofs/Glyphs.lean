import DocComment.Namepath.Cut

/-!
# Quoted parts and their stand-ins

While a path is cut, its quoted parts are away: numbered stand-ins hold their places. A path in this
state is best read as a list of *glyphs*, each a plain character or the number of a quoted part.
`spell` writes glyphs out, with any text for the quoted parts: `spell standIn` is the masked path,
and a `spell` with the quoted parts themselves is the path that comes out in the end.

Putting the quoted parts back is a loop of textual replacements, from the last number to the first,
each of which looks for the first occurrence of a stand-in. `restoreFrom_spell` says that this loop
does what it is meant to do: it turns the one spelling into the other. The reason is the opening
brace. It stands in every stand-in and nowhere else, so an occurrence of a stand-in is a glyph of
that number (`standIn_prefix_inj`), never a piece of plain text or of a quoted part put back before
(`replaceFirst_append_of_notMem`).
-/

namespace DocComment.Scope

/-- A mark announces by `ofMark?` the scope that it is the mark of. -/
theorem eq_mark_of_ofMark? {c : Char} {s : Scope} (h : ofMark? c = some s) : c = s.mark := by
  unfold ofMark? at h
  simp only [beq_iff_eq] at h
  split at h
  · next hc => cases h; exact hc
  · split at h
    · next hc => cases h; exact hc
    · split at h
      · next hc => cases h; exact hc
      · cases h

theorem isMark_iff {c : Char} : isMark c = true ↔ ∃ s : Scope, c = s.mark := by
  rw [isMark, Option.isSome_iff_exists]
  constructor
  · rintro ⟨s, hs⟩
    exact ⟨s, eq_mark_of_ofMark? hs⟩
  · rintro ⟨s, rfl⟩
    exact ⟨s, ofMark?_mark s⟩

end DocComment.Scope

namespace DocComment.Namepath

open DocComment.Text

/-! ### Glyphs -/

/-- A **glyph** of a path: a plain character, or a quoted part by its number. -/
inductive Glyph where
  /-- A plain character. -/
  | char (c : Char)
  /-- The quoted part with the number `i`. -/
  | atom (i : Nat)
  deriving DecidableEq, Repr

/-- The text of a glyph, where `f` gives the texts of the quoted parts. -/
def Glyph.chars (f : Nat → List Char) : Glyph → List Char
  | .char c => [c]
  | .atom i => f i

/-- Glyphs **written out**, where `f` gives the texts of the quoted parts. -/
def spell (f : Nat → List Char) (gs : List Glyph) : List Char :=
  gs.flatMap (Glyph.chars f)

/-- The numbers of the `atom`s among some glyphs, in order. -/
def indices : List Glyph → List Nat
  | [] => []
  | .char _ :: gs => indices gs
  | .atom i :: gs => i :: indices gs

/-- The plain characters, the `char`s, among some glyphs. -/
def plainChars : List Glyph → List Char
  | [] => []
  | .char c :: gs => c :: plainChars gs
  | .atom _ :: gs => plainChars gs

section Spelling

variable (f : Nat → List Char)

@[simp] theorem spell_nil : spell f [] = [] := rfl

@[simp] theorem spell_char (c : Char) (gs : List Glyph) :
    spell f (.char c :: gs) = c :: spell f gs := rfl

@[simp] theorem spell_atom (i : Nat) (gs : List Glyph) :
    spell f (.atom i :: gs) = f i ++ spell f gs := rfl

@[simp] theorem spell_append (gs hs : List Glyph) :
    spell f (gs ++ hs) = spell f gs ++ spell f hs :=
  List.flatMap_append

@[simp] theorem spell_map_char (cs : List Char) : spell f (cs.map .char) = cs := by
  induction cs with
  | nil => rfl
  | cons c cs ih => rw [List.map_cons, spell_char, ih]

end Spelling

@[simp] theorem indices_append (gs hs : List Glyph) :
    indices (gs ++ hs) = indices gs ++ indices hs := by
  induction gs with
  | nil => rfl
  | cons g gs ih => cases g <;> simp [indices, ih]

@[simp] theorem indices_map_char (cs : List Char) : indices (cs.map .char) = [] := by
  induction cs with
  | nil => rfl
  | cons c cs ih => simpa [indices] using ih

@[simp] theorem plainChars_append (gs hs : List Glyph) :
    plainChars (gs ++ hs) = plainChars gs ++ plainChars hs := by
  induction gs with
  | nil => rfl
  | cons g gs ih => cases g <;> simp [plainChars, ih]

@[simp] theorem plainChars_map_char (cs : List Char) : plainChars (cs.map .char) = cs := by
  induction cs with
  | nil => rfl
  | cons c cs ih => simpa [plainChars] using ih

/-- `spell` looks only at the texts of the parts that are there. -/
theorem spell_congr {f g : Nat → List Char} {gs : List Glyph} (h : ∀ i ∈ indices gs, f i = g i) :
    spell f gs = spell g gs := by
  induction gs with
  | nil => rfl
  | cons x gs ih =>
    cases x with
    | char c => rw [spell_char, spell_char, ih h]
    | atom i =>
      rw [spell_atom, spell_atom, h i List.mem_cons_self,
        ih fun j hj => h j (List.mem_cons_of_mem _ hj)]

/-- No text that starts with a brace comes of plain characters and parts without one in front. -/
theorem head?_spell_ne {f : Nat → List Char} {gs : List Glyph} (hplain : '\x7b' ∉ plainChars gs)
    (hf : ∀ i ∈ indices gs, (f i).head? ≠ some '\x7b') : (spell f gs).head? ≠ some '\x7b' := by
  induction gs with
  | nil => simp
  | cons x gs ih =>
    cases x with
    | char c =>
      rw [plainChars, List.mem_cons, not_or] at hplain
      simpa using Ne.symm hplain.1
    | atom i =>
      rw [spell_atom, List.head?_append]
      cases hfi : (f i).head? with
      -- The part is empty, so the text starts further on.
      | none => exact ih hplain fun j hj => hf j (List.mem_cons_of_mem _ hj)
      | some c =>
        rw [Option.some_or, ← hfi]
        exact hf i List.mem_cons_self

/-! ### Stand-ins -/

theorem standIn_eq (i : Nat) :
    standIn i = '@' :: '\x7b' :: (Nat.toDigits 10 i ++ ['\x7d', '@']) := rfl

theorem isDigit_of_mem_digits {i : Nat} {c : Char} (h : c ∈ Nat.toDigits 10 i) :
    c.isDigit = true :=
  Nat.isDigit_of_mem_toDigits (by decide) (by decide) h

/-- A character that is no digit and none of the signs is in no `standIn`. -/
theorem notMem_standIn {c : Char} (i : Nat) (hdigit : c.isDigit = false)
    (hsign : c ∉ ['@', '\x7b', '\x7d']) : c ∉ standIn i := by
  intro h
  rw [standIn_eq, List.mem_cons, List.mem_cons, List.mem_append] at h
  rcases h with rfl | rfl | h | h
  · simp at hsign
  · simp at hsign
  · rw [isDigit_of_mem_digits h] at hdigit
    exact absurd hdigit (by decide)
  · rw [List.mem_cons, List.mem_singleton] at h
    rcases h with rfl | rfl <;> simp at hsign

/-- No `standIn` holds a mark. -/
theorem mark_notMem_standIn (s : Scope) (i : Nat) : s.mark ∉ standIn i := by
  cases s <;> exact notMem_standIn i (by decide) (by decide)

/-- Behind its brace a `standIn` holds none. -/
theorem brace_notMem_standIn_tail (i : Nat) : '\x7b' ∉ Nat.toDigits 10 i ++ ['\x7d', '@'] := by
  rw [List.mem_append, not_or]
  refine ⟨fun h => ?_, by decide⟩
  exact absurd (isDigit_of_mem_digits h) (by decide)

/-- The digits in a text that starts with a number, up to the closing brace. -/
theorem takeWhile_digits (i : Nat) (rest : List Char) :
    (Nat.toDigits 10 i ++ '\x7d' :: rest).takeWhile Char.isDigit = Nat.toDigits 10 i := by
  rw [List.takeWhile_append_of_pos fun c hc => isDigit_of_mem_digits hc,
    List.takeWhile_cons_of_neg (by decide), List.append_nil]

/-- **A `standIn` in front of a text tells its number.** -/
theorem standIn_prefix_inj {k i : Nat} {rest : List Char} (h : standIn k <+: standIn i ++ rest) :
    k = i := by
  obtain ⟨tail, htail⟩ := h
  have hdigits : Nat.toDigits 10 k ++ '\x7d' :: ('@' :: tail) =
      Nat.toDigits 10 i ++ '\x7d' :: ('@' :: rest) := by
    simpa [standIn_eq] using htail
  -- The closing brace ends both numbers, so they have the same digits.
  have hsame : Nat.toDigits 10 k = Nat.toDigits 10 i := by
    rw [← takeWhile_digits k ('@' :: tail), hdigits, takeWhile_digits]
  have hvalue := congrArg (Nat.ofDigitChars 10 · 0) hsame
  simpa using hvalue

/-! ### Replacing a stand-in -/

section Replacing

variable {k : Nat} {other : List Char}

/-- Where the word does not start, `replaceFirst` moves on by one character. -/
theorem replaceFirst_cons_of_not {word : List Char} {c : Char} {rest : List Char}
    (h : word.isPrefixOf (c :: rest) = false) :
    replaceFirst word other (c :: rest) = c :: replaceFirst word other rest := by
  rw [replaceFirst, h]
  rfl

/-- No `standIn` starts where no brace follows. -/
theorem not_isPrefixOf_standIn {c : Char} {rest : List Char} (h : rest.head? ≠ some '\x7b') :
    (standIn k).isPrefixOf (c :: rest) = false := by
  rw [← Bool.not_eq_true, List.isPrefixOf_iff_prefix]
  rintro ⟨tail, htail⟩
  rw [standIn_eq, List.cons_append, List.cons_append] at htail
  rw [← (List.cons.inj htail).2] at h
  exact h rfl

/-- **In search of a `standIn`, `replaceFirst` passes over a text without a brace.** -/
theorem replaceFirst_append_of_notMem {xs rest : List Char} (hxs : '\x7b' ∉ xs)
    (hrest : rest.head? ≠ some '\x7b') :
    replaceFirst (standIn k) other (xs ++ rest) = xs ++ replaceFirst (standIn k) other rest := by
  induction xs with
  | nil => rfl
  | cons c xs ih =>
    rw [List.mem_cons, not_or] at hxs
    -- The second character of a stand-in is a brace, and the next one here is none.
    have hnext : (xs ++ rest).head? ≠ some '\x7b' := by
      cases xs with
      | nil => exact hrest
      | cons d xs =>
        rw [List.mem_cons, not_or] at hxs
        simpa using Ne.symm hxs.2.1
    rw [List.cons_append, replaceFirst_cons_of_not (not_isPrefixOf_standIn hnext), ih hxs.2,
      List.cons_append]

/-- In search of a `standIn`, `replaceFirst` passes over the one of another number. -/
theorem replaceFirst_standIn_of_ne {i : Nat} {rest : List Char} (hne : k ≠ i)
    (hrest : rest.head? ≠ some '\x7b') :
    replaceFirst (standIn k) other (standIn i ++ rest) =
      standIn i ++ replaceFirst (standIn k) other rest := by
  have hfirst : (standIn k).isPrefixOf (standIn i ++ rest) = false := by
    rw [← Bool.not_eq_true, List.isPrefixOf_iff_prefix]
    exact fun h => hne (standIn_prefix_inj h)
  have hbrace : ∀ cs, (standIn k).isPrefixOf ('\x7b' :: cs) = false := fun cs => rfl
  -- The word starts neither at the marker nor at the brace, and behind the brace there is no other.
  rw [standIn_eq i, List.cons_append, List.cons_append] at hfirst ⊢
  rw [replaceFirst_cons_of_not hfirst, replaceFirst_cons_of_not (hbrace _),
    replaceFirst_append_of_notMem (brace_notMem_standIn_tail i) hrest, List.cons_append,
    List.cons_append]

/-- `replaceFirst` replaces a `standIn` that stands in front. -/
theorem replaceFirst_standIn_self (rest : List Char) :
    replaceFirst (standIn k) other (standIn k ++ rest) = other ++ rest := by
  have hfirst : (standIn k).isPrefixOf (standIn k ++ rest) = true :=
    List.isPrefixOf_iff_prefix.mpr (List.prefix_append _ _)
  have hdrop : (standIn k ++ rest).drop (standIn k).length = rest := List.drop_left
  rw [standIn_eq k, List.cons_append] at hfirst hdrop ⊢
  rw [replaceFirst, if_pos hfirst, hdrop]

/-- The texts that quoted parts may have while the part `k` is put back: their own stand-ins, or
texts without a brace. -/
def Harmless (f : Nat → List Char) (i : Nat) : Prop :=
  f i = standIn i ∨ '\x7b' ∉ f i

theorem Harmless.head?_ne {f : Nat → List Char} {i : Nat} (h : Harmless f i) :
    (f i).head? ≠ some '\x7b' := by
  rcases h with h | h
  · rw [h, standIn_eq]
    simp
  · exact fun hhead => h (List.mem_of_mem_head? hhead)

/-- **One replacement puts one part back.** If `g` gives the parts the texts that `f` gives them,
but for the part `k`, then replacing the stand-in of `k` turns the one spelling into the other. -/
theorem replaceFirst_spell {f g : Nat → List Char} {gs : List Glyph}
    (hplain : '\x7b' ∉ plainChars gs) (hnodup : (indices gs).Nodup)
    (hharmless : ∀ i ∈ indices gs, Harmless f i) (hk : f k = standIn k) (hgk : g k = other)
    (hg : ∀ i ∈ indices gs, i ≠ k → g i = f i) :
    replaceFirst (standIn k) other (spell f gs) = spell g gs := by
  induction gs with
  | nil => rfl
  | cons x gs ih =>
    cases x with
    | char c =>
      have hhead := head?_spell_ne (List.not_mem_of_not_mem_cons hplain)
        fun i hi => (hharmless i hi).head?_ne
      have hc : '\x7b' ∉ [c] := by
        rw [List.mem_singleton]
        exact fun h => hplain (h ▸ List.mem_cons_self)
      rw [spell_char, spell_char, ← List.singleton_append, replaceFirst_append_of_notMem hc hhead,
        ih (List.not_mem_of_not_mem_cons hplain) hnodup hharmless hg]
      rfl
    | atom i =>
      obtain ⟨hfresh, hnodup⟩ := List.nodup_cons.mp hnodup
      have hrest : ∀ j ∈ indices gs, Harmless f j :=
        fun j hj => hharmless j (List.mem_cons_of_mem _ hj)
      have hhead : (spell f gs).head? ≠ some '\x7b' :=
        head?_spell_ne hplain fun j hj => (hrest j hj).head?_ne
      rw [spell_atom, spell_atom]
      by_cases hik : i = k
      · -- The part itself; behind it there is no other stand-in of its number.
        subst hik
        rw [hk, hgk, replaceFirst_standIn_self]
        refine congrArg (other ++ ·) (spell_congr fun j hj => (hg j ?_ ?_).symm)
        · exact List.mem_cons_of_mem _ hj
        · exact fun h => hfresh (h ▸ hj)
      · rw [hg i List.mem_cons_self hik]
        have ih := ih hplain hnodup hrest fun j hj => hg j (List.mem_cons_of_mem _ hj)
        -- Another part is still a stand-in, or is back and holds no brace.
        rcases hharmless i List.mem_cons_self with hfi | hfi
        · rw [hfi, replaceFirst_standIn_of_ne (Ne.symm hik) hhead, ih]
        · rw [replaceFirst_append_of_notMem hfi hhead, ih]

end Replacing

/-! ### Putting all parts back -/

/-- The texts of the parts when those from `k` on are back. -/
def backFrom (k : Nat) (atoms : List (List Char)) (i : Nat) : List Char :=
  if i < k then standIn i else atoms.getD (i - k) []

theorem harmless_backFrom {k : Nat} {atoms : List (List Char)} (h : ∀ a ∈ atoms, '\x7b' ∉ a)
    (i : Nat) : Harmless (backFrom k atoms) i := by
  unfold Harmless backFrom
  by_cases hik : i < k
  · rw [if_pos hik]
    exact .inl rfl
  · rw [if_neg hik]
    right
    rw [List.getD_eq_getElem?_getD]
    cases hget : atoms[i - k]? with
    | none => simp
    | some a => exact h a (List.mem_of_getElem? hget)

/-- **`restoreFrom` turns the one spelling into the other.** The loop runs from the last part to the
first; after each round the parts from some number on are back. -/
theorem restoreFrom_spell {gs : List Glyph} (hplain : '\x7b' ∉ plainChars gs)
    (hnodup : (indices gs).Nodup) {atoms : List (List Char)} (hatoms : ∀ a ∈ atoms, '\x7b' ∉ a)
    (k : Nat) (hbound : ∀ i ∈ indices gs, i < k + atoms.length) :
    restoreFrom k atoms (spell standIn gs) = spell (backFrom k atoms) gs := by
  induction atoms generalizing k with
  | nil =>
    refine spell_congr fun i hi => ?_
    rw [backFrom, if_pos (by simpa using hbound i hi)]
  | cons a atoms ih =>
    have hlater : ∀ b ∈ atoms, '\x7b' ∉ b := fun b hb => hatoms b (List.mem_cons_of_mem _ hb)
    have hround := ih hlater (k + 1) fun i hi => by
      have := hbound i hi
      rw [List.length_cons] at this
      omega
    -- The parts behind `k` are back; this round puts back `k` itself.
    rw [restoreFrom, hround]
    refine replaceFirst_spell hplain hnodup (fun i _ => harmless_backFrom hlater i) ?_ ?_ ?_
    · rw [backFrom, if_pos (Nat.lt_succ_self k)]
    · simp [backFrom]
    · intro i _ hik
      unfold backFrom
      by_cases hlt : i < k
      · rw [if_pos hlt, if_pos (by omega)]
      · rw [if_neg hlt, if_neg (by omega), show i - k = (i - (k + 1)) + 1 by omega,
          List.getD_cons_succ]

/-- The text of a part by `backFrom`, once all are back. -/
theorem backFrom_zero (atoms : List (List Char)) (i : Nat) :
    backFrom 0 atoms i = atoms.getD i [] := by
  simp [backFrom]

end DocComment.Namepath
