import DocComment.Proofs.NormalPaths
import DocComment.Proofs.PlainPath
import DocComment.Proofs.ShortenedPaths

/-!
# Paths that a cut leaves as they are

A path is *settled* if the path that the cut gives back is the path itself. For a path without a
prototype this can be seen in the pieces of its scan: no quoted part has brackets, and each stands
at the start or right behind a mark (`longname_cut_eq_self_iff`).

The cut of a settled path can be read off its pieces too (`cut_settled`). Quoted parts are numbered
from the left, so the same name has other stand-ins behind another owner. What is said here of a
last member does not mention the numbers: whether it has a variation is a matter of its plain
characters (`splitVariation?_numbered`).
-/

namespace DocComment.Namepath

open DocComment.Text

/-! ### Scans step by step -/

/-- Whether `ps` are the **pieces of the scan** of `cs`, one step after another. -/
inductive Scans : List Char → List Piece → Prop
  /-- Nothing is left. -/
  | nil : Scans [] []
  /-- No quoted part starts here. -/
  | plain {c : Char} {cs : List Char} {ps : List Piece} (hzero : quotedLength (c :: cs) = 0)
      (hrest : Scans cs ps) : Scans (c :: cs) (.plain c :: ps)
  /-- A quoted part is taken. -/
  | hit {q rest s : List Char} {ps : List Piece} (hs : Enclosed q rest s) (hrest : Scans rest ps) :
      Scans (s ++ rest) (.hit s :: ps)

/-- A run without quotes and brackets is `plain` in a scan. -/
theorem Scans.run {xs cs : List Char} {ps : List Piece} (hquote : doubleQuote ∉ xs)
    (hopening : '[' ∉ xs) (h : Scans cs ps) : Scans (xs ++ cs) (xs.map .plain ++ ps) := by
  induction xs with
  | nil => exact h
  | cons x xs ih =>
    rw [List.mem_cons, not_or] at hquote hopening
    refine .plain ?_ (ih hquote.2 hopening.2)
    exact quotedLength_of_ne (Ne.symm hquote.1) fun hx => absurd hx.symm hopening.1

theorem scans_scan (cs : List Char) : Scans cs (scan quotedPart cs) := by
  refine part_induct (P := fun cs => Scans cs (scan quotedPart cs)) .nil ?_ ?_ ?_ cs
  · intro q rest s hs ih
    rw [hs.scan_append]
    exact .hit hs ih
  · -- A prototype is scanned as any other plain text.
    intro xs ys hxs _ ih
    rw [scan_quotedPart_prototype hxs]
    have hplain : doubleQuote ∉ xs ∧ '[' ∉ xs := by
      rcases hxs with rfl | rfl <;> decide
    exact ih.run hplain.1 hplain.2
  · intro c cs hzero _ ih
    rw [scan_quotedPart_cons hzero]
    exact .plain hzero ih

namespace Scans

variable {cs : List Char} {ps : List Piece} (h : Scans cs ps)
include h

theorem scan_eq : scan quotedPart cs = ps := by
  induction h with
  | nil => rfl
  | plain hzero _ ih => rw [scan_quotedPart_cons hzero, ih]
  | hit hs _ ih => rw [hs.scan_append, ih]

theorem chars_eq : ps.flatMap Piece.chars = cs := by
  rw [← h.scan_eq, flatMap_chars_scan]

theorem mem_of_plain_mem {c : Char} (hc : .plain c ∈ ps) : c ∈ cs := by
  rw [← h.chars_eq]
  exact List.mem_flatMap.mpr ⟨_, hc, List.mem_singleton.mpr rfl⟩

end Scans

/-! ### Settled pieces -/

/-- Whether some pieces are **settled**: no quoted part has brackets, and each stands right behind a
mark, or at the start if that counts as free. -/
def Settled : Bool → List Piece → Prop
  | _, [] => True
  | _, .plain c :: ps => Settled (Scope.isMark c) ps
  | free, .hit s :: ps => free = true ∧ withoutBrackets s = s ∧ Settled false ps

/-- The text of some pieces as `cut` gives it back: each quoted part without its brackets, behind a
point if it needs one. -/
def rejoined : Bool → List Piece → List Char
  | _, [] => []
  | _, .plain c :: ps => c :: rejoined (Scope.isMark c) ps
  | true, .hit s :: ps => withoutBrackets s ++ rejoined false ps
  | false, .hit s :: ps => '.' :: (withoutBrackets s ++ rejoined false ps)

theorem Settled.rejoined_eq {free : Bool} {ps : List Piece} (h : Settled free ps) :
    rejoined free ps = ps.flatMap Piece.chars := by
  induction ps generalizing free with
  | nil => rfl
  -- Glyphs and pieces go along with each other, one for one, up to the character.
  | cons p ps ih =>
    cases p with
    | plain c => rw [rejoined, ih h, List.flatMap_cons, Piece.chars_plain, List.singleton_append]
    | hit s =>
      obtain ⟨rfl, hs, hrest⟩ := h
      rw [rejoined, ih hrest, hs, List.flatMap_cons, Piece.chars_hit]

/-- A closing bracket is not made up for by what `rejoined` has of the rest. -/
theorem rejoined_ne_closing {cs : List Char} {ps : List Piece} (h : Scans cs ps) (free : Bool) :
    rejoined free ps ≠ ']' :: cs := by
  induction h generalizing free with
  | nil => exact (List.cons_ne_nil _ _).symm
  | plain hzero _ ih =>
    intro heq
    obtain ⟨rfl, htail⟩ := List.cons.inj heq
    -- The bracket is in the text already, and the same is asked of the rest.
    exact ih _ htail
  | hit hs _ ih =>
    intro heq
    cases free with
    | true =>
      rw [rejoined, hs.withoutBrackets_eq] at heq
      exact absurd (List.cons.inj heq).1 (by decide)
    | false => exact absurd (List.cons.inj heq).1 (by decide)

/-- **A text is `rejoined` as it is exactly if its pieces are `Settled`.** -/
theorem rejoined_eq_self_iff {cs : List Char} {ps : List Piece} (h : Scans cs ps) (free : Bool) :
    rejoined free ps = cs ↔ Settled free ps := by
  refine ⟨fun heq => ?_, fun hsettled => hsettled.rejoined_eq.trans h.chars_eq⟩
  induction h generalizing free with
  | nil => trivial
  | plain hzero _ ih => exact ih _ (List.cons.inj heq).2
  | @hit q rest s ps hs hrest ih =>
    have hquote := hs.withoutBrackets_eq
    obtain ⟨opening, closing, rfl, hopening, hclosing⟩ := hs.brackets
    -- The first character tells that there is no opening bracket and no point put in.
    have hfirst : ∀ tail : List Char, '.' :: tail ≠ opening ++ quote q ++ closing ++ rest := by
      rintro tail heq
      rcases hopening with rfl | rfl
      · exact absurd (List.cons.inj heq).1 (by decide)
      · exact absurd (List.cons.inj heq).1 (by decide)
    cases free with
    | false => exact absurd heq (hfirst _)
    | true =>
      rw [rejoined, hquote] at heq
      obtain rfl : opening = [] := by
        refine hopening.resolve_left ?_
        rintro rfl
        exact absurd (List.cons.inj heq).1 (by decide)
      rw [List.nil_append, List.append_assoc] at heq
      -- Behind the quotes the rest cannot bring in a closing bracket either.
      have htail : rejoined false ps = closing ++ rest := List.append_cancel_left heq
      rcases hclosing with rfl | ⟨rfl, -⟩
      · exact absurd htail (rejoined_ne_closing hrest false)
      · refine ⟨rfl, ?_, ih false htail⟩
        rw [hquote, List.nil_append, List.append_nil]

theorem Settled.of_append {free : Bool} {ps qs : List Piece} (h : Settled free (ps ++ qs)) :
    Settled free ps := by
  induction ps generalizing free with
  | nil => trivial
  | cons p ps ih =>
    cases p with
    | plain c => exact ih h
    | hit s => exact ⟨h.1, h.2.1, ih h.2.2⟩

/-- For `Settled`, a mark frees the place behind it, whatever stands before it. -/
theorem settled_append_mark {free : Bool} {ps qs : List Piece} {c : Char}
    (hc : Scope.isMark c = true) :
    Settled free (ps ++ .plain c :: qs) ↔ Settled free ps ∧ Settled true qs := by
  induction ps generalizing free with
  | nil =>
    change Settled (Scope.isMark c) qs ↔ True ∧ Settled true qs
    rw [hc, true_and]
  | cons p ps ih =>
    cases p with
    | plain d => exact ih
    | hit s =>
      rw [List.cons_append, Settled, Settled, ih]
      exact ⟨fun h => ⟨⟨h.1, h.2.1, h.2.2.1⟩, h.2.2.2⟩, fun h => ⟨h.1.1, h.1.2.1, h.1.2.2, h.2⟩⟩

/-! ### Numbered pieces -/

/-- The number of the next quoted part behind some pieces, if `i` is that of the first one. -/
def nextNumber : Nat → List Piece → Nat
  | i, [] => i
  | i, .plain _ :: ps => nextNumber i ps
  | i, .hit _ :: ps => nextNumber (i + 1) ps

theorem numbered_append (i : Nat) (ps qs : List Piece) :
    numbered i (ps ++ qs) = numbered i ps ++ numbered (nextNumber i ps) qs := by
  induction ps generalizing i with
  | nil => rfl
  | cons p ps ih =>
    cases p with
    | plain c => rw [List.cons_append, numbered, ih, numbered, List.cons_append, nextNumber]
    | hit s => rw [List.cons_append, numbered, ih, numbered, List.cons_append, nextNumber]

/-- Cutting the `numbered` glyphs at a plain character cuts the pieces. -/
theorem exists_pieces_of_numbered_eq {i : Nat} {ps : List Piece} {hs ts : List Glyph} {c : Char}
    (h : numbered i ps = hs ++ .char c :: ts) :
    ∃ qs rs, ps = qs ++ .plain c :: rs ∧ numbered i qs = hs ∧
      numbered (nextNumber i qs) rs = ts := by
  induction ps generalizing i hs with
  | nil => exact absurd h.symm (List.append_ne_nil_of_right_ne_nil _ (List.cons_ne_nil _ _))
  | cons p ps ih =>
    cases hs with
    | nil =>
      cases p with
      | plain d =>
        obtain ⟨hd, rfl⟩ := List.cons.inj h
        cases hd
        exact ⟨[], ps, rfl, rfl, rfl⟩
      -- A match is numbered as an atom, so the character is none of its.
      | hit s => exact absurd (List.cons.inj h).1 (by simp)
    | cons g hs =>
      cases p with
      | plain d =>
        obtain ⟨rfl, htail⟩ := List.cons.inj h
        obtain ⟨qs, rs, rfl, rfl, rfl⟩ := ih htail
        exact ⟨.plain d :: qs, rs, rfl, rfl, rfl⟩
      | hit s =>
        obtain ⟨rfl, htail⟩ := List.cons.inj h
        obtain ⟨qs, rs, rfl, rfl, rfl⟩ := ih htail
        exact ⟨.hit s :: qs, rs, rfl, rfl, rfl⟩

/-- Whether `f` gives the quoted parts of some pieces, numbered from `i` on. -/
def Gives (f : Nat → List Char) : Nat → List Piece → Prop
  | _, [] => True
  | i, .plain _ :: ps => Gives f i ps
  | i, .hit s :: ps => f i = withoutBrackets s ∧ Gives f (i + 1) ps

theorem gives_append {f : Nat → List Char} {i : Nat} {ps qs : List Piece} :
    Gives f i (ps ++ qs) ↔ Gives f i ps ∧ Gives f (nextNumber i ps) qs := by
  induction ps generalizing i with
  | nil => exact (and_iff_right trivial).symm
  | cons p ps ih =>
    cases p with
    | plain c => exact ih
    | hit s =>
      rw [List.cons_append, Gives, Gives, nextNumber, ih]
      exact and_assoc.symm

/-- The list of all `quotedParts` of a path `Gives` each of them by its place. -/
theorem gives_quotedParts (cs : List Char) :
    Gives (fun i => (quotedParts cs).getD i []) 0 (scan quotedPart cs) := by
  -- The parts passed so far shift the places of the rest, so the induction carries them along.
  have hbehind : ∀ (before : List (List Char)) (i : Nat) (ps : List Piece),
      Gives (fun j => (before ++ (mask i ps).2).getD j []) before.length ps := by
    intro before i ps
    induction ps generalizing before i with
    | nil => trivial
    | cons p ps ih =>
      cases p with
      | plain c => exact ih before i
      | hit s =>
        have hrest := ih (before ++ [withoutBrackets s]) (i + 1)
        rw [List.length_append, List.length_singleton, List.append_assoc] at hrest
        refine ⟨?_, hrest⟩
        rw [mask_snd_hit]
        simp
  exact hbehind [] 0 (scan quotedPart cs)

/-- What the glyphs of some pieces spell after `anchor`: the pieces `rejoined`. -/
theorem spell_anchor_numbered {f : Nat → List Char} {i : Nat} {ps : List Piece}
    (h : Gives f i ps) (free : Bool) :
    spell f (anchor free (numbered i ps)) = rejoined free ps := by
  induction ps generalizing i free with
  | nil => rfl
  | cons p ps ih =>
    cases p with
    | plain c => rw [numbered, anchor, spell_char, ih h, rejoined]
    | hit s =>
      cases free with
      | true => rw [numbered, anchor, spell_atom, ih h.2, h.1, rejoined]
      | false => rw [numbered, anchor, spell_char, spell_atom, ih h.2, h.1, rejoined]

theorem Settled.anchor_numbered {free : Bool} {ps : List Piece} (h : Settled free ps) (i : Nat) :
    anchor free (numbered i ps) = numbered i ps := by
  induction ps generalizing free i with
  | nil => rfl
  | cons p ps ih =>
    cases p with
    | plain c => rw [numbered, anchor, ih h]
    | hit s =>
      obtain ⟨rfl, -, hrest⟩ := h
      rw [numbered, anchor, ih hrest]

/-- `Settled` pieces are spelled by their glyphs as they are. -/
theorem Settled.spell_numbered {free : Bool} {ps : List Piece} (h : Settled free ps)
    {f : Nat → List Char} {i : Nat} (hf : Gives f i ps) :
    spell f (numbered i ps) = ps.flatMap Piece.chars := by
  rw [← h.anchor_numbered, spell_anchor_numbered hf, h.rejoined_eq]

/-- Without a `prototypeText` in the text there is none in the glyphs. -/
theorem shortenGlyphs_anchor_numbered {ps : List Piece}
    (h : ¬prototypeText <:+: ps.flatMap Piece.chars) (free : Bool) (i : Nat) :
    shortenGlyphs (anchor free (numbered i ps)) = anchor free (numbered i ps) := by
  induction ps generalizing free i with
  | nil => rw [numbered, anchor, shortenGlyphs]
  | cons p ps ih =>
    have hrest : ¬prototypeText <:+: ps.flatMap Piece.chars := by
      intro hmem
      rw [List.flatMap_cons] at h
      exact h (hmem.trans (List.suffix_append _ _).isInfix)
    cases p with
    | plain c =>
      -- A point is put in only before an atom, and the leading characters end there.
      have hmiss : ¬prototypeText <+: leadingChars (anchor free (numbered i (.plain c :: ps))) := by
        intro hstart
        have hplain := prefix_of_prefix_anchor (by decide) hstart
        have htext := leadingChars_numbered_prefix i (.plain c :: ps)
        exact h (hplain.trans htext).isInfix
      rw [numbered, anchor] at hmiss ⊢
      rw [shortenGlyphs_miss hmiss, ih hrest]
    | hit s =>
      cases free with
      | true => rw [numbered, anchor, shortenGlyphs_atom, ih hrest]
      | false =>
        have hmiss : ¬prototypeText <+:
            leadingChars (.char '.' :: .atom i :: anchor false (numbered (i + 1) ps)) := by
          change ¬prototypeText <+: ['.']
          decide
        rw [numbered, anchor, shortenGlyphs_miss hmiss, shortenGlyphs_atom, ih hrest]

theorem pathGlyphs_of_not_prototype {cs : List Char} (h : ¬prototypeText <:+: cs) :
    pathGlyphs cs = anchor true (numbered 0 (scan quotedPart cs)) := by
  rw [pathGlyphs, shortenGlyphs_anchor_numbered]
  rwa [flatMap_chars_scan]

/-- **Which paths `cut` gives back as they are**, among those without a prototype: the `Settled`
ones. -/
theorem longname_cut_eq_self_iff {cs : List Char} (hbrace : '\x7b' ∉ cs)
    (hprototype : ¬prototypeText <:+: cs) :
    (cut (String.ofList cs)).longname = String.ofList cs ↔ Settled true (scan quotedPart cs) := by
  rw [longname_cut hbrace, pathGlyphs_of_not_prototype hprototype,
    spell_anchor_numbered (gives_quotedParts cs), String.ofList_inj,
    rejoined_eq_self_iff (scans_scan cs)]

/-! ### Plain characters of a masked text -/

theorem mem_spell_numbered_iff {c : Char} (hc : ∀ i, c ∉ standIn i) {i : Nat} {ps : List Piece} :
    c ∈ spell standIn (numbered i ps) ↔ .plain c ∈ ps := by
  induction ps generalizing i with
  | nil => exact iff_of_false List.not_mem_nil List.not_mem_nil
  | cons p ps ih =>
    cases p with
    | plain d => simp [numbered, ih]
    | hit s => simp [numbered, ih, hc]

theorem spell_numbered_eq_nil_iff {i : Nat} {ps : List Piece} :
    spell standIn (numbered i ps) = [] ↔ ps = [] := by
  cases ps with
  | nil => exact iff_of_true rfl rfl
  | cons p ps =>
    refine iff_of_false ?_ (List.cons_ne_nil _ _)
    cases p with
    | plain c => exact List.cons_ne_nil _ _
    | hit s =>
      rw [numbered, spell_atom, standIn_eq]
      exact List.cons_ne_nil _ _

/-! ### Variations -/

/-- On one line `nameAndVariation?` finds a name and a variation exactly if there are some. -/
theorem isSome_nameAndVariation?_iff {cs : List Char} (hline : '\n' ∉ cs) :
    (nameAndVariation? cs).isSome = true ↔
      ∃ name v, cs = name ++ '(' :: v ∧ name ≠ [] ∧ isVariation v = true := by
  induction cs with
  | nil => simp [nameAndVariation?]
  | cons c cs ih =>
    rw [List.mem_cons, not_or] at hline
    have hc : ¬(c == '\n') = true := by simpa using Ne.symm hline.1
    unfold nameAndVariation?
    rw [if_neg hc]
    constructor
    · intro hsome
      split at hsome
      · next found hrest =>
        -- Found further on: the name gets one character more.
        obtain ⟨name, v, rfl, -, hv⟩ := (ih hline.2).mp (by rw [hrest]; rfl)
        exact ⟨c :: name, v, rfl, List.cons_ne_nil _ _, hv⟩
      · split at hsome
        · next v _ =>
          split at hsome
          · next hv => exact ⟨[c], v, rfl, List.cons_ne_nil _ _, hv⟩
          · cases hsome
        · cases hsome
    · rintro ⟨name, v, hcut, hne, hv⟩
      obtain ⟨d, name, rfl⟩ := List.exists_cons_of_ne_nil hne
      obtain ⟨rfl, hrest⟩ := List.cons.inj hcut
      split
      · rfl
      · next hnone =>
        -- Nothing is found further on, so the name is this one character.
        cases name with
        | nil =>
          obtain rfl : cs = '(' :: v := hrest
          change (if isVariation v = true then some ([c], v) else none).isSome = true
          rw [if_pos hv]
          rfl
        | cons e name =>
          have hfound := (ih hline.2).mpr ⟨e :: name, v, hrest, List.cons_ne_nil _ _, hv⟩
          rw [hnone] at hfound
          cases hfound

/-- **On one line `splitVariation?` takes a variation off exactly if there is one**: in parentheses
at the end, not empty, without a closing parenthesis inside, and with something before it. -/
theorem isSome_splitVariation?_iff {cs : List Char} (hline : '\n' ∉ cs) :
    (splitVariation? cs).isSome = true ↔
      ∃ name v, cs = name ++ '(' :: (v ++ [')']) ∧ name ≠ [] ∧ isVariation v = true := by
  rcases List.eq_nil_or_concat cs with rfl | ⟨before, c, rfl⟩
  · simp [splitVariation?]
  · rw [List.concat_eq_append, List.mem_append, List.mem_singleton, not_or] at hline
    by_cases hc : c = ')'
    · subst hc
      have hsplit : splitVariation? (before ++ [')']) = nameAndVariation? before := by
        unfold splitVariation?
        rw [List.reverse_append, List.reverse_singleton, List.singleton_append]
        change findVariation? before.reverse.reverse = nameAndVariation? before
        rw [List.reverse_reverse, findVariation?_eq hline.1]
      rw [List.concat_eq_append, hsplit, isSome_nameAndVariation?_iff hline.1]
      -- The two conditions differ in the closing parenthesis only.
      refine exists₂_congr fun name v => and_congr_left fun _ => ?_
      rw [← List.cons_append, ← List.append_assoc, List.append_left_inj]
    · -- Without the closing parenthesis there is none.
      refine iff_of_false ?_ ?_
      · unfold splitVariation?
        rw [List.concat_eq_append, List.reverse_append, List.reverse_singleton,
          List.singleton_append]
        split
        · next heq => exact absurd (List.cons.inj heq).1 hc
        · next heq => exact absurd (List.cons.inj heq).1.symm hline.2
        · exact Bool.false_ne_true
      · rintro ⟨name, v, hcut, -⟩
        have hlast : name ++ '(' :: (v ++ [')']) = (name ++ '(' :: v) ++ [')'] := by simp
        rw [hlast, List.concat_eq_append] at hcut
        exact hc (List.append_inj_right' hcut rfl |> List.singleton_inj.mp)

/-- Whether some pieces end in a **variation**, all in `plain` characters. -/
def HasVariation (ps : List Piece) : Prop :=
  ∃ name v, ps = name ++ .plain '(' :: (v ++ [.plain ')']) ∧ name ≠ [] ∧ v ≠ [] ∧ .plain ')' ∉ v

theorem parenthesis_notMem_standIn (i : Nat) : '(' ∉ standIn i ∧ ')' ∉ standIn i :=
  ⟨notMem_standIn i (by decide) (by decide), notMem_standIn i (by decide) (by decide)⟩

theorem isVariation_numbered {i : Nat} {ps : List Piece} :
    isVariation (spell standIn (numbered i ps)) = true ↔ ps ≠ [] ∧ .plain ')' ∉ ps := by
  rw [isVariation, Bool.and_eq_true, Bool.not_eq_true', Bool.not_eq_true',
    List.isEmpty_eq_false_iff, ne_eq, spell_numbered_eq_nil_iff, List.contains_eq_mem,
    decide_eq_false_iff_not, mem_spell_numbered_iff fun i => (parenthesis_notMem_standIn i).2]

/-- **The numbers of its quoted parts do not matter to `splitVariation?`** of a last member. -/
theorem splitVariation?_numbered {i : Nat} {ps : List Piece} (hline : .plain '\n' ∉ ps) :
    splitVariation? (spell standIn (numbered i ps)) = none ↔ ¬HasVariation ps := by
  have hfree : '\n' ∉ spell standIn (numbered i ps) := by
    rwa [mem_spell_numbered_iff fun i => notMem_standIn i (by decide) (by decide)]
  rw [← Option.not_isSome_iff_eq_none, isSome_splitVariation?_iff hfree]
  refine not_congr ⟨?_, ?_⟩
  · -- The parentheses are plain glyphs, so they are plain pieces.
    rintro ⟨name, v, hcut, hne, hv⟩
    obtain ⟨hs, ts, hglyphs, rfl, htail⟩ :=
      exists_glyphs_of_spell_eq (fun i => (parenthesis_notMem_standIn i).1) hcut
    obtain ⟨qs, rs, rfl, rfl, rfl⟩ := exists_pieces_of_numbered_eq hglyphs
    obtain ⟨us, ws, hglyphs', rfl, hnil⟩ :=
      exists_glyphs_of_spell_eq (fun i => (parenthesis_notMem_standIn i).2) htail
    obtain ⟨vs, zs, rfl, rfl, rfl⟩ := exists_pieces_of_numbered_eq hglyphs'
    obtain rfl := spell_numbered_eq_nil_iff.mp hnil
    refine ⟨qs, vs, rfl, ?_, isVariation_numbered.mp hv⟩
    rwa [ne_eq, spell_numbered_eq_nil_iff] at hne
  · rintro ⟨qs, vs, rfl, hne, hvs, hclosing⟩
    refine ⟨spell standIn (numbered i qs), spell standIn (numbered (nextNumber i qs) vs), ?_, ?_,
      isVariation_numbered.mpr ⟨hvs, hclosing⟩⟩
    · rw [numbered_append, spell_append, numbered, spell_char, numbered_append, spell_append,
        numbered, spell_char]
      rfl
    · rwa [ne_eq, spell_numbered_eq_nil_iff]

/-! ### The cut of a settled path -/

/-- Whether no `plain` character of some pieces is a mark. -/
def Markless (ps : List Piece) : Prop :=
  ∀ c, .plain c ∈ ps → Scope.isMark c = false

/-- Some pieces taken apart at their **last mark**. -/
structure LastMark (ps owner : List Piece) (scope : Option Scope) (last : List Piece) : Prop where
  /-- Owner, mark and last member are all there is. -/
  cut : ps = owner ++ (markChars scope).map .plain ++ last
  /-- Without a mark there is no owner. -/
  owner_eq_nil : scope = none → owner = []
  /-- No mark stands behind the mark. -/
  markless : Markless last

theorem exists_lastMark (ps : List Piece) : ∃ owner scope last, LastMark ps owner scope last := by
  induction ps with
  | nil => exact ⟨[], none, [], rfl, fun _ => rfl, fun _ hc => absurd hc List.not_mem_nil⟩
  | cons p ps ih =>
    obtain ⟨owner, scope, last, hcut, hnil, hmarkless⟩ := ih
    cases scope with
    | some s => exact ⟨p :: owner, some s, last, by rw [hcut]; rfl, (nomatch ·), hmarkless⟩
    | none =>
      -- The first piece is the mark, or there is none still.
      obtain rfl := hnil rfl
      obtain rfl : ps = last := hcut
      by_cases hp : ∃ s : Scope, p = .plain s.mark
      · obtain ⟨s, rfl⟩ := hp
        exact ⟨[], some s, ps, rfl, (nomatch ·), hmarkless⟩
      · refine ⟨[], none, p :: ps, rfl, fun _ => rfl, fun c hc => ?_⟩
        rcases List.mem_cons.mp hc with rfl | hc
        · rw [← Bool.not_eq_true, Scope.isMark_iff]
          exact fun ⟨s, hs⟩ => hp ⟨s, by rw [hs]⟩
        · exact hmarkless c hc

/-- The `LastMark` of the pieces is the last mark of the masked text. -/
theorem LastMark.ownerParts_eq {ps owner last : List Piece} {scope : Option Scope}
    (h : LastMark ps owner scope last) (i : Nat) :
    ownerParts (spell standIn (numbered i ps)) =
      (spell standIn (numbered i owner), scope,
        spell standIn (numbered (nextNumber i owner) last)) := by
  -- No stand-in holds a mark, so those of the masked text are those of the plain characters.
  have hlast : ∀ j, ∀ c ∈ spell standIn (numbered j last), Scope.isMark c = false := by
    intro j c hc
    rw [← Bool.not_eq_true, Scope.isMark_iff]
    rintro ⟨s, rfl⟩
    have hplain := h.markless _ ((mem_spell_numbered_iff (mark_notMem_standIn s)).mp hc)
    rw [Scope.isMark_iff.mpr ⟨s, rfl⟩] at hplain
    cases hplain
  obtain ⟨rfl, hnil, -⟩ := h
  unfold ownerParts
  cases scope with
  | none =>
    obtain rfl := hnil rfl
    have hsplit := splitLast_eq_none_of_no_mark (hlast i)
    rw [markChars, List.map_nil, List.append_nil, List.nil_append, hsplit]
    rfl
  | some s =>
    have hspell : spell standIn (numbered i (owner ++ (markChars (some s)).map .plain ++ last)) =
        spell standIn (numbered i owner) ++
          s.mark :: spell standIn (numbered (nextNumber i owner) last) := by
      rw [List.append_assoc, numbered_append, spell_append]
      rfl
    rw [hspell, splitLast_append (hlast _)]

/-- **The `cut` of a `Settled` path** on one line without a prototype, taken apart at its last
mark. -/
theorem cut_settled {cs : List Char} (hline : '\n' ∉ cs) (hbrace : '\x7b' ∉ cs)
    (hprototype : ¬prototypeText <:+: cs) {owner last : List Piece} {scope : Option Scope}
    (hsettled : Settled true (scan quotedPart cs))
    (hmark : LastMark (scan quotedPart cs) owner scope last) :
    (cut (String.ofList cs)).memberof = String.ofList (owner.flatMap Piece.chars) ∧
      (cut (String.ofList cs)).scope = scope ∧
      ((cut (String.ofList cs)).variation = none ↔ ¬HasVariation last) ∧
      (¬HasVariation last →
        (cut (String.ofList cs)).name = String.ofList (last.flatMap Piece.chars)) := by
  have hpath : pathGlyphs cs = numbered 0 (scan quotedPart cs) := by
    rw [pathGlyphs_of_not_prototype hprototype, hsettled.anchor_numbered]
  have hgives := gives_quotedParts cs
  have hwhole := hmark.cut
  -- Owner and last member are settled stretches, so they are spelled as they are.
  have howner : spell (fun i => (quotedParts cs).getD i []) (numbered 0 owner) =
      owner.flatMap Piece.chars := by
    rw [hwhole, List.append_assoc] at hsettled hgives
    exact hsettled.of_append.spell_numbered (gives_append.mp hgives).1
  have hlast : spell (fun i => (quotedParts cs).getD i []) (numbered (nextNumber 0 owner) last) =
      last.flatMap Piece.chars := by
    cases scope with
    | none =>
      obtain rfl := hmark.owner_eq_nil rfl
      rw [hwhole] at hsettled hgives
      exact hsettled.spell_numbered hgives
    | some s =>
      rw [hwhole, List.append_assoc] at hsettled hgives
      have hbehind := ((settled_append_mark (Scope.isMark_iff.mpr ⟨s, rfl⟩)).mp hsettled).2
      exact hbehind.spell_numbered (gives_append.mp hgives).2
  have hglyphs : pathGlyphs cs = numbered 0 owner ++ ((markChars scope).map .char ++
      numbered (nextNumber 0 owner) last) := by
    rw [hpath, hwhole, List.append_assoc, numbered_append, numbered_map_plain]
  -- The last member is on one line as the path is.
  have hfree : .plain '\n' ∉ last := by
    intro hmem
    refine hline ((scans_scan cs).mem_of_plain_mem ?_)
    rw [hwhole]
    exact List.mem_append_right _ hmem
  rw [cut_eq, String.toList_ofList, masked_eq_spell hbrace]
  dsimp only
  rw [hpath, hmark.ownerParts_eq 0]
  dsimp only
  refine ⟨?_, rfl, ?_, ?_⟩
  · rw [restoreFrom_stretch hbrace ⟨[], _, by rw [hglyphs, List.nil_append]⟩, howner]
  · rw [← @splitVariation?_numbered (nextNumber 0 owner) last hfree, nameParts]
    cases splitVariation? (spell standIn (numbered (nextNumber 0 owner) last)) with
    | none => exact iff_of_true rfl rfl
    | some found => exact iff_of_false (Option.some_ne_none _) (Option.some_ne_none _)
  · intro hnone
    rw [nameParts, (splitVariation?_numbered hfree).mpr hnone]
    dsimp only
    rw [restoreFrom_stretch hbrace ⟨_, [], by rw [hglyphs, List.append_nil, List.append_assoc]⟩,
      hlast]

end DocComment.Namepath
