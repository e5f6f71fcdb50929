import DocComment.Proofs.MaskedPath

/-!
# Anchoring and shortening

Two passes bring the glyphs of a path into their normal form: `anchor` puts a point before each
quoted part that needs one, and `shortenGlyphs` writes every `.prototype` as a mark. This module
tells how the passes behave when they are made again.

* `anchor_eq_self` - anchored glyphs get no further point;
* `shortenGlyphs_shortenGlyphs` - shortened glyphs have no prototype left;
* `shortenGlyphs_anchor_shortenGlyphs` - it makes no difference to shorten before anchoring as well.

The last one is where the passes could get in each other's way. Shortening takes the point behind a
prototype along, and anchoring may be what put it there; or the point was there, and anchoring saw
it. Either way the mark that is left anchors the quoted part behind it.
-/

namespace DocComment.Namepath

open DocComment.Text

/-! ### Anchoring -/

theorem anchor_eq_self {free : Bool} {gs : List Glyph} (h : Anchored free gs) :
    anchor free gs = gs := by
  fun_induction anchor free gs with
  | case1 => rfl
  | case2 _ c gs ih => rw [ih h]
  | case3 i gs ih => rw [ih h.2]
  | case4 i gs ih => exact absurd h.1 (by decide)

/-- Behind a run of characters, the last one tells `anchor` whether a quoted part needs a point. -/
theorem anchor_run (free : Bool) (cs : List Char) (c : Char) (gs : List Glyph) :
    anchor free ((cs ++ [c]).map .char ++ gs) =
      (cs ++ [c]).map .char ++ anchor (Scope.isMark c) gs := by
  induction cs generalizing free with
  | nil => rfl
  | cons d cs ih =>
    rw [List.cons_append, List.map_cons, List.cons_append, anchor, ih, List.cons_append]

/-! ### Where a prototype starts -/

theorem prototypePart_eq_zero_iff {before : Option Char} {cs : List Char} :
    prototypePart before cs = 0 ↔ ¬prototypeText <+: cs := by
  rw [← List.isPrefixOf_iff_prefix, prototypePart]
  split
  · next hstart =>
    refine iff_of_false ?_ (fun h => h hstart)
    split <;> decide
  · next hstart => exact iff_of_true rfl hstart

/-- The point behind `prototypeText` belongs to it. -/
theorem prototypePart_append (before : Option Char) (rest : List Char) :
    prototypePart before (prototypeText ++ rest) =
      prototypeText.length + if rest.head? = some '.' then 1 else 0 := by
  have hstart : prototypeText.isPrefixOf (prototypeText ++ rest) = true :=
    List.isPrefixOf_iff_prefix.mpr (List.prefix_append _ _)
  rw [prototypePart, if_pos hstart, List.drop_left]
  simp only [beq_iff_eq]
  split <;> rfl

theorem leadingChars_append (cs : List Char) (gs : List Glyph) :
    leadingChars (cs.map .char ++ gs) = cs ++ leadingChars gs := by
  induction cs with
  | nil => rfl
  | cons c cs ih => rw [List.map_cons, List.cons_append, leadingChars, ih, List.cons_append]

theorem shortenGlyphs_miss {g : Glyph} {gs : List Glyph}
    (h : ¬prototypeText <+: leadingChars (g :: gs)) :
    shortenGlyphs (g :: gs) = g :: shortenGlyphs gs := by
  rw [shortenGlyphs, prototypePart_eq_zero_iff.mpr h]

theorem shortenGlyphs_hit {xs : List Char} (hxs : IsPrototype xs) {gs : List Glyph}
    (h : prototypePart none (xs ++ leadingChars gs) = xs.length) :
    shortenGlyphs (xs.map .char ++ gs) = .char '#' :: shortenGlyphs gs := by
  rw [← leadingChars_append] at h
  obtain ⟨x, xs, rfl⟩ := List.exists_cons_of_ne_nil hxs.ne_nil
  rw [List.map_cons, List.cons_append] at h ⊢
  rw [shortenGlyphs, h]
  have hdrop : (xs.map Glyph.char ++ gs).drop xs.length = gs :=
    List.drop_left' (List.length_map _)
  exact congrArg (fun rest => .char '#' :: shortenGlyphs rest) hdrop

theorem shortenGlyphs_atom (i : Nat) (gs : List Glyph) :
    shortenGlyphs (.atom i :: gs) = .atom i :: shortenGlyphs gs := by
  rw [shortenGlyphs]
  rfl

/-! ### Shortening twice -/

/-- `shortenGlyphs` brings in nothing but marks, so a word without one that starts the shortened
glyphs started the glyphs before. -/
theorem prefix_of_prefix_shortenGlyphs {word : List Char} (hword : '#' ∉ word) {gs : List Glyph}
    (h : word <+: leadingChars (shortenGlyphs gs)) : word <+: leadingChars gs := by
  -- The word gets shorter along with the glyphs. Where a prototype was shortened, the mark stands
  -- in front, and no word goes on over it.
  refine shortenGlyphs_induct (P := fun gs hs => ∀ word, '#' ∉ word → word <+: leadingChars hs →
    word <+: leadingChars gs) (fun _ _ h => h) ?_ ?_ gs word hword h
  · intro g gs _ ih word hword h
    cases g with
    | atom i => exact h
    | char c =>
      cases word with
      | nil => exact List.nil_prefix
      | cons w word =>
        rw [leadingChars, List.cons_prefix_cons] at h ⊢
        exact ⟨h.1, ih word (List.not_mem_of_not_mem_cons hword) h.2⟩
  · intro xs gs _ _ _ word hword h
    cases word with
    | nil => exact List.nil_prefix
    | cons w word =>
      rw [leadingChars, List.cons_prefix_cons] at h
      exact absurd (h.1 ▸ List.mem_cons_self) hword

theorem shortenGlyphs_shortenGlyphs (gs : List Glyph) :
    shortenGlyphs (shortenGlyphs gs) = shortenGlyphs gs := by
  refine shortenGlyphs_induct (P := fun _ hs => shortenGlyphs hs = hs) ?_ ?_ ?_ gs
  · rw [shortenGlyphs]
  · intro g gs hzero ih
    have hmiss := prototypePart_eq_zero_iff.mp hzero
    -- A prototype at the first glyph would have been there before.
    have hstill : ¬prototypeText <+: leadingChars (g :: shortenGlyphs gs) := by
      rw [← shortenGlyphs_miss hmiss]
      exact fun h => hmiss (prefix_of_prefix_shortenGlyphs (by decide) h)
    rw [shortenGlyphs_miss hstill, ih]
  · intro xs gs _ _ ih
    have hmark : prototypePart none (leadingChars (.char '#' :: shortenGlyphs gs)) = 0 :=
      prototypePart_of_ne (by decide) none _
    rw [shortenGlyphs_miss (prototypePart_eq_zero_iff.mp hmark), ih]

/-- **No `prototypeText` is left** anywhere in shortened glyphs. -/
theorem not_prototype_shortenGlyphs {gs hs ts : List Glyph} (h : shortenGlyphs gs = hs ++ ts) :
    ¬prototypeText <+: leadingChars ts := by
  refine shortenGlyphs_induct (P := fun _ short => ∀ hs ts, short = hs ++ ts →
    ¬prototypeText <+: leadingChars ts) ?_ ?_ ?_ gs hs ts h
  · intro hs ts h
    rw [(List.append_eq_nil_iff.mp h.symm).2]
    decide
  · intro g gs hzero ih hs ts h
    cases hs with
    | nil =>
      -- It would have been there before.
      have hmiss := prototypePart_eq_zero_iff.mp hzero
      rw [List.nil_append] at h
      rw [← h, ← shortenGlyphs_miss hmiss]
      exact fun hstart => hmiss (prefix_of_prefix_shortenGlyphs (by decide) hstart)
    | cons _ hs => exact ih hs ts (List.cons.inj h).2
  · intro xs gs _ _ ih hs ts h
    cases hs with
    | nil =>
      rw [List.nil_append] at h
      rw [← h]
      exact prototypePart_eq_zero_iff.mp (prototypePart_of_ne (by decide) none _)
    | cons _ hs => exact ih hs ts (List.cons.inj h).2

/-! ### Shortening before anchoring -/

/-- `anchor` brings in nothing but points that no plain character follows. -/
theorem prefix_of_prefix_anchor {word : List Char} (hword : word.getLast? ≠ some '.') {free : Bool}
    {gs : List Glyph} (h : word <+: leadingChars (anchor free gs)) : word <+: leadingChars gs := by
  fun_induction anchor free gs generalizing word with
  | case1 => exact h
  | case2 _ c gs ih =>
    cases word with
    | nil => exact List.nil_prefix
    | cons w word =>
      rw [leadingChars, List.cons_prefix_cons] at h ⊢
      refine ⟨h.1, ?_⟩
      cases word with
      | nil => exact List.nil_prefix
      | cons v word => exact ih (by rwa [List.getLast?_cons_cons] at hword) h.2
  | case3 i gs ih => exact h
  | case4 i gs ih =>
    cases word with
    | nil => exact List.nil_prefix
    | cons w word =>
      -- The word would be the point itself.
      change w :: word <+: ['.'] at h
      rw [List.cons_prefix_cons, List.prefix_nil] at h
      rw [h.1, h.2] at hword
      exact absurd rfl hword

/-- Behind a prototype, a quoted part is anchored by the mark that is left, and by the point that
goes. -/
theorem shortenGlyphs_anchor_prototype {xs : List Char} (hxs : IsPrototype xs) {gs : List Glyph}
    (h : prototypePart none (xs ++ leadingChars gs) = xs.length) (free : Bool) :
    shortenGlyphs (anchor free (xs.map .char ++ gs)) =
      .char '#' :: shortenGlyphs (anchor true gs) := by
  rcases hxs with rfl | rfl
  · -- Without a point behind it: anchoring puts one there exactly if a quoted part follows.
    have hrun : anchor free (prototypeText.map .char ++ gs) =
        prototypeText.map .char ++ anchor false gs :=
      anchor_run free ".prototyp".toList 'e' gs
    rw [hrun]
    cases gs with
    | nil => exact shortenGlyphs_hit (.inl rfl) h
    | cons g gs =>
      cases g with
      | char c => exact shortenGlyphs_hit (.inl rfl) (by
          rw [prototypePart_append] at h ⊢
          exact h)
      | atom i =>
        have hpoint : prototypeText.map Glyph.char ++ anchor false (.atom i :: gs) =
            (prototypeText ++ ['.']).map .char ++ anchor true (.atom i :: gs) := by
          rw [List.map_append, List.append_assoc]
          rfl
        rw [hpoint]
        exact shortenGlyphs_hit (.inr rfl) rfl
  · -- With a point behind it: the point anchors what follows, and goes with the prototype.
    have hrun : anchor free ((prototypeText ++ ['.']).map .char ++ gs) =
        (prototypeText ++ ['.']).map .char ++ anchor true gs :=
      anchor_run free prototypeText '.' gs
    rw [hrun]
    refine shortenGlyphs_hit (.inr rfl) ?_
    rw [List.append_assoc, prototypePart_append]
    rfl

/-- **Shortening before anchoring makes no difference**, if it is done again afterwards. -/
theorem shortenGlyphs_anchor_shortenGlyphs (free : Bool) (gs : List Glyph) :
    shortenGlyphs (anchor free (shortenGlyphs gs)) = shortenGlyphs (anchor free gs) := by
  refine shortenGlyphs_induct (P := fun gs hs => ∀ free,
    shortenGlyphs (anchor free hs) = shortenGlyphs (anchor free gs)) (fun _ => rfl) ?_ ?_ gs free
  · intro g gs hzero ih free
    have hmiss := prototypePart_eq_zero_iff.mp hzero
    cases g with
    | char c =>
      -- On both sides no prototype starts here, neither by a point nor by a mark that was put in.
      have hbefore : ¬prototypeText <+: leadingChars (anchor free (.char c :: gs)) :=
        fun h => hmiss (prefix_of_prefix_anchor (by decide) h)
      have hafter : ¬prototypeText <+: leadingChars
          (anchor free (.char c :: shortenGlyphs gs)) := by
        intro h
        have hshort := prefix_of_prefix_anchor (by decide) h
        rw [← shortenGlyphs_miss hmiss] at hshort
        exact hmiss (prefix_of_prefix_shortenGlyphs (by decide) hshort)
      rw [anchor] at hbefore hafter
      rw [anchor, anchor, shortenGlyphs_miss hbefore, shortenGlyphs_miss hafter, ih]
    | atom i =>
      cases free with
      | true => rw [anchor, anchor, shortenGlyphs_atom, shortenGlyphs_atom, ih]
      | false =>
        -- The point that anchors a quoted part starts no prototype, as no plain character follows
        -- it.
        have hpoint : ∀ rest : List Glyph,
            ¬prototypeText <+: leadingChars (.char '.' :: .atom i :: rest) := by
          intro rest
          change ¬prototypeText <+: ['.']
          decide
        rw [anchor, anchor, shortenGlyphs_miss (hpoint _), shortenGlyphs_miss (hpoint _),
          shortenGlyphs_atom, shortenGlyphs_atom, ih]
  · intro xs gs hxs hwidth ih free
    rw [leadingChars_append] at hwidth
    -- A prototype: its mark anchors what the point behind it would have anchored.
    have hmark : ¬prototypeText <+: leadingChars (.char '#' :: anchor true (shortenGlyphs gs)) :=
      prototypePart_eq_zero_iff.mp (prototypePart_of_ne (by decide) none _)
    calc shortenGlyphs (anchor free (.char '#' :: shortenGlyphs gs))
        = shortenGlyphs (.char '#' :: anchor true (shortenGlyphs gs)) := by rw [anchor]; rfl
      _ = .char '#' :: shortenGlyphs (anchor true (shortenGlyphs gs)) := shortenGlyphs_miss hmark
      _ = .char '#' :: shortenGlyphs (anchor true gs) := by rw [ih true]
      _ = shortenGlyphs (anchor free (xs.map .char ++ gs)) :=
        (shortenGlyphs_anchor_prototype hxs hwidth free).symm

end DocComment.Namepath
