import DocComment.Comment.Margin
import DocComment.Proofs.SolidText
import DocComment.Proofs.Substitution

/-!
# The margin pass, line by line

A margin is blanks and a *sign*: a star with at most one space behind it, or the mark
(`marginLength_eq`). It starts at the start of a line, but its blanks may be whole blank lines, so a
margin may reach over several lines. The pass is told here one line at a time all the same:

* a line that is not blank loses its margin, if it has one, and the rest of it stays
  (`exists_substituteFrom_margin_solid`);
* a blank line goes or stays whole, and what follows is treated as if it were not there
  (`exists_substituteFrom_margin_blank`);
* blanks and the mark at the end of the text go (`substituteFrom_margin_endMark`).

Text behind a line matters to its margin in two cases only: a space may belong to a star at the end
of the line, and a `Z` may complete the mark (`sign?_append`).
-/

namespace DocComment.Comment

open DocComment.Text

/-! ### Signs -/

/-- The signs that end a margin: a star with one space behind it, a star, the mark. -/
def signs : List (List Char) :=
  [['*', ' '], ['*'], endMark]

/-- The **sign** that a text starts with, the longer one of two. -/
def sign? (cs : List Char) : Option (List Char) :=
  signs.find? (·.isPrefixOf cs)

/-- A margin is the blanks before a `sign?` and the sign. -/
theorem marginLength_eq (cs : List Char) :
    marginLength cs = (sign? (cs.dropWhile isBlank)).elim 0 fun s =>
      (cs.takeWhile isBlank).length + s.length := by
  unfold marginLength
  dsimp only
  generalize cs.dropWhile isBlank = xs
  -- One case for each sign, the longer star first, and one where there is none.
  split
  · rfl
  · next rest hspace =>
    cases rest with
    | nil => rfl
    | cons c rest =>
      -- A star alone: no space follows it, so the longer sign does not match.
      have hc : (' ' == c) = false := by
        simpa using fun h => hspace rest (by rw [h])
      simp [sign?, signs, List.isPrefixOf, hc]
  · rfl
  · next hspace hstar hmark =>
    have hnone : sign? xs = none := by
      refine List.find?_eq_none.mpr fun s hs hstarts => ?_
      obtain ⟨rest, rfl⟩ := List.isPrefixOf_iff_prefix.mp hstarts
      simp only [signs, List.mem_cons, List.not_mem_nil, or_false] at hs
      rcases hs with rfl | rfl | rfl
      · exact hspace rest rfl
      · exact hstar rest rfl
      · exact hmark rest rfl
    rw [hnone]
    rfl

/-- Text behind a line that does not go on with a space or with the second character of the mark
makes no difference for `sign?`. -/
theorem sign?_append {xs after : List Char} (hne : xs ≠ [])
    (hafter : ∀ c ∈ after.head?, c ≠ ' ' ∧ c ≠ 'Z') : sign? (xs ++ after) = sign? xs := by
  obtain ⟨c, xs, rfl⟩ := List.exists_cons_of_ne_nil hne
  cases xs with
  | cons d xs => rfl
  | nil =>
    cases after with
    | nil => rw [List.append_nil]
    | cons e after =>
      -- Two characters decide, and the second one is behind the line.
      obtain ⟨hspace, hmark⟩ := hafter e rfl
      have hspace' : (' ' == e) = false := by simpa using Ne.symm hspace
      have hmark' : ('Z' == e) = false := by simpa using Ne.symm hmark
      simp [sign?, signs, endMark, List.find?_cons, List.isPrefixOf, hspace', hmark']

/-- **What one of the `signs` is like**: it starts with a character that is not blank, and ends in
one that is no line feed. -/
theorem of_mem_signs {s : List Char} (h : s ∈ signs) :
    (∃ c rest, s = c :: rest ∧ isBlank c = false) ∧ startsLine s.getLast? = false := by
  simp only [signs, List.mem_cons, List.not_mem_nil, or_false] at h
  rcases h with rfl | rfl | rfl <;> exact ⟨⟨_, _, rfl, by decide⟩, rfl⟩

theorem exists_of_sign? {xs s : List Char} (h : sign? xs = some s) :
    s ∈ signs ∧ ∃ rest, xs = s ++ rest := by
  unfold sign? at h
  have hstarts := List.find?_some h
  obtain ⟨rest, hrest⟩ := List.isPrefixOf_iff_prefix.mp hstarts
  exact ⟨List.mem_of_find?_eq_some h, rest, hrest.symm⟩

/-! ### The start of a line and its rest -/

/-- **Blanks and a `sign?` are a margin**, and `substituteFrom` goes on behind the sign. -/
theorem substituteFrom_margin_sign {before : Option Char} (hbefore : startsLine before = true)
    {w s rest : List Char} (hw : ∀ b ∈ w, isBlank b = true) (hsign : sign? (s ++ rest) = some s) :
    substituteFrom margin (fun _ => []) before (w ++ (s ++ rest)) =
      substituteFrom margin (fun _ => []) s.getLast? rest := by
  obtain ⟨c, more, hs, hc⟩ := (of_mem_signs (exists_of_sign? hsign).1).1
  have hblank : (s ++ rest).takeWhile isBlank = [] ∧ (s ++ rest).dropWhile isBlank = s ++ rest := by
    simp [hs, hc]
  have hhit : margin before (w ++ s ++ rest) = (w ++ s).length := by
    rw [margin, if_pos hbefore, marginLength_eq, List.append_assoc, List.takeWhile_append_of_pos hw,
      List.dropWhile_append_of_pos hw, hblank.1, hblank.2, hsign, List.append_nil,
      List.length_append]
    rfl
  -- A sign is not empty, so its end is what is before the rest.
  have hlast : lastBefore before (w ++ s) = s.getLast? := by
    simp [lastBefore, hs, List.getLast?_append, List.getLast?_cons]
  rw [← List.append_assoc, substituteFrom_hit (by simp [hs]) hhit, hlast, List.nil_append]

/-- Blanks and the `endMark` at the end of a text go. -/
theorem substituteFrom_margin_endMark {before : Option Char} (hbefore : startsLine before = true)
    {w : List Char} (hw : ∀ b ∈ w, isBlank b = true) :
    substituteFrom margin (fun _ => []) before (w ++ endMark) = [] := by
  have hall := substituteFrom_margin_sign hbefore hw
    (show sign? (endMark ++ []) = some endMark from rfl)
  rwa [List.append_nil, substituteFrom_nil] at hall

/-- Inside a line no `margin` starts. -/
theorem margin_of_inside (before : Option Char) (cs : List Char) (h : startsLine before = false) :
    margin before cs = 0 := by
  simp [margin, h]

/-- `substituteFrom` leaves the rest of a line as it is, with the line feed that ends it. -/
theorem substituteFrom_margin_line {write : List Char → List Char} {before : Option Char}
    {line : List Char} (h : startsLine before = false) (hline : '\n' ∉ line) (rest : List Char) :
    substituteFrom margin write before (line ++ '\n' :: rest) =
      line ++ '\n' :: substituteFrom margin write (some '\n') rest := by
  rw [substituteFrom_inside margin_of_inside h hline,
    substituteFrom_miss (margin_of_inside _ _ (startsLine_lastBefore h hline))]

/-! ### Whole lines -/

/-- A line **without its `margin`**. -/
def bareLine (line : List Char) : List Char :=
  (sign? (line.dropWhile isBlank)).elim line fun s => (line.dropWhile isBlank).drop s.length

/-- **A line that is not blank becomes its `bareLine`**: it loses its margin, if it has one. -/
theorem exists_substituteFrom_margin_solid {before : Option Char}
    (hbefore : startsLine before = true)
    {line after : List Char} (hline : '\n' ∉ line) (hsolid : allBlank line = false)
    (hafter : ∀ c ∈ after.head?, c ≠ ' ' ∧ c ≠ 'Z') :
    ∃ before', startsLine before' = false ∧
      substituteFrom margin (fun _ => []) before (line ++ after) =
        bareLine line ++ substituteFrom margin (fun _ => []) before' after := by
  obtain ⟨w, c, rest, rfl, hw, hc⟩ := exists_of_solid hsolid
  have hsame : sign? (c :: rest ++ after) = sign? (c :: rest) :=
    sign?_append (List.cons_ne_nil _ _) hafter
  have hdrop : (w ++ c :: rest).dropWhile isBlank = c :: rest := by
    rw [List.dropWhile_append_of_pos hw, List.dropWhile_cons_of_neg (by simp [hc])]
  unfold bareLine
  rw [hdrop]
  cases hsign : sign? (c :: rest) with
  | some s =>
    -- Behind the sign the line goes on.
    obtain ⟨hmem, more, hmore⟩ := exists_of_sign? hsign
    rw [hmore] at hsame hsign hline ⊢
    rw [hsign, List.append_assoc] at hsame
    have hinside := (of_mem_signs hmem).2
    have hrest : '\n' ∉ more := fun hmem => hline (by simp [hmem])
    refine ⟨_, startsLine_lastBefore hinside hrest, ?_⟩
    rw [List.append_assoc, List.append_assoc, substituteFrom_margin_sign hbefore hw hsame,
      substituteFrom_inside margin_of_inside hinside hrest]
    simp
  | none =>
    -- No margin starts with the line, and none can start inside it.
    have hmiss : margin before (w ++ c :: rest ++ after) = 0 := by
      rw [margin, if_pos hbefore, marginLength_eq, List.append_assoc,
        List.dropWhile_append_of_pos hw,
        List.cons_append, List.dropWhile_cons_of_neg (by simp [hc]), ← List.cons_append, hsame,
        hsign]
      rfl
    obtain ⟨d, more, hmore⟩ := List.exists_cons_of_ne_nil (l := w ++ c :: rest) (by simp)
    rw [hmore, List.cons_append] at hmiss
    rw [hmore] at hline ⊢
    rw [List.mem_cons, not_or] at hline
    have hd : startsLine (some d) = false := by
      simpa [startsLine] using Ne.symm hline.1
    refine ⟨_, startsLine_lastBefore hd hline.2, ?_⟩
    rw [List.cons_append, substituteFrom_miss hmiss,
      substituteFrom_inside margin_of_inside hd hline.2]
    rfl

/-- **A blank line goes or stays whole**, with its line feed: it goes if a margin follows, which it
then belongs to. -/
theorem exists_substituteFrom_margin_blank {before : Option Char}
    (hbefore : startsLine before = true)
    {w : List Char} (hline : '\n' ∉ w) (hw : ∀ b ∈ w, isBlank b = true) (rest : List Char) :
    ∃ w', (∀ b ∈ w', isBlank b = true) ∧ (∀ d ∈ w'.getLast?, d = '\n') ∧
      substituteFrom margin (fun _ => []) before (w ++ '\n' :: rest) =
        w' ++ substituteFrom margin (fun _ => []) (some '\n') rest := by
  have hfeed : ∀ b ∈ w ++ ['\n'], isBlank b = true :=
    List.forall_mem_append.mpr ⟨hw, List.forall_mem_singleton.mpr rfl⟩
  have hblank : ∀ b ∈ rest.takeWhile isBlank, isBlank b = true :=
    List.all_eq_true.mp List.all_takeWhile
  have hsplit := List.takeWhile_append_dropWhile (p := isBlank) (l := rest)
  cases hsign : sign? (rest.dropWhile isBlank) with
  | some s =>
    obtain ⟨-, more, hmore⟩ := exists_of_sign? hsign
    rw [hmore] at hsign hsplit
    refine ⟨[], List.forall_mem_nil _, by simp, ?_⟩
    -- The margin from here on and the one from the next line on end with the same sign.
    have hlong := substituteFrom_margin_sign hbefore
      (List.forall_mem_append.mpr ⟨hfeed, hblank⟩) hsign
    have hshort := substituteFrom_margin_sign (show startsLine (some '\n') = true from rfl)
      hblank hsign
    rw [hsplit] at hshort
    rw [List.append_assoc, hsplit, List.append_assoc, List.singleton_append] at hlong
    rw [hlong, hshort, List.nil_append]
  | none =>
    -- Blanks without a sign behind them are no margin, so the line stays.
    refine ⟨w ++ ['\n'], hfeed, by simp, ?_⟩
    have hmiss : margin before (w ++ '\n' :: rest) = 0 := by
      rw [← List.singleton_append, ← List.append_assoc, margin, if_pos hbefore, marginLength_eq,
        List.dropWhile_append_of_pos hfeed, hsign]
      rfl
    cases w with
    | nil => exact substituteFrom_miss hmiss
    | cons b w =>
      rw [List.mem_cons, not_or] at hline
      have hb : startsLine (some b) = false := by
        simpa [startsLine] using Ne.symm hline.1
      rw [List.cons_append] at hmiss ⊢
      rw [substituteFrom_miss hmiss, substituteFrom_margin_line hb hline.2]
      simp

end DocComment.Comment
