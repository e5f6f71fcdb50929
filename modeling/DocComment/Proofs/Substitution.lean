import DocComment.Text.Scan

/-!
# What a substitution does to a text

`Text.substitute` scans a text and writes every match anew. Its theory is told here in three steps,
each about the text that is still to be scanned and the character before it:

* `substituteFrom_miss` - where no match starts, the next character stays;
* `substituteFrom_run` - so does a whole run of characters at none of which a match starts;
* `substituteFrom_hit` - a match that starts here is written anew as a whole, and the scan goes on
  behind it, with the last character of the match for the character before.

A substitution that finds nothing changes nothing (`substitute_eq_self`), and one whose matches
start at the start of a line leaves the rest of a line alone (`substituteFrom_inside`). Where
matches are taken out, the converse holds too: what is left is part of the text, and it is the whole
text only if no match starts anywhere (`substituteFrom_erase_eq_self_iff`).
-/

namespace DocComment.Text

variable {width : Recogniser} {write : List Char → List Char}

/-- A piece written anew if it is a `hit`. -/
def Piece.rewrite (write : List Char → List Char) : Piece → List Char
  | .plain c => [c]
  | .hit s => write s

@[simp] theorem Piece.rewrite_plain (c : Char) : (Piece.plain c).rewrite write = [c] := rfl

@[simp] theorem Piece.rewrite_hit (s : List Char) : (Piece.hit s).rewrite write = write s := rfl

/-- The rest of a text, behind the character `before`, with every match written anew. -/
def substituteFrom (width : Recogniser) (write : List Char → List Char) (before : Option Char)
    (cs : List Char) : List Char :=
  (scanFrom width before 0 cs).flatMap (Piece.rewrite write)

theorem substitute_eq_substituteFrom (cs : List Char) :
    substitute width write cs = substituteFrom width write none cs := by
  unfold substitute substituteFrom scan
  congr 1

@[simp] theorem substituteFrom_nil (before : Option Char) :
    substituteFrom width write before [] = [] := by
  simp [substituteFrom]

/-- Where `width` sees no match, the next character stays. -/
theorem substituteFrom_miss {before : Option Char} {c : Char} {rest : List Char}
    (h : width before (c :: rest) = 0) :
    substituteFrom width write before (c :: rest) =
      c :: substituteFrom width write (some c) rest := by
  unfold substituteFrom
  rw [scanFrom_miss h]
  simp

/-- For `substituteFrom`, the character before a text matters only to a match that starts there. -/
theorem substituteFrom_congr_before {before other : Option Char} {cs : List Char}
    (h : width before cs = width other cs) :
    substituteFrom width write before cs = substituteFrom width write other cs := by
  cases cs with
  | nil => rw [substituteFrom_nil, substituteFrom_nil]
  | cons c rest =>
    unfold substituteFrom
    rw [scanFrom, scanFrom, h]

/-- The character before the text that follows `xs`, if `before` is the one before `xs`. -/
def lastBefore (before : Option Char) (xs : List Char) : Option Char :=
  xs.getLast?.or before

@[simp] theorem lastBefore_nil (before : Option Char) : lastBefore before [] = before := rfl

@[simp] theorem lastBefore_cons (before : Option Char) (c : Char) (xs : List Char) :
    lastBefore before (c :: xs) = lastBefore (some c) xs := by
  cases xs <;> simp [lastBefore, List.getLast?_cons]

@[simp] theorem lastBefore_concat (before : Option Char) (xs : List Char) (c : Char) :
    lastBefore before (xs ++ [c]) = some c := by
  simp [lastBefore]

/-- `scanFrom` passes over the characters of a match already taken. -/
theorem scanFrom_length_append (before : Option Char) (xs ys : List Char) :
    scanFrom width before xs.length (xs ++ ys) = scanFrom width (lastBefore before xs) 0 ys := by
  induction xs generalizing before with
  | nil => simp
  | cons c xs ih =>
    rw [List.length_cons, List.cons_append, scanFrom_succ, ih, lastBefore_cons]

/-- **A match is taken whole**, as one `hit`, and the scan goes on behind it. -/
theorem scanFrom_match {before : Option Char} {xs ys : List Char} (hne : xs ≠ [])
    (h : width before (xs ++ ys) = xs.length) :
    scanFrom width before 0 (xs ++ ys) =
      .hit xs :: scanFrom width (lastBefore before xs) 0 ys := by
  obtain ⟨c, xs, rfl⟩ := List.exists_cons_of_ne_nil hne
  rw [List.cons_append] at h ⊢
  rw [scanFrom_hit h, scanFrom_length_append, lastBefore_cons]
  simp

/-- **A run without a match stays `plain`.** -/
theorem scanFrom_run {before : Option Char} {xs ys : List Char}
    (h : ∀ ps c qs, xs = ps ++ c :: qs → width (lastBefore before ps) (c :: (qs ++ ys)) = 0) :
    scanFrom width before 0 (xs ++ ys) =
      xs.map .plain ++ scanFrom width (lastBefore before xs) 0 ys := by
  induction xs generalizing before with
  | nil => simp
  | cons c xs ih =>
    rw [List.cons_append, scanFrom_miss (by simpa using h [] c xs rfl), ih, lastBefore_cons,
      List.map_cons, List.cons_append]
    intro ps d qs heq
    have hmiss := h (c :: ps) d qs (by rw [heq, List.cons_append])
    rwa [lastBefore_cons] at hmiss

theorem substituteFrom_hit {before : Option Char} {xs ys : List Char} (hne : xs ≠ [])
    (h : width before (xs ++ ys) = xs.length) :
    substituteFrom width write before (xs ++ ys) =
      write xs ++ substituteFrom width write (lastBefore before xs) ys := by
  unfold substituteFrom
  rw [scanFrom_match hne h, List.flatMap_cons, Piece.rewrite_hit]

theorem substituteFrom_run {before : Option Char} {xs ys : List Char}
    (h : ∀ ps c qs, xs = ps ++ c :: qs → width (lastBefore before ps) (c :: (qs ++ ys)) = 0) :
    substituteFrom width write before (xs ++ ys) =
      xs ++ substituteFrom width write (lastBefore before xs) ys := by
  unfold substituteFrom
  rw [scanFrom_run h, List.flatMap_append]
  simp [List.flatMap_map]

/-- Behind some characters of a line, `lastBefore` is no line feed. -/
theorem startsLine_lastBefore_of_ne_nil (before : Option Char) {xs : List Char} (hne : xs ≠ [])
    (hxs : '\n' ∉ xs) : startsLine (lastBefore before xs) = false := by
  obtain ⟨ps, d, rfl⟩ := List.eq_nil_or_concat xs |>.resolve_left hne
  rw [List.concat_eq_append, lastBefore_concat]
  have hd : d ≠ '\n' := by
    rintro rfl
    exact hxs (by simp)
  simpa [startsLine] using hd

/-- Inside a line `lastBefore` is no line feed. -/
theorem startsLine_lastBefore {before : Option Char} (h : startsLine before = false)
    {xs : List Char} (hxs : '\n' ∉ xs) : startsLine (lastBefore before xs) = false := by
  by_cases hne : xs = []
  · rwa [hne]
  · exact startsLine_lastBefore_of_ne_nil before hne hxs

/-- **Where matches start at the start of a line, `substituteFrom` leaves the rest of the line
alone.** -/
theorem substituteFrom_inside
    (hwidth : ∀ before cs, startsLine before = false → width before cs = 0) {before : Option Char}
    (h : startsLine before = false) {xs : List Char} (hxs : '\n' ∉ xs) (ys : List Char) :
    substituteFrom width write before (xs ++ ys) =
      xs ++ substituteFrom width write (lastBefore before xs) ys := by
  refine substituteFrom_run fun ps c qs hsplit => hwidth _ _ (startsLine_lastBefore h ?_)
  rw [hsplit] at hxs
  exact fun hmem => hxs (List.mem_append_left _ hmem)

/-- **A `substitute` that finds nothing changes nothing.** -/
theorem substitute_eq_self {cs : List Char}
    (h : ∀ before c rest, c :: rest <:+ cs → width before (c :: rest) = 0) :
    substitute width write cs = cs := by
  have hrun : substituteFrom width write none (cs ++ []) =
      cs ++ substituteFrom width write (lastBefore none cs) [] := by
    refine substituteFrom_run fun ps c qs heq => ?_
    rw [List.append_nil]
    exact h _ c qs ⟨ps, heq.symm⟩
  rw [substitute_eq_substituteFrom]
  simpa using hrun

/-! ### Taking matches out -/

/-- What is left of a text when its matches are taken out is part of it, also where the scan starts
inside a match. -/
theorem sublist_of_erase_scanFrom (before : Option Char) (k : Nat) (cs : List Char) :
    ((scanFrom width before k cs).flatMap (Piece.rewrite fun _ => [])).Sublist cs := by
  induction cs generalizing before k with
  | nil => exact List.nil_sublist _
  | cons c cs ih =>
    cases k with
    | succ k =>
      rw [scanFrom_succ]
      exact (ih (some c) k).cons c
    | zero =>
      -- Each character is passed over, stays, or opens a match that is taken out.
      cases hwidth : width before (c :: cs) with
      | zero =>
        rw [scanFrom_miss hwidth, List.flatMap_cons, Piece.rewrite_plain, List.singleton_append]
        exact (ih (some c) 0).cons_cons c
      | succ n =>
        rw [scanFrom_hit hwidth, List.flatMap_cons, Piece.rewrite_hit, List.nil_append]
        exact (ih (some c) n).cons c

theorem substituteFrom_erase_sublist (before : Option Char) (cs : List Char) :
    (substituteFrom width (fun _ => []) before cs).Sublist cs :=
  sublist_of_erase_scanFrom before 0 cs

/-- A match that starts with the text makes it shorter, so a text that stays whole has `width` zero
there. -/
theorem width_eq_zero_of_erase_eq_self {before : Option Char} {c : Char} {cs : List Char}
    (h : substituteFrom width (fun _ => []) before (c :: cs) = c :: cs) :
    width before (c :: cs) = 0 := by
  cases hwidth : width before (c :: cs) with
  | zero => rfl
  | succ n =>
    unfold substituteFrom at h
    rw [scanFrom_hit hwidth, List.flatMap_cons, Piece.rewrite_hit, List.nil_append] at h
    -- What is left comes from the text behind the first character.
    have hrest : (c :: cs).Sublist cs := h ▸ sublist_of_erase_scanFrom (some c) n cs
    exact absurd hrest.length_le (Nat.not_succ_le_self _)

/-- **`substituteFrom` leaves a text whole exactly when no match starts anywhere.** -/
theorem substituteFrom_erase_eq_self_iff {before : Option Char} {cs : List Char} :
    substituteFrom width (fun _ => []) before cs = cs ↔
      ∀ ps c qs, cs = ps ++ c :: qs → width (lastBefore before ps) (c :: qs) = 0 := by
  constructor
  · intro h ps
    induction ps generalizing before cs with
    | nil =>
      rintro c qs rfl
      exact width_eq_zero_of_erase_eq_self h
    | cons d ps ih =>
      rintro c qs rfl
      -- The first character stays, so the same holds of the text behind it.
      rw [List.cons_append, substituteFrom_miss (width_eq_zero_of_erase_eq_self h)] at h
      rw [lastBefore_cons]
      exact ih (List.cons.inj h).2 c qs rfl
  · intro h
    have hrun : substituteFrom width (fun _ => []) before (cs ++ []) =
        cs ++ substituteFrom width (fun _ => []) (lastBefore before cs) [] := by
      refine substituteFrom_run fun ps c qs hsplit => ?_
      rw [List.append_nil]
      exact h ps c qs hsplit
    simpa using hrun

/-- For `isPrefixOf`, a word is not continued by a character that it does not hold. -/
theorem isPrefixOf_append_cons {word : List Char} {c : Char} (h : c ∉ word) (cs rest : List Char) :
    word.isPrefixOf (cs ++ c :: rest) = word.isPrefixOf cs := by
  induction word generalizing cs with
  | nil => simp
  | cons x word ih =>
    rw [List.mem_cons, not_or] at h
    cases cs with
    | nil =>
      have hx : (x == c) = false := by simpa using Ne.symm h.1
      simp [List.isPrefixOf, hx]
    | cons d cs => simp [List.isPrefixOf, ih h.2]

/-- `substitute` brings in nothing but what is written. -/
theorem mem_of_mem_substitute {c : Char} {cs : List Char} (h : c ∈ substitute width write cs) :
    c ∈ cs ∨ ∃ s, c ∈ write s := by
  obtain ⟨piece, hpiece, hc⟩ := List.mem_flatMap.mp h
  cases piece with
  | plain d =>
    obtain rfl := List.mem_singleton.mp hc
    have hmem : c ∈ (scan width cs).flatMap Piece.chars :=
      List.mem_flatMap.mpr ⟨.plain c, hpiece, List.mem_singleton.mpr rfl⟩
    rw [flatMap_chars_scan] at hmem
    exact .inl hmem
  | hit s => exact .inr ⟨s, hc⟩

end DocComment.Text
