import DocComment.Proofs.Glyphs
import DocComment.Proofs.Substitution

/-!
# The masked path as glyphs

Before a path is cut, its quoted parts are masked and two passes go over the masked text: one drops
the points that masking has doubled, the other shortens `.prototype`. This module says what the two
passes do to the *glyphs* of the path, so that nothing behind it has to look at stand-ins again:

* masking makes a glyph of every quoted part (`numbered`), and dropping doubled points comes to
  putting a point before each part that does not stand at the start or behind a mark already
  (`anchor`, `substitute_doubledPoint_mask`);
* shortening prototypes is a function on glyphs too (`shortenGlyphs`, `shortenPrototypes_spell`).

`masked_eq_spell` puts both together. What later proofs need to know of the glyphs of a path is
that the quoted parts come in order (`indices_pathGlyphs`), that the plain characters are those of
the path, marks apart (`mem_plainChars_pathGlyphs`), and that each part is *anchored*: it stands at
the start or right behind a mark (`anchored_pathGlyphs`).

All this holds for paths without an opening brace. With one, plain text could spell a stand-in.
-/

namespace DocComment.Namepath

open DocComment.Text

/-! ### Masking -/

/-- The glyphs of some pieces; `i` is the number of the next quoted part. -/
def numbered : Nat → List Piece → List Glyph
  | _, [] => []
  | i, .plain c :: more => .char c :: numbered i more
  | i, .hit _ :: more => .atom i :: numbered (i + 1) more

section Mask

variable (i : Nat)

theorem mask_plain (c : Char) (more : List Piece) :
    (mask i (.plain c :: more)).1 = c :: (mask i more).1 := rfl

theorem mask_hit (s : List Char) (more : List Piece) :
    (mask i (.hit s :: more)).1 = '.' :: (standIn i ++ (mask (i + 1) more).1) := rfl

theorem mask_snd_plain (c : Char) (more : List Piece) :
    (mask i (.plain c :: more)).2 = (mask i more).2 := rfl

theorem mask_snd_hit (s : List Char) (more : List Piece) :
    (mask i (.hit s :: more)).2 = withoutBrackets s :: (mask (i + 1) more).2 := rfl

end Mask

/-- `numbered` numbers the quoted parts in order. -/
theorem indices_numbered (i : Nat) (ps : List Piece) :
    indices (numbered i ps) = List.range' i (mask i ps).2.length := by
  induction ps generalizing i with
  | nil => rfl
  | cons p ps ih =>
    cases p with
    | plain c => rw [numbered, indices, ih, mask_snd_plain]
    | hit s => rw [numbered, indices, ih, mask_snd_hit, List.length_cons, List.range'_succ]

theorem mem_of_mem_plainChars_numbered {c : Char} {i : Nat} {ps : List Piece}
    (h : c ∈ plainChars (numbered i ps)) : c ∈ ps.flatMap Piece.chars := by
  induction ps generalizing i with
  | nil => simp [numbered, plainChars] at h
  | cons p ps ih =>
    rw [List.flatMap_cons, List.mem_append]
    cases p with
    | plain d =>
      rcases List.mem_cons.mp h with rfl | h
      · exact .inl List.mem_cons_self
      · exact .inr (ih h)
    | hit s => exact .inr (ih h)

theorem mem_of_mem_withoutBrackets {c : Char} {s : List Char} (h : c ∈ withoutBrackets s) :
    c ∈ s := by
  have hlast : ∀ t : List Char, c ∈ (if t.getLast? == some ']' then t.dropLast else t) → c ∈ t := by
    intro t ht
    split at ht
    · exact List.dropLast_subset t ht
    · exact ht
  have hfirst := hlast _ h
  split at hfirst
  · exact List.mem_of_mem_tail hfirst
  · exact hfirst

theorem mem_of_mem_atoms {c : Char} {i : Nat} {ps : List Piece} {a : List Char}
    (ha : a ∈ (mask i ps).2) (hc : c ∈ a) : c ∈ ps.flatMap Piece.chars := by
  induction ps generalizing i with
  | nil => simp [mask] at ha
  | cons p ps ih =>
    rw [List.flatMap_cons, List.mem_append]
    cases p with
    | plain d => exact .inr (ih ha)
    | hit s =>
      rw [mask_snd_hit] at ha
      rcases List.mem_cons.mp ha with rfl | ha
      · exact .inl (mem_of_mem_withoutBrackets hc)
      · exact .inr (ih ha)

@[simp] theorem numbered_map_plain (i : Nat) (cs : List Char) (ps : List Piece) :
    numbered i (cs.map .plain ++ ps) = cs.map .char ++ numbered i ps := by
  induction cs with
  | nil => rfl
  | cons c cs ih => simp [numbered, ih]

@[simp] theorem mask_snd_map_plain (i : Nat) (cs : List Char) (ps : List Piece) :
    (mask i (cs.map .plain ++ ps)).2 = (mask i ps).2 := by
  induction cs with
  | nil => rfl
  | cons c cs ih => rw [List.map_cons, List.cons_append, mask_snd_plain, ih]

/-- Outside quotes `quotedLength` finds nothing, except at a bracket right before a quote. -/
theorem quotedLength_of_ne {c : Char} {rest : List Char} (hc : c ≠ doubleQuote)
    (hopening : c = '[' → rest.head? ≠ some doubleQuote) : quotedLength (c :: rest) = 0 := by
  rw [quotedLength, if_neg (by simpa using hc), if_neg]
  simpa using hopening

theorem scanFrom_quotedPart_run {u rest : List Char} (hu : doubleQuote ∉ u)
    (hlast : u.getLast? = some '[' → rest.head? ≠ some doubleQuote) (before : Option Char) :
    scanFrom quotedPart before 0 (u ++ rest) =
      u.map .plain ++ scanFrom quotedPart (lastBefore before u) 0 rest := by
  refine scanFrom_run fun ps c qs hcut => quotedLength_of_ne ?_ ?_
  · rintro rfl
    exact hu (by simp [hcut])
  · -- An opening bracket starts a match only before a quote.
    rintro rfl
    cases qs with
    | nil => exact hlast (by simp [hcut])
    | cons d qs =>
      intro hd
      obtain rfl : d = doubleQuote := by simpa using hd
      exact hu (by simp [hcut])

/-! ### Doubled points -/

/-- The glyphs with a point before each quoted part that needs one; `free` tells whether the place
is the start or right behind a mark, where none does. -/
def anchor : Bool → List Glyph → List Glyph
  | _, [] => []
  | _, .char c :: gs => .char c :: anchor (Scope.isMark c) gs
  | true, .atom i :: gs => .atom i :: anchor false gs
  | false, .atom i :: gs => .char '.' :: .atom i :: anchor false gs

theorem isDecimalDigit_of_isDigit {c : Char} (h : c.isDigit = true) :
    isDecimalDigit c = true := by
  rw [Char.isDigit, Bool.and_eq_true] at h
  obtain ⟨h₁, h₂⟩ := h
  have hlow : 0x30 ≤ c.toNat := by simpa [UInt32.le_iff_toNat_le] using h₁
  have hhigh : c.toNat ≤ 0x39 := by simpa [UInt32.le_iff_toNat_le] using h₂
  simp [isDecimalDigit, covers, decimalDigitRanges, hlow, hhigh]

/-- `standInLength` recognises a `standIn`. -/
theorem standInLength_standIn (i : Nat) (rest : List Char) :
    standInLength (standIn i ++ rest) = (standIn i).length := by
  have htake : (Nat.toDigits 10 i ++ '\x7d' :: '@' :: rest).takeWhile isDecimalDigit =
      Nat.toDigits 10 i := by
    rw [List.takeWhile_append_of_pos
        fun c hc => isDecimalDigit_of_isDigit (isDigit_of_mem_digits hc),
      List.takeWhile_cons_of_neg (by decide), List.append_nil]
  obtain ⟨d, ds, hdigits⟩ := List.exists_cons_of_ne_nil (Nat.toDigits_ne_nil (n := i) (b := 10))
  rw [standIn_eq, List.cons_append, List.cons_append, List.append_assoc]
  simp only [standInLength, List.cons_append, List.nil_append, htake, List.drop_left]
  simp [hdigits]

/-- For `standInLength`, plain text without a brace is no stand-in. -/
theorem standInLength_mask {i : Nat} {ps : List Piece}
    (h : '\x7b' ∉ plainChars (numbered i ps)) : standInLength (mask i ps).1 = 0 := by
  unfold standInLength
  split
  · next rest heq =>
    -- The marker would be plain, and so would the brace behind it.
    match ps with
    | [] => simp [mask] at heq
    | .hit _ :: _ => simp [mask_hit] at heq
    | [.plain _] => simp [mask] at heq
    | .plain _ :: .hit _ :: _ => simp [mask_plain, mask_hit] at heq
    | .plain _ :: .plain d :: _ =>
      simp only [mask_plain, List.cons.injEq] at heq
      simp [numbered, plainChars, heq.2.1] at h
  · rfl

theorem doubledPoint_some (x : Char) (cs : List Char) :
    doubledPoint (some x) cs = pointBehindMark cs := by
  simp [doubledPoint]

theorem pointBehindMark_of_not_mark {c : Char} (h : Scope.isMark c = false) (cs : List Char) :
    pointBehindMark (c :: cs) = 0 := by
  unfold pointBehindMark
  split
  · next heq =>
    rw [← (List.cons.inj heq).1, h]
    rfl
  · rfl

/-- A mark, a point and a stand-in are one match of `pointBehindMark`. -/
theorem pointBehindMark_standIn {c : Char} (h : Scope.isMark c = true) (i : Nat)
    (rest : List Char) :
    pointBehindMark (c :: '.' :: (standIn i ++ rest)) = (c :: '.' :: standIn i).length := by
  have hpos : (standIn i).length ≠ 0 := by simp [standIn_eq]
  simp [pointBehindMark, h, standInLength_standIn, hpos]

/-- A mark before plain text starts no match of `pointBehindMark`. -/
theorem pointBehindMark_plain {c : Char} {i : Nat} {ps : List Piece}
    (hps : ∀ s more, ps ≠ .hit s :: more) (h : '\x7b' ∉ plainChars (numbered i ps)) :
    pointBehindMark (c :: (mask i ps).1) = 0 := by
  unfold pointBehindMark
  split
  · next rest heq =>
    match ps with
    | [] => simp [mask] at heq
    | .hit s :: more => exact absurd rfl (hps s more)
    | .plain d :: more =>
      have hrest : rest = (mask i more).1 := (List.cons.inj (List.cons.inj heq).2).2.symm
      -- Behind the mark and the point there is no brace that could start a stand-in.
      have hmore : '\x7b' ∉ plainChars (numbered i more) := List.not_mem_of_not_mem_cons h
      simp [hrest, standInLength_mask hmore]
  · rfl

theorem isMark_of_mem_standIn {c : Char} {i : Nat} (h : c ∈ standIn i) :
    Scope.isMark c = false := by
  rw [← Bool.not_eq_true, Scope.isMark_iff]
  rintro ⟨s, rfl⟩
  exact mark_notMem_standIn s i h

theorem lastBefore_standIn (before : Option Char) (i : Nat) :
    lastBefore before (standIn i) = some '@' := by
  rw [standIn_eq, show '@' :: '\x7b' :: (Nat.toDigits 10 i ++ ['\x7d', '@']) =
    ('@' :: '\x7b' :: (Nat.toDigits 10 i ++ ['\x7d'])) ++ ['@'] by simp, lastBefore_concat]

/-- Inside a stand-in the search for a `doubledPoint` finds nothing. -/
theorem substituteFrom_doubledPoint_standIn (x : Char) (i : Nat) (rest : List Char) :
    substituteFrom doubledPoint dropPoint (some x) (standIn i ++ rest) =
      standIn i ++ substituteFrom doubledPoint dropPoint (some '@') rest := by
  rw [substituteFrom_run, lastBefore_standIn]
  -- A match starts with a mark, and a stand-in holds none.
  intro ps c qs heq
  have hc : Scope.isMark c = false := by
    refine isMark_of_mem_standIn (i := i) ?_
    rw [heq]
    exact List.mem_append_right _ List.mem_cons_self
  obtain ⟨y, hy⟩ : ∃ y, lastBefore (some x) ps = some y := by
    cases hlast : ps.getLast? <;> simp [lastBefore, hlast]
  rw [hy, doubledPoint_some, pointBehindMark_of_not_mark hc]

/-- **Dropping doubled points, inside a text.** A mark right before a quoted part is taken together
with it, so the recursion goes by one piece or by two. -/
theorem substituteFrom_doubledPoint_mask (x : Char) (i : Nat) :
    ∀ ps : List Piece, '\x7b' ∉ plainChars (numbered i ps) →
      substituteFrom doubledPoint dropPoint (some x) (mask i ps).1 =
        spell standIn (anchor false (numbered i ps))
  | [], _ => rfl
  | .hit s :: more, h => by
    -- A quoted part with no mark before it keeps its point.
    have hmiss : doubledPoint (some x) ('.' :: (standIn i ++ (mask (i + 1) more).1)) = 0 := by
      rw [doubledPoint_some, standIn_eq]
      rfl
    rw [mask_hit, substituteFrom_miss hmiss, substituteFrom_doubledPoint_standIn,
      substituteFrom_doubledPoint_mask '@' (i + 1) more h]
    rfl
  | .plain c :: .hit s :: more, h => by
    by_cases hc : Scope.isMark c = true
    · -- The mark anchors the part: mark, point and stand-in are one match, and the point goes.
      have hhit : doubledPoint (some x) ((c :: '.' :: standIn i) ++ (mask (i + 1) more).1) =
          (c :: '.' :: standIn i).length := by
        rw [doubledPoint_some]
        exact pointBehindMark_standIn hc i _
      have hlast : lastBefore (some x) (c :: '.' :: standIn i) = some '@' := by
        rw [lastBefore_cons, lastBefore_cons, lastBefore_standIn]
      have hmask : (mask i (.plain c :: .hit s :: more)).1 =
          (c :: '.' :: standIn i) ++ (mask (i + 1) more).1 := rfl
      rw [hmask, substituteFrom_hit (List.cons_ne_nil _ _) hhit, hlast,
        substituteFrom_doubledPoint_mask '@' (i + 1) more (List.not_mem_of_not_mem_cons h)]
      simp [numbered, anchor, hc, dropPoint]
    · rw [Bool.not_eq_true] at hc
      -- Any other character anchors nothing; the part is met again in the next call.
      have hmiss : doubledPoint (some x) (c :: (mask i (.hit s :: more)).1) = 0 := by
        rw [doubledPoint_some, pointBehindMark_of_not_mark hc]
      rw [mask_plain, substituteFrom_miss hmiss,
        substituteFrom_doubledPoint_mask c i (.hit s :: more) (List.not_mem_of_not_mem_cons h)]
      simp [numbered, anchor, hc]
  | [.plain c], h => by
    have hmiss : doubledPoint (some x) [c] = 0 := by
      rw [doubledPoint_some]
      rfl
    change substituteFrom doubledPoint dropPoint (some x) [c] = [c]
    rw [substituteFrom_miss hmiss, substituteFrom_nil]
  | .plain c :: .plain d :: more, h => by
    have hrest := List.not_mem_of_not_mem_cons h
    -- Between two characters there is no doubled point, whatever marks they are.
    have hplain : ∀ s more', Piece.plain d :: more ≠ .hit s :: more' := by simp
    have hmiss : doubledPoint (some x) (c :: (mask i (.plain d :: more)).1) = 0 := by
      rw [doubledPoint_some, pointBehindMark_plain hplain hrest]
    rw [mask_plain, substituteFrom_miss hmiss,
      substituteFrom_doubledPoint_mask c i (.plain d :: more) hrest]
    rfl

/-- **Dropping each `doubledPoint` of the masked text** comes to `anchor` on its glyphs. -/
theorem substitute_doubledPoint_mask {ps : List Piece} (h : '\x7b' ∉ plainChars (numbered 0 ps)) :
    substitute doubledPoint dropPoint (mask 0 ps).1 =
      spell standIn (anchor true (numbered 0 ps)) := by
  rw [substitute_eq_substituteFrom]
  match ps with
  | [] => rfl
  | .hit s :: more =>
    -- A quoted part at the very start loses its point.
    have hhit : doubledPoint none (('.' :: standIn 0) ++ (mask 1 more).1) =
        ('.' :: standIn 0).length := by
      have hpos : (standIn 0).length ≠ 0 := by decide
      simp only [doubledPoint, List.cons_append, standInLength_standIn, List.length_cons]
      simp [hpos]
    have hmask : (mask 0 (.hit s :: more)).1 = ('.' :: standIn 0) ++ (mask 1 more).1 := rfl
    rw [hmask, substituteFrom_hit (List.cons_ne_nil _ _) hhit, lastBefore_cons, lastBefore_standIn,
      substituteFrom_doubledPoint_mask '@' 1 more h]
    rfl
  | .plain c :: more =>
    -- At the start only a point before a stand-in makes a difference, and plain text is no
    -- stand-in.
    have hsame : doubledPoint none (c :: (mask 0 more).1) =
        doubledPoint (some c) (c :: (mask 0 more).1) := by
      have hrest := standInLength_mask (List.not_mem_of_not_mem_cons h)
      rw [doubledPoint_some]
      unfold doubledPoint
      split
      · next rest heq =>
        rw [← (List.cons.inj heq).2, hrest]
        rfl
      · rfl
    rw [mask_plain, substituteFrom_congr_before hsame, ← mask_plain,
      substituteFrom_doubledPoint_mask c 0 (.plain c :: more) h]
    rfl

/-! ### Prototypes -/

/-- The plain characters in front of the first `atom`. -/
def leadingChars : List Glyph → List Char
  | .char c :: gs => c :: leadingChars gs
  | _ => []

/-- The glyphs with every `.prototype` written as the mark of instance members. -/
def shortenGlyphs : List Glyph → List Glyph
  | [] => []
  | g :: gs =>
    match prototypePart none (leadingChars (g :: gs)) with
    | 0 => g :: shortenGlyphs gs
    | n + 1 => .char '#' :: shortenGlyphs (gs.drop n)
  termination_by gs => gs.length

/-- What is shortened: `.prototype`, with the point behind it if there is one. -/
def IsPrototype (xs : List Char) : Prop :=
  xs = prototypeText ∨ xs = prototypeText ++ ['.']

theorem IsPrototype.ne_nil {xs : List Char} (h : IsPrototype xs) : xs ≠ [] := by
  rcases h with rfl | rfl <;> decide

/-- A match of `prototypePart` is a prototype. -/
theorem prototypePart_cases (before : Option Char) (cs : List Char) :
    prototypePart before cs = 0 ∨
      ∃ xs ys, cs = xs ++ ys ∧ IsPrototype xs ∧ prototypePart before cs = xs.length := by
  unfold prototypePart
  split
  · next hprefix =>
    obtain ⟨rest, rfl⟩ := List.isPrefixOf_iff_prefix.mp hprefix
    right
    rw [List.drop_left]
    split
    · next hpoint =>
      obtain ⟨rest, rfl⟩ := List.head?_eq_some_iff.mp (by simpa using hpoint)
      exact ⟨prototypeText ++ ['.'], rest, by simp, .inr rfl, by simp⟩
    · exact ⟨prototypeText, rest, rfl, .inl rfl, rfl⟩
  · exact .inl rfl

theorem prototypeText_eq :
    prototypeText = ['.', 'p', 'r', 'o', 't', 'o', 't', 'y', 'p', 'e'] := by
  decide

/-- A match of `prototypePart` starts with a point. -/
theorem prototypePart_of_ne {c : Char} (h : c ≠ '.') (before : Option Char) (cs : List Char) :
    prototypePart before (c :: cs) = 0 := by
  rw [prototypePart, if_neg]
  rw [List.isPrefixOf_iff_prefix, prototypeText_eq, List.cons_prefix_cons]
  exact fun hprefix => h hprefix.1.symm

/-- The `leadingChars` are glyphs of their own. -/
theorem exists_of_leadingChars_eq {gs : List Glyph} {xs ys : List Char}
    (h : leadingChars gs = xs ++ ys) : ∃ hs, gs = xs.map .char ++ hs := by
  induction xs generalizing gs with
  | nil => exact ⟨gs, rfl⟩
  | cons x xs ih =>
    match gs with
    | [] => simp [leadingChars] at h
    | .atom i :: gs => simp [leadingChars] at h
    | .char c :: gs =>
      rw [leadingChars, List.cons_append, List.cons.injEq] at h
      obtain ⟨hs, rfl⟩ := ih h.2
      exact ⟨hs, by rw [h.1, List.map_cons, List.cons_append]⟩

/-- **Induction along the shortening**: a glyph at which no prototype starts stays, and a prototype
becomes a mark. -/
theorem shortenGlyphs_induct {P : List Glyph → List Glyph → Prop} (nil : P [] [])
    (miss : ∀ g gs, prototypePart none (leadingChars (g :: gs)) = 0 → P gs (shortenGlyphs gs) →
      P (g :: gs) (g :: shortenGlyphs gs))
    (hit : ∀ xs gs, IsPrototype xs →
      prototypePart none (leadingChars (xs.map .char ++ gs)) = xs.length →
      P gs (shortenGlyphs gs) → P (xs.map .char ++ gs) (.char '#' :: shortenGlyphs gs))
    (gs : List Glyph) : P gs (shortenGlyphs gs) := by
  fun_induction shortenGlyphs gs with
  | case1 => exact nil
  | case2 g gs hzero ih => exact miss g gs hzero ih
  | case3 g gs n hwidth ih =>
    rcases prototypePart_cases none (leadingChars (g :: gs)) with hzero | ⟨xs, ys, hlead, hxs, hlen⟩
    · rw [hzero] at hwidth
      exact absurd hwidth (by simp)
    · -- The match is a prototype in plain glyphs, and the recursion goes on behind it.
      obtain ⟨hs, hgs⟩ := exists_of_leadingChars_eq hlead
      obtain ⟨x, xs', rfl⟩ := List.exists_cons_of_ne_nil hxs.ne_nil
      have hn : n = xs'.length := by
        rw [hwidth, List.length_cons] at hlen
        omega
      have hdrop : gs.drop n = hs := by
        rw [List.map_cons, List.cons_append] at hgs
        rw [(List.cons.inj hgs).2, hn]
        exact List.drop_left' (List.length_map _)
      rw [hdrop] at ih ⊢
      rw [hgs] at hlen ⊢
      exact hit _ hs hxs hlen ih

/-- A masked path starts with its `leadingChars`; a stand-in follows, if anything does. -/
theorem spell_standIn_eq (gs : List Glyph) :
    ∃ rest, spell standIn gs = leadingChars gs ++ rest ∧
      (rest = [] ∨ ∃ tail, rest = '@' :: tail) := by
  induction gs with
  | nil => exact ⟨[], rfl, .inl rfl⟩
  | cons g gs ih =>
    cases g with
    | char c =>
      obtain ⟨rest, hrest, hcases⟩ := ih
      exact ⟨rest, by rw [spell_char, hrest, leadingChars, List.cons_append], hcases⟩
    | atom i =>
      -- Nothing leads here: the whole text starts with the stand-in.
      refine ⟨spell standIn (.atom i :: gs), rfl, .inr ⟨'\x7b' :: (Nat.toDigits 10 i ++
        ['\x7d', '@'] ++ spell standIn gs), ?_⟩⟩
      rw [spell_atom, standIn_eq]
      rfl

/-- **A character that is not in `prototypeText` ends the search for it.** -/
theorem prototypePart_append_cons {c : Char} (h : c ∉ prototypeText) (before : Option Char)
    (cs rest : List Char) : prototypePart before (cs ++ c :: rest) = prototypePart before cs := by
  have hstart : prototypeText.isPrefixOf (cs ++ c :: rest) = prototypeText.isPrefixOf cs :=
    isPrefixOf_append_cons h cs rest
  have hc : c ≠ '.' := by
    rintro rfl
    exact h (by decide)
  -- The point behind a prototype is one of the text, for `c` is none.
  have hpoint : prototypeText.isPrefixOf cs = true →
      (((cs ++ c :: rest).drop prototypeText.length).head? = some '.' ↔
        (cs.drop prototypeText.length).head? = some '.') := by
    intro hmatch
    obtain ⟨tail, htail⟩ := List.isPrefixOf_iff_prefix.mp hmatch
    rw [← htail, List.append_assoc, List.drop_left, List.drop_left]
    cases tail <;> simp [hc]
  unfold prototypePart
  rw [hstart]
  split
  · next hmatch => simp only [beq_iff_eq, hpoint hmatch]
  · rfl

/-- **Stand-ins neither start nor continue a match of `prototypePart`.** -/
theorem prototypePart_spell (before : Option Char) (gs : List Glyph) :
    prototypePart before (spell standIn gs) = prototypePart none (leadingChars gs) := by
  obtain ⟨rest, hspell, rfl | ⟨tail, rfl⟩⟩ := spell_standIn_eq gs
  · rw [hspell, List.append_nil]
    rfl
  · rw [hspell, prototypePart_append_cons (by decide)]
    rfl

/-- **`shortenPrototypes` on the masked path is `shortenGlyphs` on its glyphs.** -/
theorem shortenPrototypes_spell (gs : List Glyph) :
    shortenPrototypes (spell standIn gs) = spell standIn (shortenGlyphs gs) := by
  rw [shortenPrototypes, substitute_eq_substituteFrom]
  -- A prototype is recognised whatever stands before it.
  generalize (none : Option Char) = before
  revert before
  refine shortenGlyphs_induct (P := fun gs hs => ∀ before,
    substituteFrom prototypePart (fun _ => ['#']) before (spell standIn gs) = spell standIn hs)
    ?_ ?_ ?_ gs
  · intro before
    rfl
  · intro g gs hzero ih before
    cases g with
    | char c =>
      have hmiss : prototypePart before (c :: spell standIn gs) = 0 := by
        rw [← spell_char, prototypePart_spell, hzero]
      rw [spell_char, substituteFrom_miss hmiss, ih, spell_char]
    | atom i =>
      rw [spell_atom, substituteFrom_run, ih, spell_atom]
      -- No point stands in a stand-in, and a prototype starts with one.
      intro ps c qs heq
      have hc : c ≠ '.' := by
        rintro rfl
        refine notMem_standIn (c := '.') i (by decide) (by decide) ?_
        rw [heq]
        exact List.mem_append_right _ List.mem_cons_self
      exact prototypePart_of_ne hc _ _
  · intro xs gs hxs hwidth ih before
    have hhit : prototypePart before (xs ++ spell standIn gs) = xs.length := by
      rw [← hwidth, ← prototypePart_spell before, spell_append, spell_map_char]
    rw [spell_append, spell_map_char, substituteFrom_hit hxs.ne_nil hhit, ih, spell_char]
    rfl

/-! ### What the two passes keep -/

theorem indices_anchor (free : Bool) (gs : List Glyph) : indices (anchor free gs) = indices gs := by
  fun_induction anchor free gs <;> simp_all [indices]

theorem mem_plainChars_anchor {c : Char} {free : Bool} {gs : List Glyph}
    (h : c ∈ plainChars (anchor free gs)) : c = '.' ∨ c ∈ plainChars gs := by
  fun_induction anchor free gs with
  | case1 => exact .inr h
  | case2 _ d gs ih =>
    rcases List.mem_cons.mp h with rfl | h
    · exact .inr List.mem_cons_self
    · exact (ih h).imp_right (List.mem_cons_of_mem _)
  | case3 i gs ih => exact ih h
  | case4 i gs ih =>
    rcases List.mem_cons.mp h with rfl | h
    · exact .inl rfl
    · exact ih h

theorem indices_shortenGlyphs (gs : List Glyph) : indices (shortenGlyphs gs) = indices gs := by
  refine shortenGlyphs_induct (P := fun gs hs => indices hs = indices gs) rfl ?_ ?_ gs
  · intro g gs _ ih
    cases g with
    | char c => exact ih
    | atom i => rw [indices, indices, ih]
  · intro xs gs _ _ ih
    rw [indices, indices_append, indices_map_char, List.nil_append, ih]

theorem mem_plainChars_shortenGlyphs {c : Char} {gs : List Glyph}
    (h : c ∈ plainChars (shortenGlyphs gs)) : c = '#' ∨ c ∈ plainChars gs := by
  revert h
  -- A glyph that stays was there before, and what a prototype leaves is its mark.
  refine shortenGlyphs_induct (P := fun gs hs => c ∈ plainChars hs → c = '#' ∨ c ∈ plainChars gs)
    (by simp [plainChars]) ?_ ?_ gs
  · intro g gs _ ih h
    cases g with
    | char d =>
      rcases List.mem_cons.mp h with rfl | h
      · exact .inr List.mem_cons_self
      · exact (ih h).imp_right (List.mem_cons_of_mem _)
    | atom i => exact ih h
  · intro xs gs _ _ ih h
    rcases List.mem_cons.mp h with rfl | h
    · exact .inl rfl
    · rw [plainChars_append]
      exact (ih h).imp_right (List.mem_append_right _)

/-- Whether every quoted part is **anchored**: it stands right behind a mark, or at the start if
that counts as free. -/
def Anchored : Bool → List Glyph → Prop
  | _, [] => True
  | _, .char c :: gs => Anchored (Scope.isMark c) gs
  | free, .atom _ :: gs => free = true ∧ Anchored false gs

theorem anchored_anchor (free : Bool) (gs : List Glyph) : Anchored free (anchor free gs) := by
  fun_induction anchor free gs with
  | case1 => trivial
  | case2 _ c gs ih => exact ih
  | case3 i gs ih => exact ⟨rfl, ih⟩
  | case4 i gs ih => exact ⟨rfl, ih⟩

theorem Anchored.mono {free : Bool} {gs : List Glyph} (h : Anchored free gs) :
    Anchored true gs := by
  match gs with
  | [] => trivial
  | .char c :: gs => exact h
  | .atom i :: gs => exact ⟨rfl, h.2⟩

/-- Behind any glyphs the rest is still `Anchored`, if its start counts as free. -/
theorem Anchored.of_append {free : Bool} {hs gs : List Glyph} (h : Anchored free (hs ++ gs)) :
    Anchored true gs := by
  induction hs generalizing free with
  | nil => exact h.mono
  | cons g hs ih =>
    cases g with
    | char c => exact ih h
    | atom i => exact ih h.2

theorem Anchored.shortenGlyphs {free : Bool} {gs : List Glyph} (h : Anchored free gs) :
    Anchored free (shortenGlyphs gs) := by
  refine shortenGlyphs_induct (P := fun gs hs => ∀ free, Anchored free gs → Anchored free hs)
    (fun _ h => h) ?_ ?_ gs free h
  · intro g gs _ ih free h
    cases g with
    | char c => exact ih (Scope.isMark c) h
    | atom i => exact ⟨h.1, ih false h.2⟩
  · intro xs gs _ _ ih free h
    -- The mark in place of the prototype frees the place behind it.
    exact ih true h.of_append

/-! ### The glyphs of a path -/

/-- **The glyphs of a path**, its quoted parts anchored and its prototypes shortened. -/
def pathGlyphs (cs : List Char) : List Glyph :=
  shortenGlyphs (anchor true (numbered 0 (scan quotedPart cs)))

/-- The quoted parts of a path that `mask` takes out, without brackets. -/
def quotedParts (cs : List Char) : List (List Char) :=
  (mask 0 (scan quotedPart cs)).2

section Path

variable {cs : List Char}

theorem plainChars_numbered_of_notMem {c : Char} (h : c ∉ cs) :
    c ∉ plainChars (numbered 0 (scan quotedPart cs)) := by
  intro hc
  have hmem := mem_of_mem_plainChars_numbered hc
  rw [flatMap_chars_scan] at hmem
  exact h hmem

/-- **`masked` spells the `pathGlyphs`**, with a stand-in for each of the `quotedParts`. -/
theorem masked_eq_spell (h : '\x7b' ∉ cs) :
    masked cs = (spell standIn (pathGlyphs cs), quotedParts cs) := by
  have hpoints := substitute_doubledPoint_mask (plainChars_numbered_of_notMem h)
  unfold masked pathGlyphs
  rw [← shortenPrototypes_spell, ← hpoints]
  rfl

/-- The quoted parts come in order among the `pathGlyphs`. -/
theorem indices_pathGlyphs (cs : List Char) :
    indices (pathGlyphs cs) = List.range (quotedParts cs).length := by
  rw [pathGlyphs, indices_shortenGlyphs, indices_anchor, indices_numbered, quotedParts,
    List.range_eq_range']

/-- The `plainChars` of a path are those it had, or marks. -/
theorem mem_plainChars_pathGlyphs {c : Char} (h : c ∈ plainChars (pathGlyphs cs)) :
    c = '#' ∨ c = '.' ∨ c ∈ cs := by
  refine (mem_plainChars_shortenGlyphs h).imp_right fun h => ?_
  refine (mem_plainChars_anchor h).imp_right fun h => ?_
  have hmem := mem_of_mem_plainChars_numbered h
  rwa [flatMap_chars_scan] at hmem

theorem anchored_pathGlyphs (cs : List Char) : Anchored true (pathGlyphs cs) :=
  (anchored_anchor true _).shortenGlyphs

/-- The characters of the `quotedParts` are characters of the path. -/
theorem mem_of_mem_quotedParts {c : Char} {a : List Char} (ha : a ∈ quotedParts cs) (hc : c ∈ a) :
    c ∈ cs := by
  have hmem := mem_of_mem_atoms ha hc
  rwa [flatMap_chars_scan] at hmem

/-- **What `restoreFrom` makes of a path.** The glyphs of a path, and of any stretch of it, are
spelled with the quoted parts themselves once these are back. -/
theorem restoreFrom_stretch (h : '\x7b' ∉ cs) {gs : List Glyph} (hgs : gs <:+: pathGlyphs cs) :
    restoreFrom 0 (quotedParts cs) (spell standIn gs) =
      spell (fun i => (quotedParts cs).getD i []) gs := by
  obtain ⟨hs, ts, hpath⟩ := hgs
  have hindices : indices hs ++ indices gs ++ indices ts = List.range (quotedParts cs).length := by
    rw [← indices_pathGlyphs, ← hpath, indices_append, indices_append]
  -- The numbers in the stretch are some of those in the path, each there once and none too large.
  have hsub : (indices gs).Sublist (List.range (quotedParts cs).length) := by
    rw [← hindices]
    exact (List.sublist_append_right _ _).trans (List.sublist_append_left _ _)
  have hplain : '\x7b' ∉ plainChars gs := by
    intro hmem
    have hpathmem : '\x7b' ∈ plainChars (pathGlyphs cs) := by
      rw [← hpath, plainChars_append, plainChars_append]
      exact List.mem_append_left _ (List.mem_append_right _ hmem)
    rcases mem_plainChars_pathGlyphs hpathmem with hc | hc | hc
    · exact absurd hc (by decide)
    · exact absurd hc (by decide)
    · exact h hc
  have hrestore := restoreFrom_spell hplain (hsub.nodup List.nodup_range)
    (fun a ha hc => h (mem_of_mem_quotedParts ha hc)) 0 fun i hi => by
      simpa using hsub.subset hi
  rw [hrestore]
  exact spell_congr fun i _ => backFrom_zero _ i

end Path

end DocComment.Namepath
