import DocComment.Proofs.GlyphPasses
import DocComment.Proofs.Prototypes
import DocComment.Proofs.QuotedContents

/-!
# Cutting a path that is shortened already

Names are shortened as plain texts, before anyone looks for their quotes, and the cut shortens once
more, with the quoted parts masked. `cut_shortenPrototypes` says when the first time makes no
difference: on every line without an opening brace on which no quoted part holds a prototype.

A path is gone through in steps (`part_induct`): a quoted part with its brackets, a prototype, or
one character that starts neither. Shortening the text and scanning it agree step by step with
scanning it and shortening the glyphs (`scan_shortenPrototypes`). What is left is that glyphs may be
shortened before they are anchored.
-/

namespace DocComment.Namepath

open DocComment.Text

/-! ### What a scan takes -/

/-- Whether `s` is what a scan takes for the content `q` before `rest`: the content in quotes, with
a bracket on either side if there is one. -/
structure Enclosed (q rest s : List Char) : Prop where
  /-- Quotes around the content are a match. -/
  quotable : Quotable q
  /-- The brackets; behind the quotes one is left out only if there is none. -/
  brackets : ∃ opening closing, s = opening ++ quote q ++ closing ∧
    (opening = ['['] ∨ opening = []) ∧ (closing = [']'] ∨ closing = [] ∧ rest.head? ≠ some ']')

theorem throughQuote_eq_some {cs : List Char} {n : Nat} (h : throughQuote cs = some n) :
    ∃ q rest, cs = q ++ doubleQuote :: rest ∧ doubleQuote ∉ q ∧ '\n' ∉ q := by
  induction cs generalizing n with
  | nil => cases h
  | cons c cs ih =>
    rw [throughQuote] at h
    split at h
    · next hc => exact ⟨[], cs, by rw [eq_of_beq hc, List.nil_append], by simp, by simp⟩
    · next hquote =>
      split at h
      · cases h
      · next hline =>
        -- This character is no quote and no line end, so it belongs to the content.
        obtain ⟨m, hm, -⟩ := Option.map_eq_some_iff.mp h
        obtain ⟨q, rest, rfl, hq, hn⟩ := ih hm
        refine ⟨c :: q, rest, rfl, ?_, ?_⟩
        · rw [List.mem_cons, not_or]
          exact ⟨fun hc => hquote (beq_iff_eq.mpr hc.symm), hq⟩
        · rw [List.mem_cons, not_or]
          exact ⟨fun hc => hline (beq_iff_eq.mpr hc.symm), hn⟩

theorem exists_quotable {cs : List Char} (h : tailLength cs ≠ 0) :
    ∃ q rest, cs = q ++ doubleQuote :: rest ∧ Quotable q := by
  unfold tailLength at h
  split at h
  · next n hn =>
    cases cs with
    | nil => cases hn
    | cons c cs =>
      rw [quotedTail] at hn
      split at hn
      · cases hn
      · next hline =>
        obtain ⟨m, hm, -⟩ := Option.map_eq_some_iff.mp hn
        -- The first character of the content is taken whatever it is, so that the content is not
        -- empty.
        obtain ⟨q, rest, rfl, hq, hfree⟩ := throughQuote_eq_some hm
        refine ⟨c :: q, rest, rfl, List.cons_ne_nil _ _, hq, ?_⟩
        rw [List.mem_cons, not_or]
        exact ⟨fun hc => hline (beq_iff_eq.mpr hc.symm), hfree⟩
  · exact absurd rfl h

/-- **A match of `quotedLength` is `Enclosed`**: a content in quotes, with the brackets around
it. -/
theorem exists_enclosed {cs : List Char} (h : quotedLength cs ≠ 0) :
    ∃ q rest s, cs = s ++ rest ∧ Enclosed q rest s := by
  -- The match starts with a quote, or with a bracket and a quote; what follows is the same.
  obtain ⟨opening, tail, rfl, hopening, htail⟩ : ∃ opening tail,
      cs = opening ++ doubleQuote :: tail ∧ (opening = ['['] ∨ opening = []) ∧
        tailLength tail ≠ 0 := by
    cases cs with
    | nil => exact absurd rfl h
    | cons c cs =>
      rw [quotedLength] at h
      split at h
      · next hc =>
        refine ⟨[], cs, by rw [eq_of_beq hc, List.nil_append], .inr rfl, fun hzero => h ?_⟩
        rw [hzero]
      · split at h
        · next hbracket =>
          rw [Bool.and_eq_true, beq_iff_eq, beq_iff_eq] at hbracket
          obtain ⟨rfl, hhead⟩ := hbracket
          obtain ⟨tail, rfl⟩ := List.head?_eq_some_iff.mp hhead
          refine ⟨['['], tail, rfl, .inl rfl, fun hzero => h ?_⟩
          rw [List.tail_cons, hzero]
        · exact absurd rfl h
  obtain ⟨q, rest, rfl, hq⟩ := exists_quotable htail
  obtain ⟨closing, hrest, hclosing⟩ := exists_closing rest
  refine ⟨q, dropClosing rest, opening ++ quote q ++ closing, ?_, hq, opening, closing, rfl,
    hopening, ?_⟩
  · rw [List.append_assoc, ← hrest]
    simp [quote]
  · -- Without a closing bracket the match ends with its quotes, and none is next.
    refine hclosing.imp_right fun hnone => ⟨hnone.1, ?_⟩
    have hkept : dropClosing rest = rest := if_neg hnone.2
    rw [hkept]
    exact hnone.2

namespace Enclosed

variable {q rest s : List Char} (h : Enclosed q rest s)
include h

theorem ne_nil : s ≠ [] := by
  obtain ⟨opening, closing, rfl, -⟩ := h.brackets
  simp [quote]

theorem withoutBrackets_eq : withoutBrackets s = quote q := by
  obtain ⟨opening, closing, rfl, hopening, hclosing⟩ := h.brackets
  exact withoutBrackets_quote q hopening (hclosing.imp_right And.left)

theorem quotedLength_eq : quotedLength (s ++ rest) = s.length := by
  obtain ⟨opening, closing, rfl, hopening, hclosing⟩ := h.brackets
  exact quotedLength_match hopening h.quotable hclosing

/-- For `Enclosed`, what follows matters only if it is a closing bracket. -/
theorem of_head {other : List Char} (hhead : other.head? = some ']' → rest.head? = some ']') :
    Enclosed q other s := by
  obtain ⟨opening, closing, hs, hopening, hclosing⟩ := h.brackets
  refine ⟨h.quotable, opening, closing, hs, hopening, ?_⟩
  exact hclosing.imp_right fun hnone => ⟨hnone.1, fun hother => hnone.2 (hhead hother)⟩

/-- Where the content has no prototype, `shortenPrototypes` leaves the whole part alone: its quotes
keep it from what stands around it. -/
theorem shortenPrototypes_append (hq : ¬prototypeText <:+: q) :
    shortenPrototypes (s ++ rest) = s ++ shortenPrototypes rest := by
  obtain ⟨opening, closing, rfl, hopening, hclosing⟩ := h.brackets
  have hbefore : '.' ∉ opening ++ [doubleQuote] := by
    rcases hopening with rfl | rfl <;> decide
  have hbehind : '.' ∉ closing := by
    rcases hclosing with rfl | ⟨rfl, -⟩ <;> decide
  -- The two quotes part the text; before, between and behind them nothing is shortened.
  have hwritten : ∀ tail, opening ++ quote q ++ closing ++ tail =
      opening ++ [doubleQuote] ++ (q ++ doubleQuote :: (closing ++ tail)) := by
    simp [quote]
  rw [hwritten, shortenPrototypes_append_of_notMem hbefore,
    shortenPrototypes_append_cons (by decide),
    shortenPrototypes_eq_self hq, shortenPrototypes_append_of_notMem hbehind, ← hwritten]

end Enclosed

/-- **Induction along a path**: by an `Enclosed` part, by a prototype, or by one character that
starts neither. -/
theorem part_induct {P : List Char → Prop} (nil : P [])
    (quoted : ∀ q rest s, Enclosed q rest s → P rest → P (s ++ rest))
    (prototype : ∀ xs ys, IsPrototype xs → prototypePart none (xs ++ ys) = xs.length → P ys →
      P (xs ++ ys))
    (plain : ∀ c cs, quotedLength (c :: cs) = 0 → prototypePart none (c :: cs) = 0 → P cs →
      P (c :: cs))
    (cs : List Char) : P cs := by
  obtain ⟨n, hn⟩ : ∃ n, cs.length = n := ⟨_, rfl⟩
  induction n using Nat.strongRecOn generalizing cs with
  | _ n ih =>
    -- A step is not empty, so what follows it is shorter.
    have hrest : ∀ xs ys, cs = xs ++ ys → xs ≠ [] → P ys := by
      intro xs ys hcs hxs
      have hpos : 0 < xs.length := List.length_pos_iff.mpr hxs
      rw [hcs, List.length_append] at hn
      exact ih ys.length (by omega) ys rfl
    cases cs with
    | nil => exact nil
    | cons c cs =>
      by_cases hzero : quotedLength (c :: cs) = 0
      · rcases prototypePart_cases none (c :: cs) with hnone | ⟨xs, ys, hcut, hxs, hlength⟩
        · exact plain c cs hzero hnone (hrest [c] cs rfl (List.cons_ne_nil _ _))
        · have hys := hrest xs ys hcut hxs.ne_nil
          rw [hcut] at hlength ⊢
          exact prototype xs ys hxs hlength hys
      · obtain ⟨q, rest, s, hcut, hs⟩ := exists_enclosed hzero
        have hP := hrest s rest hcut hs.ne_nil
        rw [hcut]
        exact quoted q rest s hs hP

/-! ### Scanning step by step -/

/-- A `quotedPart` is recognised whatever stands before it. -/
theorem scanFrom_quotedPart (before : Option Char) (cs : List Char) :
    scanFrom quotedPart before 0 cs = scan quotedPart cs := by
  cases cs with
  | nil => rfl
  | cons c cs =>
    rw [scan, scanFrom, scanFrom]
    rfl

theorem scan_quotedPart_cons {c : Char} {cs : List Char} (h : quotedLength (c :: cs) = 0) :
    scan quotedPart (c :: cs) = .plain c :: scan quotedPart cs := by
  rw [scan, scanFrom_miss h, scanFrom_quotedPart]

theorem Enclosed.scan_append {q rest s : List Char} (h : Enclosed q rest s) :
    scan quotedPart (s ++ rest) = .hit s :: scan quotedPart rest := by
  rw [scan, scanFrom_match h.ne_nil h.quotedLength_eq, scanFrom_quotedPart]

theorem scan_quotedPart_prototype {xs : List Char} (hxs : IsPrototype xs) (ys : List Char) :
    scan quotedPart (xs ++ ys) = xs.map .plain ++ scan quotedPart ys := by
  have hquote : doubleQuote ∉ xs := by
    rcases hxs with rfl | rfl <;> decide
  have hlast : xs.getLast? ≠ some '[' := by
    rcases hxs with rfl | rfl <;> decide
  rw [scan, scanFrom_quotedPart_run hquote fun h => absurd h hlast, scanFrom_quotedPart]

/-- The `leadingChars` of the glyphs are the first characters of the text. -/
theorem leadingChars_numbered_prefix (i : Nat) (ps : List Piece) :
    leadingChars (numbered i ps) <+: ps.flatMap Piece.chars := by
  induction ps with
  | nil => exact List.nil_prefix
  | cons p ps ih =>
    cases p with
    | plain c => exact List.cons_prefix_cons.mpr ⟨rfl, ih⟩
    | hit s => exact List.nil_prefix

theorem leadingChars_scan_prefix (i : Nat) (cs : List Char) :
    leadingChars (numbered i (scan quotedPart cs)) <+: cs := by
  have hprefix := leadingChars_numbered_prefix i (scan quotedPart cs)
  rwa [flatMap_chars_scan] at hprefix

/-! ### Shortening a text and what starts in it -/

/-- What `shortenPrototypes` leaves starts with a character other than the mark only if the text
did. -/
theorem shortenPrototypes_eq_cons {c : Char} (hc : c ≠ '#') {cs xs : List Char}
    (h : shortenPrototypes cs = c :: xs) : ∃ ys, cs = c :: ys ∧ shortenPrototypes ys = xs := by
  cases cs with
  | nil => cases h
  | cons d ds =>
    rcases prototypePart_cases none (d :: ds) with hnone | ⟨ps, ys, hcut, hps, hlength⟩
    · rw [shortenPrototypes_cons hnone] at h
      obtain ⟨rfl, rfl⟩ := List.cons.inj h
      exact ⟨ds, rfl, rfl⟩
    · rw [hcut] at h hlength
      rw [shortenPrototypes_prototype hps hlength] at h
      exact absurd (List.cons.inj h).1.symm hc

theorem mem_tail_of_mem_tail_shortenPrototypes {c : Char} (hc : c ≠ '#') {cs : List Char}
    (h : c ∈ (shortenPrototypes cs).tail) : c ∈ cs.tail := by
  cases cs with
  | nil => exact h
  | cons d ds =>
    rcases prototypePart_cases none (d :: ds) with hnone | ⟨ps, ys, hcut, hps, hlength⟩
    · rw [shortenPrototypes_cons hnone] at h
      exact (mem_shortenPrototypes h).resolve_left hc
    · -- A prototype in front becomes the first character, and is more than that in the text.
      obtain ⟨p, ps, rfl⟩ := List.exists_cons_of_ne_nil hps.ne_nil
      rw [hcut] at h hlength ⊢
      rw [shortenPrototypes_prototype hps hlength] at h
      exact List.mem_append_right ps ((mem_shortenPrototypes h).resolve_left hc)

/-- On one line, `quotedLength` finds a part where there is a quote with a second one behind it, one
character further on at least. -/
theorem quotedLength_ne_zero_iff {cs : List Char} (hline : '\n' ∉ cs) :
    quotedLength cs ≠ 0 ↔ ∃ opening tail, (opening = ['['] ∨ opening = []) ∧
      cs = opening ++ doubleQuote :: tail ∧ doubleQuote ∈ tail.tail := by
  constructor
  · intro h
    obtain ⟨q, rest, s, rfl, hq, opening, closing, rfl, hopening, -⟩ := exists_enclosed h
    refine ⟨opening, q ++ doubleQuote :: (closing ++ rest), hopening, by simp [quote], ?_⟩
    obtain ⟨c, q, rfl⟩ := List.exists_cons_of_ne_nil hq.1
    simp
  · rintro ⟨opening, tail, hopening, rfl, hmem⟩
    -- The content goes up to the first quote behind its first character.
    obtain ⟨q, rest, htail, hfirst⟩ := List.eq_append_cons_of_mem hmem
    cases tail with
    | nil => exact absurd hmem List.not_mem_nil
    | cons c tail =>
      rw [List.tail_cons] at htail
      subst htail
      have hq : Quotable (c :: q) := by
        refine ⟨List.cons_ne_nil _ _, hfirst, fun hmem => hline ?_⟩
        exact List.mem_append_right _ (List.mem_cons_of_mem _ (List.mem_append_left _ hmem))
      have hwritten : opening ++ doubleQuote :: c :: (q ++ doubleQuote :: rest) =
          opening ++ quote (c :: q) ++ rest := by
        simp [quote]
      rw [hwritten, quotedLength_quote hopening hq]
      simp [quote]

/-- `shortenPrototypes` makes no quoted part start where none did. -/
theorem quotedLength_shortenPrototypes {cs : List Char} (hline : '\n' ∉ cs)
    (h : quotedLength cs = 0) : quotedLength (shortenPrototypes cs) = 0 := by
  have hshort : '\n' ∉ shortenPrototypes cs := fun hmem =>
    (mem_shortenPrototypes hmem).elim (by decide) hline
  refine Decidable.byContradiction fun hne => ?_
  obtain ⟨opening, tail, hopening, hcut, hmem⟩ := (quotedLength_ne_zero_iff hshort).mp hne
  refine (quotedLength_ne_zero_iff hline).mpr ?_ h
  -- The opening bracket and the quote are kept characters, and so is the second quote.
  rcases hopening with rfl | rfl
  · obtain ⟨ys, rfl, hys⟩ := shortenPrototypes_eq_cons (by decide) hcut
    obtain ⟨zs, rfl, rfl⟩ := shortenPrototypes_eq_cons (by decide) hys
    exact ⟨['['], zs, .inl rfl, rfl, mem_tail_of_mem_tail_shortenPrototypes (by decide) hmem⟩
  · obtain ⟨zs, rfl, rfl⟩ := shortenPrototypes_eq_cons (by decide) hcut
    exact ⟨[], zs, .inr rfl, rfl, mem_tail_of_mem_tail_shortenPrototypes (by decide) hmem⟩

/-! ### Shortening first -/

/-- **A `scan` of the shortened text finds the shortened glyphs**, if no quoted part holds a
prototype. -/
theorem scan_shortenPrototypes (cs : List Char) :
    '\n' ∉ cs → ∀ i, (∀ a ∈ (mask i (scan quotedPart cs)).2, ¬prototypeText <:+: a) →
      numbered i (scan quotedPart (shortenPrototypes cs)) =
          shortenGlyphs (numbered i (scan quotedPart cs)) ∧
        (mask i (scan quotedPart (shortenPrototypes cs))).2 = (mask i (scan quotedPart cs)).2 := by
  refine part_induct (P := fun cs => '\n' ∉ cs → ∀ i,
    (∀ a ∈ (mask i (scan quotedPart cs)).2, ¬prototypeText <:+: a) →
      numbered i (scan quotedPart (shortenPrototypes cs)) =
          shortenGlyphs (numbered i (scan quotedPart cs)) ∧
        (mask i (scan quotedPart (shortenPrototypes cs))).2 = (mask i (scan quotedPart cs)).2)
    ?_ ?_ ?_ ?_ cs
  · intro _ i _
    rw [shortenPrototypes_nil]
    exact ⟨by rw [scan, scanFrom_nil, numbered, shortenGlyphs], rfl⟩
  · -- A quoted part is taken on both sides, for only a bracket could change what is taken.
    intro q rest s hs ih hline i hparts
    rw [hs.scan_append, mask_snd_hit, hs.withoutBrackets_eq] at hparts
    obtain ⟨hpart, hparts⟩ := List.forall_mem_cons.mp hparts
    have hq : ¬prototypeText <:+: q := fun hmem =>
      hpart (hmem.trans ⟨[doubleQuote], [doubleQuote], rfl⟩)
    have hother : Enclosed q (shortenPrototypes rest) s := by
      refine hs.of_head fun hhead => ?_
      obtain ⟨xs, hxs⟩ := List.head?_eq_some_iff.mp hhead
      obtain ⟨ys, rfl, -⟩ := shortenPrototypes_eq_cons (by decide) hxs
      rfl
    obtain ⟨hglyphs, hatoms⟩ := ih (fun hmem => hline (List.mem_append_right _ hmem)) (i + 1) hparts
    rw [hs.shortenPrototypes_append hq, hother.scan_append, hs.scan_append, numbered, numbered,
      hglyphs, shortenGlyphs_atom, mask_snd_hit, mask_snd_hit, hatoms]
    exact ⟨rfl, rfl⟩
  · -- A prototype of the text is one of the glyphs: the point behind it is plain on both sides.
    intro xs ys hxs hwidth ih hline i hparts
    rw [scan_quotedPart_prototype hxs, mask_snd_map_plain] at hparts
    obtain ⟨hglyphs, hatoms⟩ := ih (fun hmem => hline (List.mem_append_right _ hmem)) i hparts
    have hmark : quotedLength ('#' :: shortenPrototypes ys) = 0 :=
      quotedLength_of_ne (by decide) fun h => absurd h (by decide)
    have hglyph : prototypePart none (xs ++ leadingChars (numbered i (scan quotedPart ys))) =
        xs.length := by
      rcases hxs with rfl | rfl
      · obtain ⟨tail, htail⟩ := leadingChars_scan_prefix i ys
        rw [prototypePart_append] at hwidth ⊢
        cases hlead : leadingChars (numbered i (scan quotedPart ys)) with
        | nil => rfl
        | cons c cs =>
          rw [hlead] at htail
          rw [← htail] at hwidth
          exact hwidth
      · rw [List.append_assoc, prototypePart_append]
        rfl
    rw [shortenPrototypes_prototype hxs hwidth, scan_quotedPart_cons hmark,
      scan_quotedPart_prototype hxs, numbered, numbered_map_plain, shortenGlyphs_hit hxs hglyph,
      hglyphs, mask_snd_plain, mask_snd_map_plain, hatoms]
    exact ⟨rfl, rfl⟩
  · intro c cs hzero hnone ih hline i hparts
    rw [scan_quotedPart_cons hzero, mask_snd_plain] at hparts
    obtain ⟨hglyphs, hatoms⟩ := ih (List.not_mem_of_not_mem_cons hline) i hparts
    have hshort := quotedLength_shortenPrototypes hline hzero
    rw [shortenPrototypes_cons hnone] at hshort ⊢
    -- A prototype at the first glyph would be one of the text.
    have hmiss : ¬prototypeText <+: leadingChars (.char c :: numbered i (scan quotedPart cs)) := by
      intro hstart
      refine prototypePart_eq_zero_iff.mp hnone (hstart.trans ?_)
      exact List.cons_prefix_cons.mpr ⟨rfl, leadingChars_scan_prefix i cs⟩
    rw [scan_quotedPart_cons hshort, scan_quotedPart_cons hzero, numbered, numbered, hglyphs,
      shortenGlyphs_miss hmiss, mask_snd_plain, mask_snd_plain, hatoms]
    exact ⟨rfl, rfl⟩

/-- **A path on one line may be shortened before `cut`**, if none of its `quotedParts` holds a
prototype. -/
theorem cut_shortenPrototypes {s : String} (hline : '\n' ∉ s.toList) (hbrace : '\x7b' ∉ s.toList)
    (hparts : ∀ a ∈ quotedParts s.toList, ¬prototypeText <:+: a) :
    cut (String.ofList (shortenPrototypes s.toList)) = cut s := by
  obtain ⟨hglyphs, hatoms⟩ := scan_shortenPrototypes s.toList hline 0 hparts
  have hshort : '\x7b' ∉ shortenPrototypes s.toList := fun hmem =>
    (mem_shortenPrototypes hmem).elim (by decide) hbrace
  have hpath : pathGlyphs (shortenPrototypes s.toList) = pathGlyphs s.toList := by
    rw [pathGlyphs, hglyphs, shortenGlyphs_anchor_shortenGlyphs, pathGlyphs]
  have hquoted : quotedParts (shortenPrototypes s.toList) = quotedParts s.toList := hatoms
  refine cut_congr ?_
  rw [String.toList_ofList, masked_eq_spell hshort, masked_eq_spell hbrace, hpath, hquoted]

end DocComment.Namepath
