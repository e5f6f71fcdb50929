import DocComment.Proofs.GlyphPasses
import DocComment.Proofs.QuotedContents

/-!
# A cut gives a normal form

The path that a cut gives back is cut in the same way again: `cut_normal` says so for every path
that is written in plain stretches and quoted parts, bare or in brackets.

Two things make it hold. The glyphs of a path have gone through both passes, and `anchor` and
`shortenGlyphs` change nothing the second time. And a scan of the path that was given back finds the
same glyphs. For this no bracket may stand in the plain text: in `[["q"]]` the scan takes one pair
of brackets, the other pair stays, and the next scan would take a bracket of it. Without brackets
the runs between the quoted parts are scanned as they are (`runGlyphs_runs`).
-/

namespace DocComment.Namepath

open DocComment.Text

/-! ### Paths in stretches -/

/-- A **stretch** of a path: plain text, or a content in quotes, bare or in brackets. -/
inductive Stretch where
  | plain (u : List Char)
  | quoted (q : List Char)
  | bracketed (q : List Char)

/-- A `Stretch` as it is written. -/
def Stretch.chars : Stretch → List Char
  | plain u => u
  | quoted q => quote q
  | bracketed q => '[' :: (quote q ++ [']'])

/-- Whether a stretch is read as what it is: plain text has no quotes and no brackets, and a content
is there and does not end its quotes. -/
def Stretch.Proper : Stretch → Prop
  | plain u => Unquoted u ∧ '[' ∉ u ∧ ']' ∉ u
  | quoted q => Unquoted q ∧ q ≠ []
  | bracketed q => Unquoted q ∧ q ≠ []

instance : DecidablePred Stretch.Proper
  | .plain u => inferInstanceAs (Decidable (Unquoted u ∧ '[' ∉ u ∧ ']' ∉ u))
  | .quoted q => inferInstanceAs (Decidable (Unquoted q ∧ q ≠ []))
  | .bracketed q => inferInstanceAs (Decidable (Unquoted q ∧ q ≠ []))

/-- The path that some `Stretch`es make up. -/
def written (path : List Stretch) : List Char :=
  path.flatMap Stretch.chars

/-- The contents in quotes, `quoted` and `bracketed`, in order. -/
def contents : List Stretch → List (List Char)
  | [] => []
  | .plain _ :: path => contents path
  | .quoted q :: path => q :: contents path
  | .bracketed q :: path => q :: contents path

theorem written_cons (s : Stretch) (path : List Stretch) :
    written (s :: path) = s.chars ++ written path :=
  List.flatMap_cons

section Written

variable {path : List Stretch} (h : ∀ s ∈ path, s.Proper)
include h

theorem brace_notMem_written : '\x7b' ∉ written path := by
  rw [written, List.mem_flatMap]
  rintro ⟨s, hs, hc⟩
  have hproper := h s hs
  cases s with
  | plain u => exact hproper.1.2.1 hc
  | quoted q => simp [Stretch.chars, quote, doubleQuote, hproper.1.2.1] at hc
  | bracketed q => simp [Stretch.chars, quote, doubleQuote, hproper.1.2.1] at hc

theorem unquoted_of_mem_contents {q : List Char} (hq : q ∈ contents path) :
    Unquoted q ∧ q ≠ [] := by
  induction path with
  | nil => exact absurd hq List.not_mem_nil
  | cons s path ih =>
    obtain ⟨hs, hpath⟩ := List.forall_mem_cons.mp h
    cases s with
    | plain u => exact ih hpath hq
    | quoted r =>
      rcases List.mem_cons.mp hq with rfl | hq
      · exact hs
      · exact ih hpath hq
    | bracketed r =>
      rcases List.mem_cons.mp hq with rfl | hq
      · exact hs
      · exact ih hpath hq

/-- A closing bracket is never first, so `dropClosing` takes none for the bracket of the quoted part
before. -/
theorem dropClosing_written : dropClosing (written path) = written path := by
  refine if_neg ?_
  induction path with
  | nil => simp [written]
  | cons s path ih =>
    obtain ⟨hs, hpath⟩ := List.forall_mem_cons.mp h
    rw [written_cons]
    cases s with
    | plain u =>
      cases u with
      -- An empty stretch leaves the question to the next one.
      | nil => exact ih hpath
      | cons c u =>
        rintro ⟨⟩
        exact hs.2.2 List.mem_cons_self
    | quoted q => simp [Stretch.chars, quote, doubleQuote]
    | bracketed q => simp [Stretch.chars]

/-- **`scanFrom` finds the contents, and what it leaves plain is the plain text.** -/
theorem scanFrom_written (before : Option Char) (i : Nat) :
    (∀ c ∈ plainChars (numbered i (scanFrom quotedPart before 0 (written path))),
        ∃ u, .plain u ∈ path ∧ c ∈ u) ∧
      (mask i (scanFrom quotedPart before 0 (written path))).2 = (contents path).map quote := by
  induction path generalizing before i with
  | nil => exact ⟨fun c hc => absurd hc List.not_mem_nil, rfl⟩
  | cons s path ih =>
    obtain ⟨hs, hpath⟩ := List.forall_mem_cons.mp h
    have hclosing := dropClosing_written hpath
    -- Stretch by stretch; the next one never starts with a bracket that this one would take.
    have hmore : ∀ {c : Char}, (∃ u, .plain u ∈ path ∧ c ∈ u) → ∃ u, .plain u ∈ s :: path ∧ c ∈ u :=
      fun ⟨u, hu, hc⟩ => ⟨u, List.mem_cons_of_mem _ hu, hc⟩
    rw [written_cons]
    cases s with
    | plain u =>
      obtain ⟨hunquoted, hopening, -⟩ := hs
      have hlast : u.getLast? = some '[' → (written path).head? ≠ some doubleQuote :=
        fun hu => absurd (List.mem_of_mem_getLast? hu) hopening
      obtain ⟨hplain, hatoms⟩ := ih hpath (lastBefore before u) i
      rw [Stretch.chars, scanFrom_quotedPart_run hunquoted.1 hlast, numbered_map_plain,
        mask_snd_map_plain, plainChars_append, plainChars_map_char]
      refine ⟨fun c hc => ?_, hatoms⟩
      rcases List.mem_append.mp hc with hc | hc
      · exact ⟨u, List.mem_cons_self, hc⟩
      · exact hmore (hplain c hc)
    | quoted q =>
      obtain ⟨t, before', ht, hscan⟩ :=
        exists_scanFrom_quoted (u := []) List.not_mem_nil hs.1 hs.2 before (written path)
      obtain ⟨hplain, hatoms⟩ := ih hpath before' (i + 1)
      rw [List.nil_append, hclosing] at hscan
      rw [Stretch.chars, hscan]
      refine ⟨fun c hc => hmore (hplain c hc), ?_⟩
      change withoutBrackets t :: _ = quote q :: _
      rw [ht, hatoms]
    | bracketed q =>
      -- Both brackets are taken with the quotes: one as the end of the run, one behind them.
      obtain ⟨t, before', ht, hscan⟩ := exists_scanFrom_quoted (u := ['[']) (by decide) hs.1 hs.2
        before (']' :: written path)
      obtain ⟨hplain, hatoms⟩ := ih hpath before' (i + 1)
      have hwritten : Stretch.chars (.bracketed q) ++ written path =
          ['['] ++ quote q ++ ']' :: written path := by
        simp [Stretch.chars]
      rw [hwritten, hscan]
      refine ⟨fun c hc => hmore (hplain c hc), ?_⟩
      change withoutBrackets t :: _ = quote q :: _
      rw [ht, ← hatoms]
      rfl

theorem quotedParts_written : quotedParts (written path) = (contents path).map quote :=
  (scanFrom_written h none 0).2

/-- The `plainChars` of a path are marks, or they were plain before. -/
theorem proper_of_mem_plainChars {c : Char} (hc : c ∈ plainChars (pathGlyphs (written path))) :
    c ≠ doubleQuote ∧ c ≠ '\x7b' ∧ c ≠ '\n' ∧ c ≠ '[' ∧ c ≠ ']' := by
  rcases mem_plainChars_shortenGlyphs hc with rfl | hc
  · decide
  rcases mem_plainChars_anchor hc with rfl | hc
  · decide
  obtain ⟨u, hu, hcu⟩ := (scanFrom_written h none 0).1 c hc
  obtain ⟨⟨hquote, hbrace, hline⟩, hopening, hclosing⟩ := h _ hu
  exact ⟨fun hd => hquote (hd ▸ hcu), fun hd => hbrace (hd ▸ hcu), fun hd => hline (hd ▸ hcu),
    fun hd => hopening (hd ▸ hcu), fun hd => hclosing (hd ▸ hcu)⟩

end Written

/-! ### Scanning the normal form -/

theorem runGlyphs_cons (i : Nat) {c : Char} {u : List Char} (h : '[' ∉ c :: u)
    (us : List (List Char)) : runGlyphs i (c :: u) us = .char c :: runGlyphs i u us := by
  have hself : ∀ {v : List Char}, '[' ∉ v → dropOpening v = v := fun hv =>
    if_neg fun hlast => hv (List.mem_of_mem_getLast? hlast)
  cases us with
  | nil => rfl
  | cons v us =>
    rw [runGlyphs, runGlyphs, hself h, hself (List.not_mem_of_not_mem_cons h), List.map_cons,
      List.cons_append]

/-- **Glyphs without brackets are scanned as they are**: `runGlyphs` gives back what `runs` took
apart. -/
theorem runGlyphs_runs {gs : List Glyph} (hopening : '[' ∉ plainChars gs)
    (hclosing : ']' ∉ plainChars gs) {i : Nat} {u : List Char} {us : List (List Char)}
    (hruns : runs gs = u :: us) (hindices : indices gs = List.range' i us.length) :
    runGlyphs i u us = gs := by
  induction gs generalizing i u us with
  | nil =>
    obtain ⟨rfl, rfl⟩ := List.cons.inj hruns
    rfl
  | cons g gs ih =>
    obtain ⟨r, rs, hrest⟩ := List.exists_cons_of_ne_nil (runs_ne_nil gs)
    cases g with
    | char c =>
      rw [runs, hrest, List.modifyHead_cons] at hruns
      obtain ⟨rfl, rfl⟩ := List.cons.inj hruns
      -- A bracket of the run would be one of the glyphs.
      have hrun : '[' ∉ c :: r := by
        rw [List.mem_cons, not_or]
        refine ⟨fun hc => hopening (hc ▸ List.mem_cons_self), fun hr => hopening ?_⟩
        exact List.mem_cons_of_mem _ (mem_plainChars_of_mem_runs (hrest ▸ List.mem_cons_self) hr)
      rw [runGlyphs_cons i hrun, ih (List.not_mem_of_not_mem_cons hopening)
        (List.not_mem_of_not_mem_cons hclosing) hrest hindices]
    | atom j =>
      rw [runs, hrest] at hruns
      obtain ⟨rfl, rfl⟩ := List.cons.inj hruns
      rw [indices, List.length_cons, List.range'_succ] at hindices
      obtain ⟨rfl, hindices⟩ := List.cons.inj hindices
      -- Nor does a run start with a bracket that the quoted part before it would take.
      have hrun : dropClosing r = r := by
        have hmem : r ∈ runs gs := hrest ▸ List.mem_cons_self
        exact if_neg fun hhead =>
          hclosing (mem_plainChars_of_mem_runs hmem (List.mem_of_mem_head? hhead))
      rw [runGlyphs, hrun, ih hopening hclosing hrest hindices]
      rfl

/-- The path that `cut` gives back spells the `pathGlyphs`. -/
theorem longname_cut {cs : List Char} (h : '\x7b' ∉ cs) :
    (cut (String.ofList cs)).longname =
      String.ofList (spell (fun i => (quotedParts cs).getD i []) (pathGlyphs cs)) := by
  rw [← restoreFrom_stretch h (List.infix_refl _), cut_eq, String.toList_ofList, masked_eq_spell h]

/-- **A cut gives a normal form.** For every path of `Proper` stretches, the path that the `cut`
gives back holds the same contents in quotes, and it has the same five parts as the path before. -/
theorem cut_normal {path : List Stretch} (h : ∀ s ∈ path, s.Proper) :
    quotedParts (cut (String.ofList (written path))).longname.toList =
        (contents path).map quote ∧
      cut (cut (String.ofList (written path))).longname = cut (String.ofList (written path)) := by
  have hbrace := brace_notMem_written h
  have hquoted := quotedParts_written h
  have hindices := indices_pathGlyphs (written path)
  obtain ⟨u, us, hruns⟩ := List.exists_cons_of_ne_nil (runs_ne_nil (pathGlyphs (written path)))
  have hlength : (contents path).length = us.length := by
    have hcount := length_runs (pathGlyphs (written path))
    rw [hruns, hindices, List.length_range, hquoted, List.length_map, List.length_cons] at hcount
    omega
  -- The path that comes back alternates between runs without brackets and the contents.
  have hlong : (cut (String.ofList (written path))).longname.toList =
      weave (u :: us) (contents path) := by
    rw [longname_cut hbrace, String.toList_ofList, ← hruns]
    refine spell_eq_weave ?_
    rw [hindices, map_getD_range, hquoted]
  have hunquoted : ∀ v ∈ u :: us, Unquoted v := by
    intro v hv
    have hplain : ∀ c ∈ v, _ := fun c hc =>
      proper_of_mem_plainChars h (mem_plainChars_of_mem_runs (hruns ▸ hv) hc)
    exact ⟨fun hc => (hplain _ hc).1 rfl, fun hc => (hplain _ hc).2.1 rfl,
      fun hc => (hplain _ hc).2.2.1 rfl⟩
  have hfills : Fills (u :: us) (contents path) :=
    ⟨by rw [hlength, List.length_cons], fun q hq => (unquoted_of_mem_contents h hq).1,
      fun q hq => (unquoted_of_mem_contents h hq).2⟩
  obtain ⟨hglyphs, hparts⟩ := pathGlyphs_weave hunquoted hfills
  -- Scanning it finds the same glyphs, and the two passes leave them alone.
  have hscan : runGlyphs 0 u us = pathGlyphs (written path) := by
    refine runGlyphs_runs (fun hc => (proper_of_mem_plainChars h hc).2.2.2.1 rfl)
      (fun hc => (proper_of_mem_plainChars h hc).2.2.2.2 rfl) hruns ?_
    rw [hindices, hquoted, List.length_map, hlength, List.range_eq_range']
  have hsame : pathGlyphs (weave (u :: us) (contents path)) = pathGlyphs (written path) := by
    rw [hglyphs, hscan, anchor_eq_self (anchored_pathGlyphs _), pathGlyphs,
      shortenGlyphs_shortenGlyphs]
  refine ⟨by rw [hlong, hparts], cut_congr ?_⟩
  rw [hlong, String.toList_ofList, masked_eq_spell hbrace,
    masked_eq_spell (brace_notMem_weave hunquoted hfills), hsame, hparts, hquoted]

/-- Quoted parts side by side and in brackets, with prototypes before and inside them, doubled marks
and a variation. -/
theorem cut_normal_bracketed :
    let path : List Stretch :=
      [.plain "ns.".toList, .bracketed "a.prototype".toList, .quoted "]#[".toList,
        .plain ".prototype".toList, .bracketed "b(1)".toList, .plain "..c.prototype.d(v)".toList]
    (∀ s ∈ path, s.Proper) ∧
      quotedParts (cut (String.ofList (written path))).longname.toList =
          (contents path).map quote ∧
        cut (cut (String.ofList (written path))).longname = cut (String.ofList (written path)) :=
  ⟨by decide, cut_normal (by decide)⟩

example :
    cut "ns.[\"a.prototype\"]\"]#[\".prototype[\"b(1)\"]..c.prototype.d(v)" =
      { longname := "ns.\"a.prototype\".\"]#[\"#\"b(1)\"..c#d(v)"
        memberof := "ns.\"a.prototype\".\"]#[\"#\"b(1)\"..c"
        scope := some .perInstance
        name := "d"
        variation := some "v" } := by
  decide +kernel

end DocComment.Namepath
