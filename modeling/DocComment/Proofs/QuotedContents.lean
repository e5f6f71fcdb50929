import DocComment.Proofs.PathCut

/-!
# Quoted parts are atomic

Where a path is cut does not depend on what stands inside its quotes. `weave us qs` is the path that
alternates between the runs `us` of plain text and the contents `qs` in quotes. For the runs alone
there is a `Seam`, that is, runs in their normal form with a place among them, a scope and a
variation, and `cut_weave` says that for all contents the parts of the path are those on the two
sides of the seam. So no mark, no `.prototype` and no parenthesis inside quotes separates members,
is rewritten or becomes a variation.

First, the scan finds the contents and nothing else, and leaves glyphs that are a function of the
runs (`scanFrom_weave`). The outline of these glyphs is then the same for all
contents, and `runs` reads the seam off it.
-/

namespace DocComment.Namepath

open DocComment.Text

/-! ### Runs and contents -/

/-- A content `q` in its quotes. -/
def quote (q : List Char) : List Char :=
  doubleQuote :: (q ++ [doubleQuote])

/-- The path that alternates between the runs `us` and the contents `qs` in quotes. -/
def weave : List (List Char) → List (List Char) → List Char
  | [], _ => []
  | u :: _, [] => u
  | u :: us, q :: qs => u ++ quote q ++ weave us qs

/-- Whether a text may stand outside or inside quotes: it holds no quote, no opening brace and no
line feed. -/
def Unquoted (u : List Char) : Prop :=
  doubleQuote ∉ u ∧ '\x7b' ∉ u ∧ '\n' ∉ u

instance : DecidablePred Unquoted := fun u =>
  inferInstanceAs (Decidable (doubleQuote ∉ u ∧ '\x7b' ∉ u ∧ '\n' ∉ u))

/-- Whether contents fit between the runs `us`: there is one for each gap, and none is empty. -/
structure Fills (us qs : List (List Char)) : Prop where
  /-- There is one content for each gap. -/
  length_eq : qs.length + 1 = us.length
  /-- No content ends its quotes early. -/
  unquoted : ∀ q ∈ qs, Unquoted q
  /-- No content is empty. -/
  ne_nil : ∀ q ∈ qs, q ≠ []

theorem Fills.length {u : List Char} {us qs : List (List Char)} (h : Fills (u :: us) qs) :
    qs.length = us.length :=
  Nat.add_right_cancel h.length_eq

theorem notMem_weave {c : Char} (hc : c ≠ doubleQuote) {us qs : List (List Char)}
    (hus : ∀ u ∈ us, c ∉ u) (hqs : ∀ q ∈ qs, c ∉ q) : c ∉ weave us qs := by
  fun_induction weave us qs with
  | case1 => exact List.not_mem_nil
  | case2 u us => exact hus u List.mem_cons_self
  | case3 u us q qs ih =>
    obtain ⟨hu, hus⟩ := List.forall_mem_cons.mp hus
    obtain ⟨hq, hqs⟩ := List.forall_mem_cons.mp hqs
    simp [quote, hc, hu, hq, ih hus hqs]

theorem brace_notMem_weave {us qs : List (List Char)} (hus : ∀ u ∈ us, Unquoted u)
    (hfills : Fills us qs) : '\x7b' ∉ weave us qs :=
  notMem_weave (by decide) (fun u hu => (hus u hu).2.1) fun q hq => (hfills.unquoted q hq).2.1

theorem newline_notMem_weave {us qs : List (List Char)} (hus : ∀ u ∈ us, Unquoted u)
    (hfills : Fills us qs) : '\n' ∉ weave us qs :=
  notMem_weave (by decide) (fun u hu => (hus u hu).2.2) fun q hq => (hfills.unquoted q hq).2.2

theorem exists_fills (u : List Char) (us : List (List Char)) : ∃ qs, Fills (u :: us) qs := by
  refine ⟨us.map fun _ => ['x'], by simp, ?_, ?_⟩
  · intro q hq
    obtain ⟨_, _, rfl⟩ := List.mem_map.mp hq
    decide
  · intro q hq
    obtain ⟨_, _, rfl⟩ := List.mem_map.mp hq
    exact List.cons_ne_nil _ _

/-! ### Scanning for the contents -/

/-- A run `u` without the bracket that opens the quoted part behind it. -/
def dropOpening (u : List Char) : List Char :=
  if u.getLast? = some '[' then u.dropLast else u

/-- A run `u` without the bracket that closes the quoted part before it. -/
def dropClosing (u : List Char) : List Char :=
  if u.head? = some ']' then u.tail else u

theorem throughQuote_append {q : List Char} (hquote : doubleQuote ∉ q) (hline : '\n' ∉ q)
    (rest : List Char) : throughQuote (q ++ doubleQuote :: rest) = some (q.length + 1) := by
  induction q with
  | nil => simp [throughQuote]
  | cons c q ih =>
    rw [List.mem_cons, not_or] at hquote hline
    simp [throughQuote, Ne.symm hquote.1, Ne.symm hline.1, ih hquote.2 hline.2]

/-- Whether quotes around `q` are a match: it is there and on one line, and no quote but its first
character ends it. -/
def Quotable (q : List Char) : Prop :=
  q ≠ [] ∧ doubleQuote ∉ q.tail ∧ '\n' ∉ q

theorem Unquoted.quotable {q : List Char} (h : Unquoted q) (hne : q ≠ []) : Quotable q :=
  ⟨hne, fun hmem => h.1 (List.mem_of_mem_tail hmem), h.2.2⟩

theorem tailLength_append {q : List Char} (hq : Quotable q) (rest : List Char) :
    tailLength (q ++ doubleQuote :: rest) =
      q.length + 1 + if rest.head? = some ']' then 1 else 0 := by
  obtain ⟨hne, hquote, hline⟩ := hq
  obtain ⟨c, q, rfl⟩ := List.exists_cons_of_ne_nil hne
  rw [List.tail_cons] at hquote
  rw [List.mem_cons, not_or] at hline
  -- The first character may be anything but a line feed; from the second on, a quote ends it.
  have htail : quotedTail (c :: q ++ doubleQuote :: rest) = some (q.length + 2) := by
    simp [quotedTail, Ne.symm hline.1, throughQuote_append hquote hline.2]
  have hdrop : (c :: q ++ doubleQuote :: rest).drop (q.length + 2) = rest := by
    simp
  unfold tailLength
  rw [htail]
  dsimp only
  rw [hdrop]
  simp only [beq_iff_eq, List.length_cons]
  split <;> omega

/-- A `quote` is a match of `quotedLength`, with a bracket before it and a bracket behind. -/
theorem quotedLength_quote {opening q : List Char} (hopening : opening = ['['] ∨ opening = [])
    (hq : Quotable q) (rest : List Char) :
    quotedLength (opening ++ quote q ++ rest) =
      (opening ++ quote q).length + if rest.head? = some ']' then 1 else 0 := by
  -- The match goes through the content to the first quote, and takes one bracket more if there is
  -- one.
  have htail : tailLength (q ++ [doubleQuote] ++ rest) =
      (q.length + if rest.head? = some ']' then 1 else 0) + 1 := by
    rw [List.append_assoc, List.singleton_append, tailLength_append hq]
    omega
  have hlength : (quote q).length = q.length + 2 := by
    simp [quote]
  rw [List.length_append, hlength]
  rcases hopening with rfl | rfl
  · rw [List.append_assoc, List.singleton_append, quotedLength, if_neg (by decide),
      if_pos (by simp [quote]), quote, List.cons_append, List.tail_cons, htail]
    dsimp only [List.length_singleton]
    omega
  · rw [List.nil_append, quote, List.cons_append, quotedLength, if_pos (beq_self_eq_true _), htail]
    dsimp only [List.length_nil]
    omega

/-- A match of `quotedLength` ends with its quote, or with the bracket behind it. -/
theorem quotedLength_match {opening q closing rest : List Char}
    (hopening : opening = ['['] ∨ opening = []) (hq : Quotable q)
    (hclosing : closing = [']'] ∨ closing = [] ∧ rest.head? ≠ some ']') :
    quotedLength (opening ++ quote q ++ closing ++ rest) =
      (opening ++ quote q ++ closing).length := by
  have htaken : (if (closing ++ rest).head? = some ']' then 1 else 0) = closing.length := by
    rcases hclosing with rfl | ⟨rfl, hhead⟩
    · rfl
    · rw [List.nil_append, if_neg hhead, List.length_nil]
  rw [List.append_assoc, quotedLength_quote hopening hq, htaken]
  exact List.length_append.symm

theorem exists_opening (u : List Char) :
    ∃ opening, u = dropOpening u ++ opening ∧
      (opening = ['['] ∨ opening = [] ∧ u.getLast? ≠ some '[') := by
  unfold dropOpening
  split
  · next h =>
    obtain ⟨base, rfl⟩ := List.getLast?_eq_some_iff.mp h
    exact ⟨['['], by rw [List.dropLast_concat], .inl rfl⟩
  · next h => exact ⟨[], by simp, .inr ⟨rfl, h⟩⟩

theorem exists_closing (u : List Char) :
    ∃ closing, u = closing ++ dropClosing u ∧
      (closing = [']'] ∨ closing = [] ∧ u.head? ≠ some ']') := by
  unfold dropClosing
  split
  · next h =>
    obtain ⟨rest, rfl⟩ := List.head?_eq_some_iff.mp h
    exact ⟨[']'], rfl, .inl rfl⟩
  · next h => exact ⟨[], rfl, .inr ⟨rfl, h⟩⟩

theorem getLast?_quote (q : List Char) : (quote q).getLast? = some doubleQuote := by
  rw [quote, ← List.cons_append, List.getLast?_concat]

/-- By `withoutBrackets` brackets come off a match and quotes stay. -/
theorem withoutBrackets_quote {opening closing : List Char} (q : List Char)
    (hopening : opening = ['['] ∨ opening = []) (hclosing : closing = [']'] ∨ closing = []) :
    withoutBrackets (opening ++ quote q ++ closing) = quote q := by
  have hfirst : (if (opening ++ quote q ++ closing).head? == some '[' then
      (opening ++ quote q ++ closing).tail else opening ++ quote q ++ closing) =
        quote q ++ closing := by
    rcases hopening with rfl | rfl
    · rfl
    · rw [if_neg (by simp [quote, doubleQuote]), List.nil_append]
  unfold withoutBrackets
  dsimp only
  rw [hfirst]
  rcases hclosing with rfl | rfl
  · rw [List.getLast?_concat, if_pos (by simp), List.dropLast_concat]
  · -- What is in quotes ends in a quote, not in a bracket.
    rw [List.append_nil, getLast?_quote, if_neg (by decide)]

/-- **A `quote` is one `hit`**, with the brackets around it, whatever the content is. -/
theorem exists_scanFrom_quoted {u q : List Char} (hu : doubleQuote ∉ u) (hq : Unquoted q)
    (hne : q ≠ []) (before : Option Char) (rest : List Char) :
    ∃ s before', withoutBrackets s = quote q ∧
      scanFrom quotedPart before 0 (u ++ quote q ++ rest) =
        (dropOpening u).map .plain ++
          .hit s :: scanFrom quotedPart before' 0 (dropClosing rest) := by
  obtain ⟨opening, hopen, hopening⟩ := exists_opening u
  obtain ⟨closing, hclose, hclosing⟩ := exists_closing rest
  -- From here on the run is `base` and a bracket or nothing, and so is what follows the quotes.
  generalize dropOpening u = base at hopen ⊢
  generalize dropClosing rest = behind at hclose ⊢
  subst hopen hclose
  have hbase : doubleQuote ∉ base := fun h => hu (List.mem_append_left _ h)
  have hbehind : closing = [']'] ∨ closing = [] ∧ behind.head? ≠ some ']' := by
    rcases hclosing with hbracket | ⟨rfl, hhead⟩
    · exact .inl hbracket
    · exact .inr ⟨rfl, hhead⟩
  have hwidth : ∀ before, quotedPart before (opening ++ quote q ++ closing ++ behind) =
      (opening ++ quote q ++ closing).length := fun _ =>
    quotedLength_match (hopening.imp_right And.left) (hq.quotable hne) hbehind
  have hlast : base.getLast? = some '[' →
      (opening ++ quote q ++ closing ++ behind).head? ≠ some doubleQuote := by
    intro hbase
    rcases hopening with rfl | ⟨rfl, hlast⟩
    · simp [doubleQuote]
    · rw [List.append_nil] at hlast
      exact absurd hbase hlast
  -- The scan passes over the base and takes the quotes with their brackets as one match.
  refine ⟨opening ++ quote q ++ closing,
    lastBefore (lastBefore before base) (opening ++ quote q ++ closing),
    withoutBrackets_quote q (hopening.imp_right And.left) (hclosing.imp_right And.left), ?_⟩
  rw [← scanFrom_match (by simp [quote]) (hwidth _), ← scanFrom_quotedPart_run hbase hlast]
  simp only [List.append_assoc]

/-! ### The glyphs that are left -/

/-- The glyphs of a path with the runs `u :: us`; `i` is the number of the next content. -/
def runGlyphs : Nat → List Char → List (List Char) → List Glyph
  | _, u, [] => u.map .char
  | i, u, v :: us => (dropOpening u).map .char ++ .atom i :: runGlyphs (i + 1) (dropClosing v) us

theorem mem_of_mem_dropClosing {c : Char} {u : List Char} (h : c ∈ dropClosing u) : c ∈ u := by
  unfold dropClosing at h
  split at h
  · exact List.mem_of_mem_tail h
  · exact h

/-- A closing bracket at the start of a `weave` is one of the first run. -/
theorem dropClosing_weave (u : List Char) (us qs : List (List Char)) :
    dropClosing (weave (u :: us) qs) = weave (dropClosing u :: us) qs := by
  cases qs with
  | nil => rfl
  | cons q qs =>
    cases u with
    | nil => simp [weave, dropClosing, quote, doubleQuote]
    | cons c u => by_cases hc : c = ']' <;> simp [weave, dropClosing, hc]

/-- **The scan of a `weave` finds its contents, each in its place.** -/
theorem scanFrom_weave {u : List Char} {us qs : List (List Char)}
    (hu : doubleQuote ∉ u) (hus : ∀ v ∈ us, doubleQuote ∉ v) (hfills : Fills (u :: us) qs)
    (before : Option Char) (i : Nat) :
    numbered i (scanFrom quotedPart before 0 (weave (u :: us) qs)) = runGlyphs i u us ∧
      (mask i (scanFrom quotedPart before 0 (weave (u :: us) qs))).2 = qs.map quote := by
  induction us generalizing u qs before i with
  | nil =>
    obtain rfl : qs = [] := List.length_eq_zero_iff.mp hfills.length
    have hscan : scanFrom quotedPart before 0 (u ++ []) = u.map .plain ++ [] :=
      scanFrom_quotedPart_run hu (by simp) before
    rw [List.append_nil] at hscan
    rw [weave, hscan, numbered_map_plain, mask_snd_map_plain]
    exact ⟨List.append_nil _, rfl⟩
  | cons v us ih =>
    obtain ⟨q, qs, rfl⟩ := List.exists_cons_of_length_eq_add_one hfills.length
    obtain ⟨hlength, hunquoted, hne⟩ := hfills
    obtain ⟨hv, hus⟩ := List.forall_mem_cons.mp hus
    obtain ⟨hq, hqs⟩ := List.forall_mem_cons.mp hunquoted
    obtain ⟨hqne, hqsne⟩ := List.forall_mem_cons.mp hne
    -- One content is found, and the scan goes on behind its closing bracket with the next run.
    obtain ⟨s, before', hs, hscan⟩ := exists_scanFrom_quoted hu hq hqne before (weave (v :: us) qs)
    obtain ⟨hglyphs, hatoms⟩ := ih (fun h => hv (mem_of_mem_dropClosing h)) hus
      ⟨by simpa using hlength, hqs, hqsne⟩ before' (i + 1)
    rw [weave, hscan, dropClosing_weave, numbered_map_plain, mask_snd_map_plain, numbered,
      mask_snd_hit, hglyphs, hatoms, hs]
    exact ⟨rfl, rfl⟩

/-- The `pathGlyphs` of a `weave` tell its runs and not its contents. -/
theorem pathGlyphs_weave {u : List Char} {us qs : List (List Char)}
    (hus : ∀ v ∈ u :: us, Unquoted v) (hfills : Fills (u :: us) qs) :
    pathGlyphs (weave (u :: us) qs) = shortenGlyphs (anchor true (runGlyphs 0 u us)) ∧
      quotedParts (weave (u :: us) qs) = qs.map quote := by
  obtain ⟨hu, hus⟩ := List.forall_mem_cons.mp hus
  obtain ⟨hglyphs, hatoms⟩ := scanFrom_weave hu.1 (fun v hv => (hus v hv).1) hfills none 0
  refine ⟨?_, hatoms⟩
  rw [pathGlyphs, scan, hglyphs]

/-! ### Seams -/

/-- The runs of plain characters among some glyphs: one more than there are `atom`s. -/
def runs : List Glyph → List (List Char)
  | [] => [[]]
  | .char c :: gs => (runs gs).modifyHead (c :: ·)
  | .atom _ :: gs => [] :: runs gs

theorem length_runs (gs : List Glyph) : (runs gs).length = (indices gs).length + 1 := by
  induction gs with
  | nil => rfl
  | cons g gs ih => cases g <;> simp [runs, indices, ih]

theorem runs_ne_nil (gs : List Glyph) : runs gs ≠ [] := by
  intro h
  have hlength := length_runs gs
  rw [h, List.length_nil] at hlength
  omega

theorem runs_map_char (cs : List Char) : runs (cs.map .char) = [cs] := by
  induction cs with
  | nil => rfl
  | cons c cs ih => rw [List.map_cons, runs, ih, List.modifyHead_cons]

/-- Where glyphs are put together, the last of the `runs` of the ones and the first of the others
become one run. -/
theorem runs_append {gs hs : List Glyph} {before after : List (List Char)} {left right : List Char}
    (hgs : runs gs = before ++ [left]) (hhs : runs hs = right :: after) :
    runs (gs ++ hs) = before ++ (left ++ right) :: after := by
  induction gs generalizing before left with
  | nil =>
    obtain ⟨rfl, rfl⟩ : before = [] ∧ left = [] := by
      simpa [runs, List.singleton_eq_append_iff] using hgs
    exact hhs
  | cons g gs ih =>
    cases g with
    | char c =>
      rw [runs] at hgs
      -- A plain character goes to the first run, which is the last one of the left glyphs if they
      -- have no other.
      obtain ⟨r, rs, hruns⟩ := List.exists_cons_of_ne_nil (runs_ne_nil gs)
      rw [hruns, List.modifyHead_cons] at hgs
      rw [List.cons_append, runs]
      cases before with
      | nil =>
        obtain ⟨rfl, rfl⟩ := List.cons.inj hgs
        rw [@ih [] r hruns]
        rfl
      | cons b before =>
        obtain ⟨rfl, rfl⟩ := List.cons.inj hgs
        rw [@ih (r :: before) left hruns]
        rfl
    | atom i =>
      rw [runs] at hgs
      cases before with
      -- There is a run on either side of a quoted part, so this one is not the last.
      | nil => exact absurd (List.cons.inj hgs).2 (runs_ne_nil gs)
      | cons b before =>
        obtain ⟨rfl, htail⟩ := List.cons.inj hgs
        rw [List.cons_append, runs, ih htail, List.cons_append]

/-- **Glyphs that `spell` writes out are the `weave` of their runs and the quoted parts.** -/
theorem spell_eq_weave {f : Nat → List Char} {gs : List Glyph} {qs : List (List Char)}
    (h : (indices gs).map f = qs.map quote) : spell f gs = weave (runs gs) qs := by
  induction gs generalizing qs with
  | nil =>
    obtain rfl : qs = [] := by simpa [indices] using h.symm
    rfl
  | cons g gs ih =>
    cases g with
    | char c =>
      obtain ⟨r, rs, hruns⟩ := List.exists_cons_of_ne_nil (runs_ne_nil gs)
      rw [spell_char, ih h, runs, hruns, List.modifyHead_cons]
      cases qs <;> rfl
    | atom i =>
      -- A quoted part ends a run, and takes up the first of the contents.
      rw [indices, List.map_cons] at h
      cases qs with
      | nil => cases h
      | cons q qs =>
        obtain ⟨hq, hqs⟩ := List.cons.inj h
        rw [spell_atom, ih hqs, hq]
        rfl

/-- A **seam** among `n` runs: the run in the middle is cut at its mark, if there is one. -/
structure Seam (n : Nat) where
  /-- The runs before the one that is cut. -/
  before : List (List Char)
  /-- What stands before the mark. -/
  left : List Char
  /-- The scope that the mark tells. -/
  scope : Option Scope
  /-- What stands behind the mark. -/
  right : List Char
  /-- The runs behind the one that is cut. -/
  after : List (List Char)
  /-- The variation at the end of the last run. -/
  variation : Option (List Char)
  /-- There are `n` runs. -/
  length_eq : before.length + after.length + 1 = n
  /-- Without a mark, all runs are on the right side. -/
  left_eq_nil : scope = none → before = [] ∧ left = []
  /-- The cut is made at the last mark of all. -/
  no_mark : ∀ u ∈ right :: after, ∀ c ∈ u, Scope.isMark c = false

namespace Seam

variable {n : Nat} (m : Seam n)

/-- All runs of a `Seam`, the one it goes through put together. -/
def runs : List (List Char) :=
  m.before ++ (m.left ++ markChars m.scope ++ m.right) :: m.after

/-- The path on the left side of the seam, with the contents `qs` that belong there. -/
def owner (qs : List (List Char)) : List Char :=
  weave (m.before ++ [m.left]) (qs.take m.before.length)

/-- The path on the right side of the seam, with the rest of the contents `qs`. -/
def last (qs : List (List Char)) : List Char :=
  weave (m.right :: m.after) (qs.drop m.before.length)

end Seam

theorem mem_plainChars_of_mem_runs {gs : List Glyph} {u : List Char} (hu : u ∈ runs gs) {c : Char}
    (hc : c ∈ u) : c ∈ plainChars gs := by
  induction gs generalizing u with
  | nil =>
    obtain rfl := List.mem_singleton.mp hu
    cases hc
  | cons g gs ih =>
    cases g with
    | char d =>
      obtain ⟨r, rs, hruns⟩ := List.exists_cons_of_ne_nil (runs_ne_nil gs)
      rw [runs, hruns, List.modifyHead_cons] at hu
      rw [hruns] at ih
      rw [plainChars, List.mem_cons]
      -- A character is in the run that it goes to, or in what that run was before.
      rcases List.mem_cons.mp hu with rfl | hu
      · exact (List.mem_cons.mp hc).imp_right (ih List.mem_cons_self)
      · exact .inr (ih (List.mem_cons_of_mem _ hu) hc)
    | atom i =>
      rcases List.mem_cons.mp hu with rfl | hu
      · cases hc
      · exact ih hu hc

/-- **An `Outline` has a `Seam`**: its runs, cut where the outline is. -/
theorem Outline.exists_seam (o : Outline) {n : Nat} (hindices : indices o.glyphs = List.range n) :
    ∃ m : Seam (n + 1), m.scope = o.scope ∧ m.variation = o.variation ∧
      ∀ {f : Nat → List Char} {qs : List (List Char)}, (List.range n).map f = qs.map quote →
        spell f o.glyphs = weave m.runs qs ∧ spell f o.owner = m.owner qs ∧
          spell f o.last = m.last qs := by
  obtain ⟨right, after, hlast⟩ := List.exists_cons_of_ne_nil (runs_ne_nil o.last)
  obtain ⟨before, left, howner⟩ : ∃ before left, runs o.owner = before ++ [left] :=
    ⟨_, _, (List.dropLast_concat_getLast (runs_ne_nil o.owner)).symm⟩
  -- The mark joins the last run of the owner and the first run of the last member.
  have hruns : runs o.glyphs = before ++ (left ++ markChars o.scope ++ right) :: after :=
    runs_append (runs_append howner (runs_map_char _)) hlast
  have hsplit : indices o.glyphs = indices o.owner ++ indices o.last := by
    simp [Outline.glyphs]
  have hbefore : before.length = (indices o.owner).length := by
    simpa [howner] using length_runs o.owner
  have hafter : before.length + after.length + 1 = n + 1 := by
    have hlength := length_runs o.glyphs
    rw [hruns, hindices, List.length_append, List.length_cons, List.length_range] at hlength
    omega
  have hnil : o.scope = none → before = [] ∧ left = [] := by
    intro hscope
    rw [o.owner_eq_nil hscope] at howner
    simpa [runs, List.singleton_eq_append_iff] using howner
  have hmark : ∀ u ∈ right :: after, ∀ c ∈ u, Scope.isMark c = false := by
    intro u hu c hc
    have hplain := mem_plainChars_of_mem_runs (hlast ▸ hu) hc
    rw [Outline.last, plainChars_append, plainChars_map_char] at hplain
    exact o.no_mark c hplain
  refine ⟨⟨before, left, o.scope, right, after, o.variation, hafter, hnil, hmark⟩, rfl, rfl, ?_⟩
  intro f qs hqs
  -- The contents fall apart as the quoted parts of the outline do.
  rw [← hindices] at hqs
  have hparts : (indices o.owner).map f ++ (indices o.last).map f = qs.map quote := by
    rw [← List.map_append, ← hsplit, hqs]
  have hleft : (indices o.owner).map f = (qs.take before.length).map quote := by
    rw [List.map_take, ← hparts, hbefore, List.take_left' (List.length_map _)]
  have hright : (indices o.last).map f = (qs.drop before.length).map quote := by
    rw [List.map_drop, ← hparts, hbefore, List.drop_left' (List.length_map _)]
  refine ⟨?_, ?_, ?_⟩
  · rw [spell_eq_weave hqs, hruns]
    rfl
  · rw [spell_eq_weave hleft, howner]
    rfl
  · rw [spell_eq_weave hright, hlast]
    rfl

/-! ### Cutting a woven path -/

theorem map_getD_range (l : List (List Char)) :
    (List.range l.length).map (fun i => l.getD i []) = l := by
  refine List.ext_getElem (by simp) fun i hi hi' => ?_
  simp [hi']

/-- **One `Outline` serves all contents** that a `weave` can have. -/
theorem exists_outline_weave {u : List Char} {us : List (List Char)}
    (hus : ∀ v ∈ u :: us, Unquoted v) :
    ∃ o : Outline, indices o.glyphs = List.range us.length ∧
      ∀ qs, Fills (u :: us) qs →
        cut (String.ofList (weave (u :: us) qs)) = o.parts fun i => (qs.map quote).getD i [] := by
  -- All fillings leave the same glyphs, so the outline may be taken from any one of them.
  obtain ⟨sample, hsample⟩ := exists_fills u us
  obtain ⟨hglyphs, hquoted⟩ := pathGlyphs_weave hus hsample
  obtain ⟨o, hpath, hcut⟩ := exists_outline (anchored_pathGlyphs (weave (u :: us) sample))
    (newline_notMem_pathGlyphs (newline_notMem_weave hus hsample))
  refine ⟨o, ?_, fun qs hfills => ?_⟩
  · rw [hpath, indices_pathGlyphs, hquoted, List.length_map, hsample.length]
  · obtain ⟨hsame, hquotes⟩ := pathGlyphs_weave hus hfills
    have hparts := hcut (String.ofList (weave (u :: us) qs))
      (by rw [String.toList_ofList]; exact brace_notMem_weave hus hfills)
      (by rw [String.toList_ofList, hsame, hglyphs])
    rw [hparts, String.toList_ofList, hquotes]

/-- **Quoted parts are atomic.** For runs of text without quotes, opening braces and line feeds
there are a `Seam` with as many runs in their normal form, a scope and a variation such that for all
contents of the quotes `cut` takes the `weave` apart at this seam: it has this scope and this
variation, its normal form has the same contents between the runs of the seam, the owner is the path
on the left side of the seam, and name and variation make up the one on the right side. -/
theorem cut_weave (us : List (List Char)) (hne : us ≠ []) (hus : ∀ u ∈ us, Unquoted u) :
    ∃ m : Seam us.length, ∀ qs, Fills us qs →
      let p := cut (String.ofList (weave us qs))
      p.scope = m.scope ∧ p.variation = m.variation.map String.ofList ∧
        p.longname = String.ofList (weave m.runs qs) ∧
        p.memberof = String.ofList (m.owner qs) ∧
        p.name ++ p.variationSuffix = String.ofList (m.last qs) := by
  obtain ⟨u, us, rfl⟩ := List.exists_cons_of_ne_nil hne
  obtain ⟨o, hindices, hcut⟩ := exists_outline_weave hus
  obtain ⟨m, hscope, hvariation, hspell⟩ := o.exists_seam hindices
  refine ⟨m, fun qs hfills => ?_⟩
  -- The outline and its seam are there before the contents; now the contents are filled in.
  have hcontents : (List.range us.length).map (fun i => (qs.map quote).getD i []) =
      qs.map quote := by
    rw [← hfills.length, ← List.length_map quote]
    exact map_getD_range (qs.map quote)
  obtain ⟨hlong, howner, hlast⟩ := hspell hcontents
  dsimp only
  rw [hcut qs hfills]
  refine ⟨hscope.symm, ?_, ?_, ?_, ?_⟩
  · rw [hvariation]
    rfl
  · rw [← hlong]
    rfl
  · rw [← howner]
    rfl
  · rw [o.variationSuffix_parts, ← hlast]
    simp [Outline.parts, Outline.last]

/-- Runs with brackets around the quotes, a `.prototype` and a variation, and contents that hold
marks, brackets, parentheses and a `.prototype` of their own. -/
theorem cut_weave_bracketed :
    let us := ["ns[".toList, "].prototype.".toList, "[".toList, "](v)".toList]
    (us ≠ [] ∧ ∀ u ∈ us, Unquoted u) ∧
      Fills us ["a.b(1)".toList, "c~d.prototype".toList, "]#[".toList] ∧
      ∃ m : Seam us.length, ∀ qs, Fills us qs →
        let p := cut (String.ofList (weave us qs))
        p.scope = m.scope ∧ p.variation = m.variation.map String.ofList ∧
          p.longname = String.ofList (weave m.runs qs) ∧
          p.memberof = String.ofList (m.owner qs) ∧
          p.name ++ p.variationSuffix = String.ofList (m.last qs) :=
  ⟨by decide, ⟨by decide, by decide, by decide⟩, cut_weave _ (by decide) (by decide)⟩

example :
    cut "ns[\"a.b(1)\"].prototype.\"c~d.prototype\"[\"]#[\"](v)" =
      { longname := "ns.\"a.b(1)\"#\"c~d.prototype\".\"]#[\"(v)"
        memberof := "ns.\"a.b(1)\"#\"c~d.prototype\""
        scope := some .static
        name := "\"]#[\""
        variation := some "v" } := by
  decide +kernel

end DocComment.Namepath
