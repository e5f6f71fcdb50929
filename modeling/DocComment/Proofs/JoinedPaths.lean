import DocComment.Proofs.SettledPaths

/-!
# Joining an owner and a name

An owner and a name can be written one behind the other, with a point between them. Whether the cut
of this path gives back just this owner and this name depends on both. `cut_joined_iff` says when it
does, for an owner and a name that may hold quotes, brackets, parentheses and marks.

Four things can go wrong: the owner or the name is not settled, so the cut writes it anew; the name
is a path itself or has a variation, so the cut goes through it; the point and the name are read as
a prototype; or a quote that is open in the owner is closed by the name, so that the point
disappears in a quoted part. A scan that goes through the point undisturbed is the scan of the
owner, the point, and the scan of the name (`Scans.join`, `Scans.of_join`).
-/

namespace DocComment.Namepath

open DocComment.Text

/-! ### Scanning a joined text -/

/-- If `quotedLength` finds a part at the start of a text only because of what follows behind a
point, then a quote is open in the text. -/
theorem open_quote_of_join {cs rest : List Char} (hne : cs ≠ []) (hline : '\n' ∉ cs)
    (hrest : '\n' ∉ rest) (hzero : quotedLength cs = 0)
    (hjoin : quotedLength (cs ++ '.' :: rest) ≠ 0) :
    doubleQuote ∈ rest ∧ .plain doubleQuote ∈ scan quotedPart cs := by
  have hwhole : '\n' ∉ cs ++ '.' :: rest := by
    simp [hline, hrest]
  obtain ⟨opening, tail, hopening, hcut, hmem⟩ := (quotedLength_ne_zero_iff hwhole).mp hjoin
  -- The quote that opens the part stands in the text, not behind it.
  obtain ⟨inner, rfl, rfl⟩ : ∃ inner, cs = opening ++ doubleQuote :: inner ∧
      tail = inner ++ '.' :: rest := by
    obtain ⟨c, inner, rfl⟩ := List.exists_cons_of_ne_nil hne
    rcases hopening with rfl | rfl
    · obtain ⟨rfl, htail⟩ := List.cons.inj hcut
      cases inner with
      | nil => exact absurd (List.cons.inj htail).1 (by decide)
      | cons d inner =>
        obtain ⟨rfl, rfl⟩ := List.cons.inj htail
        exact ⟨inner, rfl, rfl⟩
    · obtain ⟨rfl, rfl⟩ := List.cons.inj hcut
      exact ⟨inner, rfl, rfl⟩
  -- Were it closed in the text, a quoted part would start there already.
  have hopen : doubleQuote ∉ inner.tail := by
    intro hclosed
    exact (quotedLength_ne_zero_iff hline).mpr ⟨opening, inner, hopening, rfl, hclosed⟩ hzero
  -- So the scan passes it as a plain character, behind a bracket or not.
  have hscan : quotedLength (doubleQuote :: inner) = 0 := by
    refine Decidable.byContradiction fun hstarts => ?_
    have hinner : '\n' ∉ doubleQuote :: inner := fun h => hline (List.mem_append_right _ h)
    obtain ⟨opening', tail', hopening', hcut', hmem'⟩ :=
      (quotedLength_ne_zero_iff hinner).mp hstarts
    rcases hopening' with rfl | rfl
    · exact absurd (List.cons.inj hcut').1 (by decide)
    · obtain ⟨-, rfl⟩ := List.cons.inj hcut'
      exact hopen hmem'
  constructor
  · cases inner with
    | nil => exact hmem
    | cons c inner =>
      rw [List.cons_append, List.tail_cons, List.mem_append, List.mem_cons] at hmem
      rcases hmem with hin | hpoint | hrest
      · exact absurd hin hopen
      · exact absurd hpoint (by decide)
      · exact hrest
  · rcases hopening with rfl | rfl
    · rw [List.singleton_append] at hzero ⊢
      rw [scan_quotedPart_cons hzero, scan_quotedPart_cons hscan]
      exact List.mem_cons_of_mem _ List.mem_cons_self
    · rw [List.nil_append, scan_quotedPart_cons hscan]
      exact List.mem_cons_self

/-- **Scanning through a point.** If no quote that is open before the point is closed behind it, the
two sides have their `Scans` by themselves. -/
theorem Scans.join {cs rest : List Char} {ps qs : List Piece} (h : Scans cs ps)
    (hrest : Scans rest qs) (hline : '\n' ∉ cs) (hline' : '\n' ∉ rest)
    (hclosed : doubleQuote ∈ rest → .plain doubleQuote ∉ ps) :
    Scans (cs ++ '.' :: rest) (ps ++ .plain '.' :: qs) := by
  induction h with
  | nil => exact .plain (quotedLength_of_ne (by decide) fun hc => absurd hc (by decide)) hrest
  | @plain c cs ps hzero hcs ih =>
    have htail := ih (List.not_mem_of_not_mem_cons hline) fun hmem hplain =>
      hclosed hmem (List.mem_cons_of_mem _ hplain)
    refine .plain ?_ htail
    refine Decidable.byContradiction fun hstarts => ?_
    obtain ⟨hmem, hplain⟩ :=
      open_quote_of_join (List.cons_ne_nil c cs) hline hline' hzero hstarts
    rw [(Scans.plain hzero hcs).scan_eq] at hplain
    exact hclosed hmem hplain
  | @hit q cs s ps hs hcs ih =>
    have htail := ih (fun hmem => hline (List.mem_append_right _ hmem)) fun hmem hplain =>
      hclosed hmem (List.mem_cons_of_mem _ hplain)
    rw [List.append_assoc]
    refine .hit (hs.of_head fun hhead => ?_) htail
    -- A closing bracket behind the quotes stands before the point.
    cases cs with
    | nil => exact absurd (Option.some.inj hhead) (by decide)
    | cons c cs => exact hhead

/-- Behind any pieces, what `Scans` says goes on as if the scan started there. -/
theorem Scans.of_append {cs : List Char} {ps qs : List Piece} (h : Scans cs (ps ++ qs)) :
    Scans (qs.flatMap Piece.chars) qs := by
  induction ps generalizing cs with
  | nil =>
    rw [List.nil_append] at h
    rw [h.chars_eq]
    exact h
  | cons p ps ih =>
    cases h with
    | plain _ hrest => exact ih hrest
    | hit _ hrest => exact ih hrest

/-- In front of a point, what `Scans` says does not depend on what follows. -/
theorem Scans.of_join {cs rest : List Char} {ps qs : List Piece}
    (h : Scans (cs ++ '.' :: rest) (ps ++ .plain '.' :: qs))
    (hps : ps.flatMap Piece.chars = cs) (hline : '\n' ∉ cs ++ '.' :: rest) : Scans cs ps := by
  induction ps generalizing cs with
  | nil =>
    rw [← hps]
    exact .nil
  | cons p ps ih =>
    subst hps
    rw [List.flatMap_cons] at h hline ⊢
    rw [List.append_assoc] at h hline
    generalize htext : p.chars ++ (ps.flatMap Piece.chars ++ '.' :: rest) = text at h hline
    cases h with
    | @plain c cs _ hzero hrest =>
      obtain rfl : ps.flatMap Piece.chars ++ '.' :: rest = cs := (List.cons.inj htext).2
      have htail := ih hrest rfl (List.not_mem_of_not_mem_cons hline)
      refine .plain (Decidable.byContradiction fun hstarts => ?_) htail
      -- A quoted part of the shorter text is one of the longer text.
      have hshort : '\n' ∉ c :: ps.flatMap Piece.chars := fun hmem =>
        hline (List.mem_append_left ('.' :: rest) hmem)
      obtain ⟨opening, tail, hopening, hcut, hmem⟩ :=
        (quotedLength_ne_zero_iff hshort).mp hstarts
      refine (quotedLength_ne_zero_iff hline).mpr ⟨opening, tail ++ '.' :: rest, hopening, ?_, ?_⟩
        hzero
      · rw [← List.cons_append, hcut, List.append_assoc, List.cons_append]
      · cases tail with
        | nil => exact absurd hmem List.not_mem_nil
        | cons d tail => exact List.mem_append_left _ hmem
    | @hit q cs s _ hs hrest =>
      -- A quoted part keeps its end: a closing bracket is not made by the point.
      obtain rfl := List.append_cancel_left htext
      have htail := ih hrest rfl fun hmem => hline (List.mem_append_right _ hmem)
      refine .hit (hs.of_head fun hhead => ?_) htail
      obtain ⟨tail, hchars⟩ := List.head?_eq_some_iff.mp hhead
      rw [hchars]
      rfl

/-- Where the scan has a `plain` piece, no quoted part starts. -/
theorem Scans.quotedLength_eq_zero {cs : List Char} {c : Char} {ps : List Piece}
    (h : Scans cs (.plain c :: ps)) : quotedLength cs = 0 := by
  cases h with
  | plain hzero _ => exact hzero

/-- A quote that is open before a `plain` point is closed by any quote behind it, so there is
none. -/
theorem Scans.closed_of_join {cs rest : List Char} {ps qs : List Piece}
    (h : Scans cs (ps ++ .plain '.' :: qs)) (hqs : qs.flatMap Piece.chars = rest)
    (hline : '\n' ∉ cs) (hmem : doubleQuote ∈ rest) : .plain doubleQuote ∉ ps := by
  intro hplain
  obtain ⟨before, after, rfl⟩ := List.append_of_mem hplain
  rw [List.append_assoc, List.cons_append] at h
  -- The scan passed this quote, though a second one follows behind the point.
  have hzero := h.of_append.quotedLength_eq_zero
  have hfree : '\n' ∉ (.plain doubleQuote :: (after ++ .plain '.' :: qs)).flatMap Piece.chars := by
    intro hc
    refine hline ?_
    rw [← h.chars_eq, List.flatMap_append]
    exact List.mem_append_right _ hc
  rw [List.flatMap_cons, List.flatMap_append, List.flatMap_cons, Piece.chars_plain,
    Piece.chars_plain, List.singleton_append, List.singleton_append, hqs] at hzero hfree
  refine (quotedLength_ne_zero_iff hfree).mpr ⟨[], _, .inr rfl, rfl, ?_⟩ hzero
  cases after.flatMap Piece.chars with
  | nil => exact hmem
  | cons d tail => exact List.mem_append_right _ (List.mem_cons_of_mem _ hmem)

/-! ### A prototype at the point -/

/-- Where quoted parts start with another character, a word that starts what `spell` makes of the
glyphs stands in their `leadingChars`. -/
theorem prefix_leadingChars_of_prefix_spell {word : List Char} {f : Nat → List Char}
    {gs : List Glyph} (hf : ∀ i ∈ indices gs, ∃ c tail, f i = c :: tail ∧ c ∉ word)
    (h : word <+: spell f gs) : word <+: leadingChars gs := by
  induction gs generalizing word with
  | nil => exact h
  | cons g gs ih =>
    cases word with
    | nil => exact List.nil_prefix
    | cons w word =>
      cases g with
      | char c =>
        rw [spell_char, List.cons_prefix_cons] at h
        refine List.cons_prefix_cons.mpr ⟨h.1, ih (fun i hi => ?_) h.2⟩
        obtain ⟨d, tail, htext, hd⟩ := hf i hi
        exact ⟨d, tail, htext, fun hmem => hd (List.mem_cons_of_mem w hmem)⟩
      | atom i =>
        -- A quoted part would start with a character of the word.
        obtain ⟨d, tail, htext, hd⟩ := hf i List.mem_cons_self
        rw [spell_atom, htext, List.cons_append, List.cons_prefix_cons] at h
        exact absurd (h.1 ▸ List.mem_cons_self) hd

/-- What is in `quotedParts` starts with a quote. -/
theorem exists_quote_of_mem_quotedParts {cs a : List Char} (ha : a ∈ quotedParts cs) :
    ∃ q, a = quote q := by
  -- By induction on the scan, whatever the number of the next part.
  have hall : ∀ {cs : List Char} {ps : List Piece}, Scans cs ps → ∀ i, a ∈ (mask i ps).2 →
      ∃ q, a = quote q := by
    intro cs ps h
    induction h with
    | nil => exact fun _ ha => absurd ha List.not_mem_nil
    | plain _ _ ih => exact ih
    | hit hs _ ih =>
      intro i ha
      rw [mask_snd_hit, hs.withoutBrackets_eq] at ha
      rcases List.mem_cons.mp ha with rfl | ha
      · exact ⟨_, rfl⟩
      · exact ih (i + 1) ha
  exact hall (scans_scan cs) 0 ha

/-- **A name behind the mark of a static member does not start with *prototype***: the point and the
name would have been shortened. -/
theorem not_prototype_of_cut {s : String} (hline : '\n' ∉ s.toList) (hbrace : '\x7b' ∉ s.toList)
    (hscope : (cut s).scope = some .static) (hvariation : (cut s).variation = none) :
    ¬"prototype".toList <+: (cut s).name.toList := by
  obtain ⟨o, hpath, hcut⟩ :=
    exists_outline (anchored_pathGlyphs s.toList) (newline_notMem_pathGlyphs hline)
  rw [hcut s hbrace rfl] at hscope hvariation ⊢
  have hplain : o.variation = none := Option.map_eq_none_iff.mp hvariation
  have hglyphs : pathGlyphs s.toList = o.owner ++ .char '.' :: o.name := by
    rw [← hpath, Outline.glyphs, Outline.last, hplain, show o.scope = some .static from hscope]
    simp [markChars, variationChars, Scope.mark]
  have hname : (o.parts fun i => (quotedParts s.toList).getD i []).name.toList =
      spell (fun i => (quotedParts s.toList).getD i []) o.name := String.toList_ofList
  have hpoint : prototypeText = '.' :: "prototype".toList := by decide
  intro hstart
  rw [hname] at hstart
  -- Point and name together would be a prototype, and shortened glyphs hold none.
  refine not_prototype_shortenGlyphs hglyphs ?_
  rw [hpoint, leadingChars]
  refine List.cons_prefix_cons.mpr ⟨rfl, ?_⟩
  refine prefix_leadingChars_of_prefix_spell (fun i hi => ?_) hstart
  -- A part of the name is one of the path.
  have hbound : i < (quotedParts s.toList).length := by
    have hmem : i ∈ indices (pathGlyphs s.toList) := by
      rw [hglyphs, indices_append]
      exact List.mem_append_right _ hi
    rwa [indices_pathGlyphs, List.mem_range] at hmem
  obtain ⟨q, hq⟩ := exists_quote_of_mem_quotedParts (List.getElem_mem hbound)
  refine ⟨doubleQuote, q ++ [doubleQuote], ?_, by decide⟩
  rw [List.getD_eq_getElem?_getD, List.getElem?_eq_getElem hbound, Option.getD_some, hq]
  rfl

/-! ### Cutting a joined path -/

/-- Whether a text stands on **one line**, without an opening brace and without a prototype. -/
structure PlainLine (text : String) : Prop where
  /-- There is no line feed. -/
  no_line : '\n' ∉ text.toList
  /-- There is no opening brace. -/
  no_brace : '\x7b' ∉ text.toList
  /-- There is no prototype. -/
  no_prototype : ¬prototypeText <:+: text.toList

/-- Whether an owner and a name **can be joined** by a point without either being changed. -/
structure Joinable (owner name : String) : Prop where
  /-- The owner is a path as a cut gives it back. -/
  owner_settled : (cut owner).longname = owner
  /-- The name is a path of one name, without a variation, as a cut gives it back. -/
  name_single : cut name = { longname := name, name := name }
  /-- The point and the name are not read as a prototype. -/
  not_prototype : ¬"prototype".toList <+: name.toList
  /-- No quote that is open in the owner is closed by the name. -/
  closed : doubleQuote ∈ name.toList → .plain doubleQuote ∉ scan quotedPart owner.toList

/-- The path of a static member: what stands between `owner` and `name` is a point. -/
def joined (owner name : String) : String :=
  String.ofList (owner.toList ++ '.' :: name.toList)

/-- The `Parts` of a static member. -/
def joinedParts (owner name : String) : Parts where
  longname := joined owner name
  memberof := owner
  scope := some .static
  name := name

theorem Parts.eq_of_fields {p q : Parts} (hlong : p.longname = q.longname)
    (hmemberof : p.memberof = q.memberof) (hscope : p.scope = q.scope) (hname : p.name = q.name)
    (hvariation : p.variation = q.variation) : p = q := by
  cases p
  cases q
  rw [Parts.mk.injEq]
  exact ⟨hlong, hmemberof, hscope, hname, hvariation⟩

section Join

variable {owner name : String} (howner : PlainLine owner) (hname : PlainLine name)
include howner hname

theorem newline_notMem_join : '\n' ∉ owner.toList ++ '.' :: name.toList := by
  simp [howner.no_line, hname.no_line]

theorem brace_notMem_join : '\x7b' ∉ owner.toList ++ '.' :: name.toList := by
  simp [howner.no_brace, hname.no_brace]

/-- **An owner and a name that are `Joinable` are cut apart again** by `cut`. -/
theorem cut_joined (h : Joinable owner name) :
    cut (joined owner name) = joinedParts owner name := by
  have hsettled := (longname_cut_eq_self_iff howner.no_brace howner.no_prototype).mp
    (by rw [String.ofList_toList]; exact h.owner_settled)
  have hsettled' := (longname_cut_eq_self_iff hname.no_brace hname.no_prototype).mp
    (by rw [String.ofList_toList, h.name_single])
  -- The cut of the name alone tells that it has neither a mark nor a variation.
  obtain ⟨before, scope, last, hmark⟩ := exists_lastMark (scan quotedPart name.toList)
  obtain ⟨-, hscope, hvariation, -⟩ :=
    cut_settled hname.no_line hname.no_brace hname.no_prototype hsettled' hmark
  rw [String.ofList_toList, h.name_single] at hscope hvariation
  obtain rfl := hscope
  obtain rfl := hmark.owner_eq_nil rfl
  obtain rfl : scan quotedPart name.toList = last := hmark.cut
  have hnone := hvariation.mp rfl
  -- So the point is the last mark of the joined path.
  have hscan := ((scans_scan owner.toList).join (scans_scan name.toList) howner.no_line
    hname.no_line h.closed).scan_eq
  have hjoin : LastMark (scan quotedPart (owner.toList ++ '.' :: name.toList))
      (scan quotedPart owner.toList) (some .static) (scan quotedPart name.toList) := by
    refine ⟨?_, (nomatch ·), hmark.markless⟩
    rw [hscan, List.append_assoc]
    rfl
  have hwhole : Settled true (scan quotedPart (owner.toList ++ '.' :: name.toList)) := by
    rw [hscan]
    exact (settled_append_mark (by decide)).mpr ⟨hsettled, hsettled'⟩
  have hprototype :=
    not_prototype_join howner.no_prototype hname.no_prototype h.not_prototype .static
  have hbrace := brace_notMem_join howner hname
  obtain ⟨hmemberof, hstatic, hvariation', hlast⟩ :=
    cut_settled (newline_notMem_join howner hname) hbrace hprototype hwhole hjoin
  have hlong := (longname_cut_eq_self_iff hbrace hprototype).mpr hwhole
  rw [flatMap_chars_scan, String.ofList_toList] at hmemberof hlast
  exact Parts.eq_of_fields hlong hmemberof hstatic (hlast hnone) (hvariation'.mpr hnone)

/-- **What a joined path tells about its sides**, if `cut` takes it apart at the point: they are
`Joinable`. -/
theorem joinable_of_cut (h : cut (joined owner name) = joinedParts owner name) :
    Joinable owner name := by
  have hline := newline_notMem_join howner hname
  have hbrace := brace_notMem_join howner hname
  have hstart : ¬"prototype".toList <+: name.toList := by
    have hnot := @not_prototype_of_cut (joined owner name) (by rwa [joined, String.toList_ofList])
      (by rwa [joined, String.toList_ofList]) (by rw [h]; rfl) (by rw [h]; rfl)
    rwa [h] at hnot
  have hprototype := not_prototype_join howner.no_prototype hname.no_prototype hstart .static
  have hsettled := (longname_cut_eq_self_iff hbrace hprototype).mp (congrArg Parts.longname h)
  obtain ⟨before, scope, last, hmark⟩ :=
    exists_lastMark (scan quotedPart (owner.toList ++ '.' :: name.toList))
  obtain ⟨hmemberof, hscope, hvariation, -⟩ := cut_settled hline hbrace hprototype hsettled hmark
  rw [show cut (String.ofList (owner.toList ++ '.' :: name.toList)) = joinedParts owner name from h]
    at hmemberof hscope hvariation
  obtain rfl : some Scope.static = scope := hscope
  have hnone : ¬HasVariation last := hvariation.mp rfl
  -- The last mark is the point, so the pieces before and behind it are those of the two sides.
  have hbefore : before.flatMap Piece.chars = owner.toList := by
    rw [← String.toList_ofList (l := before.flatMap Piece.chars), ← hmemberof]
    rfl
  have hcut : scan quotedPart (owner.toList ++ '.' :: name.toList) =
      before ++ .plain '.' :: last := by
    rw [hmark.cut, List.append_assoc]
    rfl
  have hscans := hcut ▸ scans_scan (owner.toList ++ '.' :: name.toList)
  have hlast : last.flatMap Piece.chars = name.toList := by
    have hchars := hscans.chars_eq
    rw [List.flatMap_append, List.flatMap_cons, hbefore] at hchars
    exact (List.cons.inj (List.append_cancel_left hchars)).2
  obtain rfl : scan quotedPart owner.toList = before := (hscans.of_join hbefore hline).scan_eq
  obtain rfl : scan quotedPart name.toList = last := by
    have hbehind : Scans (owner.toList ++ '.' :: name.toList)
        ((scan quotedPart owner.toList ++ [.plain '.']) ++ last) := by
      simpa using hscans
    rw [← hlast]
    exact hbehind.of_append.scan_eq
  -- A point frees the place behind it, so both sides are settled by themselves, and each is cut as
  -- it is.
  rw [hcut, settled_append_mark (by decide)] at hsettled
  have hsingle : LastMark (scan quotedPart name.toList) [] none (scan quotedPart name.toList) :=
    ⟨rfl, fun _ => rfl, hmark.markless⟩
  have hlong := (longname_cut_eq_self_iff howner.no_brace howner.no_prototype).mpr hsettled.1
  have hlong' := (longname_cut_eq_self_iff hname.no_brace hname.no_prototype).mpr hsettled.2
  obtain ⟨hmemberof', hscope', hvariation', hname'⟩ :=
    cut_settled hname.no_line hname.no_brace hname.no_prototype hsettled.2 hsingle
  rw [hlast] at hname'
  rw [String.ofList_toList] at hlong hlong' hmemberof' hscope' hvariation' hname'
  exact ⟨hlong,
    Parts.eq_of_fields hlong' hmemberof' hscope' (hname' hnone) (hvariation'.mpr hnone), hstart,
    hscans.closed_of_join hlast hline⟩

/-- **When an owner and a name can be joined.** On one line, without an opening brace and without a
prototype: the `cut` of the two with a point between them gives the owner, the name and the scope of
a static member exactly if the owner is settled, the name is a single settled name without a
variation, the point and the name make no prototype, and the name closes no quote that is open in
the owner. -/
theorem cut_joined_iff : cut (joined owner name) = joinedParts owner name ↔ Joinable owner name :=
  ⟨joinable_of_cut howner hname, cut_joined howner hname⟩

end Join

end DocComment.Namepath
