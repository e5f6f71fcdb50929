import DocComment.Namepath.Namespaced
import DocComment.Proofs.GlyphPasses
import DocComment.Proofs.PlainPath
import DocComment.Proofs.QuotedContents

/-!
# Names in quotes

A name of a kind with a name space goes in quotes if it holds a character that a path could not hold
plainly (`quotedName`). The quotes keep the name in one piece:

* a cut of the name alone finds no owner, whatever marks and parentheses stand between the quotes
  (`cut_quotedName`), so a name space goes in front of it (`withNamespace_quotedName`);
* different names are quoted differently (`quotedName_injective`).

Two things do not respect the quotes. A prototype is shortened inside them as anywhere else
(`shortenPrototypes_quotedName`). And when a member is cut off an owner such as `module:"x"`, a
point is put before the quoted part, because a colon is no mark (`cut_quoted_member`). So the owner
that is found is the one that was given exactly if the name needs no quotes (`ownerInSpace_eq_iff`).

The cuts are told by outlines: `cut_eq_parts` says that a path is cut along any outline that its
glyphs have, so that only the glyphs have to be worked out.
-/

namespace DocComment.Namepath

open DocComment.Text

/-! ### Cutting along an outline -/

/-- **`cut` goes along the `Outline` of a path.** Without a parenthesis in the name there is no
variation. -/
theorem cut_eq_parts {cs : List Char} (hbrace : '\x7b' ∉ cs) {o : Outline}
    (hpath : pathGlyphs cs = o.glyphs) (hvariation : o.variation = none)
    (hparenthesis : ')' ∉ plainChars o.name) (hline : '\n' ∉ plainChars o.name) :
    cut (String.ofList cs) = o.parts fun i => (quotedParts cs).getD i [] := by
  have hlast : o.last = o.name := by
    rw [Outline.last, hvariation, variationChars, List.map_nil, List.append_nil]
  have hmark : ∀ c ∈ spell standIn o.name, Scope.isMark c = false := by
    intro c hc
    rw [← Bool.not_eq_true]
    intro hmark
    obtain ⟨s, rfl⟩ := Scope.isMark_iff.mp hmark
    refine notMem_spell (mark_notMem_standIn s) (fun hplain => ?_) hc
    rw [o.no_mark _ (List.mem_append_left _ hplain)] at hmark
    cases hmark
  -- The mark of the outline is the last one of the masked text, as no stand-in holds a mark.
  have howner : ownerParts (spell standIn o.glyphs) =
      (spell standIn o.owner, o.scope, spell standIn o.name) := by
    rw [Outline.glyphs, hlast, ownerParts]
    cases hscope : o.scope with
    | none =>
      rw [o.owner_eq_nil hscope, markChars, List.map_nil, List.append_nil, List.nil_append,
        splitLast_eq_none_of_no_mark hmark]
      rfl
    | some s =>
      rw [markChars, List.map_singleton, List.append_assoc, spell_append, List.singleton_append,
        spell_char, splitLast_append hmark]
  have hname : nameParts (spell standIn o.name) = (spell standIn o.name, none) :=
    nameParts_of_notMem
      (notMem_spell (fun i => notMem_standIn i (by decide) (by decide)) hparenthesis)
      (notMem_spell (fun i => notMem_standIn i (by decide) (by decide)) hline)
  -- Whole path, owner and name are stretches of the glyphs, so each gets its own quoted parts back.
  have hbefore : o.owner <:+: pathGlyphs cs :=
    ⟨[], _, by rw [hpath, List.nil_append, Outline.glyphs, List.append_assoc]⟩
  have hbehind : o.name <:+: pathGlyphs cs :=
    ⟨_, [], by rw [hpath, List.append_nil, Outline.glyphs, hlast]⟩
  have hwhole := restoreFrom_stretch hbrace (List.infix_refl (pathGlyphs cs))
  rw [cut_eq, String.toList_ofList, masked_eq_spell hbrace]
  dsimp only
  rw [hpath] at hwhole ⊢
  rw [howner]
  dsimp only
  rw [hname]
  dsimp only
  rw [hwhole, restoreFrom_stretch hbrace hbefore, restoreFrom_stretch hbrace hbehind,
    Outline.parts, hvariation]

/-! ### Glyphs of a path with one quoted part -/

/-- `shortenGlyphs` leaves a run without a prototype alone, if no plain character follows it. -/
theorem shortenGlyphs_run {cs : List Char} (hcs : ¬prototypeText <:+: cs) {gs : List Glyph}
    (h : leadingChars gs = []) :
    shortenGlyphs (cs.map .char ++ gs) = cs.map .char ++ shortenGlyphs gs := by
  induction cs with
  | nil => rfl
  | cons c cs ih =>
    have hzero : prototypePart none (leadingChars (.char c :: (cs.map .char ++ gs))) = 0 := by
      rw [leadingChars, leadingChars_append, h, List.append_nil, prototypePart, if_neg]
      intro hstart
      exact hcs (List.isPrefixOf_iff_prefix.mp hstart).isInfix
    have htail := ih fun hpart => hcs (hpart.trans (List.suffix_cons c cs).isInfix)
    rw [List.map_cons, List.cons_append, shortenGlyphs, hzero, htail, List.cons_append]

/-! ### Cutting a path with one quoted part -/

section Quote

variable {q : List Char} (hq : Unquoted q) (hne : q ≠ [])
include hq hne

/-- The `pathGlyphs` of a path with one quoted part, before prototypes are shortened. -/
theorem pathGlyphs_quote {u v : List Char} (hu : Unquoted u) (hv : Unquoted v) :
    pathGlyphs (u ++ quote q ++ v) = shortenGlyphs (anchor true
        ((dropOpening u).map .char ++ .atom 0 :: (dropClosing v).map .char)) ∧
      quotedParts (u ++ quote q ++ v) = [quote q] ∧ '\x7b' ∉ u ++ quote q ++ v := by
  have hfills : Fills [u, v] [q] :=
    ⟨rfl, List.forall_mem_singleton.mpr hq, List.forall_mem_singleton.mpr hne⟩
  have hruns : ∀ w ∈ [u, v], Unquoted w :=
    List.forall_mem_cons.mpr ⟨hu, List.forall_mem_singleton.mpr hv⟩
  obtain ⟨hglyphs, hparts⟩ := pathGlyphs_weave hruns hfills
  exact ⟨hglyphs, hparts, brace_notMem_weave hruns hfills⟩

/-- **A `quote` is a path without an owner**, whatever stands between the quotes. -/
theorem cut_quote :
    cut (String.ofList (quote q)) =
      { longname := String.ofList (quote q), name := String.ofList (quote q) } := by
  obtain ⟨hglyphs, hparts, hbrace⟩ := pathGlyphs_quote hq hne (u := []) (v := []) (by decide)
    (by decide)
  rw [List.nil_append, List.append_nil] at hglyphs hparts hbrace
  -- The quoted part is all there is, and it is the name.
  let o : Outline :=
    { owner := []
      scope := none
      name := [.atom 0]
      variation := none
      owner_eq_nil := fun _ => rfl
      no_mark := by simp [plainChars, variationChars] }
  have hpath : pathGlyphs (quote q) = o.glyphs := by
    have hatom : shortenGlyphs [.atom 0] = [.atom 0] := by
      rw [shortenGlyphs_atom, shortenGlyphs]
    exact hglyphs.trans hatom
  rw [cut_eq_parts hbrace hpath rfl (by simp [o, plainChars]) (by simp [o, plainChars]), hparts]
  simp [Outline.parts, Outline.glyphs, Outline.last, o, markChars, variationChars]

section Scheme

variable {space name : List Char} (hspace : IsWord space) (hname : IsWord name)
  (hprototype : ¬"prototype".toList <+: name) (s : Scope)
include hspace hname hprototype

/-- The `pathGlyphs` of a member of a quoted owner behind a scheme. A point comes before the quoted
part: the colon of the scheme is no mark. -/
theorem pathGlyphs_quoted_member :
    pathGlyphs (space ++ [':'] ++ quote q ++ s.mark :: name) =
        (space ++ [':', '.']).map .char ++ .atom 0 :: (s.mark :: name).map .char ∧
      quotedParts (space ++ [':'] ++ quote q ++ s.mark :: name) = [quote q] ∧
      '\x7b' ∉ space ++ [':'] ++ quote q ++ s.mark :: name := by
  have hscheme : ∀ c, isWordChar c = false → c ≠ ':' → c ∉ space ++ [':'] := by
    intro c hword hcolon
    rw [List.mem_append, List.mem_singleton, not_or]
    exact ⟨hspace.notMem hword, hcolon⟩
  have hu : Unquoted (space ++ [':']) :=
    ⟨hscheme _ (by decide) (by decide), hscheme _ (by decide) (by decide),
      hscheme _ (by decide) (by decide)⟩
  have hv : Unquoted (s.mark :: name) :=
    ⟨hname.notMem_mark_cons (by decide) (by decide) s,
      hname.notMem_mark_cons (by decide) (by decide) s,
      hname.notMem_mark_cons (by decide) (by decide) s⟩
  obtain ⟨hglyphs, hparts, hbrace⟩ := pathGlyphs_quote hq hne hu hv
  refine ⟨?_, hparts, hbrace⟩
  -- Neither the scheme nor the member brings a bracket or a prototype.
  have hopening : dropOpening (space ++ [':']) = space ++ [':'] := by
    rw [dropOpening, List.getLast?_concat, if_neg (by decide)]
  have hclosing : dropClosing (s.mark :: name) = s.mark :: name := by
    rw [dropClosing, List.head?_cons, if_neg (by cases s <;> decide)]
  have hbefore : ¬prototypeText <:+: space ++ [':'] ++ ['.'] := by
    rw [← shortenPrototypes_eq_self_iff,
      shortenPrototypes_append_of_notMem (hscheme _ (by decide) (by decide))]
    rfl
  have hbehind : ¬prototypeText <:+: [] ++ s.mark :: name :=
    not_prototype_at_mark (by decide) hname hprototype s
  have hpoint : anchor (Scope.isMark ':') (.atom 0 :: (s.mark :: name).map .char) =
      .char '.' :: .atom 0 :: (s.mark :: name).map .char := by
    change .char '.' :: .atom 0 :: anchor false ((s.mark :: name).map .char) = _
    rw [anchor_map_char]
  have hglue : (space ++ [':']).map .char ++ .char '.' :: .atom 0 :: (s.mark :: name).map .char =
      (space ++ [':'] ++ ['.']).map .char ++ .atom 0 :: (s.mark :: name).map Glyph.char := by
    simp
  have hlast : shortenGlyphs ((s.mark :: name).map .char ++ []) = _ :=
    shortenGlyphs_run hbehind rfl
  rw [List.append_nil] at hlast
  rw [hglyphs, hopening, hclosing, anchor_run, hpoint, hglue, shortenGlyphs_run hbefore rfl,
    shortenGlyphs_atom, hlast]
  simp [shortenGlyphs]

/-- **Where `cut` takes a member off a quoted owner behind a scheme**, a point is put before the
quoted part. -/
theorem cut_quoted_member :
    cut (String.ofList (space ++ [':'] ++ quote q ++ s.mark :: name)) =
      { longname := String.ofList (space ++ [':', '.'] ++ quote q ++ s.mark :: name)
        memberof := String.ofList (space ++ [':', '.'] ++ quote q)
        scope := some s
        name := String.ofList name } := by
  obtain ⟨hglyphs, hparts, hbrace⟩ := pathGlyphs_quoted_member hq hne hspace hname hprototype s
  -- The quoted part and the point before it go to the owner, and the name is plain.
  let o : Outline :=
    { owner := (space ++ [':', '.']).map .char ++ [.atom 0]
      scope := some s
      name := name.map .char
      variation := none
      owner_eq_nil := fun h => absurd h (Option.some_ne_none s)
      no_mark := by
        rw [variationChars, List.append_nil, plainChars_map_char]
        exact hname.no_mark }
  have hpath : pathGlyphs (space ++ [':'] ++ quote q ++ s.mark :: name) = o.glyphs := by
    rw [hglyphs]
    simp [o, Outline.glyphs, Outline.last, markChars, variationChars]
  have hnotMem : ∀ c, isWordChar c = false → c ∉ plainChars o.name := by
    intro c hc
    rw [plainChars_map_char]
    exact hname.notMem hc
  have hcut := cut_eq_parts hbrace hpath rfl (hnotMem _ (by decide)) (hnotMem _ (by decide))
  rw [hparts] at hcut
  simpa [Outline.parts, Outline.glyphs, Outline.last, o, markChars, variationChars] using hcut

end Scheme

end Quote

/-! ### Names that need quotes -/

/-- A name **as it stands in a path**: in quotes, unless all its characters are safe (`isSafe`)
without. -/
def quotedName (name : String) : String :=
  if name.toList.all isSafe then name else String.ofList (quote name.toList)

/-- A name with every prototype in it shortened, by `shortenPrototypes`. -/
def shortenedName (name : String) : String :=
  String.ofList (shortenPrototypes name.toList)

theorem quotedName_of_safe {name : String} (h : name.toList.all isSafe = true) :
    quotedName name = name :=
  if_pos h

theorem quotedName_of_not_safe {name : String} (h : ¬name.toList.all isSafe = true) :
    quotedName name = String.ofList (quote name.toList) :=
  if_neg h

theorem notMem_of_safe {cs : List Char} (h : cs.all isSafe = true) {c : Char}
    (hc : isSafe c = false) : c ∉ cs := by
  intro hmem
  rw [List.all_eq_true.mp h c hmem] at hc
  cases hc

theorem isMark_of_isSafe {c : Char} (h : isSafe c = true) : Scope.isMark c = false := by
  rw [← Bool.not_eq_true]
  intro hmark
  obtain ⟨s, rfl⟩ := Scope.isMark_iff.mp hmark
  cases s <;> cases h

theorem isBlank_of_isSafe {c : Char} (h : isSafe c = true) : isBlank c = false := by
  by_cases hslash : c = '/'
  · rw [hslash]
    decide
  · refine isBlank_of_isWordChar ?_
    simp only [isSafe, isWordChar, Bool.or_eq_true, beq_iff_eq, hslash, or_false] at h ⊢
    rcases h with (h | h) | h
    · exact .inl (.inl (.inl h))
    · exact .inl (.inr h)
    · exact .inl (.inl (.inr h))

/-- `quoteUnsafe` quotes a name without a quote where a character is not safe, and only there. -/
theorem quoteUnsafe_eq {name : String} (h : doubleQuote ∉ name.toList) :
    quoteUnsafe name = quotedName name := by
  have hscheme : startsQuotedScheme name.toList = false := by
    unfold startsQuotedScheme
    dsimp only
    split
    · next scheme rest c tail hscheme hrest =>
      -- The quote behind the scheme would be one of the name.
      have hmem : c ∈ ':' :: c :: tail := List.mem_cons_of_mem _ List.mem_cons_self
      rw [← hrest] at hmem
      rw [beq_eq_false_iff_ne]
      rintro rfl
      exact h (List.mem_of_mem_drop hmem)
    · rfl
  have hany : name.toList.any (fun c => !isSafe c) = !name.toList.all isSafe := by
    rw [List.not_all_eq_any_not]
  unfold quoteUnsafe quotedName
  dsimp only
  rw [hscheme, Bool.not_false, Bool.and_true, hany]
  cases name.toList.all isSafe <;> rfl

/-- Different names without quotes have a different `quotedName`. -/
theorem quotedName_injective {a b : String} (ha : doubleQuote ∉ a.toList)
    (hb : doubleQuote ∉ b.toList) (h : quotedName a = quotedName b) : a = b := by
  -- A name that is not quoted does not start with a quote.
  have hmixed : ∀ {c d : String}, doubleQuote ∉ c.toList → c ≠ String.ofList (quote d.toList) := by
    rintro c d hc rfl
    rw [String.toList_ofList] at hc
    exact hc List.mem_cons_self
  unfold quotedName at h
  split at h <;> split at h
  · exact h
  · exact absurd h (hmixed ha)
  · exact absurd h.symm (hmixed hb)
  · rw [← String.toList_inj, String.toList_ofList, String.toList_ofList, quote, quote,
      List.cons.injEq] at h
    exact String.toList_inj.mp (List.append_cancel_right h.2)

/-- **`shortenPrototypes` shortens between quotes too.** -/
theorem shortenPrototypes_quotedName (name : String) :
    String.ofList (shortenPrototypes (quotedName name).toList) =
      quotedName (shortenedName name) := by
  by_cases hsafe : name.toList.all isSafe = true
  · -- Without a point there is nothing to shorten.
    have hsame : shortenPrototypes name.toList = name.toList := by
      have hpoint : '.' ∉ name.toList := notMem_of_safe hsafe (by decide)
      have hkept := shortenPrototypes_append_of_notMem hpoint []
      rwa [List.append_nil, shortenPrototypes_nil, List.append_nil] at hkept
    have hname : shortenedName name = name := by
      rw [shortenedName, hsame, String.ofList_toList]
    rw [hname, quotedName_of_safe hsafe, hsame, String.ofList_toList]
  · have hunsafe : ¬(shortenedName name).toList.all isSafe = true := by
      rw [shortenedName, String.toList_ofList]
      rcases shortenPrototypes_eq_or_mem name.toList with hsame | hmark
      · rwa [hsame]
      · -- The mark that shows is no safe character.
        intro hall
        exact notMem_of_safe hall (by decide) hmark
    have hquote : shortenPrototypes (quote name.toList) =
        quote (shortenPrototypes name.toList) := by
      rw [quote, shortenPrototypes_cons (prototypePart_of_ne (by decide) none _),
        shortenPrototypes_append_cons (by decide), shortenPrototypes_nil]
      rfl
    rw [quotedName_of_not_safe hsafe, quotedName_of_not_safe hunsafe, String.toList_ofList, hquote,
      shortenedName, String.toList_ofList]

theorem shortenedName_eq_self_iff {name : String} :
    shortenedName name = name ↔ ¬prototypeText <:+: name.toList := by
  rw [← shortenPrototypes_eq_self_iff, shortenedName, ← String.toList_inj, String.toList_ofList]

theorem unquoted_shortenedName {name : String} (h : Unquoted name.toList) :
    Unquoted (shortenedName name).toList := by
  have hnotMem : ∀ c, c ≠ '#' → c ∉ name.toList → c ∉ (shortenedName name).toList := by
    intro c hmark hc hmem
    rw [shortenedName, String.toList_ofList] at hmem
    exact (mem_shortenPrototypes hmem).elim hmark hc
  exact ⟨hnotMem _ (by decide) h.1, hnotMem _ (by decide) h.2.1, hnotMem _ (by decide) h.2.2⟩

/-- `withNamespace` puts a name space in front of a path that is one name without a scheme. -/
theorem withNamespace_of_cut {name : String} (hcut : cut name = { longname := name, name := name })
    (hne : name ≠ "") (hscheme : carriesScheme name.toList = false) (space : String) :
    withNamespace name space = space ++ ":" ++ name := by
  have hchars : name.toList ≠ [] := by
    simpa using hne
  have hwhole : nameAtEnd name.toList none (name.toList ++ []) = name.toList.length := by
    have hprefix : name.toList.isPrefixOf name.toList = true :=
      List.isPrefixOf_iff_prefix.mpr (List.prefix_refl _)
    rw [List.append_nil, nameAtEnd, hprefix, List.drop_length]
    rfl
  -- The whole path is the name at its end, so it is found at once and nothing is left.
  have hsubstitute := @substituteFrom_hit (nameAtEnd name.toList)
    (fun s => space.toList ++ ':' :: s)
    none name.toList [] hchars hwhole
  rw [List.append_nil, substituteFrom_nil, List.append_nil] at hsubstitute
  unfold withNamespace
  rw [hcut]
  dsimp only
  rw [hscheme, if_neg (by simpa using hne), substitute_eq_substituteFrom, hsubstitute,
    ← String.toList_inj]
  simp

/-- Without a colon there is no scheme for `carriesScheme` to find. -/
theorem carriesScheme_of_notMem {cs : List Char} (h : ':' ∉ cs) : carriesScheme cs = false := by
  unfold carriesScheme
  dsimp only
  split
  · next rest _ hrest =>
    have hmem : ':' ∈ ':' :: rest := List.mem_cons_self
    rw [← hrest] at hmem
    exact absurd (List.mem_of_mem_drop hmem) h
  · rfl

/-- A `quote` does not start with a letter, so it carries no scheme. -/
theorem carriesScheme_quote (q : List Char) : carriesScheme (quote q) = false := by
  have hletters : (quote q).takeWhile Char.isAlpha = [] := by
    rw [quote, List.takeWhile_cons_of_neg (by decide)]
  unfold carriesScheme
  dsimp only
  rw [hletters]

section Unquoted

variable {name : String} (hname : Unquoted name.toList) (hne : name ≠ "")
include hne

theorem quotedName_ne : quotedName name ≠ "" := by
  unfold quotedName
  split
  · exact hne
  · rw [ne_eq, ← String.toList_inj, String.toList_ofList]
    exact List.cons_ne_nil _ _

/-- A `quotedName` ends in a character that is neither a blank nor a mark. -/
theorem exists_quotedName_eq_concat :
    ∃ cs c, (quotedName name).toList = cs ++ [c] ∧ isBlank c = false ∧ Scope.isMark c = false := by
  by_cases hsafe : name.toList.all isSafe = true
  · rw [quotedName_of_safe hsafe]
    have hchars : name.toList ≠ [] := by
      simpa using hne
    refine ⟨_, _, (List.dropLast_concat_getLast hchars).symm, ?_⟩
    -- Without quotes the last character is a safe one.
    have hlast := List.all_eq_true.mp hsafe _ (List.getLast_mem hchars)
    generalize name.toList.getLast hchars = c at hlast
    exact ⟨isBlank_of_isSafe hlast, isMark_of_isSafe hlast⟩
  · rw [quotedName_of_not_safe hsafe, String.toList_ofList, quote, ← List.cons_append]
    exact ⟨_, _, rfl, by decide, by decide⟩

include hname

/-- **A `quotedName` is for `cut` a path without an owner.** -/
theorem cut_quotedName :
    cut (quotedName name) = { longname := quotedName name, name := quotedName name } := by
  by_cases hsafe : name.toList.all isSafe = true
  · rw [quotedName_of_safe hsafe]
    have hmark : ∀ c ∈ name.toList, Scope.isMark c = false := fun c hc =>
      isMark_of_isSafe (List.all_eq_true.mp hsafe c hc)
    have hcut := cut_of_no_mark hname.1 hname.2.1 hmark (notMem_of_safe hsafe (by decide)) hname.2.2
    rwa [String.ofList_toList] at hcut
  · rw [quotedName_of_not_safe hsafe]
    exact cut_quote hname (by simpa using hne)

/-- **`withNamespace` puts a name space in front of a `quotedName`.** -/
theorem withNamespace_quotedName (space : String) :
    withNamespace (quotedName name) space = space ++ ":" ++ quotedName name := by
  -- A colon in the name would have to stand in quotes.
  have hscheme : carriesScheme (quotedName name).toList = false := by
    by_cases hsafe : name.toList.all isSafe = true
    · rw [quotedName_of_safe hsafe]
      exact carriesScheme_of_notMem (notMem_of_safe hsafe (by decide))
    · rw [quotedName_of_not_safe hsafe, String.toList_ofList]
      exact carriesScheme_quote _
  exact withNamespace_of_cut (cut_quotedName hname hne) (quotedName_ne hne) hscheme space

end Unquoted

/-! ### Members of a name in a name space -/

/-- The owner that `cut` finds for a member of a name in a name space: it gets a point before its
quotes, if it has any. -/
def ownerInSpace (space name : String) : String :=
  if name.toList.all isSafe then space ++ ":" ++ name
  else space ++ ":." ++ String.ofList (quote name.toList)

/-- **The `ownerInSpace` is the owner that was given exactly if it has no quotes.** -/
theorem ownerInSpace_eq_iff {space name : String} :
    ownerInSpace space name = space ++ ":" ++ quotedName name ↔ name.toList.all isSafe = true := by
  unfold ownerInSpace quotedName
  split
  · next hsafe => exact iff_of_true rfl hsafe
  · next hunsafe =>
    refine iff_of_false ?_ hunsafe
    -- One has a point where the other has a quote.
    rw [← String.toList_inj]
    simp [quote, doubleQuote]

/-- **`cut` takes a member off its `ownerInSpace`**, for any name in a name space. -/
theorem cut_member_inSpace {space name : String} (hspace : IsWord space.toList)
    (hname : Unquoted name.toList) (hne : name ≠ "") {n : String} (hn : IsWord n.toList)
    (hprototype : ¬"prototype".toList <+: n.toList) (s : Scope) :
    cut (String.ofList ((space ++ ":" ++ quotedName name).toList ++ s.mark :: n.toList)) =
      { longname := ownerInSpace space name ++ String.ofList [s.mark] ++ n
        memberof := ownerInSpace space name
        scope := some s
        name := n } := by
  unfold ownerInSpace
  by_cases hsafe : name.toList.all isSafe = true
  · rw [if_pos hsafe, quotedName_of_safe hsafe]
    -- A safe name holds neither a point nor a quote, so it is cut like any plain path.
    have hnotMem : ∀ c, isWordChar c = false → c ≠ ':' → isSafe c = false →
        c ∉ (space ++ ":" ++ name).toList := by
      intro c hword hcolon hc
      simp only [String.toList_append, List.mem_append, not_or]
      exact ⟨⟨hspace.notMem hword, by simpa using hcolon⟩, notMem_of_safe hsafe hc⟩
    have hpoint : ¬prototypeText <:+: (space ++ ":" ++ name).toList := by
      intro hpart
      exact hnotMem '.' (by decide) (by decide) (by decide) (hpart.subset (by decide))
    rw [cut_at_mark (hnotMem _ (by decide) (by decide) (by decide))
      (hnotMem _ (by decide) (by decide) (by decide)) hpoint hn hprototype]
    simp [← String.toList_inj]
  · rw [if_neg hsafe, quotedName_of_not_safe hsafe]
    have hcut := cut_quoted_member hname (by simpa using hne) hspace hn hprototype s
    have hgiven : (space ++ ":" ++ String.ofList (quote name.toList)).toList ++ s.mark :: n.toList =
        space.toList ++ [':'] ++ quote name.toList ++ s.mark :: n.toList := by
      simp
    rw [hgiven, hcut]
    simp [← String.toList_inj]

end DocComment.Namepath
