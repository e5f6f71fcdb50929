import DocComment.Proofs.MaskedPath

/-!
# A cut loses nothing

A cut takes a path apart: owner, mark, name and variation. `cut_lossless` says that these four, put
together again, are the path in its normal form, for every path on one line without an opening
brace, however its quotes, brackets, parentheses and marks are nested or left open.

The argument is about glyphs. An `Outline` is a path taken apart as glyphs, and `exists_outline`
says that the glyphs of a path have one from which all parts of the cut are spelled. It rests on two
facts. A mark or a parenthesis of the masked text is a plain glyph, never inside a stand-in
(`exists_glyphs_of_spell_eq`), so no quoted part is cut through. And a quoted part is anchored: in
the last member it can only stand in front, so the variation holds none and needs no part put back
(`Anchored.indices_eq_nil`).
-/

namespace DocComment.Namepath

open DocComment.Text

/-! ### Cutting a text -/

theorem splitLast_eq_none {cs : List Char} (h : splitLast cs = none) :
    ∀ c ∈ cs, Scope.isMark c = false := by
  induction cs with
  | nil => simp
  | cons c cs ih =>
    rw [splitLast] at h
    split at h
    · cases h
    · next hrest =>
      refine List.forall_mem_cons.mpr ⟨?_, ih hrest⟩
      rw [Scope.isMark, Option.isSome_eq_false_iff, Option.isNone_iff_eq_none]
      simpa using h

/-- The mark at which `splitLast` cuts a text is its last. -/
theorem splitLast_eq_some {cs before after : List Char} {s : Scope}
    (h : splitLast cs = some (before, s, after)) :
    cs = before ++ s.mark :: after ∧ ∀ c ∈ after, Scope.isMark c = false := by
  induction cs generalizing before with
  | nil => simp [splitLast] at h
  | cons c cs ih =>
    rw [splitLast] at h
    split at h
    · next hrest =>
      cases h
      obtain ⟨hcs, hafter⟩ := ih hrest
      exact ⟨by rw [List.cons_append, ← hcs], hafter⟩
    · next hrest =>
      -- There is no mark further on, so this one is the last.
      obtain ⟨s', hmark, heq⟩ := Option.map_eq_some_iff.mp h
      cases heq
      exact ⟨by rw [Scope.eq_mark_of_ofMark? hmark, List.nil_append], splitLast_eq_none hrest⟩

/-- The two parts of `nameAndVariation?` make up the text with an opening parenthesis between
them. -/
theorem nameAndVariation?_eq_some {cs name variation : List Char}
    (h : nameAndVariation? cs = some (name, variation)) :
    cs = name ++ '(' :: variation ∧ name ≠ [] := by
  induction cs generalizing name with
  | nil => simp [nameAndVariation?] at h
  | cons c cs ih =>
    unfold nameAndVariation? at h
    split at h
    · cases h
    · split at h
      · next hrest =>
        cases h
        -- The parenthesis is further on, and this character belongs to the name.
        exact ⟨by rw [List.cons_append, ← (ih hrest).1], List.cons_ne_nil _ _⟩
      · split at h
        · split at h
          · cases h
            exact ⟨rfl, List.cons_ne_nil _ _⟩
          · cases h
        · cases h

/-- On one line, `findVariation?` looks for a name from the start on only. -/
theorem findVariation?_eq {cs : List Char} (h : '\n' ∉ cs) :
    findVariation? cs = nameAndVariation? cs := by
  induction cs with
  | nil => rfl
  | cons c cs ih =>
    rw [List.mem_cons, not_or] at h
    rw [findVariation?]
    split
    · next found hfound => rw [hfound]
    · next hnone =>
      -- What reads as a name and a variation further on would do so from here.
      rw [ih h.2, hnone]
      unfold nameAndVariation? at hnone
      rw [if_neg (by simpa using Ne.symm h.1)] at hnone
      cases hrest : nameAndVariation? cs with
      | none => rfl
      | some found => rw [hrest] at hnone; cases hnone

/-- **What `splitVariation?` splits off a last member on one line** stands in parentheses at its
end. -/
theorem splitVariation?_eq_some {cs name variation : List Char} (hline : '\n' ∉ cs)
    (h : splitVariation? cs = some (name, variation)) :
    cs = name ++ '(' :: (variation ++ [')']) ∧ name ≠ [] := by
  unfold splitVariation? at h
  split at h
  · next before hrev =>
    -- The closing parenthesis is the last character; a line feed behind it is ruled out.
    have hcs : cs = before.reverse ++ [')'] := by
      rw [← List.reverse_reverse cs, hrev, List.reverse_cons]
    have hbefore : '\n' ∉ before.reverse := by
      rw [hcs, List.mem_append, not_or] at hline
      exact hline.1
    rw [findVariation?_eq hbefore] at h
    obtain ⟨hname, hne⟩ := nameAndVariation?_eq_some h
    refine ⟨?_, hne⟩
    rw [hcs, hname, List.append_assoc, List.cons_append]
  · next before hrev =>
    have hmem : '\n' ∈ cs.reverse := by
      rw [hrev]
      exact List.mem_cons_self
    exact absurd (List.mem_reverse.mp hmem) hline
  · cases h

/-! ### Cutting glyphs -/

/-- **A character that is in no stand-in is a glyph of its own**: cutting the masked text there cuts
the glyphs. -/
theorem exists_glyphs_of_spell_eq {c : Char} (hc : ∀ i, c ∉ standIn i) {gs : List Glyph}
    {xs ys : List Char} (h : spell standIn gs = xs ++ c :: ys) :
    ∃ hs ts, gs = hs ++ .char c :: ts ∧ spell standIn hs = xs ∧ spell standIn ts = ys := by
  induction gs generalizing xs with
  | nil => simp at h
  | cons g gs ih =>
    cases g with
    | char d =>
      cases xs with
      | nil =>
        obtain ⟨rfl, rfl⟩ := List.cons.inj h
        exact ⟨[], gs, rfl, rfl, rfl⟩
      | cons x xs =>
        rw [spell_char, List.cons_append] at h
        obtain ⟨rfl, htail⟩ := List.cons.inj h
        obtain ⟨hs, ts, rfl, rfl, rfl⟩ := ih htail
        exact ⟨.char d :: hs, ts, rfl, rfl, rfl⟩
    | atom i =>
      rw [spell_atom] at h
      -- Is the cut behind the stand-in, or does it meet it?
      rcases List.append_eq_append_iff.mp h with ⟨zs, rfl, htail⟩ | ⟨zs, hstand, htail⟩
      · obtain ⟨hs, ts, rfl, rfl, rfl⟩ := ih htail
        exact ⟨.atom i :: hs, ts, rfl, rfl, rfl⟩
      · -- The cut would go through the stand-in, unless it is right behind it.
        cases zs with
        | nil =>
          rw [List.append_nil] at hstand
          obtain ⟨hs, ts, rfl, hxs, rfl⟩ := @ih [] htail.symm
          refine ⟨.atom i :: hs, ts, rfl, ?_, rfl⟩
          rw [spell_atom, hxs, hstand, List.append_nil]
        | cons z zs =>
          obtain ⟨rfl, -⟩ := List.cons.inj htail
          refine absurd ?_ (hc i)
          rw [hstand]
          exact List.mem_append_right _ List.mem_cons_self

/-- Where nothing is free, `Anchored` glyphs without a mark are plain. -/
theorem Anchored.indices_eq_nil {gs : List Glyph} (h : Anchored false gs)
    (hmark : ∀ c ∈ plainChars gs, Scope.isMark c = false) : indices gs = [] := by
  induction gs with
  | nil => rfl
  | cons g gs ih =>
    cases g with
    | char c =>
      obtain ⟨hc, hmark⟩ := List.forall_mem_cons.mp hmark
      rw [Anchored, hc] at h
      exact ih h hmark
    | atom i => exact absurd h.1 (by decide)

theorem mem_plainChars_iff {c : Char} {gs : List Glyph} :
    c ∈ plainChars gs ↔ .char c ∈ gs := by
  induction gs with
  | nil => simp [plainChars]
  | cons g gs ih => cases g <;> simp [plainChars, ih]

theorem mem_spell_of_mem_plainChars {f : Nat → List Char} {c : Char} {gs : List Glyph}
    (h : c ∈ plainChars gs) : c ∈ spell f gs :=
  List.mem_flatMap.mpr ⟨.char c, mem_plainChars_iff.mp h, List.mem_singleton.mpr rfl⟩

theorem notMem_spell {f : Nat → List Char} {c : Char} (hf : ∀ i, c ∉ f i) {gs : List Glyph}
    (h : c ∉ plainChars gs) : c ∉ spell f gs := by
  intro hmem
  obtain ⟨g, hg, hc⟩ := List.mem_flatMap.mp hmem
  cases g with
  | char d =>
    obtain rfl := List.mem_singleton.mp hc
    exact h (mem_plainChars_iff.mpr hg)
  | atom i => exact hf i hc

theorem eq_map_char_of_indices_eq_nil (f : Nat → List Char) {gs : List Glyph}
    (h : indices gs = []) : gs = (spell f gs).map .char := by
  induction gs with
  | nil => rfl
  | cons g gs ih =>
    cases g with
    | char c => rw [spell_char, List.map_cons, ← ih h]
    | atom i => cases h

/-! ### Outlines -/

/-- The mark of a `Scope`, if there is one. -/
def markChars : Option Scope → List Char
  | none => []
  | some s => [s.mark]

/-- A variation in its parentheses, if there is one; `none` is no text at all. -/
def variationChars : Option (List Char) → List Char
  | none => []
  | some v => '(' :: (v ++ [')'])

/-- An **outline**: a path taken apart as glyphs, at its last mark. -/
structure Outline where
  /-- The owner. -/
  owner : List Glyph
  /-- The scope that the mark tells. -/
  scope : Option Scope
  /-- The name. -/
  name : List Glyph
  /-- The variation, which holds no quoted part. -/
  variation : Option (List Char)
  /-- Without a mark there is no owner. -/
  owner_eq_nil : scope = none → owner = []
  /-- No mark stands behind the mark. -/
  no_mark : ∀ c ∈ plainChars name ++ variationChars variation, Scope.isMark c = false

namespace Outline

/-- The glyphs behind the mark: `name` and `variation`. -/
def last (o : Outline) : List Glyph :=
  o.name ++ (variationChars o.variation).map .char

/-- The glyphs of the whole path: `owner`, mark and `last`. -/
def glyphs (o : Outline) : List Glyph :=
  o.owner ++ (markChars o.scope).map .char ++ o.last

/-- The parts that an outline gives, where `f` gives the texts of the quoted parts. -/
def parts (o : Outline) (f : Nat → List Char) : Parts where
  longname := String.ofList (spell f o.glyphs)
  memberof := String.ofList (spell f o.owner)
  scope := o.scope
  name := String.ofList (spell f o.name)
  variation := o.variation.map String.ofList

end Outline

/-- The name and the variation of a last member, as `cut` takes them apart. -/
def nameParts (last : List Char) : List Char × Option (List Char) :=
  match splitVariation? last with
  | some (name, variation) => (name, some variation)
  | none => (last, none)

/-- Owner, scope and last member of a path, as `cut` takes them apart. -/
def ownerParts (path : List Char) : List Char × Option Scope × List Char :=
  match splitLast path with
  | some (before, scope, after) => (before, some scope, after)
  | none => ([], none, path)

/-- `cut` in three steps: the path is `masked` and taken apart twice, and then its quoted parts
return. -/
theorem cut_eq (longname : String) :
    cut longname =
      let path := (masked longname.toList).1
      let back := restoreFrom 0 (masked longname.toList).2
      { longname := String.ofList (back path)
        memberof := String.ofList (back (ownerParts path).1)
        scope := (ownerParts path).2.1
        name := String.ofList (back (nameParts (ownerParts path).2.2).1)
        variation := (nameParts (ownerParts path).2.2).2.map String.ofList } := by
  unfold cut ownerParts nameParts
  obtain ⟨path, atoms⟩ := masked longname.toList
  cases hlast : splitLast path with
  | none => cases hvariation : splitVariation? path <;> simp [hlast, hvariation]
  | some found => cases hvariation : splitVariation? found.2.2 <;> simp [hlast, hvariation]

/-- `cut` looks at nothing but the `masked` path. -/
theorem cut_congr {s t : String} (h : masked s.toList = masked t.toList) : cut s = cut t := by
  rw [cut_eq, cut_eq, h]

/-- The `ownerParts` of a path, taken apart as glyphs. -/
theorem exists_ownerParts (gs : List Glyph) :
    ∃ owner scope last, gs = owner ++ (markChars scope).map .char ++ last ∧
      ownerParts (spell standIn gs) = (spell standIn owner, scope, spell standIn last) ∧
      (scope = none → owner = []) ∧ ∀ c ∈ spell standIn last, Scope.isMark c = false := by
  unfold ownerParts
  cases hsplit : splitLast (spell standIn gs) with
  | none =>
    refine ⟨[], none, gs, rfl, rfl, fun _ => rfl, splitLast_eq_none hsplit⟩
  | some found =>
    obtain ⟨before, s, after⟩ := found
    obtain ⟨hspell, hafter⟩ := splitLast_eq_some hsplit
    obtain ⟨owner, last, rfl, rfl, rfl⟩ :=
      exists_glyphs_of_spell_eq (mark_notMem_standIn s) hspell
    refine ⟨owner, some s, last, ?_, rfl, (nomatch ·), hafter⟩
    rw [markChars, List.map_singleton, List.append_assoc, List.singleton_append]

/-- The `nameParts` of a last member, taken apart as glyphs. -/
theorem exists_nameParts {gs : List Glyph} (hanchored : Anchored true gs)
    (hmark : ∀ c ∈ spell standIn gs, Scope.isMark c = false)
    (hline : '\n' ∉ spell standIn gs) :
    ∃ name variation, gs = name ++ (variationChars variation).map .char ∧
      nameParts (spell standIn gs) = (spell standIn name, variation) := by
  unfold nameParts
  cases hsplit : splitVariation? (spell standIn gs) with
  | none => exact ⟨gs, none, by simp [variationChars], rfl⟩
  | some found =>
    obtain ⟨n, v⟩ := found
    obtain ⟨hspell, hne⟩ := splitVariation?_eq_some hline hsplit
    obtain ⟨name, rest, rfl, hname, hrest⟩ :=
      exists_glyphs_of_spell_eq (fun i => notMem_standIn i (by decide) (by decide)) hspell
    -- Behind the first glyph of the name no quoted part can be anchored.
    have hplain : indices rest = [] := by
      obtain ⟨g, name, rfl⟩ : ∃ g name', name = g :: name' := by
        refine List.exists_cons_of_ne_nil ?_
        rintro rfl
        exact hne hname.symm
      have htail : indices (name ++ .char '(' :: rest) = [] := by
        -- The last member holds no mark, so nothing behind its first glyph is free.
        refine Anchored.indices_eq_nil ?_ fun c hc => hmark c ?_
        · cases g with
          | char c =>
            have hc : Scope.isMark c = false := hmark c List.mem_cons_self
            rw [List.cons_append, Anchored, hc] at hanchored
            exact hanchored
          | atom i => exact hanchored.2
        · rw [List.cons_append]
          cases g with
          | char d => exact List.mem_cons_of_mem _ (mem_spell_of_mem_plainChars hc)
          | atom i => exact List.mem_append_right _ (mem_spell_of_mem_plainChars hc)
      simp only [indices_append, indices, List.append_eq_nil_iff] at htail
      exact htail.2
    refine ⟨name, some v, ?_, by rw [hname]⟩
    rw [eq_map_char_of_indices_eq_nil standIn hplain, hrest]
    rfl

/-- **`Anchored` glyphs on one line have an `Outline`**, and it gives the parts of every path with
these glyphs, whatever its quoted parts are. -/
theorem exists_outline {gs : List Glyph} (hanchored : Anchored true gs)
    (hline : '\n' ∉ plainChars gs) :
    ∃ o : Outline, o.glyphs = gs ∧
      ∀ s : String, '\x7b' ∉ s.toList → pathGlyphs s.toList = gs →
        cut s = o.parts fun i => (quotedParts s.toList).getD i [] := by
  obtain ⟨owner, scope, last, rfl, howner, hnil, hmark⟩ := exists_ownerParts gs
  have hlast : '\n' ∉ spell standIn last := by
    refine notMem_spell (fun i => notMem_standIn i (by decide) (by decide)) fun h => hline ?_
    rw [plainChars_append]
    exact List.mem_append_right _ h
  -- The path is taken apart twice, at its last mark and before its variation.
  obtain ⟨name, variation, rfl, hname⟩ := exists_nameParts hanchored.of_append hmark hlast
  have hplain : ∀ c ∈ plainChars name ++ variationChars variation, Scope.isMark c = false := by
    intro c hc
    refine hmark c (mem_spell_of_mem_plainChars ?_)
    rwa [plainChars_append, plainChars_map_char]
  refine ⟨⟨owner, scope, name, variation, hnil, hplain⟩, rfl, fun s hbrace hpath => ?_⟩
  -- Whole path, owner and name are stretches of the glyphs, so each gets its own quoted parts back.
  have hbefore : owner <:+: pathGlyphs s.toList :=
    ⟨[], _, by rw [hpath, List.nil_append, List.append_assoc]⟩
  have hbehind : name <:+: pathGlyphs s.toList :=
    ⟨_, _, by rw [hpath, List.append_assoc]⟩
  have hwhole := restoreFrom_stretch hbrace (List.infix_refl _)
  rw [cut_eq, masked_eq_spell hbrace]
  dsimp only
  rw [hpath] at hwhole ⊢
  rw [howner]
  dsimp only
  rw [hname]
  dsimp only
  rw [hwhole, restoreFrom_stretch hbrace hbefore, restoreFrom_stretch hbrace hbehind]
  rfl

theorem newline_notMem_pathGlyphs {cs : List Char} (h : '\n' ∉ cs) :
    '\n' ∉ plainChars (pathGlyphs cs) := by
  intro hmem
  rcases mem_plainChars_pathGlyphs hmem with hc | hc | hc
  · exact absurd hc (by decide)
  · exact absurd hc (by decide)
  · exact h hc

/-! ### What a cut gives -/

/-- A variation in its parentheses, as a text: `variationChars` of the parts. -/
def Parts.variationSuffix (p : Parts) : String :=
  match p.variation with
  | some v => "(" ++ v ++ ")"
  | none => ""

theorem Outline.scopeMark_parts (o : Outline) (f : Nat → List Char) :
    (o.parts f).scopeMark = String.ofList (markChars o.scope) := by
  unfold Parts.scopeMark Outline.parts markChars
  cases o.scope <;> rfl

theorem Outline.variationSuffix_parts (o : Outline) (f : Nat → List Char) :
    (o.parts f).variationSuffix = String.ofList (variationChars o.variation) := by
  unfold Parts.variationSuffix Outline.parts variationChars
  cases o.variation with
  | none => rfl
  | some v => simp [String.ext_iff]

theorem Outline.longname_parts (o : Outline) (f : Nat → List Char) :
    (o.parts f).longname =
      (o.parts f).memberof ++ (o.parts f).scopeMark ++ (o.parts f).name ++
        (o.parts f).variationSuffix := by
  rw [o.scopeMark_parts, o.variationSuffix_parts]
  simp [parts, glyphs, last, String.append_assoc]

/-- **A `cut` loses nothing.** For every path on one line without an opening brace, owner, mark,
name and variation make up the path in its normal form; the mark is one of the three or missing, and
without it there is no owner. -/
theorem cut_lossless (longname : String) (hline : '\n' ∉ longname.toList)
    (hbrace : '\x7b' ∉ longname.toList) :
    (cut longname).longname =
        (cut longname).memberof ++ (cut longname).scopeMark ++ (cut longname).name ++
          (cut longname).variationSuffix ∧
      (cut longname).scopeMark ∈ ["", ".", "~", "#"] ∧
      ((cut longname).scopeMark = "" → (cut longname).memberof = "") := by
  obtain ⟨o, hpath, hcut⟩ :=
    exists_outline (anchored_pathGlyphs _) (newline_notMem_pathGlyphs hline)
  rw [hcut longname hbrace rfl]
  refine ⟨?_, ?_, ?_⟩
  · exact o.longname_parts _
  · rw [o.scopeMark_parts]
    rcases o.scope with _ | _ | _ | _ <;> decide
  · intro h
    rw [o.scopeMark_parts] at h
    cases hscope : o.scope with
    | none => rw [Outline.parts, o.owner_eq_nil hscope]; rfl
    | some s => simp [hscope, markChars] at h

/-- A path with bracketed and bare quoted parts, an open quote, a `.prototype` and two variations in
a row. -/
theorem cut_lossless_nested :
    let path := "ns[\"a.b(1)\"].prototype.\"c~d\"[\"#e\"](x)(y\")"
    ('\n' ∉ path.toList ∧ '\x7b' ∉ path.toList) ∧
      (cut path).longname =
          (cut path).memberof ++ (cut path).scopeMark ++ (cut path).name ++
            (cut path).variationSuffix ∧
        (cut path).scopeMark ∈ ["", ".", "~", "#"] ∧
        ((cut path).scopeMark = "" → (cut path).memberof = "") :=
  ⟨by decide, cut_lossless _ (by decide) (by decide)⟩

example :
    cut "ns[\"a.b(1)\"].prototype.\"c~d\"[\"#e\"](x)(y\")" =
      { longname := "ns.\"a.b(1)\"#\"c~d\".\"#e\"(x)(y\")"
        memberof := "ns.\"a.b(1)\"#\"c~d\""
        scope := some .static
        name := "\"#e\"(x)"
        variation := some "y\"" } := by
  decide +kernel

end DocComment.Namepath
