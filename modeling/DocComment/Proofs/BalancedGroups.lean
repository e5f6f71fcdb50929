import DocComment.Proofs.TypeAlternatives

/-!
# The first balanced group of a text

A type in front of a text is found by going through the text with a counter that goes up at an
opening brace and down at a closing one, until it is back at zero. `peelTypes_firstGroup` says what
this finds, for every text: the shortest text in front of it, other than the empty one, that has as
many closing braces as opening ones. If there is none, the text has no types and stays as it is.

The counter is a natural number and the recursion has a case for each character, while the
statement speaks of numbers of braces in whole stretches of text. Two lemmas lead from the one to
the other, by induction along the text at every depth at once:

* `insideBraces_eq_some_iff` - the search stops at a brace that closes more than was opened, and it
  is the first one that does;
* `insideBraces_eq_none_iff` - the search goes through to the end exactly if no brace does.

What one character does to the counter is said once, in `insideBraces_step`. The two lemmas also
tell which texts are nested in braces: those that close as many as they open, and in which no
stretch at the start closes more than it opens (`nested_braces_of_count`).
-/

namespace DocComment.TypedValue

open DocComment.Text

/-! ### Counting braces -/

/-- How many braces a text opens. -/
def opened (cs : List Char) : Nat :=
  cs.count '\x7b'

/-- How many braces a text closes. -/
def closed (cs : List Char) : Nat :=
  cs.count '\x7d'

@[simp] theorem opened_nil : opened [] = 0 := rfl

@[simp] theorem closed_nil : closed [] = 0 := rfl

@[simp] theorem opened_append (cs ds : List Char) : opened (cs ++ ds) = opened cs + opened ds :=
  List.count_append

@[simp] theorem closed_append (cs ds : List Char) : closed (cs ++ ds) = closed cs + closed ds :=
  List.count_append

@[simp] theorem opened_open (cs : List Char) : opened ('\x7b' :: cs) = opened cs + 1 :=
  List.count_cons_self

@[simp] theorem closed_open (cs : List Char) : closed ('\x7b' :: cs) = closed cs :=
  List.count_cons_of_ne (by decide)

@[simp] theorem opened_close (cs : List Char) : opened ('\x7d' :: cs) = opened cs :=
  List.count_cons_of_ne (by decide)

@[simp] theorem closed_close (cs : List Char) : closed ('\x7d' :: cs) = closed cs + 1 :=
  List.count_cons_self

section Plain

variable {c : Char} (hc : isBracket braces c = false) (cs : List Char)
include hc

theorem opened_plain : opened (c :: cs) = opened cs :=
  List.count_cons_of_ne (ne_of_isBracket (by decide) hc).symm

theorem closed_plain : closed (c :: cs) = closed cs :=
  List.count_cons_of_ne (ne_of_isBracket (by decide) hc).symm

end Plain

/-- A character opens a brace, closes one, or is no bracket of `braces`. -/
theorem brace_cases (c : Char) : c = '\x7b' ∨ c = '\x7d' ∨ isBracket braces c = false := by
  by_cases hopen : c = '\x7b'
  · exact .inl hopen
  · by_cases hclose : c = '\x7d'
    · exact .inr (.inl hclose)
    · refine .inr (.inr ?_)
      simp [isBracket, braces, hopen, hclose]

/-! ### What the counter finds -/

/-- **One step of `insideBraces`.** It ends at a closing brace when nothing is open. At every other
character it goes on, at a depth that makes up for what the character opens or closes. -/
theorem insideBraces_step (depth : Nat) (c : Char) (cs : List Char) :
    depth = 0 ∧ c = '\x7d' ∨
      ∃ next, insideBraces depth (c :: cs) =
          ((insideBraces next cs).map fun r => (c :: r.1, r.2)) ∧
        (c = '\x7d' → depth ≠ 0) ∧
        ∀ q, closed (c :: q) + (next + opened q) = closed q + (depth + opened (c :: q)) := by
  rcases brace_cases c with rfl | rfl | hc
  · refine .inr ⟨depth + 1, insideBraces_open depth cs, fun h => absurd h (by decide), fun q => ?_⟩
    rw [closed_open, opened_open]
    -- An opening brace makes it one deeper, and counts once more.
    omega
  · cases depth with
    | zero => exact .inl ⟨rfl, rfl⟩
    | succ depth =>
      refine .inr ⟨depth, insideBraces_close depth cs, fun _ => Nat.succ_ne_zero depth, fun q => ?_⟩
      rw [closed_close, opened_close]
      omega
  · refine .inr ⟨depth, insideBraces_plain hc depth cs,
      fun h => absurd hc (by rw [h]; decide), fun q => ?_⟩
    rw [closed_plain hc, opened_plain hc]

/-- Whether no stretch at the start of a text closes more than `depth` braces beyond those that it
opens. -/
def StaysWithin (depth : Nat) (cs : List Char) : Prop :=
  ∀ q, q <+: cs → closed q ≤ depth + opened q

theorem staysWithin_nil (depth : Nat) : StaysWithin depth [] := by
  intro q hq
  rw [List.prefix_nil.mp hq]
  exact Nat.zero_le _

/-- At depth zero nothing may be closed: a brace that does is not `StaysWithin`. -/
theorem not_staysWithin_close (cs : List Char) : ¬StaysWithin 0 ('\x7d' :: cs) := by
  intro h
  have hfirst := h ['\x7d'] ⟨cs, rfl⟩
  rw [closed_close, opened_close] at hfirst
  exact absurd hfirst (by decide)

/-- What is allowed behind a character follows from what the character opens or closes. -/
theorem staysWithin_cons {depth next : Nat} {c : Char}
    (h : ∀ q, closed (c :: q) + (next + opened q) = closed q + (depth + opened (c :: q)))
    {cs : List Char} : StaysWithin depth (c :: cs) ↔ StaysWithin next cs := by
  constructor
  · intro hstays q hq
    -- A bound for every prefix; the one character moves between the sides.
    have hbound := hstays (c :: q) (List.cons_prefix_cons.mpr ⟨rfl, hq⟩)
    have hstep := h q
    omega
  · intro hstays q hq
    cases q with
    | nil => exact Nat.zero_le _
    | cons b q =>
      obtain ⟨rfl, hrest⟩ := List.cons_prefix_cons.mp hq
      have hbound := hstays q hrest
      have hstep := h q
      omega

/-- Whether `inner` stands before the first brace of `cs` that closes more than was open at the
start of `cs`, and `rest` behind it. -/
structure StopsAt (depth : Nat) (cs inner rest : List Char) : Prop where
  /-- The brace stands between the two. -/
  cut : cs = inner ++ '\x7d' :: rest
  /-- No stretch in front of it closes more than is open. -/
  stays : StaysWithin depth inner
  /-- All that was open is closed before it. -/
  count : closed inner = depth + opened inner

/-- If the first character is not the brace, the place of `StopsAt` is found behind it. -/
theorem stopsAt_cons {depth next : Nat} {c : Char} (hgoes : c = '\x7d' → depth ≠ 0)
    (h : ∀ q, closed (c :: q) + (next + opened q) = closed q + (depth + opened (c :: q)))
    {cs inner rest : List Char} :
    StopsAt depth (c :: cs) inner rest ↔ ∃ tail, inner = c :: tail ∧ StopsAt next cs tail rest := by
  constructor
  · rintro ⟨hcut, hstays, hcount⟩
    cases inner with
    | nil =>
      -- Stopping right here needs a closing brace at depth zero.
      rw [closed_nil, opened_nil] at hcount
      exact absurd hcount.symm (hgoes (List.cons.inj hcut).1)
    | cons b tail =>
      obtain ⟨rfl, hrest⟩ := List.cons.inj hcut
      have hstep := h tail
      exact ⟨tail, rfl, hrest, (staysWithin_cons h).mp hstays, by omega⟩
  · rintro ⟨tail, rfl, hcut, hstays, hcount⟩
    have hstep := h tail
    exact ⟨by rw [hcut, List.cons_append], (staysWithin_cons h).mpr hstays, by omega⟩

/-- **`insideBraces` stops at the first brace that closes more than was opened.** -/
theorem insideBraces_eq_some_iff {depth : Nat} {cs inner rest : List Char} :
    insideBraces depth cs = some (inner, rest) ↔ StopsAt depth cs inner rest := by
  induction cs generalizing depth inner with
  | nil =>
    refine iff_of_false (Option.some_ne_none _).symm fun h => ?_
    exact absurd h.cut.symm (List.append_ne_nil_of_right_ne_nil _ (List.cons_ne_nil _ _))
  | cons c cs ih =>
    obtain ⟨rfl, rfl⟩ | ⟨next, hnext, hgoes, hstep⟩ := insideBraces_step depth c cs
    · -- Nothing is open, so this is the brace.
      have hfound : insideBraces 0 ('\x7d' :: cs) = some ([], cs) := rfl
      rw [hfound]
      constructor
      · intro heq
        cases heq
        exact ⟨rfl, staysWithin_nil 0, rfl⟩
      · rintro ⟨hcut, hstays, -⟩
        cases inner with
        | nil => rw [(List.cons.inj hcut).2]
        | cons b tail =>
          obtain ⟨rfl, -⟩ := List.cons.inj hcut
          exact absurd hstays (not_staysWithin_close tail)
    · -- The character is passed, and the depth behind it is `next`.
      rw [hnext, stopsAt_cons hgoes hstep, Option.map_eq_some_iff]
      constructor
      · rintro ⟨⟨tail, rest'⟩, hfound, heq⟩
        cases heq
        exact ⟨tail, rfl, ih.mp hfound⟩
      · rintro ⟨tail, rfl, hstops⟩
        exact ⟨(tail, rest), ih.mpr hstops, rfl⟩

/-- **`insideBraces` goes through to the end exactly if nothing closes more than is open.** -/
theorem insideBraces_eq_none_iff {depth : Nat} {cs : List Char} :
    insideBraces depth cs = none ↔ StaysWithin depth cs := by
  induction cs generalizing depth with
  | nil => exact iff_of_true rfl (staysWithin_nil depth)
  | cons c cs ih =>
    obtain ⟨rfl, rfl⟩ | ⟨next, hnext, -, hstep⟩ := insideBraces_step depth c cs
    · exact iff_of_false (Option.some_ne_none _) (not_staysWithin_close cs)
    · rw [hnext, Option.map_eq_none_iff, ih, staysWithin_cons hstep]

/-! ### Counting and nesting -/

/-- Behind a stretch that closes what it opens, the rest `StaysWithin` the same bounds. -/
theorem StaysWithin.of_append {cs ds : List Char} (h : StaysWithin 0 (cs ++ ds))
    (hcs : closed cs = opened cs) : StaysWithin 0 ds := by
  intro q hq
  obtain ⟨tail, rfl⟩ := hq
  have hall := h (cs ++ q) ⟨tail, List.append_assoc cs q tail⟩
  rw [closed_append, opened_append] at hall
  omega

/-- **A text is `Nested` in `braces`** if it closes as many as it opens, and no stretch at its start
closes more than it opens. -/
theorem nested_braces_of_count {cs : List Char} (hstays : StaysWithin 0 cs)
    (hcount : closed cs = opened cs) : Nested braces cs := by
  obtain ⟨n, hn⟩ : ∃ n, cs.length = n := ⟨_, rfl⟩
  -- A brace splits the text into what it encloses and what follows, and both are shorter.
  induction n using Nat.strongRecOn generalizing cs with
  | _ n ih =>
    cases cs with
    | nil => exact .nil
    | cons c cs =>
      rcases brace_cases c with rfl | rfl | hc
      · -- The brace is closed somewhere: behind it the text closes one more than it opens.
        rw [closed_open, opened_open] at hcount
        have hfound : insideBraces 0 cs ≠ none := by
          intro hnone
          have hwhole := insideBraces_eq_none_iff.mp hnone cs (List.prefix_refl cs)
          omega
        obtain ⟨⟨inner, rest⟩, hsome⟩ := Option.ne_none_iff_exists'.mp hfound
        obtain ⟨rfl, hinner, hbalanced⟩ := insideBraces_eq_some_iff.mp hsome
        rw [Nat.zero_add] at hbalanced
        rw [closed_append, opened_append, closed_close, opened_close] at hcount
        rw [List.length_cons, List.length_append, List.length_cons] at hn
        -- What is behind the pair starts at depth zero again.
        have hrest : StaysWithin 0 rest := by
          have hgroup : '\x7b' :: (inner ++ '\x7d' :: rest) =
              ('\x7b' :: (inner ++ ['\x7d'])) ++ rest := by simp
          rw [hgroup] at hstays
          refine hstays.of_append ?_
          rw [closed_open, opened_open, closed_append, opened_append, closed_close, opened_close,
            closed_nil, opened_nil]
          omega
        exact .group (List.mem_singleton.mpr rfl)
          (ih inner.length (by omega) hinner hbalanced rfl)
          (ih rest.length (by omega) hrest (by omega) rfl)
      · exact absurd hstays (not_staysWithin_close cs)
      · have hrest : StaysWithin 0 cs := by
          refine (staysWithin_cons fun q => ?_).mp hstays
          rw [closed_plain hc, opened_plain hc]
        rw [closed_plain hc, opened_plain hc] at hcount
        rw [List.length_cons] at hn
        exact .plain hc (ih cs.length (by omega) hrest hcount rfl)

/-! ### The first group -/

/-- Whether a text in front of another one is **balanced**: it is not empty, and has as many closing
braces as opening ones. -/
structure BalancedStart (q text : List Char) : Prop where
  /-- The text starts with it. -/
  starts : q <+: text
  /-- It is not empty. -/
  ne_nil : q ≠ []
  /-- It closes as many braces as it opens. -/
  balanced : closed q = opened q

/-- Whether `group` is the **first balanced group** of a text: the shortest balanced start. -/
structure IsFirstGroup (group text : List Char) : Prop where
  /-- It is a balanced start. -/
  start : BalancedStart group text
  /-- There is none that is shorter. -/
  shortest : ∀ q, BalancedStart q text → group.length ≤ q.length

/-- A `BalancedStart` has a brace in front that is closed behind it. -/
theorem exists_of_balancedStart {q cs : List Char} (h : BalancedStart q ('\x7b' :: cs)) :
    ∃ tail, q = '\x7b' :: tail ∧ tail <+: cs ∧ closed tail = opened tail + 1 := by
  obtain ⟨b, tail, rfl⟩ := List.exists_cons_of_ne_nil h.ne_nil
  obtain ⟨rfl, hprefix⟩ := List.cons_prefix_cons.mp h.starts
  have hcount := h.balanced
  rw [closed_open, opened_open] at hcount
  exact ⟨tail, rfl, hprefix, hcount⟩

/-- **What `insideBraces` finds is the first group.** -/
theorem isFirstGroup_of_insideBraces {cs inner rest : List Char}
    (h : insideBraces 0 cs = some (inner, rest)) :
    IsFirstGroup ('\x7b' :: (inner ++ ['\x7d'])) ('\x7b' :: cs) := by
  obtain ⟨rfl, hstays, hcount⟩ := insideBraces_eq_some_iff.mp h
  refine ⟨⟨⟨rest, by simp⟩, List.cons_ne_nil _ _, ?_⟩, fun q hq => ?_⟩
  · rw [closed_open, opened_open, closed_append, opened_append, closed_close, opened_close,
      closed_nil, opened_nil]
    omega
  · obtain ⟨tail, rfl, hprefix, hclosed⟩ := exists_of_balancedStart hq
    -- A shorter start would lie before the brace, where nothing closes more than is open.
    rcases List.prefix_or_prefix_of_prefix hprefix (List.prefix_append inner _) with hshort | hlong
    · have hbound := hstays tail hshort
      omega
    · obtain ⟨more, rfl⟩ := hlong
      cases more with
      | nil =>
        rw [List.append_nil] at hclosed
        omega
      | cons b more =>
        rw [List.length_cons, List.length_cons, List.length_append, List.length_append,
          List.length_singleton, List.length_cons]
        omega

/-- If `insideBraces` finds nothing, nothing is balanced. -/
theorem not_balancedStart_of_insideBraces {cs : List Char} (h : insideBraces 0 cs = none)
    (q : List Char) : ¬BalancedStart q ('\x7b' :: cs) := by
  intro hq
  obtain ⟨tail, -, hprefix, hclosed⟩ := exists_of_balancedStart hq
  have hbound := insideBraces_eq_none_iff.mp h tail hprefix
  omega

/-! ### The types of a group -/

/-- Whether `body` is `cs` **freed of one pair of parentheses**: what stands between them if they
are the first and the last character, and the whole text if they are not. -/
def FreedOfParens (cs body : List Char) : Prop :=
  cs = '(' :: (body ++ [')']) ∨ (∀ inside, cs ≠ '(' :: (inside ++ [')'])) ∧ body = cs

theorem freedOfParens_withoutParens (cs : List Char) : FreedOfParens cs (withoutParens cs) := by
  by_cases h : ∃ inside, cs = '(' :: (inside ++ [')'])
  · obtain ⟨inside, rfl⟩ := h
    rw [withoutParens_of_ends]
    exact .inl rfl
  · have hnot : ∀ inside, cs ≠ '(' :: (inside ++ [')']) := fun inside heq => h ⟨inside, heq⟩
    exact .inr ⟨hnot, withoutParens_of_not hnot⟩

/-- The pieces of a text between bars that are **not all blank**, trimmed. -/
def barred (body : List Char) : List (List Char) :=
  ((body.splitOn '|').filter fun piece => piece.any (!isBlank ·)).map trimChars

theorem trimChars_isEmpty (cs : List Char) : (!(trimChars cs).isEmpty) = cs.any (!isBlank ·) := by
  obtain ⟨before, after, hcs, hbefore, hafter⟩ := exists_trimChars cs
  rw [Bool.eq_iff_iff, List.any_eq_true]
  constructor
  · -- The first character that is left is no blank.
    intro hne
    obtain ⟨c, rest, htrim⟩ := List.exists_cons_of_ne_nil (by simpa using hne)
    refine ⟨c, ?_, ?_⟩
    · rw [hcs, htrim]
      simp
    · have hfirst := head?_stripChars_not isBlank cs c
      rw [show stripChars isBlank cs = c :: rest from htrim] at hfirst
      simpa using hfirst rfl
  · rintro ⟨c, hc, hblank⟩
    rw [hcs, List.mem_append, List.mem_append] at hc
    rcases hc with (hc | hc) | hc
    · rw [hbefore c hc] at hblank
      cases hblank
    · simpa using List.ne_nil_of_mem hc
    · rw [hafter c hc] at hblank
      cases hblank

theorem alternatives_eq_barred (inner : List Char) :
    alternatives inner = barred (withoutParens (trimChars inner)) := by
  rw [alternatives, barred, splitAt_eq_splitOn, List.filter_map]
  congr 2
  funext piece
  exact trimChars_isEmpty piece

/-! ### Peeling -/

/-- **`peelTypes` peels off the first balanced group.** A text that starts with an opening brace and
has a `BalancedStart` has a first group (`IsFirstGroup`). The group is a text nested in braces,
between two braces; what is left of the text is what follows the group, trimmed; and the types are
the pieces between bars (`barred`), the blank ones left out and the others trimmed, of what the
braces hold, trimmed and freed of one pair of parentheses. Every other text has no types and stays
as it is. -/
theorem peelTypes_firstGroup (text : List Char) :
    (text.head? = some '\x7b' ∧ (∃ q, BalancedStart q text) →
        ∃ group inner body rest, IsFirstGroup group text ∧ group = '\x7b' :: (inner ++ ['\x7d']) ∧
          Nested braces inner ∧ text = group ++ rest ∧ FreedOfParens (trimChars inner) body ∧
          peelTypes text = (barred body, trimChars rest)) ∧
      (¬(text.head? = some '\x7b' ∧ ∃ q, BalancedStart q text) → peelTypes text = ([], text)) := by
  by_cases hbrace : text.head? = some '\x7b'
  · obtain ⟨cs, rfl⟩ := List.head?_eq_some_iff.mp hbrace
    -- The search decides which of the two halves there is anything to say about.
    cases hinside : insideBraces 0 cs with
    | some found =>
      obtain ⟨inner, rest⟩ := found
      have hgroup := isFirstGroup_of_insideBraces hinside
      obtain ⟨hcut, hstays, hcount⟩ := insideBraces_eq_some_iff.mp hinside
      refine ⟨fun _ => ?_, fun hnone => absurd ⟨hbrace, _, hgroup.start⟩ hnone⟩
      refine ⟨_, inner, withoutParens (trimChars inner), rest, hgroup, rfl, ?_, ?_,
        freedOfParens_withoutParens _, ?_⟩
      · exact nested_braces_of_count hstays (by rw [hcount, Nat.zero_add])
      · rw [hcut]
        simp
      · simp only [peelTypes, hinside, alternatives_eq_barred]
    | none =>
      have hnone := not_balancedStart_of_insideBraces hinside
      refine ⟨fun h => absurd h.2.choose_spec (hnone _), fun _ => ?_⟩
      simp only [peelTypes, hinside]
  · exact ⟨fun h => absurd h.1 hbrace, fun _ => peelTypes_of_head_ne hbrace⟩

/-- A union with a record in it, and a brace behind it that belongs to the text: `peelTypes` stops
in time. -/
theorem peelTypes_firstGroup_record :
    BalancedStart "\x7b (a| \x7bb\x7d) \x7d".toList "\x7b (a| \x7bb\x7d) \x7d c\x7d".toList ∧
      peelTypes "\x7b (a| \x7bb\x7d) \x7d c\x7d".toList =
        (["a".toList, "\x7bb\x7d".toList], "c\x7d".toList) ∧
      ∃ group inner body rest,
        IsFirstGroup group "\x7b (a| \x7bb\x7d) \x7d c\x7d".toList ∧
          group = '\x7b' :: (inner ++ ['\x7d']) ∧ Nested braces inner ∧
          "\x7b (a| \x7bb\x7d) \x7d c\x7d".toList = group ++ rest ∧
          FreedOfParens (trimChars inner) body ∧
          peelTypes "\x7b (a| \x7bb\x7d) \x7d c\x7d".toList = (barred body, trimChars rest) := by
  have hstart : BalancedStart "\x7b (a| \x7bb\x7d) \x7d".toList
      "\x7b (a| \x7bb\x7d) \x7d c\x7d".toList :=
    ⟨⟨" c\x7d".toList, by decide⟩, by decide, by decide⟩
  exact ⟨hstart, by decide, (peelTypes_firstGroup _).1 ⟨by decide, _, hstart⟩⟩

-- A brace that nothing closes, and a text with another character in front, are left alone.
example : peelTypes "\x7ba \x7bb\x7d".toList = ([], "\x7ba \x7bb\x7d".toList) := by decide
example : peelTypes " \x7ba\x7d b".toList = ([], " \x7ba\x7d b".toList) := by decide

end DocComment.TypedValue
