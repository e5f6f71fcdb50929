import DocComment.Namepath.Namespaced
import DocComment.Proofs.Substitution

/-!
# Paths do not vanish

Cutting a path masks its quoted parts, drops doubled points and rewrites every `.prototype`, and a
name space may be put in front of its last member. None of this takes the last character of a path
away: each pass leaves at least one character of a text that has one, and the quoted parts, which
come back for their stand-ins, have at least their quotes.

* `longname_cut_ne` - the path of the parts of a path that is not empty;
* `withNamespace_ne` - the same path with a name space.
-/

namespace DocComment.Text

/-- `substitute` leaves something of a text, if the match at its start is not written away. -/
theorem substitute_ne_nil {width : Recogniser} {write : List Char → List Char} {cs : List Char}
    (hcs : cs ≠ [])
    (hwrite : ∀ n, width none cs = n + 1 → write (cs.take (n + 1)) ≠ []) :
    substitute width write cs ≠ [] := by
  obtain ⟨c, rest, rfl⟩ := List.exists_cons_of_ne_nil hcs
  rw [substitute_eq_substituteFrom]
  cases hwidth : width none (c :: rest) with
  | zero =>
    rw [substituteFrom_miss hwidth]
    exact List.cons_ne_nil _ _
  | succ n =>
    rw [substituteFrom, scanFrom_hit hwidth, List.flatMap_cons, Piece.rewrite_hit]
    exact List.append_ne_nil_of_left_ne_nil (hwrite n hwidth) _

/-- A `hit` is what the recogniser accepts at the place where it starts. -/
theorem exists_of_hit_mem_scanFrom {width : Recogniser} {s : List Char} {before : Option Char}
    {k : Nat} {cs : List Char} (h : .hit s ∈ scanFrom width before k cs) :
    ∃ before c rest n, width before (c :: rest) = n + 1 ∧ s = (c :: rest).take (n + 1) := by
  induction cs generalizing before k with
  | nil => simp at h
  | cons c rest ih =>
    cases k with
    | succ k => exact ih (scanFrom_succ width before k c rest ▸ h)
    | zero =>
      -- A place where nothing is recognised adds a plain character, which is no match.
      cases hwidth : width before (c :: rest) with
      | zero =>
        rw [scanFrom_miss hwidth, List.mem_cons] at h
        rcases h with h | h
        · cases h
        · exact ih h
      | succ n =>
        rw [scanFrom_hit hwidth, List.mem_cons] at h
        rcases h with h | h
        · exact ⟨before, c, rest, n, hwidth, Piece.hit.inj h⟩
        · exact ih h

theorem replaceFirst_ne_nil {word other cs : List Char} (hother : other ≠ []) (hcs : cs ≠ []) :
    replaceFirst word other cs ≠ [] := by
  obtain ⟨c, rest, rfl⟩ := List.exists_cons_of_ne_nil hcs
  rw [replaceFirst]
  split
  · exact List.append_ne_nil_of_left_ne_nil hother _
  · exact List.cons_ne_nil _ _

end DocComment.Text

namespace DocComment.Namepath

open DocComment.Text

/-! ### Quoted parts -/

/-- A quoted part has its opening quote, whatever brackets `withoutBrackets` takes off. -/
theorem withoutBrackets_ne_nil {c : Char} {rest : List Char} {n : Nat}
    (h : quotedLength (c :: rest) = n + 1) :
    withoutBrackets ((c :: rest).take (n + 1)) ≠ [] := by
  -- Behind the opening quote a bracket at the end may go, but the quote is no bracket.
  have hquote : ∀ xs : List Char,
      (if (doubleQuote :: xs).getLast? == some ']' then (doubleQuote :: xs).dropLast
        else doubleQuote :: xs) ≠ [] := by
    intro xs
    cases xs with
    | nil => decide
    | cons x xs => split <;> simp
  rw [quotedLength] at h
  split at h
  · next hc =>
    obtain rfl := eq_of_beq hc
    exact hquote (rest.take n)
  · split at h
    · next hbracket =>
      rw [Bool.and_eq_true, beq_iff_eq, beq_iff_eq] at hbracket
      obtain ⟨rfl, hhead⟩ := hbracket
      obtain ⟨tail, rfl⟩ := List.head?_eq_some_iff.mp hhead
      obtain ⟨m, rfl⟩ : ∃ m, n = m + 1 := by
        split at h
        · cases h
        · exact ⟨n - 1, by omega⟩
      exact hquote (tail.take m)
    · cases h

theorem exists_of_mem_mask {i : Nat} {ps : List Piece} {a : List Char} (h : a ∈ (mask i ps).2) :
    ∃ s, .hit s ∈ ps ∧ a = withoutBrackets s := by
  induction ps generalizing i with
  | nil => cases h
  | cons p ps ih =>
    cases p with
    | plain c =>
      obtain ⟨s, hs, ha⟩ := ih (i := i) h
      exact ⟨s, List.mem_cons_of_mem _ hs, ha⟩
    | hit s =>
      rcases List.mem_cons.mp h with rfl | h
      · exact ⟨s, List.mem_cons_self, rfl⟩
      · obtain ⟨s', hs', ha⟩ := ih (i := i + 1) h
        exact ⟨s', List.mem_cons_of_mem _ hs', ha⟩

theorem ne_nil_of_mem_atoms {cs a : List Char} (h : a ∈ (masked cs).2) : a ≠ [] := by
  have hmask : a ∈ (mask 0 (scan quotedPart cs)).2 := h
  obtain ⟨s, hs, rfl⟩ := exists_of_mem_mask hmask
  obtain ⟨before, c, rest, n, hwidth, rfl⟩ := exists_of_hit_mem_scanFrom hs
  exact withoutBrackets_ne_nil hwidth

theorem restoreFrom_ne_nil {i : Nat} {atoms : List (List Char)} (hatoms : ∀ a ∈ atoms, a ≠ [])
    {cs : List Char} (hcs : cs ≠ []) : restoreFrom i atoms cs ≠ [] := by
  induction atoms generalizing i with
  | nil => exact hcs
  | cons a atoms ih =>
    obtain ⟨ha, hatoms⟩ := List.forall_mem_cons.mp hatoms
    exact replaceFirst_ne_nil ha (ih hatoms)

/-! ### The passes -/

theorem shortenPrototypes_ne_nil {cs : List Char} (h : cs ≠ []) : shortenPrototypes cs ≠ [] :=
  substitute_ne_nil h fun _ _ => List.cons_ne_nil _ _

theorem mask_ne_nil {i : Nat} {ps : List Piece} (h : ps ≠ []) : (mask i ps).1 ≠ [] := by
  obtain ⟨p, ps, rfl⟩ := List.exists_cons_of_ne_nil h
  cases p <;> exact List.cons_ne_nil _ _

theorem two_le_pointBehindMark {cs : List Char} {n : Nat} (h : pointBehindMark cs = n + 1) :
    1 ≤ n ∧ 2 ≤ cs.length := by
  unfold pointBehindMark at h
  split at h
  · split at h
    · exact ⟨by omega, by simp⟩
    · cases h
  · cases h

/-- A match of `doubledPoint` reaches from a point through a stand-in. -/
theorem two_le_doubledPoint {cs : List Char} {n : Nat} (h : doubledPoint none cs = n + 1) :
    1 ≤ n ∧ 2 ≤ cs.length := by
  unfold doubledPoint at h
  split at h
  · next rest _ =>
    split at h
    · next hstandIn =>
      have hpos : standInLength rest ≠ 0 := by
        simpa using hstandIn
      -- A stand-in has at least one character behind the point.
      cases rest with
      | nil => exact absurd rfl hpos
      | cons d rest => exact ⟨by omega, by simp⟩
    · exact two_le_pointBehindMark h
  · exact two_le_pointBehindMark h

/-- Of two characters and more, `dropPoint` leaves one. -/
theorem dropPoint_ne_nil {cs : List Char} (h : 2 ≤ cs.length) : dropPoint cs ≠ [] := by
  unfold dropPoint
  split
  · exact List.cons_ne_nil _ _
  · rintro rfl
    simp at h
  · rintro rfl
    simp at h

theorem masked_ne_nil {cs : List Char} (h : cs ≠ []) : (masked cs).1 ≠ [] := by
  -- The pieces make up the text, so there are some; then no pass takes all of them.
  have hpieces : scan quotedPart cs ≠ [] := by
    intro hnil
    refine h ?_
    rw [← flatMap_chars_scan quotedPart cs, hnil]
    rfl
  refine shortenPrototypes_ne_nil (substitute_ne_nil (mask_ne_nil hpieces) fun n hn => ?_)
  obtain ⟨hn, hlength⟩ := two_le_doubledPoint hn
  refine dropPoint_ne_nil ?_
  rw [List.length_take]
  omega

/-- **`cut` leaves a path that is not empty** of one that is not empty. -/
theorem longname_cut_ne {s : String} (h : s ≠ "") : (cut s).longname ≠ "" := by
  have hchars : s.toList ≠ [] := by
    simpa using h
  have hpath : restoreFrom 0 (masked s.toList).2 (masked s.toList).1 ≠ [] :=
    restoreFrom_ne_nil (fun _ ha => ne_nil_of_mem_atoms ha) (masked_ne_nil hchars)
  intro hempty
  refine hpath ?_
  have hnil := congrArg String.toList hempty
  simpa [cut] using hnil

/-- **Neither does `withNamespace` make a path vanish.** -/
theorem withNamespace_ne {s : String} (h : s ≠ "") (space : String) :
    withNamespace s space ≠ "" := by
  have hpath := longname_cut_ne h
  unfold withNamespace
  dsimp only
  split
  · exact hpath
  · intro hempty
    have hnil := congrArg String.toList hempty
    rw [String.toList_ofList] at hnil
    exact substitute_ne_nil (by simpa using hpath) (fun _ _ => by simp) hnil

end DocComment.Namepath
