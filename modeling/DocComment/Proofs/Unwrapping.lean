import DocComment.Comment.RawTag
import DocComment.Proofs.CommentFrame
import DocComment.Proofs.SolidText

/-!
# What unwrapping takes away

A body between delimiters, `wrapped k body m`, is unwrapped in four passes. The delimiters go
whatever their widths (`dropOpening_stars`, `markClosing_stars`), which leaves the body with the
mark behind it to the margin pass. If nothing stands between the delimiters, the opening one takes
all stars, and what is left is a slash.

What unwrapping keeps is said by `ink`, a text without its blanks and stars. The margin pass takes
blanks and stars away, and one more thing: the mark is text like any other, so a line of the body
that starts with it loses it (`ink_bareLine`). The pass is followed line by line
(`exists_substituteFrom_margin_body`), and `MarkAtEnd` says what becomes of the mark that was put
behind the body: it is left for the last pass, or it went with a margin.

Main statements: `ink_unwrap`, by which a body loses the marks at the starts of its lines and else
nothing but blanks and stars, and `unwrap_wrapped`, by which the numbers of stars do not matter.
-/

namespace DocComment.Comment

open DocComment.Text

/-! ### Delimiters of any width -/

/-- The comment around a body, with `k` stars in its opening and `m` stars in its closing
delimiter. -/
def wrapped (k : Nat) (body : String) (m : Nat) : String :=
  String.ofList
    ('/' :: (List.replicate k '*' ++ body.toList ++ List.replicate m '*' ++ ['/']))

/-- **A body between delimiters of any width** is left to `dropMargins`, with the `endMark` behind
it. -/
theorem unwrap_of_body {body : String} (hne : body ≠ "") (hfirst : body.toList.head? ≠ some '*')
    (hlast : body.toList.getLast? ≠ some '*') {k m : Nat} (hk : 2 ≤ k) (hm : 1 ≤ m) :
    unwrap (wrapped k body m) =
      String.ofList (dropEndMark (dropMargins (body.toList ++ endMark))) := by
  obtain ⟨k, rfl⟩ := Nat.exists_eq_add_of_le' hk
  obtain ⟨m, rfl⟩ := Nat.exists_eq_add_of_le' hm
  -- The body does not start with a star either, so the opening ends before it.
  have hhead : (body.toList ++ (List.replicate (m + 1) '*' ++ ['/'])).head? ≠ some '*' := by
    obtain ⟨c, rest, hbody⟩ := List.exists_cons_of_ne_nil (l := body.toList) (by simpa using hne)
    rw [hbody] at hfirst ⊢
    simpa using hfirst
  have hopen : dropOpening (wrapped (k + 2) body (m + 1)).toList =
      body.toList ++ List.replicate (m + 1) '*' ++ ['/'] ++ [] := by
    rw [wrapped, String.toList_ofList, List.append_assoc, List.append_assoc,
      dropOpening_stars k hhead]
    simp
  rw [unwrap, unwrapChars, hopen, markClosing_stars m hlast (List.forall_mem_nil _)]

/-- **Where nothing stands between the delimiters**, `unwrap` takes all stars for the opening one,
and the closing slash is left. -/
theorem unwrap_of_empty {k m : Nat} (hk : 2 ≤ k) : unwrap (wrapped k "" m) = "/" := by
  obtain ⟨k, rfl⟩ := Nat.exists_eq_add_of_le' hk
  have hopen : dropOpening (wrapped (k + 2) "" m).toList = ['/'] := by
    -- The stars of both delimiters are one run.
    have hstars := dropOpening_stars (k + m) (show ['/'].head? ≠ some '*' from by decide)
    rw [show k + m + 2 = k + 2 + m by omega, ← List.replicate_append_replicate] at hstars
    simpa [wrapped] using hstars
  rw [unwrap, unwrapChars, hopen]
  rfl

/-! ### What is left of a body -/

/-- A text **without blanks and stars**, to which `isBlank` and `*` do not matter. -/
def ink (cs : List Char) : List Char :=
  (solid cs).filter (· != '*')

@[simp] theorem ink_append (cs ds : List Char) : ink (cs ++ ds) = ink cs ++ ink ds := by
  simp [ink]

@[simp] theorem ink_newline (cs : List Char) : ink ('\n' :: cs) = ink cs := rfl

theorem ink_of_blank {cs : List Char} (h : ∀ c ∈ cs, isBlank c = true) : ink cs = [] := by
  rw [ink, solid_of_blank h]
  rfl

@[simp] theorem ink_dropWhile (cs : List Char) : ink (cs.dropWhile isBlank) = ink cs := by
  rw [ink, ink, solid_dropWhile]

theorem ink_reverse (cs : List Char) : ink cs.reverse = (ink cs).reverse := by
  rw [ink, ink, solid, solid, List.filter_reverse, List.filter_reverse]

/-- Whether a line starts, after blanks, with the `endMark`. -/
def startsWithMark (line : List Char) : Bool :=
  endMark.isPrefixOf (line.dropWhile isBlank)

/-- A line without the mark, if it has `startsWithMark`. -/
def withoutMark (line : List Char) : List Char :=
  if startsWithMark line then (line.dropWhile isBlank).drop endMark.length else line

/-- A line with `startsWithMark` has this much more `ink` than without the mark. -/
theorem ink_of_startsWithMark {line : List Char} (h : startsWithMark line = true) :
    ink line = endMark ++ ink (withoutMark line) := by
  obtain ⟨rest, hrest⟩ := List.isPrefixOf_iff_prefix.mp h
  rw [withoutMark, if_pos h, ← ink_dropWhile line, ← hrest, List.drop_left, ink_append]
  rfl

/-- A blank line has no `ink`, with its mark or without. -/
theorem ink_withoutMark_of_blank {w : List Char} (hw : ∀ b ∈ w, isBlank b = true) :
    ink (withoutMark w) = [] := by
  have hdrop : w.dropWhile isBlank = [] := by
    rw [← List.append_nil w, List.dropWhile_append_of_pos hw]
    rfl
  rw [withoutMark, startsWithMark, hdrop, if_neg (by decide), ink_of_blank hw]

/-- **A margin is blanks and a star, or the mark**: of all that goes with a margin, only the mark
has `ink`. -/
theorem ink_bareLine (line : List Char) : ink (bareLine line) = ink (withoutMark line) := by
  unfold bareLine
  cases hsign : sign? (line.dropWhile isBlank) with
  | none =>
    have hmark : ¬startsWithMark line = true :=
      List.find?_eq_none.mp hsign endMark (by simp [signs])
    rw [withoutMark, if_neg hmark]
    rfl
  | some s =>
    obtain ⟨hmem, rest, hrest⟩ := exists_of_sign? hsign
    have hmark : startsWithMark line = endMark.isPrefixOf (s ++ rest) := by
      rw [startsWithMark, hrest]
    -- The sign is the mark, or a star, and then the line does not start with the mark.
    have hkind : s = endMark ∨ ink s = [] ∧ endMark.isPrefixOf (s ++ rest) = false := by
      simp only [signs, List.mem_cons, List.not_mem_nil, or_false] at hmem
      rcases hmem with rfl | rfl | rfl
      · exact .inr ⟨rfl, rfl⟩
      · exact .inr ⟨rfl, rfl⟩
      · exact .inl rfl
    rw [Option.elim_some, hrest, List.drop_left]
    rcases hkind with rfl | ⟨hstar, hplain⟩
    · rw [withoutMark, if_pos (by rw [hmark]; rfl), hrest, List.drop_left]
    · rw [withoutMark, if_neg (by simp [hmark, hplain]), ← ink_dropWhile line, hrest, ink_append,
        hstar,
        List.nil_append]

/-- What `dropMargins` leaves of a body and the `endMark` behind it: either the mark is left too, at
the end, or what is left is empty or ends in a line feed. -/
def MarkAtEnd (ys left : List Char) : Prop :=
  left = ys ++ endMark ∨ left = ys ∧ ∀ d ∈ ys.getLast?, d = '\n'

/-- For `MarkAtEnd`, more text in front makes no difference, if it ends in a line feed. -/
theorem MarkAtEnd.append {xs ys left : List Char} (hxs : ∀ d ∈ xs.getLast?, d = '\n')
    (h : MarkAtEnd ys left) : MarkAtEnd (xs ++ ys) (xs ++ left) := by
  rcases h with rfl | ⟨rfl, hlast⟩
  · exact .inl (List.append_assoc _ _ _).symm
  · refine .inr ⟨rfl, fun d hd => ?_⟩
    rw [List.getLast?_append] at hd
    -- With nothing left behind, the last character is one of the text in front.
    cases hys : left.getLast? with
    | none =>
      rw [hys, Option.none_or] at hd
      exact hxs d hd
    | some e =>
      rw [hys, Option.some_or] at hd
      exact hlast d (hys ▸ hd)

/-- **The margin pass over a body and the mark behind it**: each line loses a mark that it starts
with, and else nothing but blanks and stars. -/
theorem exists_substituteFrom_margin_body (body : List Char) :
    ∀ before, startsLine before = true →
      ∃ ys, ink ys = ink ((body.splitOn '\n').flatMap withoutMark) ∧
        MarkAtEnd ys (substituteFrom margin (fun _ => []) before (body ++ endMark)) := by
  refine line_induct (P := fun body => ∀ before, startsLine before = true →
    ∃ ys, ink ys = ink ((body.splitOn '\n').flatMap withoutMark) ∧
      MarkAtEnd ys (substituteFrom margin (fun _ => []) before (body ++ endMark))) ?_ ?_ body
  · intro line hline before hbefore
    rw [List.splitOn_eq_singleton hline, List.flatMap_singleton]
    cases hblank : allBlank line with
    | true =>
      -- The mark is the sign of a margin, and all goes.
      have hw := List.all_eq_true.mp hblank
      rw [substituteFrom_margin_endMark hbefore hw]
      exact ⟨[], by rw [ink_withoutMark_of_blank hw]; rfl, .inr ⟨rfl, by simp⟩⟩
    | false =>
      obtain ⟨before', hinside, hleft⟩ := exists_substituteFrom_margin_solid hbefore hline hblank
        (show ∀ c ∈ endMark.head?, c ≠ ' ' ∧ c ≠ 'Z' by simp [endMark])
      -- Inside a line the mark is no margin, so it is left for the last pass.
      have hmark : substituteFrom margin (fun _ => []) before' (endMark ++ []) = endMark := by
        rw [substituteFrom_inside margin_of_inside hinside (by decide), substituteFrom_nil,
          List.append_nil]
      rw [List.append_nil] at hmark
      rw [hmark] at hleft
      exact ⟨bareLine line, ink_bareLine line, .inl hleft⟩
  · intro line rest hline ih before hbefore
    rw [splitOn_append_newline hline, List.flatMap_cons, List.append_assoc, List.cons_append]
    obtain ⟨ys, hys, hend⟩ := ih (some '\n') rfl
    cases hblank : allBlank line with
    | true =>
      have hw := List.all_eq_true.mp hblank
      obtain ⟨w', hw', hlast, hleft⟩ :=
        exists_substituteFrom_margin_blank hbefore hline hw (rest ++ endMark)
      refine ⟨w' ++ ys, ?_, ?_⟩
      · rw [ink_append, ink_append, ink_of_blank hw', ink_withoutMark_of_blank hw, hys]
      · rw [hleft]
        exact hend.append hlast
    | false =>
      obtain ⟨before', hinside, hleft⟩ := exists_substituteFrom_margin_solid hbefore hline hblank
        (show ∀ c ∈ ('\n' :: (rest ++ endMark)).head?, c ≠ ' ' ∧ c ≠ 'Z' by simp)
      rw [substituteFrom_miss (margin_of_inside _ _ hinside)] at hleft
      -- The line feed stays, so what is in front of the lines behind it ends in one.
      have hfeed : ∀ d ∈ (bareLine line ++ ['\n']).getLast?, d = '\n' := by simp
      refine ⟨bareLine line ++ '\n' :: ys, ?_, ?_⟩
      · rw [ink_append, ink_append, ink_bareLine, ink_newline, hys]
      · rw [hleft]
        simpa using hend.append hfeed

/-- **`dropEndMark` takes the mark at the end**, and blanks before it. -/
theorem ink_dropEndMark {ys left : List Char} (h : MarkAtEnd ys left) :
    ink (dropEndMark left) = ink ys := by
  rcases h with rfl | ⟨rfl, hlast⟩
  · have hdrop : dropEndMark (ys ++ endMark) = (ys.reverse.dropWhile isBlank).reverse := by
      simp [dropEndMark, endMark]
    rw [hdrop, ink_reverse, ink_dropWhile, ink_reverse, List.reverse_reverse]
  · have hsame : dropEndMark left = left := by
      unfold dropEndMark
      split
      · next rest hrest =>
        -- A mark that is dropped would be at the end, where there is a line feed.
        have hend : left.getLast? = some 'Z' := by
          rw [← List.head?_reverse, hrest, List.head?_cons]
        exact absurd (hlast 'Z' hend) (by decide)
      · rfl
    rw [hsame]

/-! ### Counting the marks -/

/-- Every line with `startsWithMark` loses two characters of `ink`. -/
theorem length_ink_withoutMark (rows : List (List Char)) :
    (ink (rows.flatMap withoutMark)).length + 2 * rows.countP startsWithMark =
      (ink rows.flatten).length := by
  induction rows with
  | nil => rfl
  | cons line rows ih =>
    -- One line at a time: the mark is two characters, and neither is blank.
    have hline : (ink (withoutMark line)).length + 2 * (if startsWithMark line then 1 else 0) =
        (ink line).length := by
      split
      · next hmark =>
        rw [ink_of_startsWithMark hmark, List.length_append]
        exact Nat.add_comm _ _
      · next hmark => rw [withoutMark, if_neg hmark, Nat.mul_zero, Nat.add_zero]
    rw [List.flatMap_cons, List.flatten_cons, ink_append, ink_append, List.length_append,
      List.length_append, List.countP_cons]
    omega

/-- The `ink` of a body can be read line by line. -/
theorem ink_flatten_splitOn (cs : List Char) : ink (cs.splitOn '\n').flatten = ink cs := by
  have hlines : solid (cs.splitOn '\n').flatten = (cs.splitOn '\n').flatMap solid := by
    rw [solid, List.filter_flatten, List.flatMap_def]
    rfl
  rw [ink, ink, hlines, ← solid_eq_flatMap_splitOn]

/-- **No `ink` is lost exactly when no line has `startsWithMark`.** -/
theorem ink_withoutMark_eq_iff (cs : List Char) :
    ink ((cs.splitOn '\n').flatMap withoutMark) = ink cs ↔
      ∀ line ∈ cs.splitOn '\n', startsWithMark line = false := by
  -- Each mark takes two characters away, so the length tells whether there was one.
  have hcount := length_ink_withoutMark (cs.splitOn '\n')
  rw [ink_flatten_splitOn] at hcount
  constructor
  · intro h line hline
    rw [h] at hcount
    have hnone : (cs.splitOn '\n').countP startsWithMark = 0 := by omega
    simpa using List.countP_eq_zero.mp hnone line hline
  · intro h
    have hlines : ∀ line ∈ cs.splitOn '\n', withoutMark line = line := by
      intro line hline
      rw [withoutMark, h line hline]
      rfl
    have hsame : (cs.splitOn '\n').flatMap withoutMark = (cs.splitOn '\n').flatten := by
      rw [List.flatMap_def, List.map_congr_left hlines, List.map_id']
    rw [hsame, ink_flatten_splitOn]

/-! ### Unwrapping -/

theorem wrapped_usual (body : String) : wrapped 2 body 1 = "/**" ++ body ++ "*/" := by
  rw [← String.toList_inj]
  simp [wrapped]

/-- **`unwrap` takes away delimiters, stars, blanks, and the mark at the start of lines.** For every
body that is not empty and neither starts nor ends with a star, what is left of the comment around
it is, up to stars and blanks, the body without the marks that its lines start with; so it is the
body exactly when no line of the body starts with the mark. -/
theorem ink_unwrap (body : String) (hne : body ≠ "") (hfirst : body.toList.head? ≠ some '*')
    (hlast : body.toList.getLast? ≠ some '*') :
    ink (unwrap ("/**" ++ body ++ "*/")).toList =
        ink ((body.toList.splitOn '\n').flatMap withoutMark) ∧
      (ink (unwrap ("/**" ++ body ++ "*/")).toList = ink body.toList ↔
        ∀ line ∈ body.toList.splitOn '\n', startsWithMark line = false) := by
  have hleft : ink (unwrap ("/**" ++ body ++ "*/")).toList =
      ink ((body.toList.splitOn '\n').flatMap withoutMark) := by
    obtain ⟨ys, hys, hend⟩ := exists_substituteFrom_margin_body body.toList none rfl
    rw [← wrapped_usual, unwrap_of_body hne hfirst hlast (Nat.le_refl 2) (Nat.le_refl 1),
      String.toList_ofList, dropMargins, substitute_eq_substituteFrom, ink_dropEndMark hend, hys]
  rw [hleft]
  exact ⟨rfl, ink_withoutMark_eq_iff body.toList⟩

/-- A body for `unwrap` with delimiters and marks inside its lines and at its end, stars of a
margin, blank lines. -/
theorem ink_unwrap_inside :
    let body := " a*/ \\Z\n\n * \\Zb /**\n \t\r\n*c\\ Z\\Z"
    body.toList.head? ≠ some '*' ∧ body.toList.getLast? ≠ some '*' ∧
      (∀ line ∈ body.toList.splitOn '\n', startsWithMark line = false) ∧
      ink (unwrap ("/**" ++ body ++ "*/")).toList = ink body.toList := by
  intro body
  have hfirst : body.toList.head? ≠ some '*' := by decide
  have hlast : body.toList.getLast? ≠ some '*' := by decide
  have hlines : ∀ line ∈ body.toList.splitOn '\n', startsWithMark line = false := by decide
  exact ⟨hfirst, hlast, hlines, (ink_unwrap body (by decide) hfirst hlast).2.mpr hlines⟩

/-- Text that spells the `endMark` at the start of a line is lost. -/
theorem ink_unwrap_mark :
    ink (unwrap ("/**" ++ "\\Za" ++ "*/")).toList = ['a'] ∧
      ink "\\Za".toList = ['\\', 'Z', 'a'] := by
  decide

/-- **The width of the delimiters does not matter.** Whatever the numbers of stars in the opening
and in the closing delimiter, `unwrap` makes the same text of a body that neither starts nor ends
with a star. A body of blanks is unwrapped to the empty text, and the comment has the description as
its only tag, without a text. Where there is no body at all, the closing slash is left over and
becomes the text of the description. -/
theorem unwrap_wrapped (k m : Nat) (hk : 2 ≤ k) (hm : 1 ≤ m) (body : String)
    (hfirst : body.toList.head? ≠ some '*') (hlast : body.toList.getLast? ≠ some '*') :
    unwrap (wrapped k body m) = unwrap (wrapped 2 body 1) ∧
      (body ≠ "" → allBlank body.toList = true →
        unwrap (wrapped k body m) = "" ∧
          RawTag.ofComment (wrapped k body m) = [⟨"description", none⟩]) ∧
      (body = "" →
        unwrap (wrapped k body m) = "/" ∧
          RawTag.ofComment (wrapped k body m) = [⟨"description", some "/"⟩]) := by
  by_cases hne : body = ""
  · subst hne
    rw [RawTag.ofComment, unwrap_of_empty hk, unwrap_of_empty (Nat.le_refl 2)]
    exact ⟨rfl, fun h => absurd rfl h, fun _ => ⟨rfl, by decide⟩⟩
  · have hbody := unwrap_of_body hne hfirst hlast hk hm
    refine ⟨?_, fun _ hblank => ?_, fun h => absurd h hne⟩
    · rw [hbody, unwrap_of_body hne hfirst hlast (Nat.le_refl 2) (Nat.le_refl 1)]
    · -- The mark is the sign of a margin, and the blanks are its indent.
      have hempty : unwrap (wrapped k body m) = "" := by
        rw [hbody, dropMargins, substitute_eq_substituteFrom,
          substituteFrom_margin_endMark rfl (List.all_eq_true.mp hblank)]
        rfl
      rw [RawTag.ofComment, hempty]
      exact ⟨rfl, by decide⟩

/-- A comment of blanks only, `wrapped` between wide delimiters. -/
theorem unwrap_wrapped_blank :
    2 ≤ 5 ∧ 1 ≤ 3 ∧ " \t\r\n\u00a0".toList.head? ≠ some '*' ∧
      " \t\r\n\u00a0".toList.getLast? ≠ some '*' ∧ allBlank " \t\r\n\u00a0".toList = true ∧
      unwrap (wrapped 5 " \t\r\n\u00a0" 3) = "" ∧
      RawTag.ofComment (wrapped 5 " \t\r\n\u00a0" 3) = [⟨"description", none⟩] := by
  have hfirst : " \t\r\n\u00a0".toList.head? ≠ some '*' := by decide
  have hlast : " \t\r\n\u00a0".toList.getLast? ≠ some '*' := by decide
  have hblank : allBlank " \t\r\n\u00a0".toList = true := by decide
  exact ⟨by decide, by decide, hfirst, hlast, hblank,
    (unwrap_wrapped 5 3 (by decide) (by decide) _ hfirst hlast).2.1 (by decide) hblank⟩

/-- Of a comment without a body, `unwrap` leaves the closing slash. -/
theorem unwrap_wrapped_empty :
    wrapped 2 "" 1 = "/***/" ∧ unwrap "/***/" = "/" ∧
      RawTag.ofComment "/***/" = [⟨"description", some "/"⟩] := by
  decide

end DocComment.Comment
