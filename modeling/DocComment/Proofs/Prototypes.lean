import DocComment.Proofs.MaskedPath

/-!
# Shortening prototypes

`shortenPrototypes` goes over a text once, from left to right: it writes every `.prototype`, with
the point behind it if there is one, as the mark of instance members, and keeps everything else.
What it does is told by two equations, `shortenPrototypes_cons` where no prototype starts and
`shortenPrototypes_prototype` where one does, and by the induction along them.

Three facts follow that speak of whole texts:

* `shortenPrototypes_append_cons` - a character that is in no prototype parts the text, and the
  two sides are shortened by themselves;
* `shortenPrototypes_eq_self_iff` - a text is left alone exactly if there is no prototype in it;
* `shortenPrototypes_eq_or_mem` - and otherwise the mark shows.
-/

namespace DocComment.Namepath

open DocComment.Text

/-! ### Along the text -/

theorem shortenPrototypes_eq_substituteFrom (before : Option Char) (cs : List Char) :
    shortenPrototypes cs = substituteFrom prototypePart (fun _ => ['#']) before cs := by
  rw [shortenPrototypes, substitute_eq_substituteFrom]
  exact substituteFrom_congr_before rfl

@[simp] theorem shortenPrototypes_nil : shortenPrototypes [] = [] := rfl

/-- Where `prototypePart` finds nothing, the next character stays. -/
theorem shortenPrototypes_cons {c : Char} {cs : List Char} (h : prototypePart none (c :: cs) = 0) :
    shortenPrototypes (c :: cs) = c :: shortenPrototypes cs := by
  rw [shortenPrototypes_eq_substituteFrom none, substituteFrom_miss h,
    ← shortenPrototypes_eq_substituteFrom]

/-- What `IsPrototype` becomes the mark of instance members. -/
theorem shortenPrototypes_prototype {xs ys : List Char} (hxs : IsPrototype xs)
    (h : prototypePart none (xs ++ ys) = xs.length) :
    shortenPrototypes (xs ++ ys) = '#' :: shortenPrototypes ys := by
  rw [shortenPrototypes_eq_substituteFrom none, substituteFrom_hit hxs.ne_nil h,
    ← shortenPrototypes_eq_substituteFrom, List.singleton_append]

/-- **Induction along the text**: a character at which no prototype starts stays, and a prototype
becomes a mark. -/
theorem shortenPrototypes_induct {P : List Char → List Char → Prop} (nil : P [] [])
    (miss : ∀ c cs, prototypePart none (c :: cs) = 0 → P cs (shortenPrototypes cs) →
      P (c :: cs) (c :: shortenPrototypes cs))
    (hit : ∀ xs ys, IsPrototype xs → prototypePart none (xs ++ ys) = xs.length →
      P ys (shortenPrototypes ys) → P (xs ++ ys) ('#' :: shortenPrototypes ys))
    (cs : List Char) : P cs (shortenPrototypes cs) := by
  obtain ⟨n, hn⟩ : ∃ n, cs.length = n := ⟨_, rfl⟩
  induction n using Nat.strongRecOn generalizing cs with
  | _ n ih =>
    cases cs with
    | nil => exact nil
    | cons c cs =>
      rcases prototypePart_cases none (c :: cs) with hzero | ⟨xs, ys, hcut, hxs, hlength⟩
      · rw [shortenPrototypes_cons hzero]
        exact miss c cs hzero (ih cs.length (by simp [← hn]) cs rfl)
      · -- The prototype is not empty, so what follows it is shorter.
        have hpos : 0 < xs.length := List.length_pos_iff.mpr hxs.ne_nil
        rw [hcut] at hn hlength ⊢
        rw [List.length_append] at hn
        rw [shortenPrototypes_prototype hxs hlength]
        exact hit xs ys hxs hlength (ih ys.length (by omega) ys rfl)

/-! ### Whole texts -/

/-- **A character that is not in `prototypeText` parts the text.** -/
theorem shortenPrototypes_append_cons {c : Char} (h : c ∉ prototypeText) (cs rest : List Char) :
    shortenPrototypes (cs ++ c :: rest) = shortenPrototypes cs ++ c :: shortenPrototypes rest := by
  refine shortenPrototypes_induct (P := fun cs short =>
    shortenPrototypes (cs ++ c :: rest) = short ++ c :: shortenPrototypes rest) ?_ ?_ ?_ cs
  · have hc : c ≠ '.' := by
      rintro rfl
      exact h (by decide)
    exact shortenPrototypes_cons (prototypePart_of_ne hc none rest)
  · intro d ds hzero ih
    -- A match cannot reach over the character, so it is one here or there.
    have hmiss : prototypePart none (d :: (ds ++ c :: rest)) = 0 := by
      rw [← List.cons_append, prototypePart_append_cons h, hzero]
    rw [List.cons_append, shortenPrototypes_cons hmiss, ih, List.cons_append]
  · intro xs ys hxs hlength ih
    have hhit : prototypePart none (xs ++ (ys ++ c :: rest)) = xs.length := by
      rw [← List.append_assoc, prototypePart_append_cons h, hlength]
    rw [List.append_assoc, shortenPrototypes_prototype hxs hhit, ih, List.cons_append]

/-- Without a point there is nothing for `shortenPrototypes` to shorten. -/
theorem shortenPrototypes_append_of_notMem {xs : List Char} (h : '.' ∉ xs) (rest : List Char) :
    shortenPrototypes (xs ++ rest) = xs ++ shortenPrototypes rest := by
  induction xs with
  | nil => rfl
  | cons x xs ih =>
    rw [List.mem_cons, not_or] at h
    rw [List.cons_append, shortenPrototypes_cons (prototypePart_of_ne (Ne.symm h.1) none _), ih h.2,
      List.cons_append]

/-- Where there is a `prototypeText`, the text gets shorter. -/
theorem length_shortenPrototypes (cs : List Char) :
    (shortenPrototypes cs).length ≤ cs.length ∧
      (prototypeText <:+: cs → (shortenPrototypes cs).length < cs.length) := by
  refine shortenPrototypes_induct (P := fun cs short => short.length ≤ cs.length ∧
    (prototypeText <:+: cs → short.length < cs.length)) ?_ ?_ ?_ cs
  · refine ⟨Nat.le_refl _, fun hpart => ?_⟩
    exact absurd (List.infix_nil.mp hpart) (by decide)
  · intro c cs hzero ih
    refine ⟨Nat.succ_le_succ ih.1, fun hpart => ?_⟩
    rcases List.infix_cons_iff.mp hpart with hprefix | hpart
    · -- No prototype starts here, for none was recognised.
      rw [prototypePart, if_pos (List.isPrefixOf_iff_prefix.mpr hprefix)] at hzero
      split at hzero <;> exact absurd hzero (by decide)
    · exact Nat.succ_lt_succ (ih.2 hpart)
  · intro xs ys hxs _ ih
    have htwo : 2 ≤ xs.length := by
      rcases hxs with rfl | rfl <;> decide
    have hlength := ih.1
    rw [List.length_append, List.length_cons]
    exact ⟨by omega, fun _ => by omega⟩

/-- `shortenPrototypes` leaves a text alone, or the mark of instance members shows in it. -/
theorem shortenPrototypes_eq_or_mem (cs : List Char) :
    shortenPrototypes cs = cs ∨ '#' ∈ shortenPrototypes cs := by
  refine shortenPrototypes_induct (P := fun cs short => short = cs ∨ '#' ∈ short) (.inl rfl)
    ?_ ?_ cs
  · intro c cs _ ih
    exact ih.imp (congrArg (c :: ·)) (List.mem_cons_of_mem c)
  · intro xs ys _ _ _
    exact .inr List.mem_cons_self

theorem shortenPrototypes_eq_self {cs : List Char} (h : ¬prototypeText <:+: cs) :
    shortenPrototypes cs = cs := by
  refine substitute_eq_self fun before c rest hsuffix => ?_
  rw [prototypePart, if_neg]
  intro hmatch
  exact h ((List.isPrefixOf_iff_prefix.mp hmatch).isInfix.trans hsuffix.isInfix)

/-- **A text is left alone exactly if there is no `prototypeText` in it.** -/
theorem shortenPrototypes_eq_self_iff {cs : List Char} :
    shortenPrototypes cs = cs ↔ ¬prototypeText <:+: cs := by
  refine ⟨fun hsame hpart => ?_, shortenPrototypes_eq_self⟩
  have hshorter := (length_shortenPrototypes cs).2 hpart
  rw [hsame] at hshorter
  exact absurd hshorter (Nat.lt_irrefl _)

/-- The characters that `shortenPrototypes` leaves are those of the text, or the mark. -/
theorem mem_shortenPrototypes {c : Char} {cs : List Char} (h : c ∈ shortenPrototypes cs) :
    c = '#' ∨ c ∈ cs := by
  rcases mem_of_mem_substitute h with hkept | ⟨_, hmark⟩
  · exact .inr hkept
  · exact .inl (List.mem_singleton.mp hmark)

end DocComment.Namepath
