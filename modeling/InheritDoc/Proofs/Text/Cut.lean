import InheritDoc.Proofs.Text.Blank
import Mathlib.Data.List.Infix
import Mathlib.Data.List.TakeWhile

namespace InheritDoc.Text

/-!
# Cuts do not depend on what follows

A text is cut at the first occurrence of a mark.  What stands behind that occurrence has no say in
where it is.

* `cutAt_local`, `cutPast_local` : with another text behind the mark the cut is at the same place;
* `trimStart_local`    : likewise for the first character that is not blank;
* `prefix_of_notMem`   : what a text starts with is decided before a character that is not part of it;
* `cutPast_of_notOccurs` : a cut behind a text in which the mark does not occur.
-/

/-! ### Blanks -/

/-- Skipping blanks leaves a suffix. -/
theorem trimStart_suffix (cs : List Char) : trimStart cs <:+ cs :=
  List.dropWhile_suffix _

/-- Blanks are skipped up to the first other character, whatever follows it. -/
theorem trimStart_local {cs body : List Char} {c : Char} (h : trimStart cs = c :: body) :
    ∃ blanks, cs = blanks ++ c :: body ∧ isBlank c = false ∧
      ∀ body', trimStart (blanks ++ c :: body') = c :: body' := by
  have hskipped : cs.dropWhile isBlank = c :: body := h
  have hc : isBlank c = false := isBlank_head?_dropWhile (by rw [hskipped]; rfl)
  refine ⟨cs.takeWhile isBlank, ?_, hc, fun body' => ?_⟩
  · rw [← h, trimStart, List.takeWhile_append_dropWhile]
  · rw [trimStart, List.dropWhile_append_of_pos fun _ => List.mem_takeWhile_imp]
    simp [hc]

/-! ### Characters -/

/-- A character that is found is found, whatever follows it. -/
theorem cutAt_local {c : Char} {cs a b : List Char} (h : cutAt c cs = some (a, b)) (b' : List Char) :
    cutAt c (a ++ c :: b') = some (a, b') :=
  cutAt_append (notMem_of_cutAt h) b'

/-- What a text starts with is decided before a character that is not part of it. -/
theorem prefix_of_notMem {c : Char} {mark before rest : List Char} (hc : c ∉ mark)
    (h : mark <+: before ++ c :: rest) : mark <+: before := by
  rcases List.prefix_or_prefix_of_prefix h (List.prefix_append before (c :: rest)) with hle | hle
  · exact hle
  · obtain ⟨more, rfl⟩ := hle
    cases more with
    | nil => simp
    | cons d more =>
      rw [List.prefix_append_right_inj, List.cons_prefix_cons] at h
      obtain ⟨rfl, -⟩ := h
      simp at hc

/-! ### Marks -/

/-- A text that starts with the mark is cut right there. -/
theorem cutPast_mark (mark rest : List Char) : cutPast mark (mark ++ rest) = some ([], rest) := by
  cases htext : mark ++ rest with
  | nil =>
    obtain ⟨rfl, rfl⟩ := List.append_eq_nil_iff.mp htext
    rfl
  | cons x xs =>
    have hmark : mark.isPrefixOf (x :: xs) = true := by simp [← htext]
    rw [cutPast, if_pos hmark, ← htext, List.drop_left]

/-- Unfolding lemma: where the mark does not stand, the cut is further on. -/
theorem cutPast_cons {mark xs : List Char} {x : Char} (h : ¬ mark <+: x :: xs) :
    cutPast mark (x :: xs) = (cutPast mark xs).map fun (a, b) => (x :: a, b) := by
  rw [cutPast, if_neg (by simpa using h)]

/-- The cut is at the first occurrence. -/
theorem notMem_of_cutPast {c : Char} {cs a b : List Char} (h : cutPast [c] cs = some (a, b)) :
    c ∉ a := by
  induction cs generalizing a with
  | nil => simp [cutPast] at h
  | cons x xs ih =>
    by_cases hx : c = x
    · rw [hx, show x :: xs = [x] ++ xs from rfl, cutPast_mark] at h
      cases h
      exact List.not_mem_nil
    · rw [cutPast_cons (by simpa using hx)] at h
      obtain ⟨⟨a', _⟩, hcut, heq⟩ := Option.map_eq_some_iff.mp h
      cases heq
      exact List.not_mem_cons_of_ne_of_not_mem hx (ih hcut)

/-- A mark that is found is found, whatever follows it. -/
theorem cutPast_local {mark cs a b : List Char} (h : cutPast mark cs = some (a, b))
    (b' : List Char) : cutPast mark (a ++ mark ++ b') = some (a, b') := by
  induction cs generalizing a with
  | nil =>
    have htext := eq_append_of_cutPast h
    have hparts : a = [] ∧ mark = [] ∧ b = [] := by simpa [eq_comm] using htext
    rw [hparts.1, List.nil_append]
    exact cutPast_mark mark b'
  | cons x xs ih =>
    by_cases hmark : mark <+: x :: xs
    · rw [cutPast, if_pos (by simpa using hmark)] at h
      cases h
      exact cutPast_mark mark b'
    · rw [cutPast_cons hmark] at h
      obtain ⟨⟨a', b''⟩, hcut, heq⟩ := Option.map_eq_some_iff.mp h
      cases heq
      have htext := eq_append_of_cutPast hcut
      -- an occurrence further ahead would end before the one that was found
      have hnot : ¬ mark <+: x :: (a' ++ mark ++ b') := by
        intro hprefix
        have hlong : mark <+: x :: (a' ++ mark) := by
          have hpart : x :: (a' ++ mark) <+: x :: (a' ++ mark ++ b') := ⟨b', by simp⟩
          refine List.prefix_of_prefix_length_le hprefix hpart ?_
          simp only [List.length_cons, List.length_append]
          omega
        rw [htext] at hmark
        exact hmark (hlong.trans ⟨b, by simp⟩)
      rw [List.cons_append, List.cons_append, cutPast_cons hnot, ih hcut]
      rfl

/-- A mark does not start in a text in which it does not occur, and end behind it in the mark: the
    last character of the mark would occur before its end. -/
theorem not_prefix_of_notOccurs {init cs : List Char} {last : Char} (hlast : last ∉ init)
    (h : ¬ init ++ [last] <:+: cs) (hcs : cs ≠ []) (rest : List Char) :
    ¬ init ++ [last] <+: cs ++ (init ++ [last] ++ rest) := by
  intro hprefix
  rcases List.prefix_or_prefix_of_prefix hprefix (List.prefix_append _ _) with hle | ⟨more, hmore⟩
  · exact h hle.isInfix
  · rw [← hmore, List.prefix_append_right_inj, hmore] at hprefix
    -- the mark would start before the end of `cs` and reach into the mark behind it by `more`
    have hshort : more <+: init := by
      refine List.prefix_of_prefix_length_le hprefix ⟨[last] ++ rest, by simp⟩ ?_
      have hlength := congrArg List.length hmore
      have hpos := List.length_pos_iff.mpr hcs
      simp only [List.length_append, List.length_cons, List.length_nil] at hlength
      omega
    -- so the last character of `more`, which is that of the mark, would stand in `init`
    have hends := congrArg List.getLast? hmore
    rw [List.getLast?_append, List.getLast?_concat] at hends
    cases hmoreLast : more.getLast? with
    | none =>
      rw [List.getLast?_eq_none_iff] at hmoreLast
      rw [hmoreLast, List.append_nil] at hmore
      exact h ⟨[], [], by simp [hmore]⟩
    | some c =>
      rw [hmoreLast, Option.some_or, Option.some.injEq] at hends
      exact hlast (hends ▸ hshort.subset (List.mem_of_getLast? hmoreLast))

/-- A text in which the mark does not occur is cut off before the mark. -/
theorem cutPast_of_notOccurs {init cs : List Char} {last : Char} (hlast : last ∉ init)
    (h : ¬ init ++ [last] <:+: cs) (rest : List Char) :
    cutPast (init ++ [last]) (cs ++ (init ++ [last] ++ rest)) = some (cs, rest) := by
  induction cs with
  | nil => exact cutPast_mark _ rest
  | cons x xs ih =>
    have hnot := not_prefix_of_notOccurs hlast h (List.cons_ne_nil x xs) rest
    rw [List.cons_append] at hnot ⊢
    rw [cutPast_cons hnot, ih fun hoccurs => h (hoccurs.trans (List.suffix_cons x xs).isInfix)]
    rfl

/-- A text without the character is cut off before it. -/
theorem cutPast_append {c : Char} {cs : List Char} (h : c ∉ cs) (rest : List Char) :
    cutPast [c] (cs ++ c :: rest) = some (cs, rest) := by
  have hnot : ¬ [c] <:+: cs := by rwa [List.singleton_infix_iff]
  exact cutPast_of_notOccurs List.not_mem_nil hnot rest

end InheritDoc.Text
