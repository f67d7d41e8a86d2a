import InheritDoc.Text.Blank
import InheritDoc.Text.Cut
import Mathlib.Data.List.Basic
import Mathlib.Data.List.TakeDrop
import Mathlib.Data.List.TakeWhile

namespace InheritDoc.Text

/-!
# Blanks around a text and cuts in it

* `trim_of_ends`   : a text that neither starts nor ends with a blank stays as it is;
* `trim_surrounded` : blanks put around a text do not matter;
* `WithBlanks`     : a text with blanks put in anywhere;
* `cutAt_append`   : a cut at a character that stands nowhere before;
* `notMem_of_cutAt` : every cut is such a cut.
-/

/-- What is said of all characters of a text is decided by going through the text.  The priority
    keeps it from being decided for all characters that there are. -/
instance (priority := 2000) decidableForallMem (p : Char → Prop) [DecidablePred p]
    (cs : List Char) : Decidable (∀ c ∈ cs, p c) :=
  List.decidableBAll p cs

/-! ### Trimming -/

/-- Skipping blanks stops at a character that is none. -/
theorem isBlank_head?_dropWhile {cs : List Char} {c : Char} (h : c ∈ (cs.dropWhile isBlank).head?) :
    isBlank c = false := by
  have hstop := List.head?_dropWhile_not isBlank cs
  rw [Option.mem_def] at h
  rw [h] at hstop
  simpa using hstop

/-- A text that does not start with a blank keeps its start. -/
theorem trimStart_of_head {cs : List Char} (h : ∀ c ∈ cs.head?, isBlank c = false) :
    trimStart cs = cs := by
  cases cs with
  | nil => rfl
  | cons c cs =>
    have hc : isBlank c = false := h c rfl
    simp [trimStart, hc]

/-- A text that does not end with a blank keeps its end. -/
theorem trimEnd_of_last {cs : List Char} (h : ∀ c ∈ cs.getLast?, isBlank c = false) :
    trimEnd cs = cs := by
  have hstart : trimStart cs.reverse = cs.reverse :=
    trimStart_of_head (by simpa [List.head?_reverse] using h)
  rw [trimStart] at hstart
  rw [trimEnd, hstart, List.reverse_reverse]

/-- A text that neither starts nor ends with a blank stays as it is. -/
theorem trim_of_ends {cs : List Char} (hhead : ∀ c ∈ cs.head?, isBlank c = false)
    (hlast : ∀ c ∈ cs.getLast?, isBlank c = false) : trim cs = cs := by
  rw [trim, trimStart_of_head hhead, trimEnd_of_last hlast]

/-- A text without blanks stays as it is. -/
theorem trim_of_forall {cs : List Char} (h : ∀ c ∈ cs, isBlank c = false) : trim cs = cs :=
  trim_of_ends (fun c hc => h c (List.mem_of_mem_head? hc))
    (fun c hc => h c (List.mem_of_mem_getLast? hc))

/-- Blanks put around a text that neither starts nor ends with one are trimmed off. -/
theorem trim_surrounded {before cs after : List Char} (hbefore : ∀ c ∈ before, isBlank c = true)
    (hafter : ∀ c ∈ after, isBlank c = true) (hcs : cs ≠ [])
    (hhead : ∀ c ∈ cs.head?, isBlank c = false) (hlast : ∀ c ∈ cs.getLast?, isBlank c = false) :
    trim (before ++ cs ++ after) = cs := by
  have hstart : trimStart (before ++ cs ++ after) = cs ++ after := by
    rw [trimStart, List.append_assoc, List.dropWhile_append_of_pos hbefore]
    exact trimStart_of_head (by rwa [List.head?_append_of_ne_nil _ hcs])
  -- the end is trimmed from the other side, where the blanks put behind come first
  have hend : trimEnd (cs ++ after) = trimEnd cs := by
    rw [trimEnd, trimEnd, List.reverse_append, List.dropWhile_append_of_pos (by simpa using hafter)]
  rw [trim, hstart, hend, trimEnd_of_last hlast]

/-! ### Blanks inside -/

/-- The second text is the first one with blanks put in anywhere. -/
inductive WithBlanks : List Char → List Char → Prop
  | nil : WithBlanks [] []
  | blank {c : Char} {cs ds : List Char} (hc : isBlank c = true) (h : WithBlanks cs ds) :
      WithBlanks cs (c :: ds)
  | char {c : Char} {cs ds : List Char} (h : WithBlanks cs ds) : WithBlanks (c :: cs) (c :: ds)

/-- No blank need be put in. -/
theorem WithBlanks.refl (cs : List Char) : WithBlanks cs cs := by
  induction cs with
  | nil => exact .nil
  | cons c cs ih => exact .char ih

/-- A text is made of its other characters by putting in its blanks. -/
theorem withBlanks_filter (cs : List Char) : WithBlanks (cs.filter (!isBlank ·)) cs := by
  induction cs with
  | nil => exact .nil
  | cons c cs ih =>
    cases hc : isBlank c with
    | true => simpa [List.filter_cons, hc] using WithBlanks.blank hc ih
    | false => simpa [List.filter_cons, hc] using WithBlanks.char ih

/-! ### Cuts -/

/-- There is no cut where the character does not stand. -/
theorem cutAt_of_notMem {c : Char} {cs : List Char} (h : c ∉ cs) : cutAt c cs = none := by
  induction cs with
  | nil => rfl
  | cons d cs ih =>
    rw [List.mem_cons, not_or] at h
    rw [cutAt, if_neg (Ne.symm h.1), ih h.2, Option.map_none]

/-- A text without the character is what stands before the cut. -/
theorem cutAt_append {c : Char} {cs : List Char} (h : c ∉ cs) (ds : List Char) :
    cutAt c (cs ++ c :: ds) = some (cs, ds) := by
  induction cs with
  | nil => simp [cutAt]
  | cons d cs ih =>
    rw [List.mem_cons, not_or] at h
    rw [List.cons_append, cutAt, if_neg (Ne.symm h.1), ih h.2, Option.map_some]

/-- A text can be cut at exactly the characters that stand in it. -/
theorem cutAt_eq_none {c : Char} {cs : List Char} : cutAt c cs = none ↔ c ∉ cs := by
  refine ⟨fun h hmem => ?_, cutAt_of_notMem⟩
  obtain ⟨before, after, rfl, hbefore⟩ := List.eq_append_cons_of_mem hmem
  rw [cutAt_append hbefore] at h
  cases h

/-- The cut is at the first occurrence. -/
theorem notMem_of_cutAt {c : Char} {cs a b : List Char} (h : cutAt c cs = some (a, b)) : c ∉ a := by
  have hmem : c ∈ cs := by simp [eq_append_of_cutAt h]
  obtain ⟨before, after, rfl, hbefore⟩ := List.eq_append_cons_of_mem hmem
  rw [cutAt_append hbefore] at h
  cases h
  exact hbefore

/-- A text is spanned by characters of one kind up to the first of another kind. -/
theorem span_append {p : Char → Bool} {cs ds : List Char} (hcs : ∀ c ∈ cs, p c = true)
    (hds : ∀ c ∈ ds.head?, p c = false) : (cs ++ ds).span p = (cs, ds) := by
  rw [List.span_eq_takeWhile_dropWhile, List.takeWhile_append_of_pos hcs,
    List.dropWhile_append_of_pos hcs]
  cases ds with
  | nil => simp
  | cons d ds =>
    have hd : p d = false := hds d rfl
    simp [hd]

/-- A text of one kind of characters is spanned to its end. -/
theorem span_of_forall {p : Char → Bool} {cs : List Char} (h : ∀ c ∈ cs, p c = true) :
    cs.span p = (cs, []) := by
  have hspan : (cs ++ []).span p = (cs, []) := span_append h (by simp)
  rwa [List.append_nil] at hspan

/-- The characters of a text without `c` are of the kind that spans up to `c`. -/
theorem bne_of_notMem {c : Char} {cs : List Char} (h : c ∉ cs) : ∀ d ∈ cs, (d != c) = true := by
  intro d hd
  rw [bne_iff_ne]
  rintro rfl
  exact h hd

/-- A text is spanned up to the first occurrence of a character. -/
theorem span_ne_eq {c : Char} {cs head tail : List Char} (h : cs.span (· != c) = (head, tail)) :
    cs = head ++ tail ∧ c ∉ head ∧ ∀ d ∈ tail.head?, d = c := by
  rw [List.span_eq_takeWhile_dropWhile] at h
  cases h
  refine ⟨List.takeWhile_append_dropWhile.symm, fun hmem => ?_, fun d hd => ?_⟩
  · simpa using List.mem_takeWhile_imp hmem
  · have hstop := List.head?_dropWhile_not (· != c) cs
    rw [Option.mem_def.mp hd] at hstop
    simpa using hstop

end InheritDoc.Text
