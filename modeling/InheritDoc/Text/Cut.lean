namespace InheritDoc.Text

/-!
# Cutting a text

* `cutAt`   : at the first occurrence of a character;
* `cutPast` : at the first occurrence of a piece of text.

Both return what stands before the occurrence and what stands after it.
-/

/-- Cut at the first `c`: what stands before it and what stands after it. -/
def cutAt (c : Char) : List Char → Option (List Char × List Char)
  | [] => none
  | x :: xs => if x = c then some ([], xs) else (cutAt c xs).map fun (a, b) => (x :: a, b)

/-- Cut at the first place where `mark` stands: what comes before it and what comes after it. -/
def cutPast (mark : List Char) : List Char → Option (List Char × List Char)
  | [] => if mark.isEmpty then some ([], []) else none
  | x :: xs =>
    if mark.isPrefixOf (x :: xs) then some ([], (x :: xs).drop mark.length)
    else (cutPast mark xs).map fun (a, b) => (x :: a, b)

/-- What follows `mark`, if the text starts with it. -/
def after? (mark : List Char) (cs : List Char) : Option (List Char) :=
  if mark.isPrefixOf cs then some (cs.drop mark.length) else none

/-- A cut leaves out the character and nothing else. -/
theorem eq_append_of_cutAt {c : Char} {cs a b : List Char} (h : cutAt c cs = some (a, b)) :
    cs = a ++ c :: b := by
  induction cs generalizing a with
  | nil => simp [cutAt] at h
  | cons x xs ih =>
    unfold cutAt at h
    split at h
    · simp_all
    · obtain ⟨⟨a', b'⟩, hcut, heq⟩ := Option.map_eq_some_iff.1 h
      simp only [Prod.mk.injEq] at heq
      obtain ⟨rfl, rfl⟩ := heq
      simp [ih hcut]

/-- A cut leaves out the mark and nothing else. -/
theorem eq_append_of_cutPast {mark cs a b : List Char} (h : cutPast mark cs = some (a, b)) :
    cs = a ++ mark ++ b := by
  induction cs generalizing a with
  | nil =>
    unfold cutPast at h
    split at h <;> simp_all
  | cons x xs ih =>
    unfold cutPast at h
    split at h
    · rename_i hp
      obtain ⟨t, ht⟩ := List.isPrefixOf_iff_prefix.1 hp
      have hd : (x :: xs).drop mark.length = t := by rw [← ht]; simp
      simp_all
    · obtain ⟨⟨a', b'⟩, hcut, heq⟩ := Option.map_eq_some_iff.1 h
      simp only [Prod.mk.injEq] at heq
      obtain ⟨rfl, rfl⟩ := heq
      simp [ih hcut]

/-- What follows the mark is the rest of the text. -/
theorem eq_append_of_after? {mark cs r : List Char} (h : after? mark cs = some r) :
    cs = mark ++ r := by
  unfold after? at h
  split at h
  · rename_i hp
    obtain ⟨t, ht⟩ := List.isPrefixOf_iff_prefix.1 hp
    have hd : cs.drop mark.length = t := by rw [← ht]; simp
    simp_all
  · simp at h

end InheritDoc.Text
