import InheritDoc.Markup.Entity
import Mathlib.Tactic.SplitIfs

namespace InheritDoc.Markup

/-!
# Escaped texts

Escaping takes the characters out of a text that markup gives a meaning, and decoding brings them
back.

* `decodeEntities_escape_append` : an escaped text is decoded to the text, whatever follows it;
* `lt_notMem_escape`, `quote_notMem_escape` : the left angle does not occur in escaped texts, nor the
  quote in attribute values.
-/

/-! ### Decoding, one character at a time -/

/-- Any character but the ampersand stands for itself. -/
theorem decodeEntities_cons {c : Char} (hc : c ≠ '&') (cs : List Char) :
    decodeEntities (c :: cs) = c :: decodeEntities cs := by
  rw [decodeEntities, if_neg hc]

/-- A reference stands for its character. -/
theorem decodeEntities_reference {cs rest : List Char} {d : Char}
    (h : reference? cs = some (d, rest)) : decodeEntities ('&' :: cs) = d :: decodeEntities rest := by
  rw [decodeEntities, if_pos rfl]
  split
  · rename_i heq
    rw [h] at heq
    cases heq
    rfl
  · rename_i heq
    rw [h] at heq
    cases heq

/-! ### Escaped characters -/

/-- How a character is written: as itself if it is none of the special ones, and else as a reference
    to it. -/
theorem escapeChar_cases (inAttribute : Bool) (c : Char) :
    (escapeChar inAttribute c = [c] ∧ c ≠ '&' ∧ c ≠ '<' ∧ (inAttribute = true → c ≠ '"')) ∨
      ∃ name, escapeChar inAttribute c = '&' :: name ∧ '<' ∉ name ∧ '"' ∉ name ∧
        ∀ rest, reference? (name ++ rest) = some (c, rest) := by
  unfold escapeChar
  split_ifs with hamp hlt hgt hquote
  · subst hamp
    exact .inr ⟨_, rfl, by decide, by decide, fun _ => rfl⟩
  · subst hlt
    exact .inr ⟨_, rfl, by decide, by decide, fun _ => rfl⟩
  · subst hgt
    exact .inr ⟨_, rfl, by decide, by decide, fun _ => rfl⟩
  · obtain ⟨rfl, -⟩ := hquote
    exact .inr ⟨_, rfl, by decide, by decide, fun _ => rfl⟩
  · exact .inl ⟨rfl, hamp, hlt, fun h hc => hquote ⟨hc, h⟩⟩

/-- An escaped character is decoded to itself, and decoding goes on after it. -/
theorem decodeEntities_escapeChar_append (inAttribute : Bool) (c : Char) (cs : List Char) :
    decodeEntities (escapeChar inAttribute c ++ cs) = c :: decodeEntities cs := by
  obtain ⟨h, hamp, -⟩ | ⟨name, h, -, -, href⟩ := escapeChar_cases inAttribute c
  · rw [h, List.singleton_append, decodeEntities_cons hamp]
  · rw [h, List.cons_append, decodeEntities_reference (href cs)]

/-- No bracket is left by escaping, and in attributes no quote. -/
theorem notMem_escapeChar (inAttribute : Bool) (c : Char) :
    '<' ∉ escapeChar inAttribute c ∧ (inAttribute = true → '"' ∉ escapeChar inAttribute c) := by
  obtain ⟨h, -, hlt, hquote⟩ | ⟨name, h, hlt, hquote, -⟩ := escapeChar_cases inAttribute c
  · rw [h]
    exact ⟨by simpa using hlt.symm, fun hin => by simpa using (hquote hin).symm⟩
  · rw [h]
    exact ⟨by simpa using hlt, fun _ => by simpa using hquote⟩

/-! ### Escaped texts -/

/-- **Decoding undoes escaping**, whatever follows the escaped text. -/
theorem decodeEntities_escape_append (inAttribute : Bool) (cs rest : List Char) :
    decodeEntities (escape inAttribute cs ++ rest) = cs ++ decodeEntities rest := by
  induction cs with
  | nil => rfl
  | cons c cs ih =>
    rw [escape, List.flatMap_cons, List.append_assoc, decodeEntities_escapeChar_append, ← escape, ih,
      List.cons_append]

/-- **Decoding undoes escaping.** -/
theorem decodeEntities_escape (inAttribute : Bool) (cs : List Char) :
    decodeEntities (escape inAttribute cs) = cs := by
  have h := decodeEntities_escape_append inAttribute cs []
  rwa [List.append_nil, decodeEntities, List.append_nil] at h

/-- Escaped texts have no opening bracket. -/
theorem lt_notMem_escape (inAttribute : Bool) (cs : List Char) : '<' ∉ escape inAttribute cs := by
  intro h
  obtain ⟨c, -, hc⟩ := List.mem_flatMap.mp h
  exact (notMem_escapeChar inAttribute c).1 hc

/-- Escaped attribute values have no quote. -/
theorem quote_notMem_escape (cs : List Char) : '"' ∉ escape true cs := by
  intro h
  obtain ⟨c, -, hc⟩ := List.mem_flatMap.mp h
  exact (notMem_escapeChar true c).2 rfl hc

/-- Only the empty text is escaped to the empty text. -/
theorem escape_eq_nil_iff {inAttribute : Bool} {cs : List Char} :
    escape inAttribute cs = [] ↔ cs = [] := by
  constructor
  · intro h
    have hcs := decodeEntities_escape inAttribute cs
    rw [h, decodeEntities] at hcs
    exact hcs.symm
  · rintro rfl
    rfl

end InheritDoc.Markup
