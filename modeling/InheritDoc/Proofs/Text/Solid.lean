import InheritDoc.Proofs.Text.Blank
import InheritDoc.Text.Alphanumeric
import InheritDoc.Text.Numeral

namespace InheritDoc.Text

/-!
# Texts that reading leaves as they are

* `Solid`               : a text that is there and that trimming does not change;
* `solid_trim`          : what trimming leaves is such a text;
* `isBlank_of_isAlphanumeric` : alphanumeric characters are not blank;
* `numeral?_toDigits`   : a number is read from its digits.
-/

/-! ### Solid texts -/

/-- A text that is not empty and neither starts nor ends with a blank. -/
structure Solid (cs : List Char) : Prop where
  ne_nil : cs ≠ []
  head : ∀ c ∈ cs.head?, isBlank c = false
  last : ∀ c ∈ cs.getLast?, isBlank c = false

namespace Solid

variable {cs ds : List Char}

/-- A solid text is trimmed already. -/
theorem trim_eq (h : Solid cs) : trim cs = cs :=
  trim_of_ends h.head h.last

/-- A text without blanks is solid, if it is not empty. -/
theorem of_forall (hne : cs ≠ []) (h : ∀ c ∈ cs, isBlank c = false) : Solid cs :=
  ⟨hne, fun c hc => h c (List.mem_of_mem_head? hc), fun c hc => h c (List.mem_of_mem_getLast? hc)⟩

/-- Two solid texts make a solid text, whatever blanks they have inside. -/
theorem append (hcs : Solid cs) (hds : Solid ds) : Solid (cs ++ ds) where
  ne_nil := List.append_ne_nil_of_left_ne_nil hcs.ne_nil ds
  head := by
    rw [List.head?_append_of_ne_nil _ hcs.ne_nil]
    exact hcs.head
  last := by
    rw [List.getLast?_append_of_ne_nil _ hds.ne_nil]
    exact hds.last

/-- What stands between two characters that are not blank does not matter. -/
theorem of_ends {c d : Char} (hc : isBlank c = false) (hd : isBlank d = false) (cs : List Char) :
    Solid (c :: (cs ++ [d])) := by
  refine ⟨List.cons_ne_nil _ _, by simpa using hc, ?_⟩
  rw [← List.cons_append, List.getLast?_concat]
  simpa using hd

end Solid

/-! ### Trimmed texts -/

/-- Trimming takes off blanks only. -/
theorem exists_blanks_trim (cs : List Char) :
    ∃ before after, (∀ c ∈ before, isBlank c = true) ∧ (∀ c ∈ after, isBlank c = true) ∧
      cs = before ++ trim cs ++ after := by
  refine ⟨cs.takeWhile isBlank, ((trimStart cs).reverse.takeWhile isBlank).reverse,
    fun c => List.mem_takeWhile_imp, fun c hc => ?_, ?_⟩
  · exact List.mem_takeWhile_imp (List.mem_reverse.mp hc)
  · rw [trim, trimEnd, List.append_assoc, ← List.reverse_append, List.takeWhile_append_dropWhile,
      List.reverse_reverse, trimStart, List.takeWhile_append_dropWhile]

/-- Trimming brings in no character. -/
theorem trim_subset (cs : List Char) : trim cs ⊆ cs := by
  obtain ⟨before, after, -, -, hcs⟩ := exists_blanks_trim cs
  intro c hc
  rw [hcs]
  simp [hc]

/-- Trimming makes no text longer. -/
theorem length_trim_le (cs : List Char) : (trim cs).length ≤ cs.length := by
  obtain ⟨before, after, -, -, hcs⟩ := exists_blanks_trim cs
  have hlength := congrArg List.length hcs
  simp only [List.length_append] at hlength
  omega

/-- What is left of a text when it is trimmed neither starts nor ends with a blank. -/
theorem solid_trim {cs : List Char} (h : trim cs ≠ []) : Solid (trim cs) := by
  refine ⟨h, fun c hc => ?_, fun c hc => ?_⟩
  · have hprefix : trim cs <+: trimStart cs := by
      rw [trim, trimEnd, ← List.reverse_suffix, List.reverse_reverse]
      exact List.dropWhile_suffix _
    obtain ⟨blanks, hblanks⟩ := hprefix
    -- what is left starts as the text did once the blanks before it were skipped
    have hhead : c ∈ (trimStart cs).head? := by
      rwa [← hblanks, List.head?_append_of_ne_nil _ h]
    exact isBlank_head?_dropWhile hhead
  · -- the end was trimmed on the reversed text, where it is the start
    rw [trim, trimEnd, List.getLast?_reverse] at hc
    exact isBlank_head?_dropWhile hc

/-! ### Alphanumeric characters -/

/-- The blank characters, as closed intervals of code points. -/
def blankRanges : List (Nat × Nat) :=
  [(0x09, 0x0D), (0x20, 0x20), (0x85, 0x85), (0xA0, 0xA0), (0x1680, 0x1680), (0x2000, 0x200A),
    (0x2028, 0x2029), (0x202F, 0x202F), (0x205F, 0x205F), (0x3000, 0x3000)]

/-- The ranges are all blank characters there are. -/
theorem exists_mem_blankRanges {c : Char} (h : isBlank c = true) :
    ∃ range ∈ blankRanges, range.1 ≤ c.toNat ∧ c.toNat ≤ range.2 := by
  simp only [isBlank, Bool.or_eq_true, Bool.and_eq_true, decide_eq_true_eq, beq_iff_eq] at h
  simp only [blankRanges, List.exists_mem_cons_iff, List.not_mem_nil, false_and, exists_false, or_false]
  omega

/-- The two tables of characters have nothing in common. -/
theorem blankRanges_apart : ∀ range ∈ alphanumericRanges, ∀ blank ∈ blankRanges,
    range.2 < blank.1 ∨ blank.2 < range.1 := by
  decide +kernel

/-- **Alphanumeric characters are not blank**, as the tables say. -/
theorem isBlank_of_isAlphanumeric {c : Char} (h : isAlphanumeric c = true) : isBlank c = false := by
  obtain ⟨range, hrange, hc⟩ := List.any_eq_true.mp h
  simp only [Bool.and_eq_true, decide_eq_true_eq] at hc
  rw [Bool.eq_false_iff]
  intro hblank
  obtain ⟨blank, hmem, hle⟩ := exists_mem_blankRanges hblank
  have hapart := blankRanges_apart range hrange blank hmem
  omega

/-- The first range of alphanumeric characters is that of the decimal digits. -/
theorem isAlphanumeric_of_isDigit {c : Char} (h : c.isDigit = true) : isAlphanumeric c = true := by
  have hmem : (0x30, 0x39) ∈ alphanumericRanges := List.mem_cons_self
  simp only [Char.isDigit, Bool.and_eq_true, decide_eq_true_eq] at h
  refine List.any_eq_true.mpr ⟨_, hmem, ?_⟩
  rw [Bool.and_eq_true, decide_eq_true_eq, decide_eq_true_eq]
  exact h

/-! ### Numerals -/

/-- The value of a decimal digit is its distance from zero. -/
theorem digitValue?_of_isDigit {c : Char} (h : c.isDigit = true) :
    digitValue? 10 c = some (c.toNat - '0'.toNat) := by
  simp only [Char.isDigit, Bool.and_eq_true, decide_eq_true_eq] at h
  have hrange : '0' ≤ c ∧ c ≤ '9' := h
  have hle : c.toNat ≤ 57 := h.2
  have hvalue : c.toNat - 48 < 10 := by omega
  simp [digitValue?, hrange, hvalue]

/-- Rows of decimal digits have the value that the standard library gives them. -/
theorem digitsValue?_of_isDigit {cs : List Char} (h : ∀ c ∈ cs, c.isDigit = true) (acc : Nat) :
    digitsValue? 10 acc cs = some (Nat.ofDigitChars 10 cs acc) := by
  induction cs generalizing acc with
  | nil => rfl
  | cons c cs ih =>
    rw [List.forall_mem_cons] at h
    rw [digitsValue?, digitValue?_of_isDigit h.1, Option.bind_some, ih h.2, Nat.mul_comm]
    rfl

/-- **A number is read from its digits**, if it is below the bound. -/
theorem numeral?_toDigits {n bound : Nat} (h : n < bound) :
    numeral? 10 bound (Nat.toDigits 10 n) = some n := by
  have hdigits : ∀ c ∈ Nat.toDigits 10 n, c.isDigit = true := fun _ =>
    Nat.isDigit_of_mem_toDigits (by decide) (by decide)
  have hvalue : digitsValue? 10 0 (Nat.toDigits 10 n) = some n := by
    rw [digitsValue?_of_isDigit hdigits, Nat.ofDigitChars_ten_toDigits]
  unfold numeral?
  split
  · -- no digit is a plus sign
    rename_i rest heq
    exact absurd (hdigits '+' (by simp [heq])) (by decide)
  · simp [Nat.toDigits_ne_nil, hvalue, h]

end InheritDoc.Text
