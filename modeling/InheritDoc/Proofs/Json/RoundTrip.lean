import InheritDoc.Json.Reader
import InheritDoc.Json.Writer
import InheritDoc.Proofs.Text.Blank

namespace InheritDoc.Json

open Text (span_append)

/-!
# Reading back compact JSON

The reader undoes the writer on values that the text denotes exactly.

* `Exact`            : no part is void or a number kept as a literal, and integers fit 64 bits;
* `readString_escape`, `readNumber_writeInt` : strings and integers are read back;
* `Exact.reads`      : so is any exact value, whatever follows it;
* `parse_compact`    : **the compact text of an exact value denotes the value;**
* `eq_of_writeMoreFields_append` : the fields before a name are told by the text up to it.
-/

/-! ### Exact values -/

/-- The text of a value denotes the value: no part is void or a number that is kept as a literal,
    and integers fit 64 bits. -/
inductive Exact : Json → Prop
  | null : Exact .null
  | bool (b : Bool) : Exact (.bool b)
  | int {n : Int} (h : n.natAbs < UInt64.size) : Exact (.int n)
  | str (s : String) : Exact (.str s)
  | arr {items : List Json} (h : ∀ item ∈ items, Exact item) : Exact (.arr items)
  | obj {fields : List (String × Json)} (h : ∀ field ∈ fields, Exact field.2) : Exact (.obj fields)

/-- What may follow a value: nothing, a comma or a closing bracket. -/
def Ends (rest : List Char) : Prop :=
  ∀ c ∈ rest.head?, c = ',' ∨ c = ']' ∨ c = '}'

/-! ### Strings -/

/-- Hexadecimal digits are read back. -/
theorem hexValue?_hexDigit : ∀ n < 16, hexValue? (hexDigit n) = some n := by
  decide

/-- The characters that are written as a backslash and a letter or sign. -/
def shortEscapes : List Char :=
  ['"', '\\', '\x08', '\x09', '\x0a', '\x0c', '\x0d']

/-- What is written as a backslash and a sign is read back from the sign. -/
theorem exists_escapeChar_of_mem : ∀ c ∈ shortEscapes,
    ∃ e, e ≠ 'u' ∧ escapeChar c = ['\\', e] ∧ escaped? e = some c := by
  simp only [shortEscapes, List.forall_mem_cons]
  exact ⟨⟨'"', by decide⟩, ⟨'\\', by decide⟩, ⟨'b', by decide⟩, ⟨'t', by decide⟩, ⟨'n', by decide⟩,
    ⟨'f', by decide⟩, ⟨'r', by decide⟩, by simp⟩

/-- Any other character is written as its code if it is a control character, and as itself
    otherwise. -/
theorem escapeChar_of_notMem {c : Char} (h : c ∉ shortEscapes) :
    escapeChar c = if c.toNat < 0x20 then
      ['\\', 'u', '0', '0', hexDigit (c.toNat / 16), hexDigit (c.toNat % 16)] else [c] := by
  simp only [shortEscapes, List.mem_cons, List.not_mem_nil, or_false, not_or] at h
  simp [escapeChar, h]

/-- Unfolding lemma: a backslash with a sign stands for one character. -/
theorem readString_short {e c : Char} (he : e ≠ 'u') (h : escaped? e = some c) (rest : List Char) :
    readString ('\\' :: e :: rest)
      = (readString rest).map fun (codes, rest) => (c.toNat :: codes, rest) := by
  rw [readString, h]
  simp [he]

/-- Unfolding lemma: a character that needs no escape stands for itself. -/
theorem readString_plain {c : Char} (hquote : c ≠ '"') (hbackslash : c ≠ '\\')
    (hcontrol : ¬ c.toNat < 0x20) (rest : List Char) :
    readString (c :: rest)
      = (readString rest).map fun (codes, rest) => (c.toNat :: codes, rest) := by
  rw [readString, if_neg (by simp [hbackslash, hcontrol])]
  · exact hquote
  · simp [hbackslash]
  · simp [hbackslash]

/-- A character is read from the way it is written. -/
theorem readString_escapeChar (c : Char) (rest : List Char) :
    readString (escapeChar c ++ rest)
      = (readString rest).map fun (codes, rest) => (c.toNat :: codes, rest) := by
  by_cases hshort : c ∈ shortEscapes
  · obtain ⟨e, he, hescape, hread⟩ := exists_escapeChar_of_mem c hshort
    rw [hescape]
    exact readString_short he hread rest
  · rw [escapeChar_of_notMem hshort]
    split
    · rename_i hcontrol
      -- a control character is written as four hexadecimal digits, the first two of which are zeros
      have hhigh := hexValue?_hexDigit (c.toNat / 16) (by omega)
      have hlow := hexValue?_hexDigit (c.toNat % 16) (by omega)
      have hzero : hexValue? '0' = some 0 := by decide
      have hcode : hex4? '0' '0' (hexDigit (c.toNat / 16)) (hexDigit (c.toNat % 16))
          = some c.toNat := by
        simp [hex4?, hhigh, hlow, hzero]
        omega
      simp only [List.cons_append, List.nil_append, readString, hcode]
    · rename_i hcontrol
      simp only [shortEscapes, List.mem_cons, List.not_mem_nil, or_false, not_or] at hshort
      exact readString_plain hshort.1 hshort.2.1 hcontrol rest

/-- A string is read up to its closing quote. -/
theorem readString_escape (cs rest : List Char) :
    readString (cs.flatMap escapeChar ++ '"' :: rest) = some (cs.map Char.toNat, rest) := by
  induction cs with
  | nil => rfl
  | cons c cs ih =>
    rw [List.flatMap_cons, List.append_assoc, readString_escapeChar, ih]
    rfl

/-- The code of a character stands for the character. -/
theorem single?_toNat (c : Char) : single? c.toNat = some c := by
  have hvalid : c.toNat.isValidChar := c.valid
  rw [single?, if_pos hvalid, Char.ofNat_toNat]

/-- The code of a character is no half of a surrogate pair. -/
theorem surrogatePair?_toNat (c : Char) (low : Nat) : surrogatePair? c.toNat low = none := by
  have hvalid : c.toNat < 0xd800 ∨ 0xdfff < c.toNat ∧ c.toNat < 0x110000 := c.valid
  rw [surrogatePair?, if_neg (by omega)]

/-- The codes of characters stand for the characters. -/
theorem decode?_toNat (cs : List Char) : decode? (cs.map Char.toNat) = some cs := by
  induction cs with
  | nil => rfl
  | cons c cs ih =>
    cases cs with
    | nil => simp [decode?, single?_toNat]
    | cons d cs =>
      rw [List.map_cons] at ih
      simp [decode?, surrogatePair?_toNat, single?_toNat, ih]

/-! ### Integers -/

/-- The digits of a number are taken whole, since what follows a value is no digit. -/
theorem takeDigits_toDigits (n : Nat) {rest : List Char} (h : Ends rest) :
    takeDigits (Nat.toDigits 10 n ++ rest) = (Nat.toDigits 10 n, rest) := by
  refine span_append (fun c hc => Nat.isDigit_of_mem_toDigits (by decide) (by decide) hc) ?_
  intro c hc
  rcases h c hc with rfl | rfl | rfl <;> decide

/-- Only zero is written with a zero in front. -/
theorem eq_zero_of_head?_toDigits {n : Nat} (h : (Nat.toDigits 10 n).head? = some '0') : n = 0 := by
  induction n using Nat.strongRecOn with
  | ind n ih =>
    by_cases hn : n < 10
    · rw [Nat.toDigits_of_lt_base hn] at h
      have hall : ∀ k < 10, [k.digitChar].head? = some '0' → k = 0 := by decide
      exact hall n hn h
    · -- the first digit is that of the number without its last one
      have hhead := h
      rw [Nat.toDigits_of_base_le (by decide) (by omega),
        List.head?_append_of_ne_nil _ Nat.toDigits_ne_nil] at hhead
      have := ih (n / 10) (by omega) hhead
      omega

/-- A number is read from its digits. -/
theorem digitsToNat_toDigits (n : Nat) : digitsToNat (Nat.toDigits 10 n) = n := by
  have h : Nat.ofDigitChars 10 (Nat.toDigits 10 n) 0 = n := Nat.ofDigitChars_ten_toDigits
  rwa [Nat.ofDigitChars_eq_foldl] at h

/-- Where a value ends there is no fraction. -/
theorem takeFraction_of_ends {rest : List Char} (h : Ends rest) :
    takeFraction rest = some ([], rest) := by
  cases rest with
  | nil => rfl
  | cons c rest => rcases h c rfl with rfl | rfl | rfl <;> rfl

/-- Where a value ends there is no exponent. -/
theorem takeExponent_of_ends {rest : List Char} (h : Ends rest) :
    takeExponent rest = some ([], rest) := by
  cases rest with
  | nil => rfl
  | cons c rest => rcases h c rfl with rfl | rfl | rfl <;> rfl

/-- An integer of 64 bits is read from its digits. -/
theorem readNumber_writeInt {n : Int} (hn : n.natAbs < UInt64.size) {rest : List Char}
    (h : Ends rest) : readNumber (writeInt n ++ rest) = some (.int n, rest) := by
  have hdigits := takeDigits_toDigits n.natAbs h
  have hne : Nat.toDigits 10 n.natAbs ≠ [] := Nat.toDigits_ne_nil
  have hleading : (Nat.toDigits 10 n.natAbs).head? = some '0' → n.natAbs = 0 :=
    eq_zero_of_head?_toDigits
  have hsize : ¬ UInt64.size ≤ n.natAbs := by omega
  unfold writeInt
  split
  · rename_i hnegative
    -- a negative number is not zero, so its digits do not start with a zero
    have hhead : (Nat.toDigits 10 n.natAbs).head? ≠ some '0' := fun hhead => by
      have := hleading hhead
      omega
    have hnonzero : Nat.toDigits 10 n.natAbs ≠ ['0'] := fun heq => hhead (by rw [heq]; rfl)
    have hvalue : -(n.natAbs : Int) = n := by omega
    simp only [readNumber, List.cons_append, hdigits, takeFraction_of_ends h,
      takeExponent_of_ends h, Option.bind_some, digitsToNat_toDigits, hvalue]
    simp [hne, hhead, hsize, hnonzero]
  · rename_i hnonnegative
    -- no digit is a minus sign, so the reader does not take the first digit for one
    have hminus : ∀ body, Nat.toDigits 10 n.natAbs ++ rest ≠ '-' :: body := by
      intro body heq
      have hhead : (Nat.toDigits 10 n.natAbs ++ rest).head? = some '-' := by rw [heq]; rfl
      rw [List.head?_append_of_ne_nil _ hne] at hhead
      exact absurd (Nat.isDigit_of_mem_toDigits (by decide) (by decide)
        (List.mem_of_mem_head? hhead)) (by decide)
    have hvalue : (n.natAbs : Int) = n := by omega
    unfold readNumber
    split
    rename_i heq
    split at heq
    · rename_i hcs
      exact absurd hcs (hminus _)
    · obtain ⟨rfl, rfl⟩ := Prod.mk.inj heq
      simp only [hdigits, takeFraction_of_ends h, takeExponent_of_ends h, Option.bind_some,
        digitsToNat_toDigits, hvalue]
      have hzero : (Nat.toDigits 10 n.natAbs).head? = some '0' → Nat.toDigits 10 n.natAbs = ['0'] :=
        fun hhead => by rw [hleading hhead, Nat.toDigits_zero]
      simpa [hne, hsize] using hzero

/-! ### Values -/

/-- A character that is not blank stops the skipping of blanks. -/
theorem skipBlanks_cons {c : Char} (hc : c ∉ [' ', '\t', '\n', '\r']) (cs : List Char) :
    skipBlanks (c :: cs) = c :: cs := by
  simp only [List.mem_cons, List.not_mem_nil, or_false, not_or] at hc
  simp [skipBlanks, hc]

/-- There are no blanks between a value and what follows it. -/
theorem skipBlanks_of_ends {rest : List Char} (h : Ends rest) : skipBlanks rest = rest := by
  cases rest with
  | nil => rfl
  | cons c rest => rcases h c rfl with rfl | rfl | rfl <;> rfl

/-- How the text of an exact value starts. -/
theorem Exact.write_eq_cons {j : Json} (h : Exact j) :
    ∃ c cs, j.write = c :: cs ∧ c ∉ [' ', '\t', '\n', '\r', ']'] := by
  cases h with
  | null => exact ⟨_, _, rfl, by decide⟩
  | bool b => cases b <;> exact ⟨_, _, rfl, by decide⟩
  | @int n _ =>
    rw [write, writeInt]
    split
    · exact ⟨_, _, rfl, by decide⟩
    · cases hdigits : Nat.toDigits 10 n.natAbs with
      | nil => exact absurd hdigits Nat.toDigits_ne_nil
      | cons d ds =>
        refine ⟨d, ds, rfl, fun hmem => ?_⟩
        have hdigit : d.isDigit = true := Nat.isDigit_of_mem_toDigits (by decide) (by decide)
          (hdigits ▸ List.mem_cons_self)
        -- none of the characters in question is a digit
        have hall : ∀ c ∈ [' ', '\t', '\n', '\r', ']'], c.isDigit = false := by decide
        simp [hall d hmem] at hdigit
  | str s => exact ⟨_, _, rfl, by decide⟩
  | arr _ => exact ⟨_, _, rfl, by decide⟩
  | obj _ => exact ⟨_, _, rfl, by decide⟩

/-- The value is read from its text, whatever follows it. -/
def Reads (j : Json) : Prop :=
  ∀ (n : Nat) (rest : List Char), 2 * j.write.length ≤ n → Ends rest →
    readValue n (j.write ++ rest) = some (j, rest)

/-- Some reader is entered for any text. -/
theorem Reads.of_succ {j : Json} (hpos : 0 < j.write.length)
    (h : ∀ (n : Nat) (rest : List Char), 2 * j.write.length ≤ n + 1 → Ends rest →
      readValue (n + 1) (j.write ++ rest) = some (j, rest)) : Reads j := by
  intro n rest hn hrest
  obtain ⟨m, rfl⟩ : ∃ m, n = m + 1 := ⟨n - 1, by omega⟩
  exact h m rest hn hrest

/-- A value may be followed by a comma. -/
theorem ends_comma (rest : List Char) : Ends (',' :: rest) := by simp [Ends]

/-- A value may be followed by a closing bracket. -/
theorem ends_bracket (rest : List Char) : Ends (']' :: rest) := by simp [Ends]

/-- A value may be followed by a closing brace. -/
theorem ends_brace (rest : List Char) : Ends ('}' :: rest) := by simp [Ends]

/-- Items are read up to the closing bracket. -/
theorem readItems_writeItems {items : List Json} (hne : items ≠ []) (h : ∀ item ∈ items, Reads item)
    {n : Nat} (hn : 2 * (writeItems items).length + 1 ≤ n) (rest : List Char) :
    readItems n (writeItems items ++ ']' :: rest) = some (items, rest) := by
  induction items generalizing n with
  | nil => exact absurd rfl hne
  | cons item items ih =>
    obtain ⟨n, rfl⟩ : ∃ m, n = m + 1 := ⟨n - 1, by omega⟩
    have hitem := h item List.mem_cons_self
    cases items with
    | nil =>
      simp only [writeItems, writeMoreItems, List.append_nil] at hn ⊢
      rw [readItems, hitem _ _ (by omega) (ends_bracket rest)]
      rfl
    | cons next items =>
      have hmore : writeMoreItems (next :: items) = ',' :: writeItems (next :: items) := rfl
      simp only [writeItems, hmore, List.length_append, List.length_cons] at hn ⊢
      -- the counter is one less for the items that follow, whose text is shorter by the comma
      have hrest := ih (by simp) (fun i hi => h i (List.mem_cons_of_mem item hi))
        (n := n) (by simp only [writeItems, List.length_append]; omega)
      rw [List.append_assoc, List.cons_append, readItems, hitem _ _ (by omega) (ends_comma _)]
      simp only [skipBlanks_of_ends (ends_comma _)]
      rw [writeItems] at hrest
      rw [hrest]
      rfl

/-- A field with the codes of its name. -/
def coded (field : String × Json) : List Nat × Json :=
  (field.1.toList.map Char.toNat, field.2)

section Fields

variable {n : Nat} {name : String} {value : Json} {tail rest : List Char}

/-- A field before the closing brace. -/
theorem readFields_last (h : readValue n tail = some (value, '}' :: rest)) :
    readFields (n + 1) (writeString name ++ ':' :: tail) = some ([coded (name, value)], rest) := by
  rw [writeString, List.cons_append, List.append_assoc, readFields, skipBlanks_cons (by decide)]
  simp only [List.singleton_append, readString_escape, skipBlanks_cons (c := ':') (by decide), h]
  rfl

/-- A field before a comma. -/
theorem readFields_more {fields : List (List Nat × Json)} {after : List Char}
    (h : readValue n tail = some (value, ',' :: rest))
    (hrest : readFields n rest = some (fields, after)) :
    readFields (n + 1) (writeString name ++ ':' :: tail)
      = some (coded (name, value) :: fields, after) := by
  rw [writeString, List.cons_append, List.append_assoc, readFields, skipBlanks_cons (by decide)]
  simp only [List.singleton_append, readString_escape, skipBlanks_cons (c := ':') (by decide), h,
    skipBlanks_of_ends (ends_comma _), hrest]
  rfl

end Fields

/-- Fields are read up to the closing brace. -/
theorem readFields_writeFields {fields : List (String × Json)} (hne : fields ≠ [])
    (h : ∀ field ∈ fields, Reads field.2) {n : Nat} (hn : 2 * (writeFields fields).length + 1 ≤ n)
    (rest : List Char) :
    readFields n (writeFields fields ++ '}' :: rest) = some (fields.map coded, rest) := by
  induction fields generalizing n with
  | nil => exact absurd rfl hne
  | cons field fields ih =>
    obtain ⟨n, rfl⟩ : ∃ m, n = m + 1 := ⟨n - 1, by omega⟩
    obtain ⟨name, value⟩ := field
    have hvalue : Reads value := h (name, value) List.mem_cons_self
    cases fields with
    | nil =>
      simp only [writeFields, writeMoreFields, List.append_nil, List.length_append,
        List.length_cons] at hn ⊢
      rw [List.append_assoc, List.cons_append]
      exact readFields_last (hvalue _ _ (by omega) (ends_brace rest))
    | cons next fields =>
      have hmore : writeMoreFields (next :: fields) = ',' :: writeFields (next :: fields) := rfl
      rw [writeFields, hmore] at hn ⊢
      simp only [List.length_append, List.length_cons] at hn
      rw [List.append_assoc, List.cons_append, List.append_assoc, List.cons_append]
      exact readFields_more (hvalue _ _ (by omega) (ends_comma _))
        (ih (by simp) (fun f hf => h f (List.mem_cons_of_mem _ hf)) (by omega))

/-- Items that are read back one by one are read back in a list. -/
theorem mapM_map_eq_some {α β : Type} {form : α → β} {shape? : β → Option α} {items : List α}
    (h : ∀ a ∈ items, shape? (form a) = some a) : (items.map form).mapM shape? = some items := by
  induction items with
  | nil => rfl
  | cons a items ih =>
    have htail := ih fun b hb => h b (List.mem_cons_of_mem a hb)
    simp [h a List.mem_cons_self, htail]

/-- Fields whose names are given by codes are an object with these names. -/
theorem ofFields_coded (fields : List (String × Json)) :
    ofFields (fields.map coded) = .obj fields := by
  rw [ofFields, mapM_map_eq_some]
  intro field _
  simp [coded, decode?_toNat]

/-- What starts with a minus sign or a digit is read as a number. -/
theorem readValue_number {c : Char} (hc : c = '-' ∨ c.isDigit = true) (n : Nat) (cs : List Char) :
    readValue (n + 1) (c :: cs) = readNumber (c :: cs) := by
  -- none of the other forms of values starts with such a character
  have hother : c ∉ ['n', 't', 'f', '"', '[', '{'] ∧ c ∉ [' ', '\t', '\n', '\r'] := by
    rcases hc with rfl | hdigit
    · decide
    · have hall : ∀ x ∈ ['n', 't', 'f', '"', '[', '{'] ++ [' ', '\t', '\n', '\r'],
          x.isDigit = false := by decide
      rw [← not_or, ← List.mem_append]
      intro hmem
      simp [hall c hmem] at hdigit
  simp only [List.mem_cons, List.not_mem_nil, or_false, not_or] at hother
  rw [readValue, skipBlanks_cons (by simpa using hother.2)]
  split <;> simp_all

/-- Integers of 64 bits are read back. -/
theorem reads_int {n : Int} (hn : n.natAbs < UInt64.size) : Reads (.int n) := by
  obtain ⟨c, cs, hwrite, hc⟩ : ∃ c cs, writeInt n = c :: cs ∧ (c = '-' ∨ c.isDigit = true) := by
    unfold writeInt
    split
    · exact ⟨_, _, rfl, .inl rfl⟩
    · cases hdigits : Nat.toDigits 10 n.natAbs with
      | nil => exact absurd hdigits Nat.toDigits_ne_nil
      | cons d ds =>
        exact ⟨d, ds, rfl, .inr (Nat.isDigit_of_mem_toDigits (by decide) (by decide)
          (hdigits ▸ List.mem_cons_self))⟩
  refine .of_succ (by simp [write, hwrite]) fun m rest _ hrest => ?_
  rw [write, hwrite, List.cons_append, readValue_number hc, ← List.cons_append, ← hwrite,
    readNumber_writeInt hn hrest]

/-- Strings are read back. -/
theorem reads_str (s : String) : Reads (.str s) := by
  refine .of_succ (by simp [write, writeString]) fun n rest _ _ => ?_
  simp [write, writeString, readValue, skipBlanks_cons, readString_escape, ofCodes, decode?_toNat]

/-- An array is read back if its items are. -/
theorem reads_arr {items : List Json} (h : ∀ item ∈ items, Exact item ∧ Reads item) :
    Reads (.arr items) := by
  refine .of_succ (by simp [write]) fun n rest hn _ => ?_
  simp only [write, List.length_cons, List.length_append, List.length_nil] at hn
  cases items with
  | nil => rfl
  | cons item items =>
    -- an item does not start like the closing bracket
    obtain ⟨c, cs, hwrite, hc⟩ := (h item List.mem_cons_self).1.write_eq_cons
    have hread := readItems_writeItems (by simp) (fun i hi => (h i hi).2) (n := n) (by omega) rest
    have hstart : writeItems (item :: items) ++ ']' :: rest
        = c :: (cs ++ writeMoreItems items ++ ']' :: rest) := by
      simp [writeItems, hwrite]
    simp only [List.mem_cons, List.not_mem_nil, or_false, not_or] at hc
    rw [write, List.cons_append, List.append_assoc, List.singleton_append, readValue,
      skipBlanks_cons (by decide)]
    simp only [hread]
    rw [hstart, skipBlanks_cons (by simp [hc])]
    simp [hc]

/-- An object is read back if the values of its fields are. -/
theorem reads_obj {fields : List (String × Json)} (h : ∀ field ∈ fields, Reads field.2) :
    Reads (.obj fields) := by
  refine .of_succ (by simp [write]) fun n rest hn _ => ?_
  simp only [write, List.length_cons, List.length_append, List.length_nil] at hn
  cases fields with
  | nil => rfl
  | cons field fields =>
    have hread := readFields_writeFields (by simp) h (n := n) (by omega) rest
    have hstart : ∃ cs, writeFields (field :: fields) ++ '}' :: rest = '"' :: cs := by
      simp [writeFields, writeString]
    obtain ⟨cs, hstart⟩ := hstart
    rw [write, List.cons_append, List.append_assoc, List.singleton_append, readValue,
      skipBlanks_cons (by decide)]
    simp only [hread, Option.map_some, ofFields_coded]
    rw [hstart, skipBlanks_cons (by decide)]
    rfl

/-- **Exact values are read back**, whatever follows them. -/
theorem Exact.reads {j : Json} (h : Exact j) : Reads j := by
  induction h with
  | null => exact .of_succ (by simp [write]) fun _ _ _ _ => rfl
  | bool b => cases b <;> exact .of_succ (by simp [write]) fun _ _ _ _ => rfl
  | int hn => exact reads_int hn
  | str s => exact reads_str s
  | arr h ih => exact reads_arr fun item hitem => ⟨h item hitem, ih item hitem⟩
  | obj _ ih => exact reads_obj ih

/-- **The compact text of an exact value denotes the value.** -/
theorem parse_compact {j : Json} (h : Exact j) : parse j.compact = some j := by
  have hread := h.reads (2 * j.write.length + 1) [] (by omega) (by simp [Ends])
  rw [List.append_nil] at hread
  simp [parse, compact, hread, skipBlanks]

/-! ### Two texts with one start -/

/-- Fields are written one after the other, each behind a comma. -/
theorem writeMoreFields_append (fs gs : List (String × Json)) :
    writeMoreFields (fs ++ gs) = writeMoreFields fs ++ writeMoreFields gs := by
  induction fs with
  | nil => rfl
  | cons f fs ih =>
    rw [List.cons_append, writeMoreFields, writeMoreFields, ih]
    simp only [List.cons_append, List.append_assoc]

/-- Where one text starts with the texts of two values, the values are equal. -/
theorem Exact.write_append_inj {j k : Json} (hj : Exact j) (hk : Exact k) {rest rest' : List Char}
    (hrest : Ends rest) (hrest' : Ends rest') (h : j.write ++ rest = k.write ++ rest') :
    j = k ∧ rest = rest' := by
  -- one counter is enough to read either value from the common text
  have hread := hj.reads (2 * (j.write.length + k.write.length)) rest (by omega) hrest
  rw [h, hk.reads _ rest' (by omega) hrest'] at hread
  obtain ⟨rfl, rfl⟩ := Prod.mk.inj (Option.some.inj hread)
  exact ⟨rfl, rfl⟩

/-- Where one text starts with two strings in quotes, the strings are equal. -/
theorem writeString_append_inj {s t : String} {rest rest' : List Char}
    (h : writeString s ++ rest = writeString t ++ rest') : s = t ∧ rest = rest' := by
  simp only [writeString, List.cons_append, List.append_assoc, List.cons.injEq, true_and,
    List.nil_append] at h
  have hread := readString_escape s.toList rest
  rw [h, readString_escape] at hread
  obtain ⟨hcodes, rfl⟩ := Prod.mk.inj (Option.some.inj hread)
  have hdecode : some t.toList = some s.toList := by
    rw [← decode?_toNat, ← decode?_toNat, hcodes]
  exact ⟨String.toList_inj.mp (Option.some.inj hdecode).symm, rfl⟩

/-- What stands before a further field may follow a value. -/
theorem ends_writeMoreFields (fields : List (String × Json)) (rest : List Char) :
    Ends (writeMoreFields fields ++ ',' :: rest) := by
  cases fields with
  | nil => exact ends_comma rest
  | cons field fields => exact ends_comma _

/-- The fields before the first one of a name are told by the text up to it. -/
theorem eq_of_writeMoreFields_append {name : String} {fs gs : List (String × Json)}
    (hfs : ∀ f ∈ fs, f.1 ≠ name ∧ Exact f.2) (hgs : ∀ g ∈ gs, g.1 ≠ name ∧ Exact g.2)
    {rest rest' : List Char}
    (h : writeMoreFields fs ++ ',' :: (writeString name ++ rest)
      = writeMoreFields gs ++ ',' :: (writeString name ++ rest')) : fs = gs := by
  induction fs generalizing gs with
  | nil =>
    cases gs with
    | nil => rfl
    | cons g gs =>
      simp only [writeMoreFields, List.nil_append, List.cons_append, List.append_assoc,
        List.cons.injEq, true_and] at h
      -- the first field of `gs` would have the name
      exact absurd (writeString_append_inj h).1.symm (hgs g List.mem_cons_self).1
  | cons f fs ih =>
    cases gs with
    | nil =>
      simp only [writeMoreFields, List.nil_append, List.cons_append, List.append_assoc,
        List.cons.injEq, true_and] at h
      -- the first field of `fs` would have the name
      exact absurd (writeString_append_inj h).1 (hfs f List.mem_cons_self).1
    | cons g gs =>
      simp only [writeMoreFields, List.cons_append, List.append_assoc, List.cons.injEq,
        true_and] at h
      obtain ⟨hname, h⟩ := writeString_append_inj h
      obtain ⟨hvalue, h⟩ := (hfs f List.mem_cons_self).2.write_append_inj
        (hgs g List.mem_cons_self).2 (ends_writeMoreFields fs _) (ends_writeMoreFields gs _)
        (List.cons.inj h).2
      rw [Prod.ext hname hvalue, ih (fun f hf => hfs f (List.mem_cons_of_mem _ hf))
        (fun g hg => hgs g (List.mem_cons_of_mem _ hg)) h]

end InheritDoc.Json
