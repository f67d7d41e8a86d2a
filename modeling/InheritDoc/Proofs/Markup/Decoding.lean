import InheritDoc.Markup.Reader
import InheritDoc.Proofs.Markup.Escape
import Mathlib.Data.List.DropRight

namespace InheritDoc.Markup

/-!
# Decoding part by part

A reference is looked for in the nine bytes after its ampersand.  A text can therefore be cut where
no ampersand is near, and each part decoded by itself.

* `reference?_append`      : what follows those nine bytes has no say in what the reference is;
* `SelfContained`          : each ampersand of a text is followed by nine bytes of the text;
* `decodeEntities_append`  : a self-contained text is decoded by itself;
* `decodeEntities_context` : **escaped texts, and texts with no ampersand near their end, are
  decoded by themselves, whatever follows them.**
-/

/-! ### References -/

/-- A reference ends at its semicolon. -/
theorem eq_append_of_cutReference {budget : Nat} {cs name rest : List Char}
    (h : cutReference budget cs = some (name, rest)) : cs = name ++ ';' :: rest := by
  induction cs generalizing budget name with
  | nil => simp [cutReference] at h
  | cons c cs ih =>
    rw [cutReference] at h
    split_ifs at h with hend hsize
    · cases h
      rw [hend, List.nil_append]
    · obtain ⟨⟨name', rest'⟩, hcut, heq⟩ := Option.map_eq_some_iff.mp h
      cases heq
      rw [ih hcut, List.cons_append]

/-- The semicolon is found, or given up, before the end of a text with more bytes than allowed. -/
theorem cutReference_append {budget : Nat} {cs : List Char} (h : budget < byteSize cs)
    (more : List Char) :
    cutReference budget (cs ++ more)
      = (cutReference budget cs).map fun (name, rest) => (name, rest ++ more) := by
  induction cs generalizing budget with
  | nil => simp [byteSize] at h
  | cons c cs ih =>
    rw [List.cons_append, cutReference, cutReference]
    split_ifs with hend hsize
    · rfl
    · -- the character takes its bytes from the budget and from the text alike
      have hrest : budget - c.utf8Size < byteSize cs := by
        rw [byteSize] at h
        omega
      rw [ih hrest, Option.map_map, Option.map_map]
      rfl
    · rfl

/-- What follows a reference is the rest of the text. -/
theorem suffix_of_reference? {cs rest : List Char} {d : Char} (h : reference? cs = some (d, rest)) :
    rest <:+ cs := by
  obtain ⟨⟨name, rest'⟩, hcut, hchar⟩ := Option.bind_eq_some_iff.mp h
  obtain ⟨d', -, heq⟩ := Option.map_eq_some_iff.mp hchar
  cases heq
  exact ⟨name ++ [';'], by simp [eq_append_of_cutReference hcut]⟩

/-- If there is enough text for a reference, further text does not change how it is read. -/
theorem reference?_append {cs : List Char} (h : 8 < byteSize cs) (more : List Char) :
    reference? (cs ++ more) = (reference? cs).map fun (d, rest) => (d, rest ++ more) := by
  rw [reference?, reference?, cutReference_append h]
  cases cutReference 8 cs with
  | none => rfl
  | some cut =>
    simp only [Option.map_some, Option.bind_some, Option.map_map]
    rfl

/-! ### Texts decoded by themselves -/

/-- Each ampersand of the text is followed by so many bytes of the text that what follows the text
    has no say in how the ampersand is read. -/
def SelfContained (cs : List Char) : Prop :=
  ∀ after, '&' :: after <:+ cs → 8 < byteSize after

/-- The rest of a text that needs no further text needs none. -/
theorem SelfContained.of_suffix {cs rest : List Char} (h : SelfContained cs) (hrest : rest <:+ cs) :
    SelfContained rest :=
  fun after hafter => h after (hafter.trans hrest)

/-- An ampersand that starts no reference stands for itself. -/
theorem decodeEntities_of_none {cs : List Char} (h : reference? cs = none) :
    decodeEntities ('&' :: cs) = '&' :: decodeEntities cs := by
  rw [decodeEntities, if_pos rfl]
  split
  · rename_i heq
    rw [h] at heq
    cases heq
  · rfl

/-- **Texts that need no further text are decoded one by one.** -/
theorem decodeEntities_append {cs : List Char} (h : SelfContained cs) (more : List Char) :
    decodeEntities (cs ++ more) = decodeEntities cs ++ decodeEntities more := by
  -- along the recursion of the decoder, which goes on at a suffix of the text
  fun_induction decodeEntities cs with
  | case1 => rfl
  | case2 cs d rest href ih =>
    have hmore : reference? (cs ++ more) = some (d, rest ++ more) := by
      rw [reference?_append (h cs List.suffix_rfl), href, Option.map_some]
    have hrest : rest <:+ '&' :: cs := (suffix_of_reference? href).trans (List.suffix_cons _ _)
    rw [List.cons_append, decodeEntities_reference hmore, ih (h.of_suffix hrest), List.cons_append]
  | case3 cs href ih =>
    have hmore : reference? (cs ++ more) = none := by
      rw [reference?_append (h cs List.suffix_rfl), href, Option.map_none]
    rw [List.cons_append, decodeEntities_of_none hmore, ih (h.of_suffix (List.suffix_cons _ _)),
      List.cons_append]
  | case4 c cs hc ih =>
    rw [List.cons_append, decodeEntities_cons hc, ih (h.of_suffix (List.suffix_cons _ _)),
      List.cons_append]

/-! ### Bytes -/

/-- The bytes of a text in UTF-8. -/
def utf8 (cs : List Char) : List UInt8 :=
  cs.flatMap String.utf8EncodeChar

/-- The size of a text in bytes is the number of its bytes. -/
theorem length_utf8 (cs : List Char) : (utf8 cs).length = byteSize cs := by
  induction cs with
  | nil => rfl
  | cons c cs ih =>
    rw [utf8, List.flatMap_cons, List.length_append, ← utf8, ih, byteSize,
      String.length_utf8EncodeChar]

/-- A text is self-contained if there is no ampersand among its last nine bytes. -/
theorem selfContained_of_rtake {cs : List Char} (h : '&'.toUInt8 ∉ (utf8 cs).rtake 9) :
    SelfContained cs := by
  rintro after ⟨before, rfl⟩
  by_contra hfew
  refine h ?_
  -- too little text after an ampersand means that the ampersand is among the last nine bytes
  have hbytes : utf8 (before ++ '&' :: after) = utf8 before ++ '&'.toUInt8 :: utf8 after := by
    simp only [utf8, List.flatMap_append, List.flatMap_cons]
    rfl
  have hlength : (utf8 after).length ≤ 8 := by
    rw [length_utf8]
    omega
  rw [hbytes, List.rtake, List.drop_append_of_le_length]
  · simp
  · simp only [List.length_append, List.length_cons]
    omega

/-! ### Any context -/

/-- **Texts are decoded by themselves, whatever follows them**, if they are escaped, or if there is
    no ampersand among their last nine bytes. -/
theorem decodeEntities_context :
    (∀ (inAttribute : Bool) (s t : List Char),
      decodeEntities (escape inAttribute s ++ t) = s ++ decodeEntities t) ∧
    ∀ a t : List Char, '&'.toUInt8 ∉ (utf8 a).rtake 9 →
      decodeEntities (a ++ t) = decodeEntities a ++ decodeEntities t :=
  ⟨decodeEntities_escape_append, fun _ t h => decodeEntities_append (selfContained_of_rtake h) t⟩

/-- A text whose last ampersand is followed by nine bytes, none of them a semicolon. -/
theorem decodeEntities_context_nine :
    '&'.toUInt8 ∉ (utf8 "a &lt; é &#x0000041".toList).rtake 9 ∧
      decodeEntities ("a &lt; é &#x0000041".toList ++ "; &amp;".toList)
        = decodeEntities "a &lt; é &#x0000041".toList ++ decodeEntities "; &amp;".toList := by
  have h : '&'.toUInt8 ∉ (utf8 "a &lt; é &#x0000041".toList).rtake 9 := by decide
  exact ⟨h, decodeEntities_context.2 _ _ h⟩

-- eight bytes without an ampersand are not enough
example : '&'.toUInt8 ∉ (utf8 "&#x000041".toList).rtake 8 ∧
    decodeEntities ("&#x000041".toList ++ [';'])
      ≠ decodeEntities "&#x000041".toList ++ decodeEntities [';'] := by
  decide +kernel

end InheritDoc.Markup
