import InheritDoc.Text.Numeral

namespace InheritDoc.Markup

open Text (numeral?)

/-!
# Character references

* `escape`         : a text with the characters replaced that markup gives a meaning;
* `decodeEntities` : a text with its character references replaced by what they stand for.

A reference is an ampersand, at most eight bytes and a semicolon.  One that stands for nothing is
left as it is.
-/

/-! ### Writing -/

/-- How a character is written; a quote needs a reference only in attribute values. -/
def escapeChar (inAttribute : Bool) (c : Char) : List Char :=
  if c = '&' then ['&', 'a', 'm', 'p', ';']
  else if c = '<' then ['&', 'l', 't', ';']
  else if c = '>' then ['&', 'g', 't', ';']
  else if c = '"' ∧ inAttribute then ['&', 'q', 'u', 'o', 't', ';']
  else [c]

/-- How a text is written. -/
def escape (inAttribute : Bool) (cs : List Char) : List Char :=
  cs.flatMap (escapeChar inAttribute)

/-! ### Reading -/

/-- The character of a code point; surrogates are none. -/
def charOfCode? (n : Nat) : Option Char :=
  if h : n.isValidChar then some (Char.ofNatAux n h) else none

/-- The character that the inside of a reference stands for. -/
def referenced? : List Char → Option Char
  | ['l', 't'] => some '<'
  | ['g', 't'] => some '>'
  | ['a', 'm', 'p'] => some '&'
  | ['q', 'u', 'o', 't'] => some '"'
  | ['a', 'p', 'o', 's'] => some '\''
  | '#' :: 'x' :: digits => (numeral? 16 0x110000 digits).bind charOfCode?
  | '#' :: 'X' :: digits => (numeral? 16 0x110000 digits).bind charOfCode?
  | '#' :: digits => (numeral? 10 0x110000 digits).bind charOfCode?
  | _ => none

/-- What stands before the first semicolon, if that is at most `budget` bytes, and what stands
    after it. -/
def cutReference (budget : Nat) : List Char → Option (List Char × List Char)
  | [] => none
  | c :: cs =>
    if c = ';' then some ([], cs)
    else if c.utf8Size ≤ budget then
      (cutReference (budget - c.utf8Size) cs).map fun (name, rest) => (c :: name, rest)
    else none

/-- The reference that follows an ampersand: its character and the text after it. -/
def reference? (cs : List Char) : Option (Char × List Char) :=
  (cutReference 8 cs).bind fun (name, rest) => (referenced? name).map fun c => (c, rest)

/-- What follows a reference is shorter than what followed its ampersand. -/
theorem length_cutReference {budget : Nat} {cs name rest : List Char}
    (h : cutReference budget cs = some (name, rest)) : rest.length < cs.length := by
  induction cs generalizing budget name with
  | nil => simp [cutReference] at h
  | cons c cs ih =>
    unfold cutReference at h
    split at h
    · simp_all
    · split at h
      · obtain ⟨⟨name', rest'⟩, hcut, heq⟩ := Option.map_eq_some_iff.1 h
        simp only [Prod.mk.injEq] at heq
        obtain ⟨-, rfl⟩ := heq
        have hlt := ih hcut
        simp only [List.length_cons]
        omega
      · simp at h

/-- The same for a reference that stands for a character, so decoding ends. -/
theorem length_reference? {cs rest : List Char} {c : Char} (h : reference? cs = some (c, rest)) :
    rest.length < cs.length := by
  obtain ⟨⟨name, rest'⟩, hcut, hchar⟩ := Option.bind_eq_some_iff.1 h
  obtain ⟨c', -, heq⟩ := Option.map_eq_some_iff.1 hchar
  simp only [Prod.mk.injEq] at heq
  exact heq.2 ▸ length_cutReference hcut

/-- The text with its references replaced by the characters they stand for. -/
def decodeEntities : List Char → List Char
  | [] => []
  | c :: cs =>
    if c = '&' then
      match _href : reference? cs with
      | some (d, rest) => d :: decodeEntities rest
      | none => c :: decodeEntities cs
    else c :: decodeEntities cs
termination_by cs => cs.length
decreasing_by
  · have := length_reference? _href
    simp only [List.length_cons]
    omega
  · simp
  · simp

end InheritDoc.Markup
