import InheritDoc.Proofs.Element.RoundTrip
import Mathlib.Data.String.Basic

namespace InheritDoc

open Json (Exact writeFields writeMoreFields writeString optionalField listField
  forall_mem_optionalField forall_mem_listField)

/-!
# The order of declarations by their texts

The text of a declaration has the members at its end, so declarations that differ in anything else
are ordered by that, whatever their members are.

* `Declaration.heading`     : a declaration without its members;
* `Declaration.toList_text` : a text is an opening, which depends on the heading only, and a closing;
* `Declaration.heading_eq_of_opening_append` : the opening determines the heading;
* `Declaration.text_lt_iff_of_heading_ne` : **declarations with different headings are ordered by
  their headings.**
-/

/-- Lists that differ at their start are ordered by it. -/
theorem lex_append_iff_of_ne {α : Type} {lt : α → α → Prop} {p q : List α}
    (h : ∀ r s, p ++ r ≠ q ++ s) (r r' s s' : List α) :
    List.Lex lt (p ++ r) (q ++ s) ↔ List.Lex lt (p ++ r') (q ++ s') := by
  induction p generalizing q with
  | nil => exact absurd (List.append_nil q).symm (h q [])
  | cons a p ih =>
    cases q with
    | nil => exact absurd (List.append_nil (a :: p)) (h [] (a :: p))
    | cons b q =>
      simp only [List.cons_append, List.cons_lex_cons_iff]
      -- where the first items are equal, the rest differs
      refine or_congr_right (and_congr_right fun hab => ih fun r s heq => h r s ?_)
      rw [List.cons_append, List.cons_append, hab, heq]

namespace Declaration

/-- The declaration without its members. -/
def heading (d : Declaration) : Declaration :=
  { d with members := [] }

/-- Headings are equal if all but the members is. -/
theorem heading_eq_iff {d e : Declaration} : d.heading = e.heading
    ↔ d.descriptor = e.descriptor ∧ d.base = e.base ∧ d.interfaces = e.interfaces := by
  simp [heading]

/-- The fields that are written before the members. -/
def headingFields (d : Declaration) : List (String × Json) :=
  ("descriptor", d.descriptor.toJson) :: (optionalField "base_type" TypeRef.toJson d.base
    ++ listField "interfaces" (d.interfaces.map TypeRef.toJson))

/-- In the JSON form the members come last. -/
theorem toJson_eq (d : Declaration) :
    d.toJson = .obj (d.headingFields ++ [("members", .arr (d.members.map Descriptor.toJson))]) := by
  simp [toJson, headingFields]

/-- The fields before the members are exact, and none of them has the name of the members. -/
theorem headingFields_exact (d : Declaration) :
    ∀ field ∈ d.headingFields, field.1 ≠ "members" ∧ Exact field.2 := by
  simp only [headingFields, List.forall_mem_cons, List.forall_mem_append, forall_mem_optionalField,
    forall_mem_listField]
  refine ⟨⟨by simp, d.descriptor.exact_toJson⟩, fun t _ => ⟨by simp, t.exact_toJson⟩,
    fun _ => ⟨by simp, .arr ?_⟩⟩
  simp [TypeRef.exact_toJson]

/-- The fields before the members have all of the heading. -/
theorem heading_eq_of_headingFields_eq {d e : Declaration} (h : d.headingFields = e.headingFields) :
    d.heading = e.heading := by
  have hjson : d.heading.toJson = e.heading.toJson := by
    rw [toJson_eq, toJson_eq]
    exact congrArg (fun fields => Json.obj (fields ++ [("members", .arr [])])) h
  have hread : some d.heading = some e.heading := by
    rw [← ofJson?_toJson, ← ofJson?_toJson, hjson]
  exact Option.some.inj hread

/-- The text of a declaration up to its members. -/
def opening (d : Declaration) : List Char :=
  '{' :: (writeFields d.headingFields ++ ',' :: writeString "members")

/-- The text of a declaration from its members on. -/
def closing (d : Declaration) : List Char :=
  ':' :: ((Json.arr (d.members.map Descriptor.toJson)).write ++ ['}'])

/-- The heading determines the opening. -/
theorem opening_eq_of_heading_eq {d e : Declaration} (h : d.heading = e.heading) :
    d.opening = e.opening := by
  show d.heading.opening = e.heading.opening
  rw [h]

/-- A text consists of its opening and its closing. -/
theorem toList_text (d : Declaration) : d.text.toList = d.opening ++ d.closing := by
  have hmembers : writeFields (d.headingFields
        ++ [("members", .arr (d.members.map Descriptor.toJson))])
      = writeFields d.headingFields
        ++ writeMoreFields [("members", .arr (d.members.map Descriptor.toJson))] := by
    -- with a comma before them, the fields are like any that follow others
    have hcomma := Json.writeMoreFields_append d.headingFields
      [("members", .arr (d.members.map Descriptor.toJson))]
    exact (List.cons.inj hcomma).2
  rw [text, Json.compact, String.toList_ofList, toJson_eq, Json.write, hmembers, opening, closing,
    writeMoreFields]
  simp [writeMoreFields]

/-- The opening of a text determines the heading. -/
theorem heading_eq_of_opening_append {d e : Declaration} {rest rest' : List Char}
    (h : d.opening ++ rest = e.opening ++ rest') : d.heading = e.heading := by
  simp only [opening, List.cons_append, List.append_assoc, List.cons.injEq, true_and] at h
  exact heading_eq_of_headingFields_eq (Json.eq_of_writeMoreFields_append d.headingFields_exact
    e.headingFields_exact (congrArg (',' :: ·) h))

/-- **Declarations with different headings are ordered by their headings.** -/
theorem text_lt_iff_of_heading_ne {d e d' e' : Declaration} (hd : d.heading = d'.heading)
    (he : e.heading = e'.heading) (hne : d.heading ≠ e.heading) :
    d.text < e.text ↔ d'.text < e'.text := by
  -- texts are ordered as lists of characters
  have hlt : ∀ x y : Declaration, x.text < y.text
      ↔ List.Lex (· < ·) (x.opening ++ x.closing) (y.opening ++ y.closing) := by
    intro x y
    rw [← toList_text, ← toList_text]
    exact String.lt_iff_toList_lt.trans (List.lt_iff_lex_lt _ _)
  rw [hlt, hlt, ← opening_eq_of_heading_eq hd, ← opening_eq_of_heading_eq he]
  -- the openings differ whatever follows them, so what follows has no say
  exact lex_append_iff_of_ne (fun r s h => hne (heading_eq_of_opening_append h)) _ _ _ _

end Declaration

end InheritDoc
