import InheritDoc.Attachment
import InheritDoc.Inheritance.Candidates
import InheritDoc.Proofs.Catalog.Listing
import InheritDoc.Proofs.Id.Reading

namespace InheritDoc

open Text (isBlank)
open Markup (Tag Node)

/-!
# Entries are found by their ids

A catalog of declarations whose names leave alone the characters that structure ids can be addressed
completely: whatever is in it is found by its documentation id, with and without the letter.

* `isNameChar`           : the characters that names may be made of;
* `Declaration.WellKinded`, `Declaration.SpelledIn` : what is asked of declarations;
* `Catalog.Addresses`    : an entry is what its ids lead to;
* `addressable_of_build` : **every entry of such a catalog is what its ids lead to**, when
  documentation is attached and when a marker names it.
-/

/-! ### Names -/

/-- Plain characters other than the colon, which follows the letter of an id. -/
def isNameChar (c : Char) : Bool :=
  isPlain c && c != ':'

theorem isNameChar_iff {c : Char} : isNameChar c = true ↔ isPlain c = true ∧ c ≠ ':' := by
  simp [isNameChar]

/-- These characters are an alphabet. -/
theorem isAlphabet_isNameChar : IsAlphabet isNameChar where
  dot := by decide
  tick := by decide
  digits h := isNameChar_iff.mpr ⟨isPlain_of_isDigit h, ne_of_holds h ':' (by decide)⟩
  plain h := (isNameChar_iff.mp h).1
  joins := by decide

/-- A type is declared, and its members are no types. -/
structure Declaration.WellKinded (d : Declaration) : Prop where
  type : d.descriptor.kind.isType = true
  members : ∀ m ∈ d.members, m.kind.isType = false

/-- The names of a declared type and of its members are made of the characters of an alphabet. -/
structure Declaration.SpelledIn (p : Char → Bool) (d : Declaration) : Prop where
  type : d.descriptor.TypeSpelledIn p
  members : ∀ m ∈ d.members, m.MemberSpelledIn p

/-- A documentation id is written as its letter, a colon and the id. -/
theorem Entry.toList_docId (e : Entry) :
    e.docId.toList = e.descriptor.kind.letter.toChar :: ':' :: e.id.toList := by
  simp [Entry.docId]

/-! ### Readings of a bare id -/

/-- The id of a type is read as a type first. -/
theorem exists_readings_type {id : String} (hne : id.toList ≠ [])
    (hid : ∀ c ∈ id.toList, isPlain c = true) :
    ∃ rest, Target.readings id = .type id :: rest := by
  have htrim := trim_of_isPlain hid
  have hparenthesis : '(' ∉ id.toList := fun h => absurd (hid _ h) (by decide)
  simp [Target.readings, htrim, hne, hparenthesis]

section Members

variable {p : Char → Bool} (hp : IsAlphabet p) {owner localId : String} (howner : SpelledIn p owner)
  {m : MemberText p} (hm : localId.toList = m.chars)

include hp howner hm

/-- Every character of a qualified member id is one of the alphabet or one that structures it. -/
theorem mem_qualified {c : Char} (hc : c ∈ (owner ++ "." ++ localId).toList) :
    p c = true ∨ c ∈ ['(', ')', ',', '{', '[', '}', ']', '~'] := by
  simp only [String.toList_append, List.mem_append, hm] at hc
  rcases hc with (hc | hc) | hc
  · exact .inl (howner c hc)
  · obtain rfl : c = '.' := by simpa using hc
    exact .inl hp.dot
  · exact m.mem_chars hc

/-- The id of a member is read as the member, if not as a type. -/
theorem readings_member (hne : owner.toList ≠ []) :
    ∃ asType, Target.readings (owner ++ "." ++ localId) = asType ++ [.member owner localId] ∧
      ∀ target ∈ asType, target = .type (owner ++ "." ++ localId) := by
  have hblank : ∀ c ∈ (owner ++ "." ++ localId).toList, isBlank c = false := by
    intro c hc
    rcases mem_qualified hp howner hm hc with hc | hc
    · exact (isPlain_iff.mp (hp.plain hc)).1
    · have hall : ∀ x ∈ ['(', ')', ',', '{', '[', '}', ']', '~'], isBlank x = false := by decide
      exact hall c hc
  -- as a member the text has one reading, which is the last
  have hread : readMember (owner ++ "." ++ localId).toList (owner ++ "." ++ localId)
      = .ok (.member owner localId) := by
    have htext : (owner ++ "." ++ localId).toList = owner.toList ++ '.' :: m.name ++
        (joinParameters m.parameters ++ conversionSuffix m.target) := by
      simp [hm, MemberText.chars]
    rw [htext, readMember_chars hp hne howner m (.refl m.parameters), ← hm, String.ofList_toList,
      String.ofList_toList]
  -- as a type it is read only if it has no parameter list
  refine ⟨if (owner ++ "." ++ localId).toList.contains '(' then []
    else [.type (owner ++ "." ++ localId)], ?_, ?_⟩
  · rw [Target.readings, Text.trim_of_forall hblank, String.ofList_toList, hread, if_neg (by simp)]
  · intro target htarget
    split at htarget
    · exact absurd htarget List.not_mem_nil
    · exact List.mem_singleton.mp htarget

end Members

/-! ### What ids lead to -/

/-- An entry is what its documentation id points to, and the first one that its bare id may mean. -/
structure Catalog.Addresses (c : Catalog) (e : Entry) : Prop where
  target : ∃ target, DocId.parse e.docId = .ok ⟨e.descriptor.kind.letter, target⟩ ∧
    c.find? target = some e.id
  colon : ':' ∉ e.id.toList
  readings : (Target.readings e.id).findSome? c.find? = some e.id

namespace Catalog

variable {ds : List Declaration} {c : Catalog} {e : Entry}

/-! ### Types and members -/

section Kinds

variable (hc : build ds = .ok c) (hds : ∀ d ∈ ds, d.WellKinded)

include hc hds

/-- Exactly the types have no owner. -/
theorem isType_iff_owner (he : e ∈ c.entries) : e.isType = true ↔ e.owner = none := by
  rcases entry_cases hc he with ⟨d, hd, howner, hdescriptor, -⟩ |
    ⟨d, hd, owner, -, -, -, hmember, -, -, howner, -⟩
  · simp [howner, Entry.isType, hdescriptor, (hds d hd).type]
  · simp [howner, Entry.isType, (hds d hd).members _ hmember]

/-- The owner of a member is a type. -/
theorem exists_owner {type : String} (he : e ∈ c.entries) (howner : e.owner = some type) :
    ∃ t ∈ c.entries, t.id = type ∧ t.isType = true := by
  rcases entry_cases hc he with ⟨d, hd, hnone, -⟩ |
    ⟨d, hd, owner, -, t, -, -, -, -, hsome, ht, rfl, htype⟩
  · rw [hnone] at howner
    cases howner
  · rw [hsome, Option.some.injEq] at howner
    exact ⟨t, ht, howner, (isType_iff_owner hc hds ht).mpr htype⟩

end Kinds

/-! ### Entries and targets -/

/-- A type is found by its id. -/
theorem find?_type (hlookup : c.lookup e.id = some e) (htype : e.isType = true) :
    c.find? (.type e.id) = some e.id := by
  simp [find?, hlookup, htype]

/-- A member is found by its type and the rest of its id. -/
theorem find?_member {owner localId : String} {t : Entry} (hid : e.id = owner ++ "." ++ localId)
    (hlisted : c.hasMember owner e.id = true) (htype : c.lookup owner = some t)
    (hisType : t.isType = true) : c.find? (.member owner localId) = some e.id := by
  simp [find?, Target.qualifiedId, ← hid, hlisted, htype, hisType]

/-- A declared type is what its ids lead to. -/
theorem addresses_type (hlookup : c.lookup e.id = some e) (htype : e.isType = true)
    (hne : e.id.toList ≠ []) (hspelled : SpelledIn isNameChar e.id) : c.Addresses e where
  target := by
    have hplain : ∀ c ∈ e.id.toList, isPlain c = true := fun c hc =>
      (isNameChar_iff.mp (hspelled c hc)).1
    have hletter : e.descriptor.kind.letter = .type := Kind.letter_eq_type_iff.mpr htype
    have hparse := parse_typeId hne hplain (.refl _)
    rw [← hletter, ← e.toList_docId, String.ofList_toList, String.ofList_toList] at hparse
    exact ⟨.type e.id, hparse, find?_type hlookup htype⟩
  colon h := absurd (hspelled _ h) (by decide)
  readings := by
    obtain ⟨rest, hreadings⟩ := exists_readings_type hne fun c hc =>
      (isNameChar_iff.mp (hspelled c hc)).1
    rw [hreadings, List.findSome?_cons, find?_type hlookup htype]

/-- A member of a type that has an entry is what its ids lead to. -/
theorem addresses_member {owner localId : String} {t : Entry}
    (hid : e.id = owner ++ "." ++ localId) (hlookup : c.lookup e.id = some e)
    (hlisted : c.hasMember owner e.id = true) (hmember : e.isType = false)
    (htype : c.lookup owner = some t) (hisType : t.isType = true) (hne : owner.toList ≠ [])
    (hspelled : SpelledIn isNameChar owner) {m : MemberText isNameChar}
    (hm : localId.toList = m.chars) : c.Addresses e where
  target := by
    have hletter : e.descriptor.kind.letter ≠ .type := by
      rw [Ne, Kind.letter_eq_type_iff]
      simpa [Entry.isType] using hmember
    have hparse := parse_memberId isAlphabet_isNameChar hletter hne hspelled m (.refl _)
    have htext : e.docId.toList
        = e.descriptor.kind.letter.toChar :: ':' :: (owner.toList ++ '.' :: m.chars) := by
      simp [e.toList_docId, hid, hm]
    rw [← htext, ← hm, String.ofList_toList, String.ofList_toList, String.ofList_toList] at hparse
    exact ⟨.member owner localId, hparse, find?_member hid hlisted htype hisType⟩
  colon h := by
    rw [hid] at h
    rcases mem_qualified isAlphabet_isNameChar hspelled hm h with h | h
    · exact absurd h (by decide)
    · exact absurd h (by decide)
  readings := by
    obtain ⟨asType, hreadings, hasType⟩ := readings_member isAlphabet_isNameChar hspelled hm hne
    -- as a type the id leads nowhere, for what is found under it is a member
    have hnone : asType.findSome? c.find? = none := by
      refine List.findSome?_eq_none_iff.mpr fun target htarget => ?_
      rw [hasType target htarget, ← hid]
      simp [find?, hlookup, hmember]
    rw [hid, hreadings, List.findSome?_append, hnone, Option.none_or, List.findSome?_singleton,
      find?_member hid hlisted htype hisType, hid]

/-- Every entry of a catalog of well-spelled declarations is what its ids lead to. -/
theorem addresses_of_mem (hds : ∀ d ∈ ds, d.WellKinded ∧ d.SpelledIn isNameChar)
    (hc : build ds = .ok c) (he : e ∈ c.entries) : c.Addresses e := by
  have hlookup := lookup_of_mem hc he
  rcases entry_cases hc he with ⟨d, hd, -, hdescriptor, hid⟩ |
    ⟨d, hd, owner, localId, t, hownerId, hmem, hlocal, hid, howner, ht, rfl, htOwner⟩
  · -- the entry of a type
    have htype : e.isType = true := by rw [Entry.isType, hdescriptor]; exact (hds d hd).1.type
    rw [Descriptor.encode, if_pos (hds d hd).1.type] at hid
    exact addresses_type hlookup htype (by simpa using Descriptor.encodeType_ne_empty hid)
      ((hds d hd).2.type.encodeType isAlphabet_isNameChar hid)
  · -- the entry of a member, whose type has an entry as well
    have hmember : e.isType = false := (hds d hd).1.members _ hmem
    rw [Descriptor.encode, if_pos (hds d hd).1.type] at hownerId
    rw [Descriptor.encode, if_neg (by simpa [Entry.isType] using hmember)] at hlocal
    obtain ⟨m, hm⟩ := ((hds d hd).2.members _ hmem).exists_memberText isAlphabet_isNameChar hlocal
    have htIsType : t.isType = true :=
      (isType_iff_owner hc (fun d hd => (hds d hd).1) ht).mpr htOwner
    have hlisted := (hasMember_iff hc).mpr ⟨e, hlookup, howner⟩
    exact addresses_member hid hlookup hlisted hmember (lookup_of_mem hc ht) htIsType
      (by simpa using Descriptor.encodeType_ne_empty hownerId)
      ((hds d hd).2.type.encodeType isAlphabet_isNameChar hownerId) hm

/-- Documentation under an id is attached to what the id leads to. -/
theorem attach_singleton {rawId id : String} {docId : DocId}
    (hparse : DocId.parse rawId = .ok docId)
    (hfind : c.find? docId.target = some id) (tree : List Node) :
    c.attach [⟨rawId, tree⟩] = ⟨c, [(id, tree)], { matched := 1 }⟩ := by
  simp [attach, Attachment.add, hparse, hfind, Attachment.put, Attachment.rawDoc]

end Catalog

/-- **Entries are found by their ids.**  In a catalog of types and members whose names leave alone the
    characters that structure ids, documentation under the id of an entry is attached to the entry
    and to nothing else, and a marker that names the entry by its id, with or without the letter,
    leads to the entry and to nothing else. -/
theorem addressable_of_build {ds : List Declaration} {c : Catalog}
    (hds : ∀ d ∈ ds, d.WellKinded ∧ d.SpelledIn isNameChar) (hc : Catalog.build ds = .ok c)
    {e : Entry} (he : e ∈ c.entries) :
    (∀ tree : List Node,
      (∀ id, (c.attach [⟨e.docId, tree⟩]).rawDoc id = if id = e.id then some tree else none) ∧
      (c.attach [⟨e.docId, tree⟩]).report = { matched := 1 }) ∧
    ∀ marker : Tag, marker.attribute? "cref" = some e.docId ∨ marker.attribute? "cref" = some e.id →
      c.crefCandidates marker = [e.id] := by
  have haddress := Catalog.addresses_of_mem hds hc he
  obtain ⟨target, hparse, hfind⟩ := haddress.target
  refine ⟨fun tree => ?_, ?_⟩
  · rw [Catalog.attach_singleton hparse hfind]
    refine ⟨fun id => ?_, rfl⟩
    by_cases hid : id = e.id
    · simp [Attachment.rawDoc, hid]
    · have hne : (id == e.id) = false := by simpa using hid
      simp [Attachment.rawDoc, List.lookup_cons, hne, hid]
  · rintro marker (hcref | hcref)
    · -- a reference with a colon is a documentation id, one without is read in all its ways
      have hcolon : ':' ∈ e.docId.toList := by simp [e.toList_docId]
      simp [Catalog.crefCandidates, Catalog.referenceTargets, hcref, hcolon, hparse, hfind]
    · simp [Catalog.crefCandidates, Catalog.referenceTargets, hcref, haddress.colon,
        haddress.readings]

/-- The sample declaration has names of these characters. -/
theorem sampleCart_spelled : sampleCart.WellKinded ∧ sampleCart.SpelledIn isNameChar := by
  refine ⟨⟨rfl, by simp [sampleCart]; rfl⟩, .level ⟨by decide, by decide⟩ (by rintro e ⟨⟩), ?_⟩
  refine List.forall_mem_singleton.2 ⟨fun _ => by decide, fun _ _ => by decide, ?_⟩
  refine List.forall_mem_singleton.2 (.ref ⟨by decide, ?_⟩ (by rintro e ⟨⟩) (by rintro a ⟨⟩))
  exact ⟨"Int32".toList, ['[', ']'], by decide, by decide, .array 0 .nil⟩

/-- An inherited method is found by its id, in documentation and in references. -/
theorem addressable_of_build_inherited :
    (∀ d ∈ [sampleCart], d.WellKinded ∧ d.SpelledIn isNameChar) ∧
    ∃ c, Catalog.build [sampleCart] = .ok c ∧ sampleEntry ∈ c.entries ∧
      (c.attach [⟨"M:Shop.Cart.Add(System.Int32[])", [.text "Adds."]⟩]).rawDoc sampleEntry.id
        = some [.text "Adds."] ∧
      c.crefCandidates ⟨"inheritdoc", [("cref", "Shop.Cart.Add(System.Int32[])")]⟩
        = ["Shop.Cart.Add(System.Int32[])"] := by
  have hspelled : ∀ d ∈ [sampleCart], d.WellKinded ∧ d.SpelledIn isNameChar :=
    List.forall_mem_singleton.2 sampleCart_spelled
  refine ⟨hspelled, _, build_sampleCart, by simp, ?_⟩
  obtain ⟨hattach, hcref⟩ :=
    addressable_of_build hspelled build_sampleCart (e := sampleEntry) (by simp)
  exact ⟨((hattach _).1 _).trans (if_pos rfl), hcref _ (.inr rfl)⟩

end InheritDoc
