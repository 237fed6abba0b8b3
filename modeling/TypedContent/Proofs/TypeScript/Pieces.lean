import Mathlib.Data.List.Basic
import TypedContent.Proofs.Field.Level
import TypedContent.Proofs.TypeScript.Token
import TypedContent.TypeScript.Render

/-!
# Texts of types, piece by piece

The text of a type is made of literals, of names that are identifiers and of marks. What is told of
the pieces, and of two texts that are joined, is told of every type: `Piecewise` asks for the first,
and the induction over kinds is done once, for any relation between a text and the literals in it.
-/

namespace TypedContent

namespace TypeScript

/-! ## The literals of a type -/

/-- The literal that a property name is written as. -/
def quotedName (name : String) : List String := if isIdentifier name then [] else [name]

def tagLiterals (typeField : String) (fields : List Canonical.Field) : List String :=
  if fields.any (·.name = typeField) then [] else quotedName typeField

mutual

/-- The values that are quoted in the text of a type, in order. -/
def typeLiterals : Kind String → List String
  | .enum options => options
  | .inlineObject fields => memberLiterals fields
  | .list item => itemLiterals item
  | .polymorphicList items typeField => elementLiterals typeField items
  | .string | .boolean | .number | .date | .markdown | .object _ | .reference _ | .other _ => []

def memberLiterals : List Canonical.Field → List String
  | [] => []
  | ⟨a, kind⟩ :: rest => quotedName a.name ++ typeLiterals kind ++ memberLiterals rest

def itemLiterals : Canonical.Item → List String
  | ⟨_, .enum options⟩ => options
  | ⟨_, .inlineObject fields⟩ => memberLiterals fields
  | ⟨_, .string⟩ | ⟨_, .boolean⟩ | ⟨_, .object _⟩ => []

def elementLiterals (typeField : String) : List Canonical.Item → List String
  | [] => []
  | ⟨_, .inlineObject fields⟩ :: rest =>
    tagLiterals typeField fields ++ memberLiterals fields ++ elementLiterals typeField rest
  | item :: rest => itemLiterals item ++ elementLiterals typeField rest

end

def fieldLiterals (f : Canonical.Field) : List String := quotedName f.name ++ typeLiterals f.kind

theorem memberLiterals_eq : ∀ fields : List Canonical.Field, memberLiterals fields = fields.flatMap fieldLiterals
  | [] => by rw [memberLiterals, List.flatMap_nil]
  | ⟨a, kind⟩ :: rest => by rw [memberLiterals, memberLiterals_eq rest, List.flatMap_cons, fieldLiterals]

def memberText (f : Canonical.Field) : String := fieldKey f.toAttributes ++ ": " ++ typeOf f.kind

theorem members_eq : ∀ fields : List Canonical.Field, members fields = fields.map memberText
  | [] => by rw [members, List.map_nil]
  | ⟨a, kind⟩ :: rest => by rw [members, members_eq rest, List.map_cons, memberText]

/-- What is written for an item of a list whose items `typeField` tells apart. -/
def elementText (typeField : String) (item : Canonical.Item) : String :=
  match item.kind with
  | .inlineObject fields => bracedMembers (taggedMembers typeField fields (members fields))
  | _ => elementType item

def taggedLiterals (typeField : String) (item : Canonical.Item) : List String :=
  match item.kind with
  | .inlineObject fields => tagLiterals typeField fields ++ memberLiterals fields
  | _ => itemLiterals item

theorem elementTypes_eq (typeField : String) : ∀ items : List Canonical.Item,
    elementTypes typeField items = items.map (elementText typeField)
  | [] => by rw [elementTypes, List.map_nil]
  | ⟨_, kind⟩ :: rest => by
    have ih := elementTypes_eq typeField rest
    cases kind <;> simp [elementTypes, elementText, ih]

theorem elementLiterals_eq (typeField : String) : ∀ items : List Canonical.Item,
    elementLiterals typeField items = items.flatMap (taggedLiterals typeField)
  | [] => by rw [elementLiterals, List.flatMap_nil]
  | ⟨_, kind⟩ :: rest => by
    have ih := elementLiterals_eq typeField rest
    cases kind <;> simp [elementLiterals, taggedLiterals, ih]

/-! ## Bare text -/

/-- No such character begins or ends a literal, a comment or a line. -/
def isBare (c : Char) : Bool := c ∉ ['\'', '"', '\x60', '\\', '/', '\n', '\r']

def Bare (text : String) : Prop := text.toList.all isBare = true

instance (text : String) : Decidable (Bare text) := inferInstanceAs (Decidable (_ = true))

theorem Bare.isBare {text : String} (h : Bare text) {c : Char} (hc : c ∈ text.toList) : isBare c = true :=
  List.all_eq_true.mp h c hc

theorem continues_of_identifier {name : String} (h : isIdentifier name = true) {c : Char} (hc : c ∈ name.toList) :
    continuesIdentifier c = true := by
  unfold isIdentifier at h
  cases hname : name.toList with
  | nil => simp [hname] at hc
  | cons first rest =>
    rw [hname] at h hc
    rw [Bool.and_eq_true] at h
    rcases List.mem_cons.mp hc with rfl | hc
    · simp [continuesIdentifier, h.1]
    · exact List.all_eq_true.mp h.2 c hc

theorem bare_identifier {name : String} (h : isIdentifier name = true) : Bare name := by
  have hmarks : (['\'', '"', '\x60', '\\', '/', '\n', '\r'].all fun c => !continuesIdentifier c) = true := by decide
  refine List.all_eq_true.mpr fun c hc => decide_eq_true fun hmark => ?_
  have hnot := List.all_eq_true.mp hmarks c hmark
  rw [continues_of_identifier h hc] at hnot
  cases hnot

/-! ## Pieces -/

/-- A relation between texts and the literals in them that can be told from the pieces of a text. -/
structure Piecewise (R : String → List String → Prop) : Prop where
  bare : ∀ {text}, Bare text → R text []
  literal : ∀ value, R (stringLiteral value) [value]
  append : ∀ {a b values others}, R a values → R b others → R (a ++ b) (values ++ others)

namespace Piecewise

variable {R : String → List String → Prop} (hR : Piecewise R)

include hR

theorem bare_append {a b : String} {values : List String} (ha : Bare a) (hb : R b values) : R (a ++ b) values :=
  hR.append (hR.bare ha) hb

theorem append_bare {a b : String} {values : List String} (ha : R a values) (hb : Bare b) : R (a ++ b) values := by
  simpa using hR.append ha (hR.bare hb)

section
variable {X : Type} {text : X → String} {values : X → List String}

theorem intercalate (sep : String) (hsep : Bare sep) : ∀ {xs : List X}, (∀ x ∈ xs, R (text x) (values x)) →
    R (sep.intercalate (xs.map text)) (xs.flatMap values)
  | [], _ => hR.bare (by simp [Bare])
  | [x], h => by simpa using h x (by simp)
  | x :: y :: xs, h => by
    rw [List.forall_mem_cons] at h
    rw [List.map_cons, List.map_cons, String.intercalate_cons_cons, List.flatMap_cons]
    exact hR.append (hR.append_bare h.1 hsep) (intercalate sep hsep h.2)

theorem join : ∀ {xs : List X}, (∀ x ∈ xs, R (text x) (values x)) → R (String.join (xs.map text)) (xs.flatMap values)
  | [], _ => hR.bare (by simp [Bare])
  | x :: xs, h => by
    rw [List.forall_mem_cons] at h
    rw [List.map_cons, String.join_cons, List.flatMap_cons]
    exact hR.append h.1 (join h.2)

end

theorem propertyName (name : String) : R (propertyName name) (quotedName name) := by
  unfold TypeScript.propertyName quotedName
  split
  · next h => exact hR.bare (bare_identifier h)
  · exact hR.literal name

theorem fieldKey (a : Attributes String) : R (fieldKey a) (quotedName a.name) := by
  unfold TypeScript.fieldKey
  refine hR.append_bare (hR.propertyName a.name) ?_
  split <;> decide

theorem literalUnion (options : List String) : R (literalUnion options) options := by
  unfold TypeScript.literalUnion
  split
  · next h =>
    rw [List.isEmpty_iff.mp h]
    exact hR.bare (by decide)
  · have hunion := hR.intercalate " | " (by decide) fun o (_ : o ∈ options) => hR.literal o
    rwa [List.flatMap_singleton'] at hunion

theorem arrayOf {element : String} {values : List String} (h : R element values) (isUnion : Bool) :
    R (arrayOf element isUnion) values := by
  unfold TypeScript.arrayOf
  split
  · exact hR.append_bare (hR.bare_append (by decide) h) (by decide)
  · exact hR.append_bare h (by decide)

theorem bracedMembers {texts : List String} {values : List String} (h : R ("; ".intercalate texts) values) :
    R (bracedMembers texts) values :=
  hR.append_bare (hR.bare_append (by decide) h) (by decide)

theorem objectType {fields : List Canonical.Field} (h : ∀ f ∈ fields, R (memberText f) (fieldLiterals f)) :
    R (objectType (members fields)) (memberLiterals fields) := by
  unfold TypeScript.objectType
  rw [members_eq, memberLiterals_eq]
  split
  · next he =>
    rw [List.isEmpty_iff, List.map_eq_nil_iff] at he
    rw [he]
    exact hR.bare (by decide)
  · exact hR.bracedMembers (hR.intercalate _ (by decide) h)

theorem taggedMembers {typeField : String} {fields : List Canonical.Field}
    (h : ∀ f ∈ fields, R (memberText f) (fieldLiterals f)) :
    R ("; ".intercalate (taggedMembers typeField fields (members fields)))
      (tagLiterals typeField fields ++ memberLiterals fields) := by
  unfold TypeScript.taggedMembers tagLiterals
  rw [members_eq, memberLiterals_eq]
  split
  · exact hR.intercalate _ (by decide) h
  · have htag : R (TypeScript.propertyName typeField ++ ": string") (quotedName typeField) :=
      hR.append_bare (hR.propertyName typeField) (by decide)
    have hall : ∀ p ∈ (TypeScript.propertyName typeField ++ ": string", quotedName typeField) ::
        fields.map fun f => (memberText f, fieldLiterals f), R p.1 p.2 :=
      List.forall_mem_cons.mpr ⟨htag, List.forall_mem_map.mpr h⟩
    have hmembers := hR.intercalate "; " (by decide) hall
    rwa [List.map_cons, List.map_map, List.flatMap_cons, List.flatMap_map] at hmembers

theorem polymorphicList {items : List Canonical.Item} {typeField : String}
    (h : ∀ item ∈ items, R (elementText typeField item) (taggedLiterals typeField item)) :
    R (typeOf (.polymorphicList items typeField)) (typeLiterals (.polymorphicList items typeField)) := by
  have hunion := hR.intercalate " | " (by decide) h
  unfold typeOf
  rw [typeLiterals, elementTypes_eq, elementLiterals_eq]
  split
  · next element e =>
    obtain rfl : elementText typeField _ = element := by simpa using e
    exact hR.arrayOf (by simpa using hunion) _
  · exact hR.bare (by decide)
  · exact hR.arrayOf hunion _

/-! ## Types -/

mutual

theorem typeOf (field : String) : ∀ kind : Kind String, (∀ l ∈ kind.links field, R l.target []) →
    R (typeOf kind) (typeLiterals kind)
  | .string, _ | .boolean, _ | .number, _ | .date, _ | .markdown, _ | .other _, _ => by
    rw [TypeScript.typeOf, typeLiterals]
    exact hR.bare (by decide)
  | .enum options, _ => by
    rw [TypeScript.typeOf, typeLiterals]
    exact hR.literalUnion options
  | .object target, h | .reference target, h => by
    rw [TypeScript.typeOf, typeLiterals]
    exact h _ (List.mem_singleton.mpr rfl)
  | .inlineObject fields, h => by
    rw [TypeScript.typeOf, typeLiterals]
    exact hR.objectType (members fields h)
  | .list item, h => by
    rw [links_list] at h
    rw [TypeScript.typeOf, typeLiterals]
    exact hR.arrayOf (elementType field item h) _
  | .polymorphicList items typeField, h => by
    exact hR.polymorphicList (elementTypes field typeField items h)

theorem members : ∀ fields : List Canonical.Field, (∀ l ∈ links fields, R l.target []) →
    ∀ f ∈ fields, R (memberText f) (fieldLiterals f)
  | [], _ => by simp
  | ⟨a, kind⟩ :: rest, h => by
    rw [links, List.forall_mem_append] at h
    rw [List.forall_mem_cons]
    refine ⟨?_, members rest h.2⟩
    exact hR.append (hR.append_bare (hR.fieldKey a) (by decide)) (typeOf a.name kind h.1)

theorem elementType (field : String) : ∀ item : Canonical.Item, (∀ l ∈ itemLinks field [item], R l.target []) →
    R (elementType item) (itemLiterals item)
  | ⟨_, .string⟩, _ | ⟨_, .boolean⟩, _ => by
    rw [TypeScript.elementType, itemLiterals]
    exact hR.bare (by decide)
  | ⟨_, .object target⟩, h => by
    rw [TypeScript.elementType, itemLiterals]
    exact h _ (List.mem_singleton.mpr rfl)
  | ⟨_, .enum options⟩, _ => by
    rw [TypeScript.elementType, itemLiterals]
    exact hR.literalUnion options
  | ⟨_, .inlineObject fields⟩, h => by
    rw [TypeScript.elementType, itemLiterals]
    exact hR.objectType (members fields (by simpa [itemLinks] using h))

theorem elementTypes (field typeField : String) : ∀ items : List Canonical.Item,
    (∀ l ∈ itemLinks field items, R l.target []) → ∀ item ∈ items, R (elementText typeField item) (taggedLiterals typeField item)
  | [], _ => by simp
  | item :: rest, h => by
    rw [itemLinks_cons, List.forall_mem_append] at h
    have hrest := elementTypes field typeField rest h.2
    rw [List.forall_mem_cons]
    refine ⟨?_, hrest⟩
    obtain ⟨_, kind⟩ := item
    cases kind with
    | inlineObject fields =>
      exact hR.bracedMembers (hR.taggedMembers (members fields (by simpa [itemLinks] using h.1)))
    | string | boolean | object target | enum options => exact elementType field _ h.1

end

end Piecewise

end TypeScript

end TypedContent
