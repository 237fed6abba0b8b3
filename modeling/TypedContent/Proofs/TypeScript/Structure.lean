import TypedContent.Proofs.Field.Level
import TypedContent.Proofs.TypeScript.Parser

/-!
# The structure of a type

`structureOf` is the type that a kind stands for, as a tree. The text that is rendered for the
kind shows that tree, whatever the options, keys and nesting, if only every name that it refers
to is an identifier.
-/

namespace TypedContent

namespace TypeScript

def literals (options : List String) : List TypeExpr :=
  if options.isEmpty then [.name "never"] else options.map .literal

/-- The member that tells items apart, unless the item declares it. -/
def tagMember (typeField : String) (fields : List Canonical.Field) : List (Member TypeExpr) :=
  if fields.any (·.name = typeField) then [] else [⟨typeField, false, .name "string"⟩]

mutual

def structureOf : Kind String → TypeExpr
  | .string => .name "string"
  | .boolean => .name "boolean"
  | .number => .name "number"
  | .date => .name dateType
  | .markdown => .name markdownType
  | .enum options => unionOf (literals options)
  | .object target => .name target
  | .inlineObject fields => .object (memberStructures fields)
  | .reference target => .name target
  | .list item => .array (unionOf (itemAlternatives item))
  | .polymorphicList items typeField => .array (unionOf (taggedAlternatives typeField items).flatten)
  | .other _ => .name "any"

def memberStructures : List Canonical.Field → List (Member TypeExpr)
  | [] => []
  | ⟨a, kind⟩ :: rest => ⟨a.name, !a.isRequired, structureOf kind⟩ :: memberStructures rest

def itemAlternatives : Canonical.Item → List TypeExpr
  | ⟨_, .string⟩ => [.name "string"]
  | ⟨_, .boolean⟩ => [.name "boolean"]
  | ⟨_, .object target⟩ => [.name target]
  | ⟨_, .enum options⟩ => literals options
  | ⟨_, .inlineObject fields⟩ => [.object (memberStructures fields)]

/-- What each of the items may be, if `typeField` tells them apart. -/
def taggedAlternatives (typeField : String) : List Canonical.Item → List (List TypeExpr)
  | [] => []
  | ⟨_, .inlineObject fields⟩ :: rest =>
    [.object (tagMember typeField fields ++ memberStructures fields)] :: taggedAlternatives typeField rest
  | item :: rest => itemAlternatives item :: taggedAlternatives typeField rest

end

/-! ## Enumerations and items -/

theorem shows_literals : ∀ options : List String,
    List.Forall₂ Shows (options.map stringLiteral) (options.map fun o => [.literal o])
  | [] => .nil
  | o :: options => .cons (shows_literal o) (shows_literals options)

theorem shows_literalUnion (options : List String) : Shows (literalUnion options) (literals options) := by
  unfold literalUnion literals
  split
  · exact shows_name (by decide)
  · next h =>
    have hne : options.map stringLiteral ≠ [] := by simpa using h
    have hflat : (options.map fun o => [TypeExpr.literal o]).flatten = options.map .literal := by
      rw [← List.flatMap_def, ← List.map_eq_flatMap]
    rw [← hflat]
    exact shows_unions (shows_literals options) hne

theorem itemAlternatives_singleton {item : Canonical.Item} (h : isUnion item = false) :
    ∃ t, itemAlternatives item = [t] := by
  obtain ⟨_, kind⟩ := item
  cases kind with
  | enum options =>
    match options with
    | [] | [_] => exact ⟨_, by rw [itemAlternatives]; rfl⟩
    | _ :: _ :: _ => simp [isUnion] at h
  | string | boolean | object target | inlineObject fields => exact ⟨_, by rw [itemAlternatives]⟩

/-! ## Kinds -/

theorem shows_taggedMembers {typeField : String} {fields : List Canonical.Field} {texts : List String}
    {ms : List (Member TypeExpr)} (h : List.Forall₂ ShowsMember texts ms) :
    List.Forall₂ ShowsMember (taggedMembers typeField fields texts) (tagMember typeField fields ++ ms) := by
  unfold taggedMembers tagMember
  split
  · exact h
  · have htype : Shows "string" [.name "string"] := shows_name (by decide)
    have e : propertyName typeField ++ ": string" = propertyName typeField ++ ": " ++ "string" := by
      rw [String.append_assoc]
      rfl
    rw [e]
    exact .cons (showsMember_required htype) h

theorem taggedMembers_ne_nil {typeField : String} {fields : List Canonical.Field} :
    taggedMembers typeField fields (members fields) ≠ [] := by
  unfold taggedMembers
  split
  · next h =>
    cases fields with
    | nil => cases h
    | cons f rest => simp [members]
  · simp

theorem elementTypes_ne_nil {typeField : String} {item : Canonical.Item} {rest : List Canonical.Item} :
    elementTypes typeField (item :: rest) ≠ [] := by
  obtain ⟨_, kind⟩ := item
  cases kind <;> simp [elementTypes]

theorem taggedAlternatives_single (typeField : String) (item : Canonical.Item) :
    ∃ ts, taggedAlternatives typeField [item] = [ts] ∧ (isUnion item = false → ∃ t, ts = [t]) := by
  obtain ⟨_, kind⟩ := item
  cases kind with
  | inlineObject fields => exact ⟨_, by rw [taggedAlternatives, taggedAlternatives], fun _ => ⟨_, rfl⟩⟩
  | string | boolean | object target | enum options =>
    exact ⟨_, by simp only [taggedAlternatives], itemAlternatives_singleton⟩

/-- The items stand in parentheses unless there is one that is not a union. -/
theorem shows_polymorphicList {items : List Canonical.Item} {typeField : String}
    (h : List.Forall₂ Shows (elementTypes typeField items) (taggedAlternatives typeField items)) :
    Shows (typeOf (.polymorphicList items typeField))
      [.array (unionOf (taggedAlternatives typeField items).flatten)] := by
  match items with
  | [] =>
    have hnever : Shows "never" [.name "never"] := shows_name (by decide)
    rw [typeOf, taggedAlternatives]
    exact shows_array hnever
  | [item] =>
    obtain ⟨ts, hts, hu⟩ := taggedAlternatives_single typeField item
    rw [hts] at h ⊢
    generalize he : elementTypes typeField [item] = texts at h
    cases h with
    | @cons element _ _ _ ht hnil =>
      cases hnil
      simp only [typeOf, he, List.flatten_singleton]
      exact shows_arrayOf ht hu
  | item :: item' :: rest =>
    have e : typeOf (.polymorphicList (item :: item' :: rest) typeField) =
        arrayOf (" | ".intercalate (elementTypes typeField (item :: item' :: rest))) true := by
      simp [typeOf]
    rw [e]
    exact shows_arrayOf (shows_unions h elementTypes_ne_nil) (by simp)

mutual

theorem shows_typeOf (field : String) : ∀ kind : Kind String, (∀ l ∈ kind.links field, isIdentifier l.target = true) →
    ∃ ts, Shows (typeOf kind) ts ∧ unionOf ts = structureOf kind
  | .string, _ | .boolean, _ | .number, _ | .date, _ | .markdown, _ | .other _, _ =>
    ⟨_, shows_name (by rw [typeOf]; decide), by rw [structureOf, unionOf, typeOf]⟩
  | .enum options, _ => ⟨_, shows_literalUnion options, by rw [structureOf]⟩
  | .object target, h | .reference target, h =>
    ⟨[.name target], shows_name (h _ (List.mem_singleton.mpr rfl)), by rw [structureOf, unionOf]⟩
  | .inlineObject fields, h => ⟨_, shows_objectType (shows_members fields h), by rw [structureOf, unionOf]⟩
  | .list item, h => by
    rw [links_list] at h
    exact ⟨_, shows_arrayOf (shows_elementType field item h) itemAlternatives_singleton, by rw [structureOf, unionOf]⟩
  | .polymorphicList items typeField, h => by
    have hs := shows_elementTypes field typeField items h
    refine ⟨[.array (unionOf (taggedAlternatives typeField items).flatten)], ?_, by rw [structureOf, unionOf]⟩
    exact shows_polymorphicList hs

theorem shows_members : ∀ fields : List Canonical.Field, (∀ l ∈ links fields, isIdentifier l.target = true) →
    List.Forall₂ ShowsMember (members fields) (memberStructures fields)
  | [], _ => .nil
  | ⟨a, kind⟩ :: rest, h => by
    rw [links, List.forall_mem_append] at h
    obtain ⟨ts, ht, e⟩ := shows_typeOf a.name kind h.1
    rw [members, memberStructures, ← e]
    refine .cons (showsMember_of_shows ?_ ht) (shows_members rest h.2)
    cases a.isRequired <;> rfl

theorem shows_elementType (field : String) : ∀ item : Canonical.Item,
    (∀ l ∈ itemLinks field [item], isIdentifier l.target = true) → Shows (elementType item) (itemAlternatives item)
  | ⟨_, .string⟩, _ | ⟨_, .boolean⟩, _ => shows_name (by rw [elementType]; decide)
  | ⟨_, .object target⟩, h => shows_name (h _ (List.mem_singleton.mpr rfl))
  | ⟨_, .enum options⟩, _ => shows_literalUnion options
  | ⟨_, .inlineObject fields⟩, h => shows_objectType (shows_members fields (by simpa [itemLinks] using h))

theorem shows_elementTypes (field typeField : String) : ∀ items : List Canonical.Item,
    (∀ l ∈ itemLinks field items, isIdentifier l.target = true) →
      List.Forall₂ Shows (elementTypes typeField items) (taggedAlternatives typeField items)
  | [], _ => .nil
  | item :: rest, h => by
    rw [itemLinks_cons, List.forall_mem_append] at h
    have hrest := shows_elementTypes field typeField rest h.2
    obtain ⟨_, kind⟩ := item
    cases kind with
    | inlineObject fields =>
      rw [elementTypes, taggedAlternatives]
      have hm := shows_members fields (by simpa [itemLinks] using h.1)
      exact .cons (shows_bracedMembers (shows_taggedMembers hm) taggedMembers_ne_nil) hrest
    | string | boolean | object target | enum options =>
      simp only [elementTypes, taggedAlternatives]
      exact .cons (shows_elementType field _ h.1) hrest

end

end TypeScript

end TypedContent
