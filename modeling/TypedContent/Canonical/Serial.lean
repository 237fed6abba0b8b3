import TypedContent.Canonical.Definition

/-!
# The canonical schema as JSON

Tables are objects keyed by name. A field's kind is spread over the members of the field,
its name under `type`; attributes that are not set are left out.
-/

namespace TypedContent

open Json (optional strings)

def Attributes.toMembers (a : Attributes String) : List (String × Json) :=
  [("name", .str a.name), ("label", .str a.label)]
    ++ optional "description" (a.description.map .str)
    ++ optional "default" a.default
    ++ optional "required" (a.required.map .bool)
    ++ optional "const" a.const
    ++ optional "hidden" (a.hidden.map .bool)

mutual

def Kind.toMembers : Kind String → List (String × Json)
  | .enum options => [("type", .str "enum"), ("options", strings options)]
  | .object target => [("type", .str "object"), ("objectName", .str target)]
  | .inlineObject fields => [("type", .str "inline_object"), ("fieldDefs", .arr (fieldsToJson fields))]
  | .reference target => [("type", .str "reference"), ("documentName", .str target)]
  | .list item => [("type", .str "list"), ("of", itemToJson item)]
  | .polymorphicList items typeField =>
    [("type", .str "polymorphic_list"), ("typeField", .str typeField), ("of", .arr (itemsToJson items))]
  | kind => [("type", .str kind.typeName)]

def fieldsToJson : List Canonical.Field → List Json
  | [] => []
  | ⟨a, kind⟩ :: rest => .obj (a.toMembers ++ kind.toMembers) :: fieldsToJson rest

def itemToJson : Canonical.Item → Json
  | ⟨labelField, .object target⟩ =>
    .obj (optional "labelField" (labelField.map .str) ++ [("type", .str "object"), ("objectName", .str target)])
  | ⟨labelField, .enum options⟩ =>
    .obj (optional "labelField" (labelField.map .str) ++ [("type", .str "enum"), ("options", strings options)])
  | ⟨labelField, .inlineObject fields⟩ =>
    .obj (optional "labelField" (labelField.map .str)
      ++ [("type", .str "inline_object"), ("fieldDefs", .arr (fieldsToJson fields))])
  | ⟨labelField, kind⟩ => .obj (optional "labelField" (labelField.map .str) ++ [("type", .str kind.typeName)])

def itemsToJson : List Canonical.Item → List Json
  | [] => []
  | item :: rest => itemToJson item :: itemsToJson rest

end

def ComputedField.toJson (c : ComputedField) : Json :=
  .obj ([("name", .str c.name)]
    ++ optional "description" (c.description.map .str)
    ++ [("type", .str c.type.text), ("resolve", .str c.resolve)])

namespace Canonical

def Document.toJson (d : Document) : Json :=
  .obj ([("name", .str d.name), ("label", .str d.label)]
    ++ optional "description" (d.description.map .str)
    ++ optional "labelField" (d.labelField.map .str)
    ++ [("isSingleton", .bool d.isSingleton),
        ("fieldDefs", .arr (fieldsToJson d.fields)),
        ("computedFields", .arr (d.computed.map (·.toJson)))])

def Object.toJson (o : Object) : Json :=
  .obj ([("name", .str o.name), ("label", .str o.label)]
    ++ optional "description" (o.description.map .str)
    ++ optional "labelField" (o.labelField.map .str)
    ++ [("fieldDefs", .arr (fieldsToJson o.fields))])

def Schema.toJson (s : Schema) : Json :=
  .obj [("documentDefMap", s.documents.toJson (·.toJson)), ("objectDefMap", s.objects.toJson (·.toJson))]

end Canonical

end TypedContent
