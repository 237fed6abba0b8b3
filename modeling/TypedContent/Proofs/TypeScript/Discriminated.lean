import TypedContent.Proofs.Canonical.Properties
import TypedContent.Proofs.TypeScript.RoundTrip

/-!
# Members that tell items apart

The inline objects among the items of a list are written out as object types. In a list of several
kinds of items each of them must have the member that tells them apart, and once only. So it is put
first, unless the item declares it. This is said of the declaration that is read back, at every
depth: a path leads from the fields of a definition to those of an inline object, and the same path
leads from the members of the declaration to those that are written for them.
-/

namespace TypedContent

variable {Label : Type}

/-- Each step of a path names a field and counts its inline objects. -/
def fieldsAt? (fields : List (Field Label)) : List (String × Nat) → Option (List (Field Label))
  | [] => some fields
  | (name, i) :: path => do
    let f ← findField? name fields
    fieldsAt? (← f.kind.inlineFields[i]?) path

section
variable {fields : List (Field Label)}

theorem findField?_of_mem (hn : (fields.map (·.name)).Nodup) {f : Field Label} (hf : f ∈ fields) :
    findField? f.name fields = some f :=
  find?_of_distinct (fun f : Field Label => f.name) hn hf

/-- If names differ on every level, every level has a path. -/
theorem exists_path (hd : DistinctNames fields) {level : List (Field Label)} (h : Level fields level) :
    ∃ path, fieldsAt? fields path = some level := by
  induction h with
  | top => exact ⟨[], rfl⟩
  | @inside fields inner level f hf hh hl ih =>
    obtain ⟨hn, hin⟩ := distinctNames_iff.mp hd
    obtain ⟨path, hpath⟩ := ih (hin f hf inner hh)
    obtain ⟨i, hi⟩ := List.mem_iff_getElem?.mp (mem_inlineFields.mpr hh)
    refine ⟨(f.name, i) :: path, ?_⟩
    simp [fieldsAt?, findField?_of_mem hn hf, hi, hpath]

end

namespace TypeScript

/-! ## Object types that are written out -/

def alternatives : TypeExpr → List TypeExpr
  | .union ts => ts
  | t => [t]

def membersOf? : TypeExpr → Option (List (Member TypeExpr))
  | .object ms => some ms
  | _ => none

/-- The members of each object type that is written out in the type of a member. -/
def objectsOf : TypeExpr → List (List (Member TypeExpr))
  | .object ms => [ms]
  | .array element => (alternatives element).filterMap membersOf?
  | _ => []

def membersAt? (ms : List (Member TypeExpr)) : List (String × Nat) → Option (List (Member TypeExpr))
  | [] => some ms
  | (name, i) :: path => do
    let m ← ms.find? (·.key = name)
    membersAt? (← (objectsOf m.type)[i]?) path

def memberOf (f : Canonical.Field) : Member TypeExpr := ⟨f.name, !f.isRequired, structureOf f.kind⟩

theorem memberStructures_eq_map : ∀ fields : List Canonical.Field, memberStructures fields = fields.map memberOf
  | [] => by rw [memberStructures, List.map_nil]
  | ⟨a, kind⟩ :: rest => by rw [memberStructures, memberStructures_eq_map rest, List.map_cons, memberOf]

/-- What comes before the members of an inline object. -/
def tagOf : Kind String → List Canonical.Field → List (Member TypeExpr)
  | .polymorphicList _ typeField, fields => tagMember typeField fields
  | _, _ => []

theorem objectsOf_array {ts : List TypeExpr} (h : ∀ t ∈ ts, ∀ us, t ≠ .union us) :
    objectsOf (.array (unionOf ts)) = ts.filterMap membersOf? := by
  unfold objectsOf
  match ts with
  | [] => rfl
  | [t] =>
    cases t with
    | union us => exact absurd rfl (h _ (List.mem_singleton_self _) us)
    | _ => rfl
  | _ :: _ :: _ => rfl

theorem itemAlternatives_ne_union (item : Canonical.Item) : ∀ t ∈ itemAlternatives item, ∀ us, t ≠ .union us := by
  obtain ⟨_, kind⟩ := item
  cases kind with
  | enum options =>
    rw [itemAlternatives, literals]
    split <;> simp
  | _ => simp [itemAlternatives]

theorem itemAlternatives_objects (item : Canonical.Item) :
    (itemAlternatives item).filterMap membersOf? = (item.inlineFields?.map memberStructures).toList := by
  obtain ⟨_, kind⟩ := item
  cases kind with
  | enum options =>
    rw [itemAlternatives, literals]
    split <;> simp [membersOf?, ItemOf.inlineFields?]
  | _ => simp [itemAlternatives, membersOf?, ItemOf.inlineFields?]

theorem taggedAlternatives_cons (typeField : String) (item : Canonical.Item) (rest : List Canonical.Item) :
    ∃ ts, taggedAlternatives typeField (item :: rest) = ts :: taggedAlternatives typeField rest ∧
      (∀ t ∈ ts, ∀ us, t ≠ .union us) ∧ ts.filterMap membersOf? =
        (item.inlineFields?.map fun fields => tagMember typeField fields ++ memberStructures fields).toList := by
  have hne := itemAlternatives_ne_union item
  have hobjects := itemAlternatives_objects item
  obtain ⟨labelField, kind⟩ := item
  cases kind with
  | inlineObject fields => exact ⟨_, by rw [taggedAlternatives], by simp, rfl⟩
  | string | boolean | object target | enum options => exact ⟨_, by simp only [taggedAlternatives], hne, hobjects⟩

theorem taggedAlternatives_ne_union (typeField : String) (items : List Canonical.Item) :
    ∀ t ∈ (taggedAlternatives typeField items).flatten, ∀ us, t ≠ .union us := by
  induction items with
  | nil => simp [taggedAlternatives]
  | cons item rest ih =>
    obtain ⟨ts, hts, hne, -⟩ := taggedAlternatives_cons typeField item rest
    rw [hts, List.flatten_cons, List.forall_mem_append]
    exact ⟨hne, ih⟩

theorem taggedAlternatives_objects (typeField : String) (items : List Canonical.Item) :
    (taggedAlternatives typeField items).flatten.filterMap membersOf? =
      (items.filterMap ItemOf.inlineFields?).map fun fields => tagMember typeField fields ++ memberStructures fields := by
  induction items with
  | nil => simp [taggedAlternatives]
  | cons item rest ih =>
    obtain ⟨ts, hts, -, hobjects⟩ := taggedAlternatives_cons typeField item rest
    rw [hts, List.flatten_cons, List.filterMap_append, hobjects, ih, List.filterMap_cons]
    cases item.inlineFields? <;> rfl

/-- The object types of a kind are those of its inline objects, in their order. -/
theorem objectsOf_structureOf (kind : Kind String) :
    objectsOf (structureOf kind) = kind.inlineFields.map fun fields => tagOf kind fields ++ memberStructures fields := by
  cases kind with
  | list item =>
    rw [structureOf, objectsOf_array (itemAlternatives_ne_union item), itemAlternatives_objects]
    cases h : item.inlineFields? <;> simp [Kind.inlineFields, Kind.items, h, tagOf]
  | polymorphicList items typeField =>
    rw [structureOf, objectsOf_array (taggedAlternatives_ne_union typeField items), taggedAlternatives_objects]
    rfl
  | enum options =>
    rw [structureOf, literals]
    rcases options with _ | ⟨_, _ | ⟨_, _⟩⟩ <;> rfl
  | _ =>
    rw [structureOf]
    rfl

/-! ## Along a path -/

section
variable {fields level : List Canonical.Field} {ms : List (Member TypeExpr)} {typeField : String}

/-- The first member of the name of a field is the field's. -/
def Carries (fields : List Canonical.Field) (ms : List (Member TypeExpr)) : Prop :=
  ∀ f ∈ fields, ms.find? (·.key = f.name) = some (memberOf f)

theorem carries_between (hn : (fields.map (·.name)).Nodup) {before after : List (Member TypeExpr)}
    (hb : ∀ f ∈ fields, f.name ∉ before.map (·.key)) : Carries fields (before ++ (memberStructures fields ++ after)) := by
  intro f hf
  have hbefore : before.find? (·.key = f.name) = none := by
    rw [List.find?_eq_none]
    intro m hm hkey
    exact hb f hf (List.mem_map.mpr ⟨m, hm, by simpa using hkey⟩)
  have hfields : (memberStructures fields).find? (·.key = f.name) = some (memberOf f) := by
    rw [memberStructures_eq_map, List.find?_map]
    exact congrArg (Option.map memberOf) (findField?_of_mem hn hf)
  rw [List.find?_append, hbefore, Option.none_or, List.find?_append, hfields, Option.some_or]

theorem tagMember_declared (h : typeField ∈ fields.map (·.name)) : tagMember typeField fields = [] := by
  obtain ⟨f, hf, hname⟩ := List.mem_map.mp h
  exact if_pos (List.any_eq_true.mpr ⟨f, hf, decide_eq_true hname⟩)

theorem tagMember_added (h : typeField ∉ fields.map (·.name)) :
    tagMember typeField fields = [⟨typeField, false, .name "string"⟩] := by
  refine if_neg fun hany => h ?_
  obtain ⟨f, hf, hname⟩ := List.any_eq_true.mp hany
  exact List.mem_map.mpr ⟨f, hf, of_decide_eq_true hname⟩

theorem carries_tagOf (kind : Kind String) (hn : (fields.map (·.name)).Nodup) :
    Carries fields (tagOf kind fields ++ memberStructures fields) := by
  rw [← List.append_nil (memberStructures fields)]
  refine carries_between hn fun f hf => ?_
  have hm : f.name ∈ fields.map (·.name) := List.mem_map_of_mem hf
  cases kind with
  | polymorphicList items typeField =>
    rw [tagOf]
    by_cases hdeclared : typeField ∈ fields.map (·.name)
    · rw [tagMember_declared hdeclared]
      exact List.not_mem_nil
    · rw [tagMember_added hdeclared, List.map_singleton, List.mem_singleton]
      rintro rfl
      exact hdeclared hm
  | _ => exact List.not_mem_nil

/-- From the members of fields the members of the fields at each place are reached by its path. -/
theorem exists_membersAt? {path : List (String × Nat)} : ∀ {fields : List Canonical.Field} {ms : List (Member TypeExpr)},
    DistinctNames fields → Carries fields ms → fieldsAt? fields path = some level →
      ∃ inner, membersAt? ms path = some inner ∧ Carries level inner ∧ DistinctNames level := by
  induction path with
  | nil =>
    intro fields ms hd hc h
    cases h
    exact ⟨ms, rfl, hc, hd⟩
  | cons step path ih =>
    intro fields ms hd hc h
    obtain ⟨name, i⟩ := step
    simp only [fieldsAt?, Option.bind_eq_bind, Option.bind_eq_some_iff] at h
    obtain ⟨f, hf, inner, hinner, h⟩ := h
    have hmem : f ∈ fields := List.mem_of_find?_eq_some hf
    have hname : f.name = name := by simpa using List.find?_some hf
    have hdinner := (distinctNames_iff.mp hd).2 f hmem inner (mem_inlineFields.mp (List.mem_of_getElem? hinner))
    obtain ⟨ms', hms', hc', hd'⟩ := ih hdinner (carries_tagOf f.kind (hdinner _ .top)) h
    refine ⟨ms', ?_, hc', hd'⟩
    simp only [membersAt?, ← hname, hc f hmem, Option.bind_eq_bind, Option.bind_some]
    rw [memberOf, objectsOf_structureOf, List.getElem?_map, hinner]
    exact hms'

/-! ## Items told apart -/

/-- The members that are written for an item with the fields. -/
structure TellsApart (typeField : String) (fields : List Canonical.Field) (ms : List (Member TypeExpr)) : Prop where
  distinct : (ms.map (·.key)).Nodup
  once : (ms.map (·.key)).count typeField = 1
  declared : typeField ∈ fields.map (·.name) → ms = fields.map memberOf
  added : typeField ∉ fields.map (·.name) → ms = ⟨typeField, false, .name "string"⟩ :: fields.map memberOf

theorem tellsApart (typeField : String) (hn : (fields.map (·.name)).Nodup) :
    TellsApart typeField fields (tagMember typeField fields ++ memberStructures fields) := by
  have hkeys : (fields.map memberOf).map (·.key) = fields.map (·.name) := by
    rw [List.map_map]
    rfl
  rw [memberStructures_eq_map]
  by_cases h : typeField ∈ fields.map (·.name)
  · rw [tagMember_declared h, List.nil_append]
    exact {
      distinct := hkeys ▸ hn
      once := by rw [hkeys, List.count_eq_one_of_mem hn h]
      declared := fun _ => rfl
      added := fun hnew => absurd h hnew }
  · rw [tagMember_added h, List.singleton_append]
    exact {
      distinct := by rw [List.map_cons, hkeys]; exact List.nodup_cons.mpr ⟨h, hn⟩
      once := by rw [List.map_cons, hkeys, List.count_cons_self, List.count_eq_zero_of_not_mem h]
      declared := fun hm => absurd hm h
      added := fun _ => rfl }

theorem items_tellApart (hn : ∀ inner, ∀ f ∈ fields, f.kind.Holds inner → (inner.map (·.name)).Nodup)
    {f : Canonical.Field} (hf : f ∈ fields) {items : List Canonical.Item} (hk : f.kind = .polymorphicList items typeField) :
    List.Forall₂ (TellsApart typeField) (items.filterMap ItemOf.inlineFields?) (objectsOf (memberOf f).type) := by
  have hinline : f.kind.inlineFields = items.filterMap ItemOf.inlineFields? := by
    rw [hk]
    rfl
  rw [memberOf, objectsOf_structureOf, hinline, hk, List.forall₂_map_right_iff, List.forall₂_same]
  intro inner hi
  rw [← hinline] at hi
  exact tellsApart typeField (hn inner f hf (mem_inlineFields.mp hi))

end

/-! ## Definitions -/

theorem definitions_distinct {s : Schema} {found : List ObjectType} {c : Canonical.Schema} (hn : s.Normalized found c)
    (hv : s.Valid) {d : Definition} (hd : d ∈ definitions c) :
    DistinctNames d.fields ∧ ∀ f ∈ d.fields, f.name ∉ (headMembers d).map (·.key) := by
  rcases List.mem_append.mp hd with hdocument | hobject
  · obtain ⟨_, hsettled, rfl⟩ := List.mem_map.mp hdocument
    rw [hn.documents] at hsettled
    obtain ⟨d, hmem, rfl⟩ := List.mem_map.mp hsettled
    have hvalid := hv.documents d hmem
    refine ⟨Schema.distinctNames_documentFields hvalid, fun f hf hm => ?_⟩
    have hkey : f.name = idField ∨ f.name = typeNameField := by simpa [headMembers] using hm
    exact Schema.reserved_not_mem hvalid hkey (List.mem_append_left _ (List.mem_map_of_mem hf))
  · obtain ⟨_, hsettled, rfl⟩ := List.mem_map.mp hobject
    rw [hn.objects] at hsettled
    obtain ⟨o, hmem, rfl⟩ := List.mem_map.mp hsettled
    have hvalid := hv.objects o (Table.get?_some (hn.registered o hmem)).1
    refine ⟨distinctNames_settle o.fields hvalid.distinct, fun f hf hm => ?_⟩
    have hkey : f.name = typeNameField := by simpa [headMembers] using hm
    have hname : f.name ∈ o.fields.map (·.name) := names_settle o.fields ▸ List.mem_map_of_mem hf
    exact hvalid.not_reserved _ hname hkey

/-- Whatever calls built the schema, and wherever in a definition of its canonical form a list of
several kinds of items is: the declaration that is read back has at that place one object type for
each inline object among the items, in which no key comes twice and the key that tells the items
apart comes once. The item's own members follow each other as it declares them, and if it does not
declare that one it is put first, as a string that must be there. -/
theorem items_told_apart (calls : List Addition) (c : Canonical.Schema) (h : (Schema.run calls).normalize = .ok c) :
    ∀ d ∈ definitions c, ∃ ms, parseDeclaration (renderDefinition d) = some ⟨d.name, .object ms⟩ ∧
      (∀ level, Level d.fields level → ∃ path, fieldsAt? d.fields path = some level) ∧
      ∀ path level, fieldsAt? d.fields path = some level → ∃ inner, membersAt? ms path = some inner ∧
        ∀ f ∈ level, ∀ items typeField, f.kind = .polymorphicList items typeField →
          ∃ m, inner.find? (·.key = f.name) = some m ∧
            List.Forall₂ (TellsApart typeField) (items.filterMap ItemOf.inlineFields?) (objectsOf m.type) := by
  obtain ⟨found, hn⟩ := Schema.normalized_of_ok h
  have hv := Schema.run_valid calls
  have hid := names_identifier hn hv
  intro d hd
  obtain ⟨table, hname⟩ := definitions_name hd
  obtain ⟨hdistinct, hhead⟩ := definitions_distinct hn hv hd
  have hparse := parse_renderDefinition (hid table _ hname) fun l hl =>
    hid _ _ (hn.closed _ (definitions_fields hd) l ((mem_links_iff _).mp hl))
  refine ⟨_, hparse, fun level hl => exists_path hdistinct hl, fun path level hpath => ?_⟩
  rw [List.append_assoc]
  obtain ⟨inner, hinner, hcarries, hlevel⟩ :=
    exists_membersAt? hdistinct (carries_between (hdistinct _ .top) hhead) hpath
  refine ⟨inner, hinner, fun f hf items typeField hk => ⟨_, hcarries f hf, ?_⟩⟩
  exact items_tellApart (fun _ g hg hh => (distinctNames_iff.mp hlevel).2 g hg _ hh _ .top) hf hk

/-- Items that are told apart by a key that is empty, one of which declares it and has in it items
that are told apart by a key with a quote. -/
def gallery : List Addition := [
  .document { name := "Page", fileType := some .json, fields := [
    ⟨{ name := "blocks", label := none }, .polymorphicList [
      { kind := .inlineObject [
        ⟨{ name := "", label := none }, .enum ["row"]⟩,
        ⟨{ name := "cells", label := none }, .polymorphicList [{ kind := .inlineObject [] }] "it's"⟩] },
      { kind := .enum ["rule", "gap"] },
      { kind := .inlineObject [⟨{ name := "url", label := none }, .string⟩] }] ""⟩] }]

def galleryRow : List Canonical.Field := [
  ⟨{ name := "", label := "" }, .enum ["row"]⟩,
  ⟨{ name := "cells", label := "cells" }, .polymorphicList [{ kind := .inlineObject [] }] "it's"⟩]

def galleryPage : Canonical.Document where
  name := "Page"
  label := "Page"
  isSingleton := false
  computed := []
  fields := [⟨{ name := "blocks", label := "blocks" }, .polymorphicList [
    { kind := .inlineObject galleryRow },
    { kind := .enum ["rule", "gap"] },
    { kind := .inlineObject [⟨{ name := "url", label := "url" }, .string⟩] }] ""⟩]

def galleryCanonical : Canonical.Schema where
  documents := ⟨.document, [galleryPage]⟩
  objects := ⟨.object, []⟩

theorem gallery_told_apart : (Schema.run gallery).normalize = .ok galleryCanonical ∧
    ∃ ms, parseDeclaration (renderDefinition (.document galleryPage)) = some ⟨"Page", .object ms⟩ ∧
      (∃ m, ms.find? (·.key = "blocks") = some m ∧
        List.Forall₂ (TellsApart "") [galleryRow, [⟨{ name := "url", label := "url" }, .string⟩]] (objectsOf m.type)) ∧
      ∃ inner, membersAt? ms [("blocks", 0)] = some inner ∧ ∃ m, inner.find? (·.key = "cells") = some m ∧
        List.Forall₂ (TellsApart "it's") [[]] (objectsOf m.type) := by
  have h : (Schema.run gallery).normalize = .ok galleryCanonical := by cbv
  obtain ⟨ms, hparse, -, hplaces⟩ := items_told_apart gallery galleryCanonical h (.document galleryPage) List.mem_cons_self
  obtain ⟨_, htop, hblocks⟩ := hplaces [] _ rfl
  obtain ⟨inner, hrow, hcells⟩ := hplaces [("blocks", 0)] galleryRow rfl
  cases htop
  exact ⟨h, ms, hparse, hblocks _ List.mem_cons_self _ _ rfl,
    inner, hrow, hcells _ (List.mem_cons_of_mem _ List.mem_cons_self) _ _ rfl⟩

end TypeScript

end TypedContent
