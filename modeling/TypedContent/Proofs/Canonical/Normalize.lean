import TypedContent.Canonical.Normalize
import TypedContent.Proofs.Schema.Walk

/-!
# What a successful normalization consists of

Settling changes no reference, so the references of the canonical definitions are those of
the definitions they come from. A normalization succeeds if all of them resolve, and then its
tables are those definitions settled one by one.
-/

namespace TypedContent

/-! ## References stay -/

theorem links_append {Label : Type} : ∀ a b : List (Field Label), links (a ++ b) = links a ++ links b
  | [], _ => rfl
  | ⟨_, _⟩ :: rest, b => by
    rw [List.cons_append, links, links, links_append rest b, List.append_assoc]

mutual

theorem links_settle_kind (field : String) : ∀ kind : Kind (Option String), kind.settle.links field = kind.links field
  | .inlineObject fields => by rw [Kind.settle, Kind.links, Kind.links, links_settle fields]
  | .list item => by rw [Kind.settle, links_list, links_list, itemLinks_settle field item]
  | .polymorphicList items _ => by rw [Kind.settle, Kind.links, Kind.links, itemLinks_settleItems field items]
  | .object _ | .reference _ | .string | .boolean | .number | .date | .markdown | .enum _ | .other _ => by
    simp [Kind.settle, Kind.links]

theorem links_settle : ∀ fields : List SourceField, links (settle fields) = links fields
  | [] => rfl
  | ⟨a, kind⟩ :: rest => by rw [settle, links, links, links_settle_kind a.name kind, links_settle rest]

theorem itemLinks_settle (field : String) : ∀ item : SourceItem,
    itemLinks field [settleItem item] = itemLinks field [item]
  | ⟨_, .inlineObject fields⟩ => by simp only [settleItem, itemLinks, links_settle fields]
  | ⟨_, .object _⟩ | ⟨_, .string⟩ | ⟨_, .boolean⟩ | ⟨_, .enum _⟩ => by simp [settleItem, itemLinks]

theorem itemLinks_settleItems (field : String) : ∀ items : List SourceItem,
    itemLinks field (settleItems items) = itemLinks field items
  | [] => rfl
  | item :: rest => by
    rw [settleItems, itemLinks_cons, itemLinks_settle field item, itemLinks_settleItems field rest, ← itemLinks_cons]

end

namespace Schema

theorem links_documentFields (d : DocumentType) : links (documentFields d) = links d.fields := by
  unfold documentFields
  split
  · rw [links_append, links_settle]
    simp [contentFieldDefinition, links, Kind.links]
  · exact links_settle d.fields

/-! ## Success -/

variable {s : Schema}

theorem checkLinks_eq_ok {owner : String} {fields : List SourceField} :
    s.checkLinks owner fields = .ok () ↔ ∀ l ∈ links fields, s.resolves l = true := by
  unfold checkLinks
  cases h : (links fields).find? fun l => !s.resolves l with
  | none => simpa using h
  | some l =>
    have hm := List.mem_of_find?_eq_some h
    have hr := List.find?_some h
    simp only [reduceCtorEq, false_iff]
    intro hn
    rw [hn l hm] at hr
    cases hr

/-- The parts of a successful normalization that gave the canonical schema `c`: the objects
`found` were collected, all references resolve, and the tables hold what was settled. -/
structure Normalized (s : Schema) (found : List ObjectType) (c : Canonical.Schema) : Prop where
  collected : s.collect = .ok found
  documents : c.documents.entries = s.documents.entries.map settleDocument
  objects : c.objects.entries = found.map settleObject
  document_links : ∀ d ∈ s.documents.entries, ∀ l ∈ links d.fields, s.resolves l = true
  object_links : ∀ o ∈ found, ∀ l ∈ links o.fields, s.resolves l = true
  documents_nodup : c.documents.names.Nodup
  objects_nodup : c.objects.names.Nodup

theorem normalized_of_ok {c : Canonical.Schema} (h : s.normalize = .ok c) : ∃ found, s.Normalized found c := by
  unfold normalize at h
  simp only [bind_eq_ok, pure_eq_ok] at h
  obtain ⟨documents, hd, found, hc, objects, ho, rfl⟩ := h
  obtain ⟨hdl, hde, hdn⟩ := Table.foldlM_insert hd
  obtain ⟨hol, hoe, hon⟩ := Table.foldlM_insert ho
  exact ⟨found, {
    collected := hc
    documents := hde
    objects := hoe
    document_links := fun d hd => checkLinks_eq_ok.mp (hdl d hd)
    object_links := fun o ho => checkLinks_eq_ok.mp (hol o ho)
    documents_nodup := hdn List.nodup_nil
    objects_nodup := hon List.nodup_nil }⟩

end Schema

end TypedContent
