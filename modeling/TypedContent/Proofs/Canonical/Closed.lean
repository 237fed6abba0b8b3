import Mathlib
import TypedContent.Proofs.Canonical.Normalize
import TypedContent.Proofs.Schema.Validation

/-!
# The canonical schema is closed and minimal

Every name that a canonical definition refers to, at any depth, is in the table it refers
to, and every object of the table is reached from a document. Both are said of the canonical
schema alone; that they hold is the work of the walk that collects the objects.
-/

namespace TypedContent

namespace Canonical.Schema

def names (c : Schema) : TableKind → List String
  | .document => c.documents.names
  | .object => c.objects.names

def fieldLists (c : Schema) : List (List Field) :=
  c.documents.entries.map (·.fields) ++ c.objects.entries.map (·.fields)

/-- Every reference, at any depth, is to a name in its table. -/
def Closed (c : Schema) : Prop := ∀ fields ∈ c.fieldLists, ∀ l, Makes fields l → l.target ∈ c.names l.table

/-- The names of objects to which references lead from a document. -/
inductive Reached (c : Schema) : String → Prop
  | fromDocument {d l} : d ∈ c.documents.entries → Makes d.fields l → l.table = .object → Reached c l.target
  | fromObject {o l} : o ∈ c.objects.entries → Reached c o.name → Makes o.fields l → l.table = .object →
    Reached c l.target

end Canonical.Schema

namespace Schema.Normalized

variable {s : Schema} {found : List ObjectType} {c : Canonical.Schema}

def roots (s : Schema) : List Pending := s.documents.entries.flatMap fun d => pending d.name d.fields

theorem walked (h : s.Normalized found c) : s.walk [] (roots s) = .ok found := h.collected

theorem registered (h : s.Normalized found c) : s.Registered found :=
  walk_registered h.walked (by simp [Registered])

theorem document_names (h : s.Normalized found c) : c.documents.names = s.documents.names := by
  rw [Table.names, h.documents, List.map_map]
  rfl

theorem object_names (h : s.Normalized found c) : c.objects.names = found.map (·.name) := by
  rw [Table.names, h.objects, List.map_map]
  rfl

theorem leads (h : s.Normalized found c) :
    (∀ p ∈ roots s, s.Leads found p) ∧ ∀ o ∈ found, ∀ p ∈ pending o.name o.fields, s.Leads found p := by
  obtain ⟨hdocuments, hobjects⟩ := collect_leads h.collected
  refine ⟨fun p hp => ?_, hobjects⟩
  obtain ⟨d, hd, hp⟩ := List.mem_flatMap.mp hp
  exact hdocuments d hd p hp

theorem target_found (h : s.Normalized found c) {p : Pending} (hp : s.Leads found p) :
    p.link.target ∈ c.objects.names := by
  obtain ⟨o, ho, hget⟩ := hp
  rw [h.object_names, ← (Table.get?_some hget).2]
  exact List.mem_map.mpr ⟨o, ho, rfl⟩

theorem target_mem (h : s.Normalized found c) {owner : String} {fields : List SourceField}
    (hres : ∀ l ∈ links fields, s.resolves l = true) (hlead : ∀ p ∈ pending owner fields, s.Leads found p) {l : Link}
    (hl : l ∈ links fields) : l.target ∈ c.names l.table := by
  cases ht : l.table with
  | document =>
    have hr := hres l hl
    rw [resolves, ht] at hr
    rw [Canonical.Schema.names, h.document_names]
    exact Table.contains_eq_true.mp hr
  | object => exact h.target_found (hlead ⟨owner, l⟩ (mem_pending.mpr ⟨rfl, ht, hl⟩))

theorem closed (h : s.Normalized found c) : c.Closed := by
  intro fields hfields l hl
  rw [← mem_links_iff] at hl
  rcases List.mem_append.mp hfields with hf | hf
  · obtain ⟨_, hd', rfl⟩ := List.mem_map.mp hf
    rw [h.documents] at hd'
    obtain ⟨d, hd, rfl⟩ := List.mem_map.mp hd'
    rw [show (settleDocument d).fields = documentFields d from rfl, links_documentFields] at hl
    exact h.target_mem (h.document_links d hd)
      (fun p hp => h.leads.1 p (List.mem_flatMap.mpr ⟨d, hd, hp⟩)) hl
  · obtain ⟨_, ho', rfl⟩ := List.mem_map.mp hf
    rw [h.objects] at ho'
    obtain ⟨o, ho, rfl⟩ := List.mem_map.mp ho'
    rw [show (settleObject o).fields = settle o.fields from rfl, links_settle] at hl
    exact h.target_mem (h.object_links o ho) (h.leads.2 o ho) hl

theorem settled_document (h : s.Normalized found c) {d : DocumentType} (hd : d ∈ s.documents.entries) :
    settleDocument d ∈ c.documents.entries := by
  rw [h.documents]
  exact List.mem_map.mpr ⟨d, hd, rfl⟩

theorem settled_object (h : s.Normalized found c) {o : ObjectType} (ho : o ∈ found) :
    settleObject o ∈ c.objects.entries := by
  rw [h.objects]
  exact List.mem_map.mpr ⟨o, ho, rfl⟩

theorem reached (h : s.Normalized found c) : ∀ o ∈ c.objects.entries, c.Reached o.name := by
  have hall : ∀ o ∈ found, c.Reached o.name := by
    refine walk_forall ?_ h.walked (by simp) ?_
    · intro o ho hr p hp x hx
      obtain ⟨-, ht, hl⟩ := mem_pending.mp hp
      rw [name_of_get? hx]
      refine .fromObject (h.settled_object ho) hr ?_ ht
      rw [← mem_links_iff, show (settleObject o).fields = settle o.fields from rfl, links_settle]
      exact hl
    · intro p hp x hx
      obtain ⟨d, hd, hp⟩ := List.mem_flatMap.mp hp
      obtain ⟨-, ht, hl⟩ := mem_pending.mp hp
      rw [name_of_get? hx]
      refine .fromDocument (h.settled_document hd) ?_ ht
      rw [← mem_links_iff, show (settleDocument d).fields = documentFields d from rfl, links_documentFields]
      exact hl
  intro o' ho'
  rw [h.objects] at ho'
  obtain ⟨o, ho, rfl⟩ := List.mem_map.mp ho'
  exact hall o ho

theorem objects_subset (h : s.Normalized found c) : c.objects.names ⊆ s.objects.names := by
  intro name hname
  rw [h.object_names] at hname
  obtain ⟨o, ho, rfl⟩ := List.mem_map.mp hname
  exact Table.mem_names (Table.get?_some (h.registered o ho)).1

theorem names_nodup (h : s.Normalized found c) (hv : s.Valid) : (c.documents.names ++ c.objects.names).Nodup := by
  rw [List.nodup_append]
  refine ⟨h.documents_nodup, h.objects_nodup, fun d hd o ho e => ?_⟩
  rw [h.document_names] at hd
  exact hv.disjoint d hd (h.objects_subset (e ▸ ho))

end Schema.Normalized

/-- Whatever calls built the schema: its canonical form, if there is one, is closed, has only
objects that documents reach and names that differ, and lists the documents in order. -/
theorem normalize_closed_minimal (calls : List Addition) (c : Canonical.Schema)
    (h : (Schema.run calls).normalize = .ok c) :
    c.Closed ∧ (∀ o ∈ c.objects.entries, c.Reached o.name) ∧ (c.documents.names ++ c.objects.names).Nodup ∧
      c.documents.names = (Schema.run calls).documents.names ∧
      c.documents.entries = (Schema.run calls).documents.entries.map Schema.settleDocument := by
  obtain ⟨found, hn⟩ := Schema.normalized_of_ok h
  exact ⟨hn.closed, hn.reached, hn.names_nodup (Schema.run_valid calls), hn.document_names, hn.documents⟩

/-- Posts name authors inside a list of inline objects; authors and companies name each
other; teams are not used. -/
def blog : List Addition := [
  .object { name := "Team", fields := [⟨{ name := "lead", label := none }, .object "Author"⟩] },
  .document { name := "Post", description := some "Ends here */ or not", fields := [
    ⟨{ name := "it's by", label := none }, .list { kind := .inlineObject [
      ⟨{ name := "author", label := none }, .object "Author"⟩] }⟩,
    ⟨{ name := "next", label := none }, .reference "Post"⟩] },
  .object { name := "Author", fields := [⟨{ name := "works", label := none },
    .polymorphicList [{ kind := .enum ["a", "b"] }, { kind := .object "Company" }] "type"⟩] },
  .object { name := "Company", fields := [⟨{ name := "founder", label := none }, .object "Author"⟩] }]

def blogCanonical : Canonical.Schema where
  documents := ⟨.document, [
    { name := "Post", label := "Post", description := some "Ends here */ or not", isSingleton := false, computed := [],
      fields := [
        ⟨{ name := "it's by", label := "it's by" }, .list { kind := .inlineObject [
          ⟨{ name := "author", label := "author" }, .object "Author"⟩] }⟩,
        ⟨{ name := "next", label := "next" }, .reference "Post"⟩, Schema.contentFieldDefinition] }]⟩
  objects := ⟨.object, [
    { name := "Author", label := "Author", fields := [⟨{ name := "works", label := "works" },
      .polymorphicList [{ kind := .enum ["a", "b"] }, { kind := .object "Company" }] "type"⟩] },
    { name := "Company", label := "Company", fields := [
      ⟨{ name := "founder", label := "founder" }, .object "Author"⟩] }]⟩

theorem blog_closed_minimal :
    (Schema.run blog).normalize = .ok blogCanonical ∧ blogCanonical.Closed ∧
      (∀ o ∈ blogCanonical.objects.entries, blogCanonical.Reached o.name) ∧
      (blogCanonical.documents.names ++ blogCanonical.objects.names).Nodup ∧
      blogCanonical.documents.names = (Schema.run blog).documents.names ∧
      blogCanonical.documents.entries = (Schema.run blog).documents.entries.map Schema.settleDocument := by
  have h : (Schema.run blog).normalize = .ok blogCanonical := by cbv
  exact ⟨h, normalize_closed_minimal blog blogCanonical h⟩

end TypedContent
