import Mathlib
import TypedContent.Proofs.Canonical.Failure
import TypedContent.Proofs.Package.Partition

/-!
# The order of definitions

Two schemas may hold the same definitions in another order. The walk then finds the objects in
another order too, but they are the same: those that documents reach. So both schemas have a
canonical form or neither has, the forms hold the same definitions, and whatever is sorted by
name or made for one document type alone comes out the same.
-/

namespace TypedContent

/-! ## Tables with the same entries -/

namespace Table

variable {α : Type} [Named α] {t t' : Table α}

theorem get?_perm (hn : t.names.Nodup) (h : t.entries.Perm t'.entries) (name : String) : t.get? name = t'.get? name := by
  have hn' : t'.names.Nodup := (h.map Named.name).nodup_iff.mp hn
  refine Option.ext fun a => ?_
  rw [get?_eq_some_iff hn, get?_eq_some_iff hn', h.mem_iff]

/-- Names that differ can be sorted in one way only. -/
theorem sorted_perm (hn : t.names.Nodup) (h : t.entries.Perm t'.entries) : t.sorted = t'.sorted := by
  have hperm : t.sorted.Perm t'.sorted :=
    (List.mergeSort_perm _ _).trans (h.trans (List.mergeSort_perm _ _).symm)
  refine List.Perm.eq_of_pairwise ?_ t.sorted_ordered t'.sorted_ordered hperm
  intro a b ha hb hab hba
  have hb' : b ∈ t.sorted := hperm.mem_iff.mpr hb
  exact eq_of_name hn (List.mem_mergeSort.mp ha) (List.mem_mergeSort.mp hb') (String.le_antisymm hab hba)

end Table

/-! ## Schemas with the same definitions -/

namespace Schema

structure Reordered (s s' : Schema) : Prop where
  documents : s.documents.entries.Perm s'.documents.entries
  objects : s.objects.entries.Perm s'.objects.entries

namespace Reordered

variable {s s' : Schema}

theorem symm (h : s.Reordered s') : s'.Reordered s := ⟨h.documents.symm, h.objects.symm⟩

theorem knows (h : s.Reordered s') {l : Link} (hl : s.Knows l) : s'.Knows l := by
  unfold Knows names at hl ⊢
  cases ht : l.table with
  | document =>
    rw [ht] at hl
    exact (h.documents.map Named.name).mem_iff.mp hl
  | object =>
    rw [ht] at hl
    exact (h.objects.map Named.name).mem_iff.mp hl

theorem reachable (h : s.Reordered s') (hv : s.Valid) {o : ObjectType} (ho : s.Reachable o) : s'.Reachable o := by
  induction ho with
  | fromDocument hd hl ht hget =>
    rw [Table.get?_perm hv.objects_nodup h.objects] at hget
    exact .fromDocument (h.documents.mem_iff.mp hd) hl ht hget
  | fromObject _ hl ht hget hx =>
    rw [Table.get?_perm hv.objects_nodup h.objects] at hget
    exact .fromObject hx hl ht hget

theorem resolved (h : s.Reordered s') (hv' : s'.Valid) (hr : s.Resolved) : s'.Resolved where
  documents d hd l hl := h.knows (hr.documents d (h.documents.mem_iff.mpr hd) l hl)
  objects o ho l hl := h.knows (hr.objects o (h.symm.reachable hv' ho) l hl)

theorem found_perm (h : s.Reordered s') (hv : s.Valid) (hv' : s'.Valid) {found found' : List ObjectType}
    (hc : s.collect = .ok found) (hc' : s'.collect = .ok found') : found.Perm found' := by
  have hn : found.Nodup := List.Nodup.of_map _ (collect_nodup hc)
  have hn' : found'.Nodup := List.Nodup.of_map _ (collect_nodup hc')
  rw [List.perm_ext_iff_of_nodup hn hn']
  intro o
  rw [reachable_of_collect hc, reachable_of_collect hc']
  exact ⟨h.reachable hv, h.symm.reachable hv'⟩

theorem canonical_perm (h : s.Reordered s') (hv : s.Valid) (hv' : s'.Valid) {found found' : List ObjectType}
    {c c' : Canonical.Schema} (hn : s.Normalized found c) (hn' : s'.Normalized found' c') :
    c.documents.entries.Perm c'.documents.entries ∧ c.objects.entries.Perm c'.objects.entries := by
  rw [hn.documents, hn'.documents, hn.objects, hn'.objects]
  exact ⟨h.documents.map _, (h.found_perm hv hv' hn.collected hn'.collected).map _⟩

end Reordered

end Schema

/-! ## What is made from the canonical form -/

theorem render_perm {c c' : Canonical.Schema} (hd : c.documents.names.Nodup) (ho : c.objects.names.Nodup)
    (hdocuments : c.documents.entries.Perm c'.documents.entries) (hobjects : c.objects.entries.Perm c'.objects.entries) :
    TypeScript.render c = TypeScript.render c' := by
  unfold TypeScript.render
  rw [Table.sorted_perm hd hdocuments, Table.sorted_perm ho hobjects]

/-- Whatever calls built two schemas of the same definitions: both have a canonical form or
neither has, the types that are declared are the same in the same order, the forms hold the
same definitions, and each document type has the same data module. -/
theorem normalize_reordered (calls calls' : List Addition)
    (hdocuments : (Schema.run calls).documents.entries.Perm (Schema.run calls').documents.entries)
    (hobjects : (Schema.run calls).objects.entries.Perm (Schema.run calls').objects.entries) :
    ((∃ c, (Schema.run calls).normalize = .ok c) ↔ ∃ c', (Schema.run calls').normalize = .ok c') ∧
      ∀ c c', (Schema.run calls).normalize = .ok c → (Schema.run calls').normalize = .ok c' →
        TypeScript.render c = TypeScript.render c' ∧
          c.documents.entries.Perm c'.documents.entries ∧ c.objects.entries.Perm c'.objects.entries ∧
          ∀ (cache : Cache) (o o' : PackageOptions) (i j : Nat) (name : String),
            c.documents.names[i]? = some name → c'.documents.names[j]? = some name →
              ∃ a : Artifact, a.fileName = "all" ++ name ++ ".js" ∧
                (Package.build c cache o)[3 + i]? = some a ∧ (Package.build c' cache o')[3 + j]? = some a := by
  have hv := Schema.run_valid calls
  have hv' := Schema.run_valid calls'
  have h : (Schema.run calls).Reordered (Schema.run calls') := ⟨hdocuments, hobjects⟩
  constructor
  · rw [Schema.normalize_ok_iff hv, Schema.normalize_ok_iff hv']
    exact ⟨h.resolved hv', h.symm.resolved hv⟩
  · intro c c' hc hc'
    obtain ⟨found, hn⟩ := Schema.normalized_of_ok hc
    obtain ⟨found', hn'⟩ := Schema.normalized_of_ok hc'
    obtain ⟨hd, ho⟩ := h.canonical_perm hv hv' hn hn'
    refine ⟨render_perm hn.documents_nodup hn.objects_nodup hd ho, hd, ho, ?_⟩
    intro cache o o' i j name hi hj
    exact ⟨_, rfl, build_dataModule hn.documents_nodup cache o hi, build_dataModule hn'.documents_nodup cache o' hj⟩

/-- The blog and a second document type, which leads to the objects from their other end. -/
def shelf : List Addition :=
  blog ++ [.document { name := "Book", fileType := some .json, fields := [
    ⟨{ name := "publisher", label := none }, .object "Company"⟩] }]

def bookCanonical : Canonical.Document where
  name := "Book"
  label := "Book"
  isSingleton := false
  computed := []
  fields := [⟨{ name := "publisher", label := "publisher" }, .object "Company"⟩]

def shelfCanonical : Canonical.Schema where
  documents := blogCanonical.documents.append bookCanonical
  objects := blogCanonical.objects

def shelfReversed : Canonical.Schema where
  documents := ⟨.document, shelfCanonical.documents.entries.reverse⟩
  objects := ⟨.object, shelfCanonical.objects.entries.reverse⟩

theorem shelf_reversed :
    (Schema.run shelf).documents.entries.Perm (Schema.run shelf.reverse).documents.entries ∧
      (Schema.run shelf).objects.entries.Perm (Schema.run shelf.reverse).objects.entries ∧
      (Schema.run shelf).normalize = .ok shelfCanonical ∧ (Schema.run shelf.reverse).normalize = .ok shelfReversed ∧
      TypeScript.render shelfCanonical = TypeScript.render shelfReversed ∧
      ∃ a : Artifact, a.fileName = "allBook.js" ∧
        (Package.build shelfCanonical blogCache {})[4]? = some a ∧
        (Package.build shelfReversed blogCache {})[3]? = some a := by
  have hdocuments : (Schema.run shelf.reverse).documents.entries = (Schema.run shelf).documents.entries.reverse := by rfl
  have hobjects : (Schema.run shelf.reverse).objects.entries = (Schema.run shelf).objects.entries.reverse := by rfl
  have hd := hdocuments ▸ (List.reverse_perm (Schema.run shelf).documents.entries).symm
  have ho := hobjects ▸ (List.reverse_perm (Schema.run shelf).objects.entries).symm
  have hc : (Schema.run shelf).normalize = .ok shelfCanonical := by cbv
  have hc' : (Schema.run shelf.reverse).normalize = .ok shelfReversed := by cbv
  obtain ⟨hrender, _, _, hmodules⟩ := (normalize_reordered shelf shelf.reverse hd ho).2 _ _ hc hc'
  exact ⟨hd, ho, hc, hc', hrender, hmodules blogCache {} {} 1 0 "Book" rfl rfl⟩

end TypedContent
