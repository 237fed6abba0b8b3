import Mathlib.Data.List.Perm.Subperm
import TypedContent.Proofs.Canonical.Closed
import TypedContent.Proofs.Field.Order
import TypedContent.Proofs.Schema.PathWalk

/-!
# When normalization fails, and how

A schema has a canonical form if and only if every reference of a document, and of an object
that documents reach, is to a name that is there. If not, one reference is named, and which one
depends on the order of three passes: all references of the documents, the walk through the
objects, the references to documents that the objects make.
-/

namespace TypedContent

namespace Schema

def names (s : Schema) : TableKind → List String
  | .document => s.documents.names
  | .object => s.objects.names

/-- The name that the reference looks for is there. -/
def Knows (s : Schema) (l : Link) : Prop := l.target ∈ s.names l.table

inductive Reachable (s : Schema) : ObjectType → Prop
  | fromDocument {d l o} : d ∈ s.documents.entries → Makes d.fields l → l.table = .object →
    s.objects.get? l.target = some o → Reachable s o
  | fromObject {x l o} : Reachable s x → Makes x.fields l → l.table = .object →
    s.objects.get? l.target = some o → Reachable s o

/-- Every reference that counts is to a name that is there. -/
structure Resolved (s : Schema) : Prop where
  documents : ∀ d ∈ s.documents.entries, ∀ l, Makes d.fields l → s.Knows l
  objects : ∀ o, s.Reachable o → ∀ l, Makes o.fields l → s.Knows l

/-! ## The three passes -/

/-- The fields of a definition, with its name. -/
abbrev Part : Type := String × List SourceField

def documentParts (s : Schema) : List Part := s.documents.entries.map fun d => (d.name, d.fields)

def objectParts (os : List ObjectType) : List Part := os.map fun o => (o.name, o.fields)

/-- The objects in the order in which the plain walk meets them first. -/
def discovered (s : Schema) : List ObjectType := firstOccurrences (s.plainWalk.filterMap Meeting.object?)

/-- A reference and the name of the definition that makes it. It stands at the index of the
definition, and then at its place in the fields of that. -/
def Mentions (parts : List Part) (place : List Nat) (p : Pending) : Prop :=
  ∃ i fields rest, place = i :: rest ∧ parts[i]? = some (p.owner, fields) ∧ Stands fields rest p.link

def DocumentsKnow (s : Schema) : Prop := ∀ place p, Mentions s.documentParts place p → s.Knows p.link

/-- The error that a schema gives if not all of its references resolve. -/
inductive Fault (s : Schema) : SchemaError → Prop
  | ofDocuments {p} : First (Mentions s.documentParts) (fun p => ¬s.Knows p.link) p →
    Fault s (unresolved p.owner p.link)
  | ofWalk {e} : s.DocumentsKnow → s.plainWalk.findSome? Meeting.error? = some e → Fault s e
  | ofObjects {p} : s.DocumentsKnow → s.plainWalk.findSome? Meeting.error? = none →
    First (Mentions (objectParts s.discovered)) (fun p => p.link.table = .document ∧ ¬s.Knows p.link) p →
    Fault s (.unresolvedDocument p.owner p.link.field p.link.target)

variable {s : Schema}

theorem resolves_iff {l : Link} : s.resolves l = true ↔ s.Knows l := by
  unfold resolves Knows names
  cases l.table with
  | document => exact Table.contains_eq_true
  | object => exact Table.contains_eq_true

theorem knows_object {l : Link} (h : l.table = .object) :
    s.Knows l ↔ ∃ o, s.objects.get? l.target = some o := by
  rw [Knows, h, names, ← Table.contains_eq_true, Table.contains, Option.isSome_iff_exists]

/-! ## References of definitions, in order -/

def partReferences (part : Part) : List Pending := (links part.2).map (⟨part.1, ·⟩)

def references (parts : List Part) : List Pending := parts.flatMap partReferences

theorem enumerates_references (parts : List Part) : Enumerates (Mentions parts) (references parts) := by
  refine Enumerates.congr (enumerates_flatMap (n := 0) fun part _ => (enumerates_links part.2).map (Pending.mk part.1)) ?_
  intro place p
  constructor
  · intro h
    obtain ⟨i, fields, rest, rfl, hi, hs⟩ := h
    exact ⟨i, _, rest, by rw [Nat.zero_add], hi, p.link, hs, rfl⟩
  · intro h
    obtain ⟨i, part, rest, rfl, hi, l, hs, rfl⟩ := h
    exact ⟨i, part.2, rest, by rw [Nat.zero_add], hi, hs⟩

theorem mem_references {parts : List Part} {p : Pending} :
    p ∈ references parts ↔ ∃ fields, (p.owner, fields) ∈ parts ∧ Makes fields p.link := by
  simp only [references, partReferences, List.mem_flatMap, List.mem_map]
  constructor
  · intro h
    obtain ⟨part, hpart, l, hl, rfl⟩ := h
    exact ⟨part.2, hpart, (mem_links_iff _).mp hl⟩
  · intro h
    obtain ⟨fields, hpart, hl⟩ := h
    exact ⟨_, hpart, p.link, (mem_links_iff _).mpr hl, rfl⟩

def checkParts (s : Schema) (parts : List Part) : Except SchemaError Unit :=
  forM parts fun part => s.checkLinks part.1 part.2

theorem checkParts_eq (s : Schema) (parts : List Part) :
    s.checkParts parts = match (references parts).find? (!s.resolves ·.link) with
      | some p => .error (unresolved p.owner p.link)
      | none => .ok () := by
  induction parts with
  | nil => rfl
  | cons part rest ih =>
    have hpart : (partReferences part).find? (!s.resolves ·.link) =
        ((links part.2).find? (!s.resolves ·)).map (⟨part.1, ·⟩) := List.find?_map
    have hcheck : s.checkParts (part :: rest) = s.checkLinks part.1 part.2 >>= fun _ => s.checkParts rest := by
      rw [checkParts, List.forM_cons]
      rfl
    rw [references, List.flatMap_cons, List.find?_append, hpart, hcheck, checkLinks]
    cases (links part.2).find? (!s.resolves ·) with
    | some l => rfl
    | none => exact ih

/-! ## Normalization pass by pass -/

theorem mem_pending_makes {owner : String} {fields : List SourceField} {p : Pending} :
    p ∈ pending owner fields ↔ p.owner = owner ∧ p.link.table = .object ∧ Makes fields p.link := by
  rw [mem_pending, mem_links_iff]

theorem mem_documents_pending {p : Pending} : (p ∈ s.documents.entries.flatMap fun d => pending d.name d.fields) ↔
    ∃ d ∈ s.documents.entries, p.owner = d.name ∧ p.link.table = .object ∧ Makes d.fields p.link := by
  simp only [List.mem_flatMap, mem_pending_makes]

theorem Leads.mem {found : List ObjectType} {p : Pending} {o : ObjectType} (h : s.Leads found p)
    (ho : s.objects.get? p.link.target = some o) : o ∈ found := by
  obtain ⟨o', hm, ho'⟩ := h
  rw [ho] at ho'
  cases ho'
  exact hm

theorem collect_eq (s : Schema) :
    s.collect = match s.plainWalk.findSome? Meeting.error? with
      | some e => .error e
      | none => .ok s.discovered := by
  have hobj : ∀ p ∈ s.documents.entries.flatMap fun d => pending d.name d.fields, p.link.table = .object := by
    intro p hp
    obtain ⟨_, _, _, ht, _⟩ := mem_documents_pending.mp hp
    exact ht
  rw [collect, walk_eq_outcome [] [] _ (by simp [Registered]) (fun _ h => h) (by simp [Finished]) hobj, ← plainWalk_eq,
    outcome_eq, List.nil_append, List.filter_eq_self.mpr (by simp [isFound])]
  rfl

theorem reachable_of_collect {found : List ObjectType} (h : s.collect = .ok found) :
    ∀ o, o ∈ found ↔ s.Reachable o := by
  intro o
  constructor
  · intro ho
    refine walk_forall (Q := s.Reachable) ?_ h (by simp) ?_ o ho
    · intro x _ hx p hp o ho
      obtain ⟨-, ht, hl⟩ := mem_pending_makes.mp hp
      exact .fromObject hx hl ht ho
    · intro p hp o ho
      obtain ⟨d, hd, -, ht, hl⟩ := mem_documents_pending.mp hp
      exact .fromDocument hd hl ht ho
  · intro ho
    obtain ⟨hdocuments, hobjects⟩ := collect_leads h
    induction ho with
    | @fromDocument d l o hd hl ht ho =>
      exact (hdocuments d hd ⟨d.name, l⟩ (mem_pending_makes.mpr ⟨rfl, ht, hl⟩)).mem ho
    | @fromObject x l o _ hl ht ho hx =>
      exact (hobjects x hx ⟨x.name, l⟩ (mem_pending_makes.mpr ⟨rfl, ht, hl⟩)).mem ho

theorem collect_nodup {found : List ObjectType} (h : s.collect = .ok found) : (found.map (·.name)).Nodup :=
  walk_nodup h List.nodup_nil

def settled (s : Schema) (found : List ObjectType) : Canonical.Schema where
  documents := ⟨.document, s.documents.entries.map settleDocument⟩
  objects := ⟨.object, found.map settleObject⟩

theorem normalize_eq (h : s.Valid) : s.normalize = do
    s.checkParts s.documentParts
    let found ← s.collect
    s.checkParts (objectParts found)
    return s.settled found := by
  have hdocuments : s.documents.entries.foldlM s.addSettledDocument (.empty .document) =
      s.checkParts s.documentParts >>= fun _ => .ok (s.settled []).documents := by
    rw [checkParts, documentParts, List.forM_map]
    exact Table.foldlM_insert_run h.documents_nodup
  have hobjects : ∀ found, s.collect = .ok found → found.foldlM s.addSettledObject (.empty .object) =
      s.checkParts (objectParts found) >>= fun _ => .ok (s.settled found).objects := by
    intro found hfound
    rw [checkParts, objectParts, List.forM_map]
    exact Table.foldlM_insert_run (collect_nodup hfound)
  rw [normalize, hdocuments]
  cases s.checkParts s.documentParts with
  | error e => rfl
  | ok _ =>
    cases hc : s.collect with
    | error e => rfl
    | ok found =>
      have hfound := hobjects found hc
      simp only [bind, Except.bind] at hfound ⊢
      rw [hfound]
      cases s.checkParts (objectParts found) <;> rfl

/-! ## Success -/

theorem checkParts_eq_ok {parts : List Part} :
    s.checkParts parts = .ok () ↔ ∀ p ∈ references parts, s.Knows p.link := by
  rw [checkParts_eq]
  cases h : (references parts).find? (!s.resolves ·.link) with
  | none => simpa [← resolves_iff] using h
  | some p =>
    have hr := List.find?_some h
    simp only [reduceCtorEq, false_iff]
    intro hall
    rw [resolves_iff.mpr (hall p (List.mem_of_find?_eq_some h))] at hr
    cases hr

theorem forall_references {α : Type} {xs : List α} {name : α → String} {fields : α → List SourceField}
    {P : Link → Prop} :
    (∀ p ∈ references (xs.map fun x => (name x, fields x)), P p.link) ↔ ∀ x ∈ xs, ∀ l, Makes (fields x) l → P l := by
  constructor
  · intro h x hx l hl
    exact h ⟨name x, l⟩ (mem_references.mpr ⟨fields x, List.mem_map.mpr ⟨x, hx, rfl⟩, hl⟩)
  · intro h p hp
    obtain ⟨_, hpart, hl⟩ := mem_references.mp hp
    obtain ⟨x, hx, e⟩ := List.mem_map.mp hpart
    obtain ⟨-, rfl⟩ := Prod.mk.inj e
    exact h x hx p.link hl

/-- Every reference to an object that counts is to a name that is there. -/
structure ObjectsResolved (s : Schema) : Prop where
  documents : ∀ d ∈ s.documents.entries, ∀ l, Makes d.fields l → l.table = .object → s.Knows l
  objects : ∀ o, s.Reachable o → ∀ l, Makes o.fields l → l.table = .object → s.Knows l

theorem Resolved.forObjects (h : s.Resolved) : s.ObjectsResolved :=
  ⟨fun d hd l hl _ => h.documents d hd l hl, fun o ho l hl _ => h.objects o ho l hl⟩

theorem collect_of_objectsResolved (h : s.ObjectsResolved) : ∃ found, s.collect = .ok found := by
  refine walk_succeeds (R := fun p => ∃ o, s.objects.get? p.link.target = some o ∧ s.Reachable o) ?_ _ _ ?_
  · intro p hp
    obtain ⟨o, ho, hreach⟩ := hp
    refine ⟨o, ho, fun q hq => ?_⟩
    obtain ⟨-, ht, hl⟩ := mem_pending_makes.mp hq
    obtain ⟨o', ho'⟩ := (knows_object ht).mp (h.objects o hreach _ hl ht)
    exact ⟨o', ho', .fromObject hreach hl ht ho'⟩
  · intro p hp
    obtain ⟨d, hd, -, ht, hl⟩ := mem_documents_pending.mp hp
    obtain ⟨o, ho⟩ := (knows_object ht).mp (h.documents d hd _ hl ht)
    exact ⟨o, ho, .fromDocument hd hl ht ho⟩

theorem normalize_eq_ok (h : s.Valid) {c : Canonical.Schema} :
    s.normalize = .ok c ↔ s.checkParts s.documentParts = .ok () ∧ ∃ found, s.collect = .ok found ∧
      s.checkParts (objectParts found) = .ok () ∧ s.settled found = c := by
  rw [normalize_eq h, check_bind_eq_ok, bind_eq_ok]
  simp only [check_bind_eq_ok, pure_eq_ok]

theorem normalize_ok_iff (h : s.Valid) : (∃ c, s.normalize = .ok c) ↔ s.Resolved := by
  simp only [normalize_eq_ok h, checkParts_eq_ok, documentParts, objectParts, forall_references]
  constructor
  · intro hok
    obtain ⟨_, hdocuments, found, hc, hobjects, _⟩ := hok
    exact ⟨hdocuments, fun o ho => hobjects o ((reachable_of_collect hc o).mpr ho)⟩
  · intro hres
    obtain ⟨found, hc⟩ := collect_of_objectsResolved hres.forObjects
    exact ⟨_, hres.documents, found, hc, fun o ho => hres.objects o ((reachable_of_collect hc o).mp ho), rfl⟩

theorem size_le {found : List ObjectType} {c : Canonical.Schema} (h : s.Normalized found c) :
    c.objects.size ≤ s.objects.size := by
  have hle := (List.subperm_of_subset h.objects_nodup h.objects_subset).length_le
  rwa [Table.names, Table.names, List.length_map, List.length_map] at hle

/-! ## Failure -/

theorem firstUnknown_iff {parts : List Part} {p : Pending} :
    (references parts).find? (!s.resolves ·.link) = some p ↔ First (Mentions parts) (fun p => ¬s.Knows p.link) p := by
  rw [(enumerates_references parts).find?_eq_some]
  simp [← resolves_iff]

theorem documentsKnow_iff : (references s.documentParts).find? (!s.resolves ·.link) = none ↔ s.DocumentsKnow := by
  rw [(enumerates_references s.documentParts).find?_eq_none]
  simp [DocumentsKnow, ← resolves_iff]

/-- All references to objects are known once the objects are collected, so what is left is a
reference to a document. -/
theorem firstUnknown_objects {found : List ObjectType} (hc : s.collect = .ok found) {p : Pending} :
    (references (objectParts found)).find? (!s.resolves ·.link) = some p ↔
      First (Mentions (objectParts found)) (fun p => p.link.table = .document ∧ ¬s.Knows p.link) p := by
  have htable : ∀ p ∈ references (objectParts found), ¬s.Knows p.link → p.link.table = .document := by
    intro p hp hn
    cases ht : p.link.table with
    | document => rfl
    | object =>
      obtain ⟨_, hpart, hl⟩ := mem_references.mp hp
      obtain ⟨o, ho, e⟩ := List.mem_map.mp hpart
      obtain ⟨hname, rfl⟩ := Prod.mk.inj e
      have hpending : p ∈ pending o.name o.fields := mem_pending_makes.mpr ⟨hname.symm, ht, hl⟩
      obtain ⟨o', -, hget⟩ := (collect_leads hc).2 o ho p hpending
      exact absurd ((knows_object ht).mpr ⟨o', hget⟩) hn
  have hsame : ∀ p ∈ references (objectParts found),
      (!s.resolves p.link) = decide (p.link.table = .document ∧ s.resolves p.link = false) := by
    intro p hp
    cases hr : s.resolves p.link with
    | true => simp
    | false => simpa using htable p hp (by simp [← resolves_iff, hr])
  rw [List.find?_congr hsame, (enumerates_references _).find?_eq_some]
  simp [← resolves_iff]

theorem fault_iff {e : SchemaError} : s.Fault e ↔
    (∃ p, First (Mentions s.documentParts) (fun p => ¬s.Knows p.link) p ∧ unresolved p.owner p.link = e) ∨
    (s.DocumentsKnow ∧ s.plainWalk.findSome? Meeting.error? = some e) ∨
    (s.DocumentsKnow ∧ s.plainWalk.findSome? Meeting.error? = none ∧ ∃ p,
      First (Mentions (objectParts s.discovered)) (fun p => p.link.table = .document ∧ ¬s.Knows p.link) p ∧
        .unresolvedDocument p.owner p.link.field p.link.target = e) := by
  constructor
  · intro h
    cases h with
    | @ofDocuments p hp => exact Or.inl ⟨p, hp, rfl⟩
    | ofWalk hd he => exact Or.inr (Or.inl ⟨hd, he⟩)
    | @ofObjects p hd hn hp => exact Or.inr (Or.inr ⟨hd, hn, p, hp, rfl⟩)
  · intro h
    rcases h with ⟨p, hp, rfl⟩ | ⟨hd, he⟩ | ⟨hd, hn, p, hp, rfl⟩
    · exact .ofDocuments hp
    · exact .ofWalk hd he
    · exact .ofObjects hd hn hp

theorem normalize_error_iff (h : s.Valid) (e : SchemaError) : s.normalize = .error e ↔ s.Fault e := by
  rw [fault_iff, normalize_eq h, checkParts_eq, collect_eq]
  simp only [← firstUnknown_iff, ← documentsKnow_iff]
  cases hd : (references s.documentParts).find? (!s.resolves ·.link) with
  | some p => simp [bind, Except.bind]
  | none =>
    cases hw : s.plainWalk.findSome? Meeting.error? with
    | some e' => simp [bind, Except.bind]
    | none =>
      have hc : s.collect = .ok s.discovered := by rw [collect_eq, hw]
      simp only [← firstUnknown_objects hc, bind, Except.bind, checkParts_eq]
      cases ho : (references (objectParts s.discovered)).find? (!s.resolves ·.link) with
      | none => simp [pure, Except.pure]
      | some p =>
        obtain ⟨_, _, ⟨ht, _⟩, _⟩ := (firstUnknown_objects hc).mp ho
        simp [unresolved, ht]

/-- Whatever calls built the schema: it has a canonical form, with no more objects than the
schema has, if and only if its references resolve; and the error that it gives otherwise is
the one that its first reference to nothing calls for. -/
theorem normalize_exact (calls : List Addition) :
    ((∃ c, (run calls).normalize = .ok c) ↔ (run calls).Resolved) ∧
      (∀ e, (run calls).normalize = .error e ↔ (run calls).Fault e) ∧
      ∀ c, (run calls).normalize = .ok c → c.objects.size ≤ (run calls).objects.size := by
  refine ⟨normalize_ok_iff (run_valid calls), normalize_error_iff (run_valid calls), fun c hc => ?_⟩
  obtain ⟨found, hn⟩ := normalized_of_ok hc
  exact size_le hn

/-- The author's reference to a series comes first in the text, but the walk only looks at
references to objects, and goes on to the company. -/
example : (run [
    .document { name := "Post", fields := [⟨{ name := "by", label := none }, .object "Author"⟩] },
    .object { name := "Author", fields := [⟨{ name := "series", label := none }, .reference "Series"⟩,
      ⟨{ name := "of", label := none }, .list { kind := .inlineObject [
        ⟨{ name := "company", label := none }, .object "Company"⟩] }⟩] }]).normalize =
    .error (.unresolvedObject "Author" "company" "Company") := by
  cbv

end Schema

end TypedContent
