import Mathlib
import TypedContent.Proofs.Canonical.Failure

/-!
# Objects that no document reaches

An object is looked up only where a reference leads to it, and the references that are followed
are those of the documents and of the objects that documents reach. Two schemas of the same
documents whose look-ups agree there have the same canonical form, or fail in the same way. So an
object that no document reaches, whatever it refers to, may as well not be there.
-/

namespace TypedContent

namespace Schema

variable {s s' : Schema}

/-! ## Schemas that agree where references lead -/

/-- Both schemas have the same object, or none, under the name that the reference looks for. -/
def SameTarget (s s' : Schema) (l : Link) : Prop :=
  l.table = .object → s.objects.get? l.target = s'.objects.get? l.target

structure Agree (s s' : Schema) : Prop where
  documents : s.documents = s'.documents
  fromDocuments : ∀ d ∈ s.documents.entries, ∀ l, Makes d.fields l → s.SameTarget s' l
  fromObjects : ∀ o, s.Reachable o → ∀ l, Makes o.fields l → s.SameTarget s' l

theorem resolves_congr (hd : s.documents = s'.documents) {l : Link} (h : s.SameTarget s' l) :
    s.resolves l = s'.resolves l := by
  unfold resolves
  cases ht : l.table with
  | document => rw [hd]
  | object => simp only [Table.contains, h ht]

theorem checkLinks_congr (hd : s.documents = s'.documents) {fields : List SourceField}
    (h : ∀ l, Makes fields l → s.SameTarget s' l) (owner : String) :
    s.checkLinks owner fields = s'.checkLinks owner fields := by
  have hfind : (links fields).find? (fun l => !s.resolves l) = (links fields).find? fun l => !s'.resolves l :=
    List.find?_congr fun l hl => by rw [resolves_congr hd (h l ((mem_links_iff fields).mp hl))]
  rw [checkLinks, hfind, checkLinks]

/-- Two walks take the same course, to their end or to the same error, as long as the look-ups of
the references that they meet agree. -/
theorem walk_congr {R : Pending → Prop} (same : ∀ p, R p → s.objects.get? p.link.target = s'.objects.get? p.link.target)
    (onward : ∀ p, R p → ∀ o, s.objects.get? p.link.target = some o → ∀ q ∈ pending o.name o.fields, R q)
    (found : List ObjectType) (todo : List Pending) (h : ∀ p ∈ todo, R p) : s.walk found todo = s'.walk found todo := by
  induction found, todo using walk_cases (s := s) with
  | nil found => rw [walk_nil, walk_nil]
  | missing found p rest ho =>
    have ho' := ho
    rw [same p (h p List.mem_cons_self)] at ho'
    rw [walk_missing ho, walk_missing ho']
  | again found p rest o ho hf ih =>
    have ho' := ho
    rw [same p (h p List.mem_cons_self)] at ho'
    rw [walk_again ho hf, walk_again ho' hf]
    exact ih fun q hq => h q (List.mem_cons_of_mem p hq)
  | new found p rest o ho hf ih =>
    have hp := h p List.mem_cons_self
    have ho' := ho
    rw [same p hp] at ho'
    rw [walk_new ho hf, walk_new ho' hf]
    refine ih fun q hq => ?_
    rcases List.mem_append.mp hq with hq | hq
    · exact onward p hp o ho q hq
    · exact h q (List.mem_cons_of_mem p hq)

namespace Agree

variable (h : s.Agree s')
include h

theorem collect : s.collect = s'.collect := by
  rw [Schema.collect, Schema.collect, ← h.documents]
  refine walk_congr (R := fun p => s.objects.get? p.link.target = s'.objects.get? p.link.target ∧
    ∀ o, s.objects.get? p.link.target = some o → s.Reachable o) (fun p hp => hp.1) ?_ _ _ ?_
  · intro p hp o ho q hq
    obtain ⟨-, ht, hl⟩ := mem_pending_makes.mp hq
    have hreach := hp.2 o ho
    exact ⟨h.fromObjects o hreach _ hl ht, fun o' ho' => .fromObject hreach hl ht ho'⟩
  · intro p hp
    obtain ⟨d, hd, -, ht, hl⟩ := mem_documents_pending.mp hp
    exact ⟨h.fromDocuments d hd _ hl ht, fun o ho => .fromDocument hd hl ht ho⟩

theorem settled_documents (t : Table Canonical.Document) :
    s.documents.entries.foldlM s.addSettledDocument t = s.documents.entries.foldlM s'.addSettledDocument t := by
  rw [List.foldlM_eq_foldl, List.foldlM_eq_foldl]
  refine List.foldl_ext _ _ _ fun run d hd => congrArg (run >>= ·) (funext fun t => ?_)
  rw [addSettledDocument, checkLinks_congr h.documents (h.fromDocuments d hd), addSettledDocument]

theorem settled_objects {found : List ObjectType} (hfound : s.collect = .ok found) (t : Table Canonical.Object) :
    found.foldlM s.addSettledObject t = found.foldlM s'.addSettledObject t := by
  rw [List.foldlM_eq_foldl, List.foldlM_eq_foldl]
  refine List.foldl_ext _ _ _ fun run o ho => congrArg (run >>= ·) (funext fun t => ?_)
  have hreach := (reachable_of_collect hfound o).mp ho
  rw [addSettledObject, checkLinks_congr h.documents (h.fromObjects o hreach), addSettledObject]

theorem normalize : s.normalize = s'.normalize := by
  rw [Schema.normalize, h.settled_documents, Schema.normalize, ← h.documents, ← h.collect]
  cases hfound : s.collect with
  | error e => rfl
  | ok found => simp only [bind, Except.bind, h.settled_objects hfound]

end Agree

/-! ## One object more -/

variable {o : ObjectType}

theorem addObject_cases (h : s.addObject o = .ok s') : s'.documents = s.documents ∧
    s'.objects.get? o.name = some o ∧ ∀ name, name ≠ o.name → s'.objects.get? name = s.objects.get? name := by
  obtain ⟨⟨-, -, hnew⟩, rfl⟩ := addObject_eq_ok.mp h
  have hget : ∀ name, (s.append (.object o)).objects.get? name =
      (s.objects.get? name).or ([o].find? (Named.name · = name)) := fun name => List.find?_append
  refine ⟨rfl, ?_, fun name hname => ?_⟩
  · have hnone : s.objects.get? o.name = none := by
      cases hs : s.objects.get? o.name with
      | none => rfl
      | some x => exact absurd ((name_of_get? hs) ▸ Table.mem_names (Table.get?_some hs).1) hnew
    rw [hget, hnone]
    simp [Named.name]
  · rw [hget]
    simp [Named.name, Ne.symm hname]

/-- A reference that counts does not lead to an object that no document reaches. -/
theorem agree_of_unreachable (h : s.addObject o = .ok s') (ho : ¬s'.Reachable o) : s'.Agree s := by
  obtain ⟨hdocuments, hself, hothers⟩ := addObject_cases h
  have hsame : ∀ l : Link, (l.table = .object → ∀ x, s'.objects.get? l.target = some x → s'.Reachable x) →
      s'.SameTarget s l := by
    intro l hl ht
    refine hothers l.target fun hname => ho (hl ht o ?_)
    rw [hname, hself]
  constructor
  case documents => exact hdocuments
  case fromDocuments => exact fun d hd l hl => hsame l fun ht x hx => .fromDocument hd hl ht hx
  case fromObjects => exact fun x hx l hl => hsame l fun ht y hy => .fromObject hx hl ht hy

/-- An object that no document reaches changes nothing: whatever it refers to, the schema has the
same canonical form with and without it, or fails with the same error. -/
theorem normalize_unreachable (s s' : Schema) (o : ObjectType) (hadd : s.addObject o = .ok s') (ho : ¬s'.Reachable o) :
    s'.normalize = s.normalize :=
  (agree_of_unreachable hadd ho).normalize

/-- It refers to itself, to an object that the blog's posts reach, and to types that are not there. -/
def loner : ObjectType where
  name := "Loner"
  fields := [
    ⟨{ name := "self", label := none }, .object "Loner"⟩,
    ⟨{ name := "author", label := none }, .list { kind := .object "Author" }⟩,
    ⟨{ name := "parts", label := none }, .polymorphicList [{ kind := .object "Nowhere" }, { kind := .inlineObject [
      ⟨{ name := "page", label := none }, .reference "Nowhere"⟩] }] "type"⟩]

/-- A page leads to a page that is not there. -/
def lostPage : List Addition :=
  [.document { name := "Page", fields := [⟨{ name := "next", label := none }, .reference "Missing"⟩] }]

theorem loner_unreachable :
    ((run blog).addObject loner = .ok (run (blog ++ [.object loner])) ∧ ¬(run (blog ++ [.object loner])).Reachable loner ∧
        (run (blog ++ [.object loner])).normalize = .ok blogCanonical) ∧
      (run lostPage).addObject loner = .ok (run (lostPage ++ [.object loner])) ∧
        ¬(run (lostPage ++ [.object loner])).Reachable loner ∧
        (run (lostPage ++ [.object loner])).normalize = .error (.unresolvedDocument "Page" "next" "Missing") := by
  have hnot : ∀ (s : Schema) (names : List String), (·.map ObjectType.name) <$> s.collect = .ok names →
      loner.name ∉ names → ¬s.Reachable loner := by
    intro s names hnames hmem hreach
    obtain ⟨found, hfound, rfl⟩ := map_eq_ok.mp hnames
    exact hmem (List.mem_map_of_mem ((reachable_of_collect hfound loner).mpr hreach))
  have hblog : (run blog).addObject loner = .ok (run (blog ++ [.object loner])) := by rfl
  have hunreached : ¬(run (blog ++ [.object loner])).Reachable loner :=
    hnot _ ["Author", "Company"] (by cbv) (by decide)
  have hpage : (run lostPage).addObject loner = .ok (run (lostPage ++ [.object loner])) := by rfl
  have hunreached' : ¬(run (lostPage ++ [.object loner])).Reachable loner := hnot _ [] (by cbv) (by decide)
  refine ⟨⟨hblog, hunreached, ?_⟩, hpage, hunreached', ?_⟩
  · rw [normalize_unreachable (run blog) _ loner hblog hunreached]
    cbv
  · rw [normalize_unreachable (run lostPage) _ loner hpage hunreached']
    cbv

end Schema

end TypedContent
