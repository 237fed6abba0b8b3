import Mathlib
import TypedContent.Proofs.Package.DataModule

/-!
# A cache that is printed and read again

The text of a cache lists its documents under one key, so a document may nest two brackets less
deep than a whole text. If none nests deeper, reading the text gives back the documents as they
were: in their order, each with its keys in theirs.
-/

namespace TypedContent

namespace Cache

section
variable {documents : List Document} {levels : Nat}

theorem nested_toJson : (toJson ⟨documents⟩).Nested (levels + 2) ↔ ∀ d ∈ documents, d.toJson.Nested levels := by
  constructor
  · intro h d hd
    rw [toJson] at h
    cases h with
    | obj hmembers =>
      cases hmembers _ List.mem_cons_self with
      | arr hitems => exact hitems _ (List.mem_map_of_mem hd)
  · intro h
    exact .obj (List.forall_mem_singleton.mpr (.arr (List.forall_mem_map.mpr h)))

theorem lossless_toJson (h : ∀ d ∈ documents, d.toJson.Lossless) : (toJson ⟨documents⟩).Lossless :=
  .obj (List.forall_mem_singleton.mpr (.arr (List.forall_mem_map.mpr h)))

theorem readDocuments_tree (hkeyed : ∀ d ∈ documents, d.toJson.Keyed) (hnested : ∀ d ∈ documents, d.toJson.Nested levels) :
    readSequence (levels + 1) (readDocument levels) (Json.arr (documents.map (·.toJson))).tree = .ok documents := by
  refine readSequence_eq_ok.mpr ⟨Nat.succ_ne_zero levels, _, rfl, ?_⟩
  rw [Json.itemTrees_eq_map, List.map_map, List.forall₂_map_left_iff, List.forall₂_same]
  intro d hd
  obtain ⟨kept, hkept, hsame⟩ := Tree.keep_tree (hnested d hd)
  rw [hsame (hkeyed d hd)] at hkept
  exact readDocument_eq_ok.mpr hkept

theorem shape_lawful (levels : Nat) : (shape levels).Lawful where
  nodup := List.nodup_singleton "documents"
  commute := List.pairwise_singleton _ _

/-- The tree of a cache is read as the cache, unless something in it nests too deep. -/
theorem read_tree_iff (hkeyed : ∀ d ∈ documents, d.toJson.Keyed) :
    read (levels + 2) (toJson ⟨documents⟩).tree = .ok ⟨documents⟩ ↔ (toJson ⟨documents⟩).Nested (levels + 2) := by
  rw [nested_toJson]
  constructor
  · intro h
    obtain ⟨items, -, hkept⟩ := lists_of_read h
    exact ((List.forall₂_and_left _ _).mp (hkept.flip.imp fun _ _ h => ⟨(Tree.keep_nested h).1, h⟩)).1
  · intro h
    refine (shape_lawful (levels + 1)).read (.fill ?_ .nil) (List.Perm.refl _) (Nat.succ_ne_zero _)
    exact map_eq_ok.mpr ⟨documents, readDocuments_tree hkeyed h, rfl⟩

end

/-- Whatever documents a cache has, its text in either layout is read back as the cache, unless it
nests too deep for the reader: the same documents in the same order, so with the same tags, and
dealt out alike under every schema. The numbers must be integers that are kept exact. -/
theorem documents_read_back (documents : List Document) (layout : Json.Layout) (hkeyed : ∀ d ∈ documents, d.toJson.Keyed)
    (hnumbers : ∀ d ∈ documents, d.toJson.Lossless) :
    (ofText (String.ofList (Json.print layout 0 (toJson ⟨documents⟩))) = .ok ⟨documents⟩ ↔
        (toJson ⟨documents⟩).Nested 127) ∧
      ((toJson ⟨documents⟩).Nested 127 →
        ∃ cache, ofText (String.ofList (Json.print layout 0 (toJson ⟨documents⟩))) = .ok cache ∧
          cache.documents.map (·.typeName?) = documents.map (·.typeName?) ∧
          ∀ s : Canonical.Schema, cache.partition s = partition ⟨documents⟩ s) := by
  have hback : ofText (String.ofList (Json.print layout 0 (toJson ⟨documents⟩))) = .ok ⟨documents⟩ ↔
      (toJson ⟨documents⟩).Nested 127 := by
    rw [ofText, readText_of_writes (Json.writes_text (lossless_toJson hnumbers) layout)]
    exact read_tree_iff hkeyed
  exact ⟨hback, fun hn => ⟨_, hback.mpr hn, rfl, fun _ => rfl⟩⟩

/-- Documents at the limits: the least and the greatest integer, characters that are escaped, and
brackets with nothing in them. -/
def extremes : List Document := [
  ⟨[("_typeName", .str "Post"), ("n", .arr [.num (.int (-9223372036854775808)), .num (.int 18446744073709551615)]),
    ("\"\\\n\x01", .obj [("", .arr []), ("é", .obj [])])]⟩,
  ⟨[("zeta", .null), ("alpha", .bool true)]⟩]

theorem extremes_read_back : (∀ d ∈ extremes, d.toJson.Keyed) ∧ (∀ d ∈ extremes, d.toJson.Lossless) ∧
    (toJson ⟨extremes⟩).Nested 127 ∧ ofText (toJson ⟨extremes⟩).compact = .ok ⟨extremes⟩ := by
  have hkeyed : ∀ d ∈ extremes, d.toJson.Keyed := by
    simp [extremes, Document.toJson, Json.keyed_obj, Json.keyed_arr, Json.Keyed.str, Json.Keyed.num, Json.Keyed.null,
      Json.Keyed.bool, or_imp, forall_and]
  have hlossless : ∀ d ∈ extremes, d.toJson.Lossless := by
    simp [extremes, Document.toJson, Json.lossless_obj, Json.lossless_arr, Json.lossless_num, Json.Lossless.str,
      Json.Lossless.null, Json.Lossless.bool, Json.Exact, or_imp, forall_and]
  have hkept : Tree.keep 127 (toJson ⟨extremes⟩).tree = .ok (toJson ⟨extremes⟩) := by rfl
  have hnested := (Tree.keep_nested hkept).1
  exact ⟨hkeyed, hlossless, hnested, (documents_read_back extremes .compact hkeyed hlossless).1.mpr hnested⟩

end Cache

end TypedContent
