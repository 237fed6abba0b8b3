import Mathlib
import TypedContent.Proofs.Package.Partition
import TypedContent.Proofs.Reading.Record

/-!
# Documents from the cache text to a data module

The documents of a cache are what its text denotes, and they nest less deep than a whole text
may. So the array of a data module, one bracket around some of them, can be read back, and it is
read as those documents.
-/

namespace TypedContent

/-! ## The text of a cache -/

namespace Cache

/-- The documents that the tree of a cache lists, under the one key of the object or as the one
item of the array. -/
inductive Lists : Tree → List Tree → Prop
  | object {members items} : valuesOf "documents" members = [.arr items none] → Lists (.obj members none) items
  | array {items} : Lists (.arr [.arr items none] none) items

theorem readDocument_eq_ok {levels : Nat} {t : Tree} {d : Document} :
    readDocument levels t = .ok d ↔ t.keep levels = .ok d.toJson := by
  obtain ⟨members⟩ := d
  cases t with
  | obj trees stop =>
    simp only [readDocument, bind_eq_ok, readJson, orFault_eq_ok]
    constructor
    · intro h
      obtain ⟨v, hv, h⟩ := h
      cases v <;> cases h
      exact hv
    · intro h
      exact ⟨_, h, rfl⟩
  | arr items stop =>
    have hkeep : ∀ v, Tree.keep levels (.arr items stop) = .ok v → ∃ values, v = .arr values := by
      intro v hv
      cases levels with
      | zero => cases hv
      | succ levels =>
        obtain ⟨values, -, -, rfl⟩ := Tree.keep_arr.mp hv
        exact ⟨values, rfl⟩
    simp only [readDocument, reduceCtorEq, false_iff]
    intro h
    obtain ⟨values, hv⟩ := hkeep _ h
    cases hv
  | _ => cases levels <;> simp [readDocument, Tree.keep, Document.toJson]

theorem lists_of_read {levels : Nat} {t : Tree} {cache : Cache} (h : read levels t = .ok cache) :
    ∃ items, Lists t items ∧ List.Forall₂ (fun t d => t.keep (levels - 2) = .ok d.toJson) items cache.documents := by
  have hdocuments : ∀ {t' : Tree},
      (fun documents => { documents }) <$> readSequence (levels - 1) (readDocument (levels - 1 - 1)) t' = .ok cache →
        ∃ items, t' = .arr items none ∧
          List.Forall₂ (fun t d => t.keep (levels - 2) = .ok d.toJson) items cache.documents := by
    intro t' hfill
    simp only [map_eq_ok, readSequence_eq_ok, readDocument_eq_ok] at hfill
    obtain ⟨documents, ⟨-, items, ht, hall⟩, rfl⟩ := hfill
    exact ⟨items, ht, hall⟩
  by_cases hlevels : levels = 0
  · cases t <;> simp [read, readRecord, hlevels, malformed] at h
  cases t with
  | obj members stop =>
    simp only [read, readRecord, hlevels, if_false] at h
    obtain ⟨rfl, t', hvalues, hfill⟩ := Shape.readObject_single rfl rfl h
    obtain ⟨items, rfl, hall⟩ := hdocuments hfill
    exact ⟨items, .object hvalues, hall⟩
  | arr items stop =>
    simp only [read, readRecord, hlevels, if_false] at h
    obtain ⟨rfl, t', rfl, hfill⟩ := Shape.readArray_single rfl rfl h
    obtain ⟨items, rfl, hall⟩ := hdocuments hfill
    exact ⟨items, .array, hall⟩
  | _ => cases h

end Cache

/-! ## Data modules -/

theorem Package.dataModule_content {c : Canonical.Schema} (hn : c.documents.names.Nodup) (cache : Cache)
    (o : PackageOptions) {name : String} : ∀ a ∈ Package.build c cache o, a.fileName = "all" ++ name ++ ".js" →
      a.content = "export const all" ++ name ++ " = "
        ++ (Json.arr ((cache.documents.filter (·.Tagged name)).map (·.toJson))).pretty ++ "\n" := by
  intro a ha hfile
  have hchars := congrArg String.toList hfile
  simp only [build, partition_eq_sifted hn, Partition.sifted, List.mem_append, List.mem_cons, List.not_mem_nil, or_false,
    List.map_map, List.mem_map, Function.comp_apply] at ha
  rcases ha with (rfl | rfl | rfl) | ⟨other, -, rfl⟩
  · simp [packageFile] at hchars
  · simp [barrelFile] at hchars
  · simp [declarationFile] at hchars
  · have hname : other = name := by
      refine String.ext ?_
      simpa [dataFile, dataConstant] using hchars
    rw [hname]
    rfl

/-- The data module of a document type holds, as JSON, the documents of its tag in their order,
and these are what the cache text denotes. The numbers of the documents must be integers: other
numbers are not all printed as they were written. -/
theorem dataModule_roundTrip (text : String) (cache : Cache) (s : Schema) (c : Canonical.Schema) (o : PackageOptions)
    (name : String) (hread : Cache.ofText text = .ok cache) (hnumbers : ∀ d ∈ cache.documents, d.toJson.Lossless)
    (h : s.normalize = .ok c) (hname : name ∈ c.documents.names) :
    ∃ json, (∃ a ∈ Package.build c cache o, a.fileName = "all" ++ name ++ ".js") ∧
      (∀ a ∈ Package.build c cache o, a.fileName = "all" ++ name ++ ".js" →
        a.content = "export const all" ++ name ++ " = " ++ json ++ "\n") ∧
      Json.ofText json = .ok (.arr ((cache.documents.filter (·.Tagged name)).map (·.toJson))) ∧
      ∃ items, Cache.Lists (Tree.ofText text.toList).1 items ∧
        List.Forall₂ Tree.Denotes items (cache.documents.map (·.toJson)) := by
  obtain ⟨found, hn⟩ := Schema.normalized_of_ok h
  obtain ⟨items, hlists, hkept⟩ := Cache.lists_of_read (readText_eq_ok.mp hread).1
  have hdocuments : ∀ d ∈ cache.documents, d.toJson.Nested 125 ∧ d.toJson.Keyed :=
    ((List.forall₂_and_left _ _).mp (hkept.flip.imp fun _ _ h => ⟨Tree.keep_nested h, h⟩)).1
  have hmodule : ∀ x ∈ (cache.documents.filter (·.Tagged name)).map (·.toJson), x.Lossless ∧ x.Nested 125 ∧ x.Keyed := by
    intro x hx
    obtain ⟨d, hd, rfl⟩ := List.mem_map.mp hx
    have hm := (List.mem_filter.mp hd).1
    exact ⟨hnumbers d hm, hdocuments d hm⟩
  refine ⟨Json.pretty _, ?_, Package.dataModule_content hn.documents_nodup cache o, ?_, items, hlists, ?_⟩
  · obtain ⟨i, hi⟩ := List.getElem?_of_mem hname
    exact ⟨_, List.mem_of_getElem? (build_dataModule hn.documents_nodup cache o hi), rfl⟩
  · have hnested : Json.Nested nestingLimit (.arr ((cache.documents.filter (·.Tagged name)).map (·.toJson))) :=
      (Json.Nested.arr fun x hx => (hmodule x hx).2.1).mono (by decide)
    exact Json.ofText_print (.arr fun x hx => (hmodule x hx).1) hnested (.arr fun x hx => (hmodule x hx).2.2) .pretty
  · exact List.forall₂_map_right_iff.mpr (hkept.imp fun _ _ => Tree.keep_denotes)

/-- The text of a cache. The tag of its first document is written twice. -/
def noteText : String :=
  "\x7b\"documents\":[\x7b\"_typeName\":\"Author\",\"tags\":[[],\x7b\x7d,\"a\\n\"],\"_typeName\":\"Post\",\"n\":-3\x7d,\x7b\x7d]\x7d"

def noteTags : Json := .arr [.arr [], .obj [], .str "a\n"]

def noteWritten : Json := .obj [("documents", .arr [
  .obj [("_typeName", .str "Author"), ("tags", noteTags), ("_typeName", .str "Post"), ("n", .num (.int (-3)))],
  .obj []])]

def noteCache : Cache where
  documents := [⟨[("_typeName", .str "Post"), ("tags", noteTags), ("n", .num (.int (-3)))]⟩, ⟨[]⟩]

theorem note_read : Cache.ofText noteText = .ok noteCache := by
  have hlossless : noteWritten.Lossless := by
    simp [noteWritten, noteTags, Json.lossless_obj, Json.lossless_arr, Json.lossless_num, Json.Lossless.str, Json.Exact]
  have htext : noteText = String.ofList (Json.print .compact 0 noteWritten) := by decide +kernel
  rw [htext]
  exact readText_print _ hlossless .compact rfl

/-- Of the two documents only one is tagged, as what was written last counts. -/
theorem note_dataModule :
    Cache.ofText noteText = .ok noteCache ∧ (∀ d ∈ noteCache.documents, d.toJson.Lossless) ∧
      (Schema.run blog).normalize = .ok blogCanonical ∧ "Post" ∈ blogCanonical.documents.names ∧
      ∃ json, (∃ a ∈ Package.build blogCanonical noteCache {}, a.fileName = "allPost.js" ∧
          a.content = "export const allPost = " ++ json ++ "\n") ∧
        Json.ofText json = .ok (.arr [.obj [("_typeName", .str "Post"), ("tags", noteTags), ("n", .num (.int (-3)))]]) := by
  have hlossless : ∀ d ∈ noteCache.documents, d.toJson.Lossless := by
    simp [noteCache, noteTags, Document.toJson, Json.lossless_obj, Json.lossless_arr, Json.lossless_num, Json.Lossless.str,
      Json.Exact, or_imp, forall_and]
  have hc : (Schema.run blog).normalize = .ok blogCanonical := by cbv
  have hname : "Post" ∈ blogCanonical.documents.names := by decide
  obtain ⟨json, ⟨a, ha, hfile⟩, hcontent, hjson, -⟩ :=
    dataModule_roundTrip noteText noteCache (Schema.run blog) blogCanonical {} "Post" note_read hlossless hc hname
  exact ⟨note_read, hlossless, hc, hname, json, ⟨a, ha, hfile, hcontent a ha hfile⟩, hjson⟩

end TypedContent
