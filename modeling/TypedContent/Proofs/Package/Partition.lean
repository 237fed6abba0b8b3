import Mathlib
import TypedContent.Proofs.Canonical.Closed
import TypedContent.Proofs.Package.Run

/-!
# Documents dealt out to their types

`Cache.partition` puts one document after the other into the entry of its type. As the names of
the types differ, the entries hold at any time the documents dealt out so far, each sifted by
its tag and in their order (`Partition.sifted`). So none is lost, and none comes twice.
-/

namespace TypedContent

namespace Document

/-- The document is tagged with the name: the string that stands under `_typeName`. -/
def Tagged (name : String) (d : Document) : Prop :=
  Json.lookup TypeScript.typeNameField d.members = some (.str name)

theorem typeName?_eq_some {d : Document} {name : String} : d.typeName? = some name ↔ d.Tagged name := by
  unfold typeName? Tagged
  cases Json.lookup TypeScript.typeNameField d.members with
  | none => simp
  | some v => cases v <;> simp [Json.string?]

instance (name : String) (d : Document) : Decidable (d.Tagged name) :=
  decidable_of_iff (d.typeName? = some name) typeName?_eq_some

/-- The tag is missing, is no string, or is none of the names. -/
def Stray (names : List String) (d : Document) : Prop := ∀ name ∈ names, ¬d.Tagged name

instance (names : List String) (d : Document) : Decidable (d.Stray names) := by
  unfold Stray
  infer_instance

theorem Tagged.unique {d : Document} {n m : String} (hn : d.Tagged n) (hm : d.Tagged m) : n = m := by
  unfold Tagged at hn hm
  rw [hn] at hm
  cases hm
  rfl

theorem Tagged.not_stray {d : Document} {name : String} {names : List String} (h : d.Tagged name) (hm : name ∈ names) :
    ¬d.Stray names :=
  fun hs => hs name hm h

end Document

namespace Partition

/-- The documents sifted by their tags, in their order. -/
def sifted (names : List String) (docs : List Document) : Partition where
  byType := names.map fun name => ⟨name, docs.filter (·.Tagged name)⟩
  unmatched := docs.filter (·.Stray names)

theorem start_eq (names : List String) : start names = sifted names [] := rfl

section
variable {names : List String} {docs : List Document} {d : Document}

theorem sifted_stray (h : d.Stray names) : sifted names (docs ++ [d]) =
    { sifted names docs with unmatched := (sifted names docs).unmatched ++ [d] } := by
  unfold sifted
  rw [List.filter_append, List.filter_cons_of_pos (by simpa using h), List.filter_nil]
  congr 1
  refine List.map_congr_left fun name hname => ?_
  rw [List.filter_append, List.filter_cons_of_neg (by simpa using h name hname), List.filter_nil, List.append_nil]

theorem sifted_tagged (hn : names.Nodup) {i : Nat} {name : String} (hi : names[i]? = some name) (h : d.Tagged name) :
    sifted names (docs ++ [d]) = { sifted names docs with
      byType := (sifted names docs).byType.modify i fun t => { t with documents := t.documents ++ [d] } } := by
  have hstray : ¬d.Stray names := h.not_stray (List.mem_of_getElem? hi)
  unfold sifted
  rw [List.filter_append, List.filter_cons_of_neg (by simpa using hstray), List.filter_nil, List.append_nil]
  congr 1
  refine List.ext_getElem? fun j => ?_
  rw [List.getElem?_modify, List.getElem?_map, List.getElem?_map]
  cases hj : names[j]? with
  | none => rfl
  | some other =>
    by_cases hij : i = j
    · subst hij
      rw [hi] at hj
      cases hj
      simp [List.filter_append, h]
    · -- an entry of another name, as the names differ
      have hne : ¬d.Tagged other := by
        intro ht
        have hlt : i < names.length := (List.getElem?_eq_some_iff.mp hi).1
        refine hij ((List.getElem?_inj hlt hn).mp ?_)
        rw [hi, hj, h.unique ht]
      simp [List.filter_append, hij, hne]

end

/-! ## One document, and all of them -/

section
variable {α : Type} [Named α] {t : Table α}

theorem position?_some {name : String} {i : Nat} (h : t.position? name = some i) : t.names[i]? = some name := by
  obtain ⟨hlt, hp, _⟩ := List.findIdx?_eq_some_iff_getElem.mp h
  rw [Table.names, List.getElem?_map, List.getElem?_eq_getElem hlt, Option.map_some, of_decide_eq_true hp]

theorem position?_none {name : String} (h : t.position? name = none) : name ∉ t.names := by
  intro hm
  obtain ⟨a, ha, rfl⟩ := List.mem_map.mp hm
  simpa using List.findIdx?_eq_none_iff.mp h a ha

theorem deal_sifted (hn : t.names.Nodup) (docs : List Document) (d : Document) :
    deal t.position? (sifted t.names docs) d = sifted t.names (docs ++ [d]) := by
  unfold deal
  cases hd : d.typeName?.bind t.position? with
  | some i =>
    obtain ⟨name, hname, hi⟩ := Option.bind_eq_some_iff.mp hd
    exact (sifted_tagged hn (position?_some hi) (Document.typeName?_eq_some.mp hname)).symm
  | none =>
    have hstray : d.Stray t.names := by
      intro name hm ht
      rw [Document.typeName?_eq_some.mpr ht, Option.bind_some] at hd
      exact position?_none hd hm
    exact (sifted_stray hstray).symm

theorem foldl_deal (hn : t.names.Nodup) (rest done : List Document) :
    rest.foldl (deal t.position?) (sifted t.names done) = sifted t.names (done ++ rest) := by
  induction rest generalizing done with
  | nil => rw [List.foldl_nil, List.append_nil]
  | cons d rest ih => rw [List.foldl_cons, deal_sifted hn, ih, List.append_assoc, List.singleton_append]

end

/-- Sifted documents are the documents in another order. -/
theorem sifted_perm {names : List String} (hn : names.Nodup) (docs : List Document) :
    ((sifted names docs).byType.flatMap (·.documents) ++ (sifted names docs).unmatched).Perm docs := by
  unfold sifted
  rw [List.flatMap_map]
  induction names generalizing docs with
  | nil => simp [Document.Stray]
  | cons name names ih =>
    obtain ⟨hnew, hn⟩ := List.nodup_cons.mp hn
    -- the documents of the other types are among those without the first tag
    have hothers : ∀ other ∈ names, docs.filter (·.Tagged other) =
        (docs.filter fun d => !decide (d.Tagged name)).filter (·.Tagged other) := by
      intro other ho
      rw [List.filter_filter]
      refine List.filter_congr fun d _ => ?_
      by_cases h : d.Tagged other
      · have : ¬d.Tagged name := fun h' => hnew (h'.unique h ▸ ho)
        simp [h, this]
      · simp [h]
    have hstray : docs.filter (·.Stray (name :: names)) =
        (docs.filter fun d => !decide (d.Tagged name)).filter (·.Stray names) := by
      rw [List.filter_filter]
      refine List.filter_congr fun d _ => ?_
      simp [Document.Stray, Bool.and_comm]
    rw [List.flatMap_cons, hstray, List.flatMap_congr hothers, List.append_assoc]
    exact ((ih hn _).append_left _).trans (List.filter_append_perm _ docs)

end Partition

theorem partition_eq_sifted {c : Canonical.Schema} (hn : c.documents.names.Nodup) (cache : Cache) :
    cache.partition c = Partition.sifted c.documents.names cache.documents := by
  rw [Cache.partition, Partition.start_eq, Partition.foldl_deal hn, List.nil_append]

theorem build_eq {c : Canonical.Schema} (hn : c.documents.names.Nodup) (cache : Cache) (o : PackageOptions) :
    Package.build c cache o = [⟨"package.json", Package.manifest o⟩, ⟨"index.js", Package.barrel c o⟩,
      ⟨"index.d.ts", Package.declarations c o⟩] ++ c.documents.names.map fun n =>
        ⟨Package.dataFile n, Package.dataModule ⟨n, cache.documents.filter (·.Tagged n)⟩⟩ := by
  rw [Package.build, partition_eq_sifted hn, Partition.sifted, List.map_map]
  rfl

/-- The data module of a document type depends on the cache and on the type's name alone. -/
theorem build_dataModule {c : Canonical.Schema} (hn : c.documents.names.Nodup) (cache : Cache) (o : PackageOptions)
    {i : Nat} {name : String} (hi : c.documents.names[i]? = some name) :
    (Package.build c cache o)[3 + i]? =
      some ⟨Package.dataFile name, Package.dataModule ⟨name, cache.documents.filter (·.Tagged name)⟩⟩ := by
  rw [build_eq hn, List.getElem?_append_right (by simp)]
  simp [hi]

/-- Each document type has one entry, in the order of declaration, with the documents of its tag
in their order. What has no such tag is left over, and nothing is lost or doubled. A run that
writes the package counts the documents of its data modules and those left over. -/
theorem partition_exact (s : Schema) (c : Canonical.Schema) (cache : Cache) (h : s.normalize = .ok c) :
    c.documents.names.Nodup ∧
      (cache.partition c).byType = c.documents.names.map (fun n => ⟨n, cache.documents.filter (·.Tagged n)⟩) ∧
      (cache.partition c).unmatched = cache.documents.filter (·.Stray c.documents.names) ∧
      ((cache.partition c).byType.flatMap (·.documents) ++ (cache.partition c).unmatched).Perm cache.documents ∧
      ∀ (source : ContentSource (StateM FileTree)) (target : String) (watch : Bool) (options : PackageOptions)
        (before fetched provided after : FileTree) (summary : Summary),
        (source.fetch ⟨watch, true⟩).run before = (.ok cache, fetched) →
        source.schema.run fetched = (.ok s, provided) →
        (Package.generate source target watch options).run.run before = (.ok summary, after) →
        ∃ artifacts made,
          (Package.writeArtifacts target artifacts : StateM FileTree _).run made = (.ok summary.written, after) ∧
          artifacts.drop 3 =
            (cache.partition c).byType.map (fun t => ⟨Package.dataFile t.typeName, Package.dataModule t⟩) ∧
          ((cache.partition c).byType.map (·.documents.length)).sum + (cache.partition c).unmatched.length =
            summary.documents := by
  obtain ⟨found, hn⟩ := Schema.normalized_of_ok h
  have hperm := Partition.sifted_perm hn.documents_nodup cache.documents
  rw [← partition_eq_sifted hn.documents_nodup] at hperm
  refine ⟨hn.documents_nodup, ?_, ?_, hperm, ?_⟩
  · rw [partition_eq_sifted hn.documents_nodup]
    rfl
  · rw [partition_eq_sifted hn.documents_nodup]
    rfl
  · intro source target watch options before fetched provided after summary hfetch hs hrun
    obtain ⟨cache', _, s', _, made, c', hfetch', hs', _, hc, hwritten, hsummary⟩ := generate_eq_ok.mp hrun
    rw [hfetch] at hfetch'
    cases hfetch'
    rw [hs] at hs'
    cases hs'
    rw [h] at hc
    cases hc
    refine ⟨_, made, hwritten, rfl, ?_⟩
    rw [hsummary, ← hperm.length_eq, List.length_append, List.length_flatMap]

/-- A post that comes twice, an author, which is an object, and a tag that is no string. -/
def blogCache : Cache where
  documents := [
    ⟨[("_id", .str "a.md"), ("_typeName", .str "Post")]⟩,
    ⟨[("_typeName", .str "Author")]⟩,
    ⟨[("_typeName", .num (.int 7)), ("title", .str "none")]⟩,
    ⟨[("_id", .str "a.md"), ("_typeName", .str "Post")]⟩]

def blogSummary : Summary where
  documents := 4
  documentTypes := 1
  objectTypes := 2
  written := ["out/package.json", "out/index.js", "out/index.d.ts", "out/allPost.js"]

def blogSource : ContentSource (StateM FileTree) := .memory blogCache (Schema.run blog)

theorem blog_generated :
    ∃ after, (Package.generate blogSource "out" false {}).run.run ⟨[], []⟩ = (.ok blogSummary, after) := by
  have hmade : (FileStore.makeDirectory "out" : StateM FileTree _).run ⟨[], []⟩ =
      (.ok (), ⟨[], [(["out"], .directory)]⟩) := by cbv
  have hc : (Schema.run blog).normalize = .ok blogCanonical := by cbv
  have hpaths : ((Package.writeArtifacts "out" (Package.build blogCanonical blogCache {}) : StateM FileTree _).run
      ⟨[], [(["out"], .directory)]⟩).1.toOption = some blogSummary.written := by
    decide +kernel
  obtain ⟨after, hwritten⟩ : ∃ after, (Package.writeArtifacts "out" (Package.build blogCanonical blogCache {}) :
      StateM FileTree _).run ⟨[], [(["out"], .directory)]⟩ = (.ok blogSummary.written, after) := by
    rcases hrun : (Package.writeArtifacts "out" (Package.build blogCanonical blogCache {}) : StateM FileTree _).run
      ⟨[], [(["out"], .directory)]⟩ with ⟨_ | written, after⟩
    · rw [hrun] at hpaths
      cases hpaths
    · rw [hrun] at hpaths
      cases hpaths
      exact ⟨after, rfl⟩
  exact ⟨after, generate_eq_ok.mpr ⟨blogCache, _, Schema.run blog, _, _, blogCanonical, rfl, rfl, hmade, hc, hwritten, rfl⟩⟩

theorem blog_partition_exact :
    (Schema.run blog).normalize = .ok blogCanonical ∧
      (blogCache.partition blogCanonical).byType =
        [⟨"Post", blogCache.documents.filter (·.Tagged "Post")⟩] ∧
      (blogCache.partition blogCanonical).unmatched = blogCache.documents.filter (·.Stray ["Post"]) ∧
      ∃ after, (Package.generate blogSource "out" false {}).run.run ⟨[], []⟩ = (.ok blogSummary, after) ∧
        ((blogCache.partition blogCanonical).byType.map (·.documents.length)).sum +
          (blogCache.partition blogCanonical).unmatched.length = blogSummary.documents := by
  have h : (Schema.run blog).normalize = .ok blogCanonical := by cbv
  obtain ⟨_, hbyType, hunmatched, _, hruns⟩ := partition_exact (Schema.run blog) blogCanonical blogCache h
  obtain ⟨after, hrun⟩ := blog_generated
  obtain ⟨_, _, _, _, hcount⟩ := hruns blogSource "out" false {} _ _ _ after blogSummary rfl rfl hrun
  exact ⟨h, hbyType, hunmatched, after, hrun, hcount⟩

end TypedContent
