import Mathlib
import TypedContent.Proofs.Package.Partition
import TypedContent.Proofs.Package.WriteSteps
import TypedContent.Proofs.TypeScript.OneLine
import TypedContent.Proofs.TypeScript.RoundTrip

/-!
# The files of a package

Each document type has a file that is named for it. As its name is an identifier, the name of the
file is the name of something in a directory, and as no file name ends in `p`, none is the name
of a temporary file.
-/

namespace TypedContent

namespace Package

def fileNames (a : Artifact) : List String := [a.fileName, temporaryName a]

/-- The files of the artifacts and their temporary files all have different names. -/
structure Separate (artifacts : List Artifact) : Prop where
  nodup : (artifacts.flatMap fileNames).Nodup
  components : ∀ a ∈ artifacts, Path.IsComponent a.fileName

theorem Separate.names_ne {artifacts : List Artifact} (h : Separate artifacts) {i j : Nat} {a b : Artifact}
    (ha : artifacts[i]? = some a) (hb : artifacts[j]? = some b) (hij : i ≠ j) {name other : String}
    (hname : name ∈ fileNames a) (hother : other ∈ fileNames b) : name ≠ other := by
  have hpairs := (List.nodup_flatMap.mp h.nodup).2
  rw [List.pairwise_iff_getElem] at hpairs
  obtain ⟨hi, rfl⟩ := List.getElem?_eq_some_iff.mp ha
  obtain ⟨hj, rfl⟩ := List.getElem?_eq_some_iff.mp hb
  rintro rfl
  rcases Nat.lt_or_gt_of_ne hij with hlt | hlt
  · exact hpairs i j hi hj hlt hname hother
  · exact hpairs j i hj hi hlt hother hname

theorem mem_fileNames_final (a : Artifact) : a.fileName ∈ fileNames a := List.mem_cons_self

theorem mem_fileNames_temporary (a : Artifact) : temporaryName a ∈ fileNames a := by simp [fileNames]

theorem Separate.isComponent {artifacts : List Artifact} (h : Separate artifacts) :
    ∀ a ∈ artifacts, ∀ name ∈ fileNames a, Path.IsComponent name := by
  intro a ha name hname
  simp only [fileNames, List.mem_cons, List.not_mem_nil, or_false] at hname
  rcases hname with rfl | rfl
  · exact h.components a ha
  · exact temporary_isComponent (h.components a ha)

/-! ## The artifacts of a package -/

theorem nodup_fileNames {artifacts : List Artifact} (hnodup : (artifacts.map (·.fileName)).Nodup)
    (hends : ∀ a ∈ artifacts, a.fileName.toList.getLast? ≠ some 'p') : (artifacts.flatMap fileNames).Nodup := by
  have htemporary : ∀ a ∈ artifacts, ∀ b : Artifact, a.fileName ≠ temporaryName b := by
    intro a ha b e
    refine hends a ha ?_
    rw [e]
    simp [temporaryName]
  rw [List.nodup_flatMap]
  refine ⟨fun a ha => by simpa [fileNames] using htemporary a ha a, ?_⟩
  refine List.Pairwise.imp_of_mem ?_ (List.pairwise_map.mp hnodup)
  intro a b ha hb hne name hname hother
  simp only [fileNames, List.mem_cons, List.not_mem_nil, or_false] at hname hother
  rcases hname with rfl | rfl <;> rcases hother with e | e
  · exact hne e
  · exact htemporary a ha b e
  · exact htemporary b hb a e.symm
  · exact hne (String.append_left_inj _ |>.mp e)

theorem toList_dataFile (name : String) : (dataFile name).toList =
    'a' :: 'l' :: 'l' :: (name.toList ++ ['.', 'j', 's']) := by
  simp [dataFile, dataConstant]

theorem dataFile_isComponent {name : String} (h : TypeScript.isIdentifier name = true) :
    Path.IsComponent (dataFile name) := by
  have hne : ∀ {s : String}, s.toList.head? ≠ some 'a' → dataFile name ≠ s := by
    intro s hs e
    rw [← e, toList_dataFile] at hs
    exact hs rfl
  have hchars : ∀ {c : Char}, TypeScript.continuesIdentifier c = false → c ≠ '.' → c ∉ (dataFile name).toList := by
    intro c hc hdot hmem
    rw [toList_dataFile] at hmem
    simp only [List.mem_cons, List.mem_append, List.not_mem_nil, or_false] at hmem
    rcases hmem with rfl | rfl | rfl | hmem | rfl | rfl | rfl
    · revert hc; decide
    · revert hc; decide
    · revert hc; decide
    · rw [TypeScript.continues_of_identifier h hmem] at hc
      cases hc
    · exact hdot rfl
    · revert hc; decide
    · revert hc; decide
  exact ⟨hne (by decide), hchars (by decide) (by decide), hchars (by decide) (by decide), hne (by decide), hne (by decide)⟩

theorem dataFile_injective : Function.Injective dataFile := by
  intro n m h
  have hlist := congrArg String.toList h
  rw [toList_dataFile, toList_dataFile] at hlist
  exact String.toList_inj.mp (by simpa using hlist)

section
variable {c : Canonical.Schema} {cache : Cache} {o : PackageOptions}

theorem build_fileNames (hn : c.documents.names.Nodup) : (build c cache o).map (·.fileName) =
    [packageFile, barrelFile, declarationFile] ++ c.documents.names.map dataFile := by
  rw [build_eq hn, List.map_append, List.map_map]
  rfl

theorem build_separate (hn : c.documents.names.Nodup)
    (hid : ∀ name ∈ c.documents.names, TypeScript.isIdentifier name = true) : Separate (build c cache o) := by
  have hname : ∀ a ∈ build c cache o, a.fileName ∈ [packageFile, barrelFile, declarationFile] ∨
      ∃ name ∈ c.documents.names, a.fileName = dataFile name := by
    intro a ha
    have hmem : a.fileName ∈ (build c cache o).map (·.fileName) := List.mem_map.mpr ⟨a, ha, rfl⟩
    rw [build_fileNames hn, List.mem_append] at hmem
    refine hmem.imp_right fun hdata => ?_
    obtain ⟨name, hname, e⟩ := List.mem_map.mp hdata
    exact ⟨name, hname, e.symm⟩
  refine ⟨nodup_fileNames ?_ fun a ha => ?_, fun a ha => ?_⟩
  · rw [build_fileNames hn, List.nodup_append]
    refine ⟨by decide, hn.map dataFile_injective, fun fixed hfixed data hdata e => ?_⟩
    obtain ⟨name, -, rfl⟩ := List.mem_map.mp hdata
    have hhead : ∀ s ∈ [packageFile, barrelFile, declarationFile], s.toList.head? ≠ some 'a' := by decide
    exact hhead fixed hfixed (by rw [e, toList_dataFile]; rfl)
  · rcases hname a ha with hfixed | hdata
    · have hlast : ∀ s ∈ [packageFile, barrelFile, declarationFile], s.toList.getLast? ≠ some 'p' := by decide
      exact hlast _ hfixed
    · obtain ⟨name, -, e⟩ := hdata
      rw [e, dataFile]
      simp
  · rcases hname a ha with hfixed | hdata
    · simp only [List.mem_cons, List.not_mem_nil, or_false] at hfixed
      rcases hfixed with e | e | e <;> rw [e] <;> exact ⟨by decide, by decide, by decide, by decide, by decide⟩
    · obtain ⟨name, hmem, e⟩ := hdata
      rw [e]
      exact dataFile_isComponent (hid name hmem)

end

end Package

end TypedContent
