import TypedContent.Files.Tree
import TypedContent.Package.Generate

/-!
# Runs that generate a package

A run on a tree of files ends well if and only if each of its steps does: the cache and the
schema are fetched, the target directory is made, the schema has a canonical form, and the
artifacts are written.
-/

namespace TypedContent

section
variable {σ ε α β : Type}

theorem run_bind_of_eq {x : StateM σ α} {f : α → StateM σ β} {s t : σ} {a : α} (h : x.run s = (a, t)) :
    (x >>= f).run s = (f a).run t := by
  rw [StateT.run_bind, h]
  rfl

theorem run_bind_eq_ok {x : ExceptT ε (StateM σ) α} {f : α → ExceptT ε (StateM σ) β} {s s' : σ} {b : β} :
    (x >>= f).run.run s = (.ok b, s') ↔ ∃ a t, x.run.run s = (.ok a, t) ∧ (f a).run.run t = (.ok b, s') := by
  rw [ExceptT.run_bind, StateT.run_bind]
  constructor
  · intro h
    rcases hx : x.run.run s with ⟨_ | a, t⟩ <;> rw [hx] at h
    · cases h
    · exact ⟨a, t, rfl, h⟩
  · intro h
    obtain ⟨a, t, hx, hf⟩ := h
    rw [hx]
    exact hf

theorem orFail_eq_ok {wrap : ε → GenerateError} {step : StateM σ (Except ε α)} {s s' : σ} {a : α} :
    (orFail wrap step).run.run s = (.ok a, s') ↔ step.run s = (.ok a, s') := by
  unfold orFail
  rw [ExceptT.run_mk, StateT.run_bind]
  rcases step.run s with ⟨_ | b, t⟩
  · constructor <;> intro h <;> cases h
  · constructor <;> intro h <;> cases h <;> rfl

/-- A step that fails ends the run with its error, on the tree that it left. -/
theorem run_orFail_bind {wrap : ε → GenerateError} {step : StateM σ (Except ε α)}
    {f : α → ExceptT GenerateError (StateM σ) β} (s : σ) : (orFail wrap step >>= f).run.run s =
      match step.run s with
      | (.ok a, t) => (f a).run.run t
      | (.error e, t) => (.error (wrap e), t) := by
  rw [ExceptT.run_bind, StateT.run_bind, orFail, ExceptT.run_mk, StateT.run_bind]
  rcases step.run s with ⟨_ | a, t⟩ <;> rfl

end

/-- The source that serves a cache and a schema from memory. -/
def ContentSource.memory {m : Type → Type} [Monad m] (cache : Cache) (s : Schema) : ContentSource m where
  fetch _ := return .ok cache
  schema := return .ok s

theorem generate_eq_ok {source : ContentSource (StateM FileTree)} {target : String} {watch : Bool}
    {options : PackageOptions} {before after : FileTree} {summary : Summary} :
    (Package.generate source target watch options).run.run before = (.ok summary, after) ↔
      ∃ cache fetched s provided made c, (source.fetch ⟨watch, true⟩).run before = (.ok cache, fetched) ∧
        source.schema.run fetched = (.ok s, provided) ∧
        (FileStore.makeDirectory target : StateM FileTree _).run provided = (.ok (), made) ∧ s.normalize = .ok c ∧
        (Package.writeArtifacts target (Package.build c cache options) : StateM FileTree _).run made =
          (.ok summary.written, after) ∧
        summary = ⟨cache.documents.length, c.documents.size, c.objects.size, summary.written⟩ := by
  simp only [Package.generate, run_bind_eq_ok, orFail_eq_ok]
  constructor
  · intro h
    obtain ⟨cache, fetched, hfetch, s, provided, hs, _, made, hmade, c, _, hc, written, _, hwritten, hend⟩ := h
    cases hend
    cases hc' : s.normalize with
    | error e =>
      rw [hc'] at hc
      cases hc
    | ok c' =>
      rw [hc'] at hc
      cases hc
      exact ⟨cache, fetched, s, provided, made, c, hfetch, hs, hmade, hc', hwritten, rfl⟩
  · intro h
    obtain ⟨cache, fetched, s, provided, made, c, hfetch, hs, hmade, hc, hwritten, hsummary⟩ := h
    refine ⟨cache, fetched, hfetch, s, provided, hs, (), made, hmade, c, made, ?_, summary.written, after, hwritten, ?_⟩
    · rw [hc]
      rfl
    · rw [hsummary]
      rfl

end TypedContent
