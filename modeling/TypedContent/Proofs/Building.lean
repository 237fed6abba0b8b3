import TypedContent.Table

/-!
# Calls that build in place

What a call gives is read off its steps: a check stops it or lets it go on, and reading what has
been built so far changes nothing. A call is atomic if it leaves everything as it was whenever it
fails. Checks in front of an atomic call keep it so, and so they would not behind one that writes.
-/

namespace TypedContent.Building

variable {σ τ α : Type} {s : σ}

@[simp] theorem result_check (x : Except SchemaError α) (next : α → Building σ Unit) :
    result (liftM x >>= next) s = x >>= fun a => (next a).result s := by
  cases x <;> rfl

@[simp] theorem result_get (next : σ → Building σ Unit) : result (get >>= next) s = (next s).result s := rfl

@[simp] theorem result_throw (e : SchemaError) (next : α → Building σ Unit) :
    result (throw e >>= next) s = .error e := rfl

@[simp] theorem result_ite {p : Prop} [Decidable p] (call other : Building σ Unit) :
    result (if p then call else other) s = if p then call.result s else other.result s := by
  split <;> rfl

@[simp] theorem result_modify (f : σ → σ) : result (modify f) s = .ok (f s) := rfl

theorem run_of_result {call : Building σ Unit} {s' : σ} (h : call.result s = .ok s') : call.run.run s = (.ok (), s') := by
  unfold result at h
  split at h
  · rename_i heq
    cases h
    exact heq
  · cases h

/-! ## Atomic calls -/

/-- Whatever it is called on, the call leaves that as it was if it fails. -/
def Atomic (call : Building σ Unit) : Prop := ∀ s e, (call.run.run s).1 = .error e → (call.run.run s).2 = s

theorem atomic_check {x : Except SchemaError α} {next : α → Building σ Unit} (h : ∀ a, Atomic (next a)) :
    Atomic (liftM x >>= next) := by
  cases x with
  | error e => exact fun _ _ _ => rfl
  | ok a => exact h a

/-- The rest of a call may depend on what it has read, so it has to be atomic there only. -/
theorem atomic_get {next : σ → Building σ Unit} (h : ∀ t, Atomic (next t)) : Atomic (get >>= next) :=
  fun s => h s s

theorem atomic_throw (e : SchemaError) (next : α → Building σ Unit) : Atomic (throw e >>= next) :=
  fun _ _ _ => rfl

theorem atomic_ite {p : Prop} [Decidable p] {call other : Building σ Unit} (h : Atomic call) (h' : Atomic other) :
    Atomic (if p then call else other) := by
  split
  · exact h
  · exact h'

theorem atomic_modify (f : σ → σ) : Atomic (modify f) := by
  intro s e h
  cases h

end TypedContent.Building
