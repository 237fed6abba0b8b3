import Mathlib.Data.List.Nodup
import TypedContent.Proofs.Building
import TypedContent.Proofs.Except

/-!
# Additions to a table

A definition is added if its name is not there yet, and then it comes last. So the names of
a table that grew from an empty one are distinct.
-/

namespace TypedContent

/-- Among distinct keys the key of an element leads to it. -/
theorem find?_of_distinct {β : Type} (key : β → String) {l : List β} (hn : (l.map key).Nodup) {b : β} (hb : b ∈ l) :
    l.find? (key · = key b) = some b := by
  cases hfind : l.find? (key · = key b) with
  | none => simpa using List.find?_eq_none.mp hfind b hb
  | some a =>
    have hkey : key a = key b := by simpa using List.find?_some hfind
    rw [List.inj_on_of_nodup_map hn (List.mem_of_find?_eq_some hfind) hb hkey]

namespace Table

variable {α : Type} [Named α]

def append (t : Table α) (entry : α) : Table α := { t with entries := t.entries ++ [entry] }

@[simp] theorem names_empty (kind : TableKind) : (Table.empty kind : Table α).names = [] := rfl

@[simp] theorem names_append (t : Table α) (entry : α) : (t.append entry).names = t.names ++ [Named.name entry] := by
  simp [append, names]

omit [Named α] in
theorem forall_append {t : Table α} {entry : α} {p : α → Prop} :
    (∀ a ∈ (t.append entry).entries, p a) ↔ (∀ a ∈ t.entries, p a) ∧ p entry := by
  simp [append, or_imp, forall_and]

theorem result_register (t : Table α) (entry : α) : (register entry).result t = t.insert entry := rfl

theorem insert_eq (t : Table α) (entry : α) :
    t.insert entry = if t.contains (Named.name entry) then .error (.duplicateName t.kind (Named.name entry))
      else .ok (t.append entry) := by
  simp only [insert, register, Building.result_get, Building.result_ite, Building.result_throw, Building.result_modify]
  rfl

theorem insert_eq_ok {t t' : Table α} {entry : α} :
    t.insert entry = .ok t' ↔ Named.name entry ∉ t.names ∧ t.append entry = t' := by
  rw [insert_eq]
  by_cases h : t.contains (Named.name entry) = true
  · simp [h, contains_eq_true.mp h]
  · have hn : Named.name entry ∉ t.names := fun hm => h (contains_eq_true.mpr hm)
    simp [h, hn]

theorem register_atomic (entry : α) : Building.Atomic (register entry) :=
  Building.atomic_get fun _ => Building.atomic_ite (Building.atomic_throw _ _) (Building.atomic_modify _)

theorem get?_some {t : Table α} {name : String} {a : α} (h : t.get? name = some a) :
    a ∈ t.entries ∧ Named.name a = name :=
  ⟨List.mem_of_find?_eq_some h, by simpa using List.find?_some h⟩

theorem mem_names {t : Table α} {a : α} (h : a ∈ t.entries) : Named.name a ∈ t.names :=
  List.mem_map.mpr ⟨a, h, rfl⟩

theorem nodup_append {t : Table α} {entry : α} :
    (t.append entry).names.Nodup ↔ t.names.Nodup ∧ Named.name entry ∉ t.names := by
  rw [names_append, List.nodup_append]
  constructor
  · intro hall
    obtain ⟨ht, -, hn⟩ := hall
    exact ⟨ht, fun hm => hn _ hm _ (by simp) rfl⟩
  · intro hall
    obtain ⟨ht, hn⟩ := hall
    refine ⟨ht, by simp, fun n hm m hm' e => hn ?_⟩
    rw [← List.mem_singleton.mp hm', ← e]
    exact hm

/-- Definitions that are checked, converted and added one after the other. -/
theorem foldlM_insert {β : Type} {check : β → Except SchemaError Unit} {convert : β → α} :
    ∀ {as : List β} {t t' : Table α},
      as.foldlM (fun t a => do check a; t.insert (convert a)) t = .ok t' →
        (∀ a ∈ as, check a = .ok ()) ∧ t'.entries = t.entries ++ as.map convert ∧ (t.names.Nodup → t'.names.Nodup)
  | [], t, t', h => by
    simp only [List.foldlM_nil, pure_eq_ok] at h
    subst h
    simp
  | a :: as, t, t', h => by
    simp only [List.foldlM_cons, bind_eq_ok, insert_eq_ok] at h
    obtain ⟨_, ⟨⟨⟩, hc, hn, rfl⟩, h⟩ := h
    obtain ⟨hcs, he, hd⟩ := foldlM_insert h
    refine ⟨List.forall_mem_cons.mpr ⟨hc, hcs⟩, ?_, fun ht => hd ?_⟩
    · rw [he]
      simp [append]
    · exact nodup_append.mpr ⟨ht, hn⟩

/-- A run of additions with new and distinct names stops where a check first fails, and for no
other reason. -/
theorem foldlM_insert_run {β : Type} {check : β → Except SchemaError Unit} {convert : β → α} :
    ∀ {as : List β} {t : Table α}, (t.names ++ as.map fun a => Named.name (convert a)).Nodup →
      as.foldlM (fun t a => do check a; t.insert (convert a)) t =
        forM as check >>= fun _ => .ok { t with entries := t.entries ++ as.map convert }
  | [], t, _ => by
    rw [List.map_nil, List.append_nil]
    rfl
  | a :: as, t, h => by
    have hnew : Named.name (convert a) ∉ t.names := fun hm =>
      (List.nodup_append.mp h).2.2 _ hm _ (by simp) rfl
    have hrest : ((t.append (convert a)).names ++ as.map fun a => Named.name (convert a)).Nodup := by
      rw [names_append, List.append_assoc]
      exact h
    rw [List.foldlM_cons, List.forM_cons, insert_eq_ok.mpr ⟨hnew, rfl⟩]
    cases hc : check a with
    | error e => rfl
    | ok u =>
      have ih : as.foldlM (fun t a => do check a; t.insert (convert a)) (t.append (convert a)) = _ := foldlM_insert_run hrest
      rw [show (t.append (convert a)).entries ++ as.map convert = t.entries ++ (a :: as).map convert by
        simp [append]] at ih
      exact ih

/-! ## Distinct names -/

theorem eq_of_name {t : Table α} (hn : t.names.Nodup) {a b : α} (ha : a ∈ t.entries) (hb : b ∈ t.entries)
    (h : Named.name a = Named.name b) : a = b :=
  List.inj_on_of_nodup_map hn ha hb h

theorem get?_eq_some_iff {t : Table α} (hn : t.names.Nodup) {name : String} {a : α} :
    t.get? name = some a ↔ a ∈ t.entries ∧ Named.name a = name := by
  constructor
  · exact get?_some
  · rintro ⟨ha, rfl⟩
    exact find?_of_distinct Named.name hn ha

theorem sorted_perm_entries (t : Table α) : t.sorted.Perm t.entries := List.mergeSort_perm _ _

theorem sorted_ordered (t : Table α) : t.sorted.Pairwise fun a b => Named.name a ≤ Named.name b := by
  have h : t.sorted.Pairwise fun a b => decide (Named.name a ≤ Named.name b) = true := by
    refine List.pairwise_mergeSort ?_ ?_ _
    · intro a b c hab hbc
      simp only [decide_eq_true_eq] at hab hbc ⊢
      exact String.le_trans hab hbc
    · intro a b
      simpa using String.le_total (Named.name a) (Named.name b)
  simpa only [decide_eq_true_eq] using h

/-- Among distinct names no two are equal, so each is below the next. -/
theorem sorted_increasing {t : Table α} (hn : t.names.Nodup) :
    t.sorted.Pairwise fun a b => Named.name a < Named.name b := by
  have hnodup : (t.sorted.map Named.name).Nodup := ((sorted_perm_entries t).map Named.name).nodup_iff.mpr hn
  refine (t.sorted_ordered.and (List.pairwise_map.mp hnodup)).imp ?_
  intro a b h
  obtain ⟨hle, hne⟩ := h
  exact Std.lt_of_le_of_ne hle hne

end Table

end TypedContent
