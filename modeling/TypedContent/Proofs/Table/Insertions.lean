import Mathlib
import TypedContent.Proofs.Table
import TypedContent.Proofs.Text.Bytes
import TypedContent.Table.Indexed

/-!
# What a table is after any insertions

An insertion looks at the index only and changes the index before the definitions, so all depends
on the two saying the same: a name has a position in the index if it stands there among the names.
Each insertion keeps that. So no name is entered twice, what is found for a name is the first
definition that came with it, and the table without its index answers alike.
-/

namespace TypedContent

/-- Insertions one after the other, whether they succeed or not. -/
def Table.run {α : Type} [Named α] (t : Table α) (calls : List α) : Table α :=
  calls.foldl (fun t a => (t.insert a).toOption.getD t) t

namespace IndexedTable

variable {α : Type} [Named α] {t : IndexedTable α} {a : α} {name : String}

/-- The index gives each name its position and has no other name. -/
def Coherent (t : IndexedTable α) : Prop := ∀ (name : String) (i : Nat), t.index[name]? = some i ↔ t.names[i]? = some name

namespace Coherent

theorem contains_iff (h : t.Coherent) : t.contains name = true ↔ name ∈ t.names := by
  rw [contains, Std.HashMap.contains_eq_isSome_getElem?, Option.isSome_iff_exists, List.mem_iff_getElem?]
  exact exists_congr (h name)

theorem nodup (h : t.Coherent) : t.names.Nodup := by
  rw [List.nodup_iff_getElem?_ne_getElem?]
  intro i j hij hj heq
  have hi : t.names[i]? = some t.names[j] := heq.trans (List.getElem?_eq_getElem hj)
  have hindex := (h _ i).mpr hi
  rw [(h _ j).mpr (List.getElem?_eq_getElem hj)] at hindex
  exact absurd (Option.some.inj hindex) (Nat.ne_of_gt hij)

/-- Looking a name up by its position and searching for it find the same. -/
theorem get?_eq (h : t.Coherent) (name : String) : t.get? name = t.table.get? name := by
  refine Option.ext fun a => ?_
  have hnames : ∀ i : Nat, t.names[i]? = t.entries[i]?.map Named.name := by
    intro i
    simp [names, Table.names, table]
  rw [Table.get?_eq_some_iff h.nodup, get?, Option.bind_eq_bind, Option.bind_eq_some_iff]
  constructor
  · rintro ⟨i, hi, ha⟩
    have hname := (h name i).mp hi
    rw [hnames, ha] at hname
    exact ⟨Array.mem_toList_iff.mpr (Array.mem_of_getElem? ha), Option.some.inj hname⟩
  · rintro ⟨ha, rfl⟩
    obtain ⟨i, hi⟩ := List.mem_iff_getElem?.mp ha
    have hi' : t.entries[i]? = some a := by simpa [table] using hi
    exact ⟨i, (h _ i).mpr (by rw [hnames, hi']; rfl), hi'⟩

theorem contains_eq (h : t.Coherent) (name : String) : t.contains name = (t.get? name).isSome := by
  rw [h.get?_eq, Bool.eq_iff_iff, h.contains_iff]
  exact Table.contains_eq_true.symm

end Coherent

/-! ## One insertion -/

def push (t : IndexedTable α) (a : α) : IndexedTable α :=
  ⟨t.kind, t.entries.push a, t.index.insert (Named.name a) t.entries.size⟩

@[simp] theorem table_push (t : IndexedTable α) (a : α) : (t.push a).table = t.table.append a := by
  simp [push, table, Table.append]

@[simp] theorem names_push (t : IndexedTable α) (a : α) : (t.push a).names = t.names ++ [Named.name a] := by
  simp [names]

theorem perform_eq (t : IndexedTable α) (a : α) :
    t.perform a =
      if t.contains (Named.name a) then (.error (.duplicateName t.kind (Named.name a)), t) else (.ok (), t.push a) := by
  have hget : ∀ k : IndexedTable α → ExceptT SchemaError (StateM (IndexedTable α)) Unit,
      (get >>= k).run.run t = (k t).run.run t := fun _ => rfl
  rw [perform, insert, hget]
  cases t.contains (Named.name a) <;> rfl

theorem coherent_empty (kind : TableKind) : (empty kind : IndexedTable α).Coherent := by
  intro name i
  simp [empty, names, table, Table.names]

theorem Coherent.push (h : t.Coherent) (hnew : Named.name a ∉ t.names) : (t.push a).Coherent := by
  intro name i
  have hlength : t.entries.size = t.names.length := by simp [names, Table.names, table]
  rw [names_push, IndexedTable.push, Std.HashMap.getElem?_insert, hlength, List.getElem?_append]
  by_cases hname : Named.name a = name
  · subst hname
    rw [if_pos (beq_self_eq_true _), Option.some_inj]
    constructor
    · rintro rfl
      simp
    · intro hi
      split at hi
      · exact absurd (List.mem_of_getElem? hi) hnew
      · rw [List.getElem?_singleton, Option.ite_none_right_eq_some] at hi
        omega
  · rw [if_neg (by simpa using hname), h name i]
    split
    · exact Iff.rfl
    · rename_i hi
      rw [List.getElem?_eq_none (Nat.le_of_not_lt hi), List.getElem?_singleton]
      simp [hname]

theorem Coherent.perform (h : t.Coherent) (a : α) : (t.perform a).2.Coherent := by
  rw [perform_eq]
  split
  · exact h
  · rename_i hnew
    exact h.push (mt h.contains_iff.mpr hnew)

/-- A table without an index takes and refuses the same. -/
theorem Coherent.perform_table (h : t.Coherent) (a : α) :
    (t.perform a).1.map (fun _ => (t.perform a).2.table) = t.table.insert a := by
  rw [perform_eq, Table.insert_eq, h.contains_eq, h.get?_eq, ← Table.contains]
  split
  · rfl
  · rw [table_push]
    rfl

/-- What was found for a name stays, and a definition with a new name is found from then on. -/
theorem Coherent.get?_perform (h : t.Coherent) (a : α) (name : String) :
    (t.perform a).2.get? name = (t.get? name).or (if Named.name a = name then some a else none) := by
  rw [perform_eq]
  split
  · rename_i hold
    by_cases hname : Named.name a = name
    · subst hname
      rw [h.contains_eq] at hold
      rw [Option.or_of_isSome hold]
    · rw [if_neg hname, Option.or_none]
  · rename_i hnew
    rw [(h.push (mt h.contains_iff.mpr hnew)).get?_eq, h.get?_eq, table_push, Table.get?, Table.append,
      List.find?_append, List.find?_singleton]
    simp [Table.get?]

/-! ## Any number of insertions -/

theorem Coherent.run (h : t.Coherent) (calls : List α) : (t.run calls).Coherent := by
  induction calls generalizing t with
  | nil => exact h
  | cons a rest ih => exact ih (h.perform a)

theorem Coherent.get?_run (h : t.Coherent) (calls : List α) (name : String) :
    (t.run calls).get? name = (t.get? name).or (calls.find? (Named.name · = name)) := by
  induction calls generalizing t with
  | nil => exact Option.or_none.symm
  | cons a rest ih =>
    rw [IndexedTable.run, List.foldl_cons, ← IndexedTable.run, ih (h.perform a), h.get?_perform, Option.or_assoc,
      List.find?_cons]
    by_cases hname : Named.name a = name <;> simp [hname]

theorem run_table (t : IndexedTable α) (calls : List α) :
    (t.run calls).table = { t.table with entries := t.table.entries ++ t.accepted calls } := by
  induction calls generalizing t with
  | nil => simp [run, accepted]
  | cons a rest ih =>
    rw [run, List.foldl_cons, ← run, ih, accepted, perform_eq]
    split_ifs
    · rfl
    · simp [Table.append]

/-- A table without an index, after the same insertions. -/
theorem Coherent.run_plain (h : t.Coherent) (calls : List α) : t.table.run calls = (t.run calls).table := by
  induction calls generalizing t with
  | nil => rfl
  | cons a rest ih =>
    have hstep : (t.table.insert a).toOption.getD t.table = (t.perform a).2.table := by
      rw [← h.perform_table, perform_eq]
      split <;> rfl
    rw [Table.run, List.foldl_cons, hstep]
    exact ih (h.perform a)

/-- What a table answers after the calls of which those kept were accepted. -/
structure Answers (kind : TableKind) (calls kept : List α) (t : IndexedTable α) : Prop where
  distinct : t.names.Nodup
  index : ∀ (name : String) (i : Nat), t.index[name]? = some i ↔ t.names[i]? = some name
  refuses : ∀ a, (t.perform a).1 = .error (.duplicateName kind (Named.name a)) ↔ ∃ b ∈ kept, Named.name b = Named.name a
  refused : ∀ a e, (t.perform a).1 = .error e → t.perform a = (.error (.duplicateName kind (Named.name a)), t)
  find : ∀ name, t.get? name = calls.find? (Named.name · = name)
  contains : ∀ name, t.contains name = (t.get? name).isSome
  entries : t.entries.toList = kept
  names : t.names = kept.map Named.name
  keys : ∀ entry, t.toJson entry = .obj (kept.map fun a => (Named.name a, entry a))
  size : t.size = kept.length
  sorted : t.sorted.Perm kept
  increasing : t.sorted.Pairwise fun a b => Text.bytes (Named.name a) < Text.bytes (Named.name b)
  plain : (Table.empty kind).run calls = t.table
  scanned : ∀ name, t.table.get? name = t.get? name

/-- Whatever is inserted, and whether it is accepted or not: the names stay distinct and the index
has exactly their positions, a definition is refused if one of its name was accepted before and for
no other reason, and each name stands for the first definition that came with it. A table without
the index is in the same state and finds the same. -/
theorem run_answers (kind : TableKind) (calls : List α) :
    Answers kind calls ((empty kind).accepted calls) ((empty kind).run calls) := by
  have h := (coherent_empty (α := α) kind).run calls
  have htable : ((empty kind).run calls).table = ⟨kind, (empty kind).accepted calls⟩ := run_table (empty kind) calls
  have hfind := (coherent_empty (α := α) kind).get?_run calls
  have hplain : (Table.empty kind).run calls = ((empty kind).run calls).table := (coherent_empty kind).run_plain calls
  generalize (empty kind).run calls = t at h htable hfind hplain
  generalize (empty kind).accepted calls = kept at htable
  have hkind : t.kind = kind := congrArg Table.kind htable
  have hentries : t.entries.toList = kept := congrArg Table.entries htable
  have hnames : t.names = kept.map Named.name := congrArg Table.names htable
  have hperform : ∀ a, t.perform a =
      if Named.name a ∈ t.names then (.error (.duplicateName kind (Named.name a)), t) else (.ok (), t.push a) := by
    intro a
    simp only [perform_eq, h.contains_iff, hkind]
  exact {
    distinct := h.nodup
    index := h
    refuses := fun a => by
      rw [hperform, ← List.mem_map, ← hnames]
      by_cases hold : Named.name a ∈ t.names <;> simp [hold]
    refused := fun a e he => by
      rw [hperform] at he ⊢
      by_cases hold : Named.name a ∈ t.names
      · rw [if_pos hold]
      · rw [if_neg hold] at he
        cases he
    find := fun name => by rw [hfind, (coherent_empty kind).get?_eq]; rfl
    contains := h.contains_eq
    entries := hentries
    names := hnames
    keys := fun entry => by rw [toJson, htable]; rfl
    size := by rw [size, ← Array.length_toList, hentries]
    sorted := by rw [← hentries]; exact Table.sorted_perm_entries t.table
    increasing := (Table.sorted_increasing h.nodup).imp Text.bytes_lt
    plain := hplain
    scanned := fun name => (h.get?_eq name).symm }

end IndexedTable

end TypedContent
