import TypedContent.Proofs.Json.Words

/-!
# Printed values read back

The text of a value, in either layout, writes the tree of that value, and nothing of the text is
left.
-/

namespace TypedContent

namespace Json

mutual

/-- The tree of a text that writes the value. -/
def tree : Json → Tree
  | .null => .null
  | .bool b => .bool b
  | .num n => .num n
  | .str s => .str s
  | .arr items => .arr (itemTrees items) none
  | .obj members => .obj (memberTrees members) none

def itemTrees : List Json → List Tree
  | [] => []
  | x :: xs => x.tree :: itemTrees xs

def memberTrees : List (String × Json) → List (Tree × Tree)
  | [] => []
  | (k, x) :: ms => (.str k, x.tree) :: memberTrees ms

end

theorem itemTrees_eq_map (items : List Json) : itemTrees items = items.map tree := by
  induction items with
  | nil => rfl
  | cons x xs ih => rw [itemTrees, ih, List.map_cons]

theorem memberTrees_eq_map (members : List (String × Json)) :
    memberTrees members = members.map fun m => (.str m.1, m.2.tree) := by
  induction members with
  | nil => rfl
  | cons m ms ih => rw [memberTrees, ih, List.map_cons]

/-- All numbers in the value, at any depth, are printed as they were written. -/
inductive Lossless : Json → Prop
  | null : Lossless .null
  | bool {b} : Lossless (.bool b)
  | num {n} : Exact n → Lossless (.num n)
  | str {s} : Lossless (.str s)
  | arr {items} : (∀ x ∈ items, Lossless x) → Lossless (.arr items)
  | obj {members} : (∀ m ∈ members, Lossless m.2) → Lossless (.obj members)

theorem lossless_num {n : Number} : (Json.num n).Lossless ↔ Exact n :=
  ⟨fun h => by cases h; assumption, .num⟩

theorem lossless_arr {items : List Json} : (Json.arr items).Lossless ↔ ∀ x ∈ items, x.Lossless :=
  ⟨fun h => by cases h; assumption, .arr⟩

theorem lossless_obj {members : List (String × Json)} :
    (Json.obj members).Lossless ↔ ∀ m ∈ members, m.2.Lossless :=
  ⟨fun h => by cases h; assumption, .obj⟩

/-! ## What is printed -/

theorem blanks_lineBreak (l : Layout) (depth : Nat) : Blanks (l.lineBreak depth) := by
  cases l with
  | compact => exact List.forall_mem_nil _
  | pretty =>
    refine List.forall_mem_cons.mpr ⟨rfl, fun c hc => ?_⟩
    rw [(List.mem_replicate.mp hc).2]
    rfl

/-- A colon, and what stands before the value. -/
theorem colon_eq (l : Layout) : ∃ blanks, Blanks blanks ∧ l.colon = ':' :: blanks := by
  cases l with
  | compact => exact ⟨[], List.forall_mem_nil _, rfl⟩
  | pretty => exact ⟨[' '], List.forall_mem_singleton.mpr rfl, rfl⟩

theorem spelled_printItems {l : Layout} {depth : Nat} {x : Json} {xs : List Json}
    (h : ∀ y ∈ x :: xs, (Phrase.value y.tree).Spelled (print l (depth + 1) y)) :
    (Phrase.items (itemTrees (x :: xs))).Spelled (print l (depth + 1) x ++ printItems l depth xs) := by
  have hx := h x List.mem_cons_self
  induction xs generalizing x with
  | nil => exact .lastItem hx (blanks_lineBreak l depth)
  | cons y ys ih =>
    have hys := ih (fun z hz => h z (List.mem_cons_of_mem x hz)) (h y (by simp))
    exact .nextItem hx (List.forall_mem_nil _) (hys.blanks (blanks_lineBreak l (depth + 1)))

theorem spelled_printMembers {l : Layout} {depth : Nat} {k : String} {x : Json} {ms : List (String × Json)}
    (h : ∀ m ∈ (k, x) :: ms, (Phrase.value m.2.tree).Spelled (print l (depth + 1) m.2)) :
    (Phrase.members (memberTrees ((k, x) :: ms))).Spelled
      (quote k ++ (l.colon ++ (print l (depth + 1) x ++ printMembers l depth ms))) := by
  obtain ⟨blanks, hblanks, hcolon⟩ := colon_eq l
  have hx := (h _ List.mem_cons_self).blanks hblanks
  induction ms generalizing k x with
  | nil =>
    rw [hcolon, List.cons_append, ← List.append_assoc blanks]
    exact .lastMember (.word (word_quote k)) rfl (List.forall_mem_nil _) hx (blanks_lineBreak l depth)
  | cons m ms ih =>
    have hms := ih (fun m' hm' => h m' (List.mem_cons_of_mem _ hm')) ((h m (by simp)).blanks hblanks)
    rw [hcolon, List.cons_append, ← List.append_assoc blanks]
    exact .nextMember (.word (word_quote k)) rfl (List.forall_mem_nil _) hx (List.forall_mem_nil _)
      (hms.blanks (blanks_lineBreak l (depth + 1)))

theorem spelled_print {v : Json} (h : v.Lossless) (l : Layout) :
    ∀ depth, (Phrase.value v.tree).Spelled (print l depth v) := by
  induction h with
  | null => exact fun _ => .word .null
  | @bool b => cases b <;> exact fun _ => .word (by constructor)
  | num hn => exact fun _ => .word (word_number hn)
  | @str s => exact fun _ => .word (word_quote s)
  | @arr items _ ih =>
    intro depth
    cases items with
    | nil => exact .noItems (List.forall_mem_nil _)
    | cons x xs =>
      exact .arr ((spelled_printItems fun y hy => ih y hy (depth + 1)).blanks (blanks_lineBreak l (depth + 1)))
  | @obj members _ ih =>
    intro depth
    cases members with
    | nil => exact .noMembers (List.forall_mem_nil _)
    | cons m ms =>
      exact .obj ((spelled_printMembers fun m hm => ih m hm (depth + 1)).blanks (blanks_lineBreak l (depth + 1)))

/-- The whole text of a value writes the value's tree. -/
theorem writes_print {v : Json} (h : v.Lossless) (l : Layout) : v.tree.Writes (print l 0 v) :=
  ⟨print l 0 v, [], (List.append_nil _).symm, spelled_print h l 0, List.forall_mem_nil _⟩

theorem writes_text {v : Json} (h : v.Lossless) (l : Layout) : v.tree.Writes (String.ofList (print l 0 v)).toList := by
  rw [String.toList_ofList]
  exact writes_print h l

end Json

end TypedContent
