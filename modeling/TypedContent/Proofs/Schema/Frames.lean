import Mathlib
import TypedContent.Proofs.Schema.Levels

/-!
# A value and what stands around it

What stands around a value in a record, or around a record among named ones, is read the same
whatever the value is. So if it can be read at all, reading the whole comes down to reading the
value: the result is made of the value's, and what is wrong with the value is wrong with the whole.
-/

namespace TypedContent

variable {σ α β : Type}

/-! ## In a record -/

/-- A record with a gap where a member has its value. -/
inductive RecordFrame (r : Record) (key : String)
  | members (before after : List (Tree × Tree))
  | items (before after : List Tree) (place : r.slots[before.length]? = some key)

namespace RecordFrame

variable {r : Record} {key : String}

def fill : RecordFrame r key → Tree → Tree
  | .members before after, t => .obj (before ++ (.str key, t) :: after) none
  | .items before after _, t => .arr (before ++ t :: after) none

theorem bracketed_fill (frame : RecordFrame r key) (t : Tree) : (frame.fill t).Bracketed := by
  cases frame <;> trivial

theorem whole_fill (frame : RecordFrame r key) {t t' : Tree} (h : t.Whole → t'.Whole) :
    (frame.fill t).Whole → (frame.fill t').Whole := by
  cases frame with
  | members before after =>
    simp only [fill, Tree.whole_obj, true_and, List.forall_mem_append, List.forall_mem_cons]
    exact fun ⟨hkeys, hbefore, ht, hafter⟩ => ⟨hkeys, hbefore, h ht, hafter⟩
  | items before after _ =>
    simp only [fill, Tree.whole_arr, true_and, List.forall_mem_append, List.forall_mem_cons]
    exact fun ⟨hbefore, ht, hafter⟩ => ⟨hbefore, h ht, hafter⟩

theorem nested_of_fill (frame : RecordFrame r key) {t : Tree} {n : Nat} (h : (frame.fill t).Nested n) :
    t.Nested (n - 1) := by
  cases frame with
  | members before after => exact h.of_member
  | items before after _ => exact h.of_item

end RecordFrame

namespace Shape

variable {shape : Shape σ} {slot : Slot σ} {read : Reader α} {store : σ → α → σ}

section
variable (hs : shape.Lawful) (hm : slot ∈ shape.slots) (hfill : ∀ s t, slot.fill s t = store s <$> read t)
include hs hm hfill

theorem Lawful.readObject_ok {before after : List (Tree × Tree)} {t₀ : Tree} {s₀ : σ}
    (h : shape.readObject (before ++ (.str slot.key, t₀) :: after) none = .ok s₀) :
    ∃ s, (∃ a, read t₀ = .ok a ∧ store s a = s₀) ∧ ∀ t a, read t = .ok a →
      shape.readObject (before ++ (.str slot.key, t) :: after) none = .ok (store s a) := by
  have hlast : ∀ t, (before ++ (.str slot.key, t) :: after).Perm (before ++ after ++ [(.str slot.key, t)]) :=
    fun t => List.perm_middle.trans (List.perm_append_singleton _ _).symm
  have hone : ∀ s t, shape.fillOne s (.str slot.key, t) = store s <$> read t := by
    intro s t
    rw [fillOne_known (find?_slot hs.nodup hm), hfill]
  -- members may be read in any order, so the value is read last
  obtain ⟨-, hfold, hnodup, hrequired⟩ := readObject_eq_ok.mp (hs.readObject_perm (hlast t₀) h)
  simp only [List.foldlM_append, List.foldlM_cons, List.foldlM_nil, hone, bind_eq_ok, map_eq_ok, pure_eq_ok] at hfold
  obtain ⟨s, hothers, _, ⟨a, ha, rfl⟩, rfl⟩ := hfold
  refine ⟨s, ⟨a, ha, rfl⟩, fun t b hb => hs.readObject_perm (hlast t).symm (readObject_eq_ok.mpr ?_)⟩
  have hknown : shape.knownKeys (before ++ after ++ [(.str slot.key, t)]) =
      shape.knownKeys (before ++ after ++ [(.str slot.key, t₀)]) := by
    rw [knownKeys, knownKeys, List.filterMap_append, List.filterMap_append (l := before ++ after)]
    rfl
  refine ⟨rfl, ?_, hknown ▸ hnodup, hknown ▸ hrequired⟩
  simp only [List.foldlM_append, List.foldlM_cons, List.foldlM_nil, hone, bind_eq_ok, map_eq_ok, pure_eq_ok]
  exact ⟨s, hothers, _, ⟨b, hb, rfl⟩, rfl⟩

/-- What comes before the value is read before it, so the first error is the value's. -/
theorem Lawful.readObject_error {before after : List (Tree × Tree)} {t₀ : Tree} {s₀ : σ}
    (h : shape.readObject (before ++ (.str slot.key, t₀) :: after) none = .ok s₀) {t : Tree} {e : ReadError}
    (he : read t = .error e) : shape.readObject (before ++ (.str slot.key, t) :: after) none = .error e := by
  have hmember : ∀ keys value u, shape.fillMember (keys, value) (.str slot.key, u) =
      if slot.key ∈ keys then .error (.shape (.duplicateKey slot.key))
      else (store value <$> read u) >>= fun value => pure (slot.key :: keys, value) := by
    intro keys value u
    rw [fillMember_known (find?_slot hs.nodup hm), hfill]
  simp only [readObject, List.foldlM_append, List.foldlM_cons, bind_eq_ok] at h
  obtain ⟨_, ⟨⟨keys, value⟩, hbefore, next, hnext, -⟩, -⟩ := h
  have hnew : slot.key ∉ keys := by
    intro hold
    rw [hmember, if_pos hold] at hnext
    cases hnext
  rw [readObject, List.foldlM_append, hbefore]
  change (((fillMember shape (keys, value) (.str slot.key, t)) >>= _) >>= _) = _
  rw [hmember, if_neg hnew, he]
  rfl

end

/-- A slot may be filled before the slots that follow it or after them. -/
theorem readArray_swap {stop : Option Fault} {t : Tree} {slots : List (Slot σ)} (hcomm : ∀ b ∈ slots, Slot.Commute slot b)
    {result : σ} : ∀ {items : List Tree} {count : Nat} {value : σ},
      (slot.fill value t >>= (shape.readArray stop slots count · items)) = .ok result ↔
        (shape.readArray stop slots count value items >>= (slot.fill · t)) = .ok result := by
  induction slots with
  | nil =>
    intro items count value
    cases items with
    | nil =>
      simp only [readArray, bind_eq_ok, orFault_eq_ok, Tree.unlessStop_eq_ok]
      grind
    | cons item items => simp [readArray, malformed, bind_eq_ok]
  | cons b rest ih =>
    obtain ⟨hb, hrest⟩ := List.forall_mem_cons.mp hcomm
    intro items count value
    cases items with
    | nil =>
      simp only [readArray, bind_eq_ok, orFault_eq_ok, Tree.unlessStop_eq_ok]
      have := @ih hrest [] count value
      simp only [bind_eq_ok] at this
      split <;> grind
    | cons item items =>
      have hnext := fun m => @ih hrest items (count + 1) m
      simp only [readArray]
      rw [← bind_assoc, bind_eq_ok]
      simp only [hb value t item]
      rw [← bind_eq_ok, bind_assoc, bind_eq_ok]
      simp only [hnext]
      rw [← bind_eq_ok, bind_assoc]

theorem readArray_frame (hfill : ∀ s t, slot.fill s t = store s <$> read t) {t₀ : Tree} {s₀ : σ} {before after : List Tree}
    {slots : List (Slot σ)} (hcomm : slots.Pairwise Slot.Commute) (hplace : slots[before.length]? = some slot) {count : Nat}
    {value : σ} (h : shape.readArray none slots count value (before ++ t₀ :: after) = .ok s₀) :
    ∃ s, (∃ a, read t₀ = .ok a ∧ store s a = s₀) ∧ ∀ t,
      shape.readArray none slots count value (before ++ t :: after) = store s <$> read t := by
  induction before generalizing slots count value with
  | nil =>
    cases slots with
    | nil => cases hplace
    | cons b rest =>
      cases hplace
      have hswap : ∀ (t : Tree) (result : σ),
          (slot.fill value t >>= (shape.readArray none rest (count + 1) · after)) = .ok result ↔
            (shape.readArray none rest (count + 1) value after >>= (slot.fill · t)) = .ok result :=
        fun t result => readArray_swap (List.pairwise_cons.mp hcomm).1
      simp only [List.nil_append, readArray] at h ⊢
      -- the slots that follow are filled first, and then the value decides
      obtain ⟨s, hothers, hlast⟩ := bind_eq_ok.mp ((hswap t₀ s₀).mp h)
      rw [hfill, map_eq_ok] at hlast
      refine ⟨s, hlast, fun t => ?_⟩
      cases ht : read t with
      | error e =>
        rw [hfill, ht]
        rfl
      | ok a =>
        refine (hswap t (store s a)).mpr (bind_eq_ok.mpr ⟨s, hothers, ?_⟩)
        rw [hfill, ht]
        rfl
  | cons item before ih =>
    cases slots with
    | nil => cases hplace
    | cons b rest =>
      simp only [List.cons_append, readArray, bind_eq_ok] at h ⊢
      obtain ⟨next, hnext, hrest⟩ := h
      obtain ⟨s, hs, hall⟩ := ih (List.pairwise_cons.mp hcomm).2 (by simpa using hplace) hrest
      refine ⟨s, hs, fun t => ?_⟩
      rw [hnext, ← hall t]
      rfl

/-- A record with another value in its place is made of the rest and what is read of the value. -/
theorem Lawful.read_frame (hs : shape.Lawful) {r : Record} (hslots : shape.slots.map (·.key) = r.slots)
    (hm : slot ∈ shape.slots) (hfill : ∀ s t, slot.fill s t = store s <$> read t) (frame : RecordFrame r slot.key)
    {levels : Nat} {t₀ : Tree} {s₀ : σ} (h : readRecord levels shape (frame.fill t₀) = .ok s₀) :
    ∃ s, (∃ a, read t₀ = .ok a ∧ store s a = s₀) ∧ ∀ t, readRecord levels shape (frame.fill t) = store s <$> read t := by
  cases frame with
  | members before after =>
    obtain ⟨hlevels, h⟩ := readRecord_obj.mp h
    obtain ⟨s, hs₀, hok⟩ := hs.readObject_ok hm hfill h
    refine ⟨s, hs₀, fun t => ?_⟩
    rw [RecordFrame.fill, readRecord, if_neg hlevels]
    cases ht : read t with
    | ok a => exact hok t a ht
    | error e => exact hs.readObject_error hm hfill h ht
  | items before after place =>
    obtain ⟨hlevels, h⟩ := readRecord_arr.mp h
    have hplace : shape.slots[before.length]? = some slot := by
      rw [← hslots, List.getElem?_map, Option.map_eq_some_iff] at place
      obtain ⟨other, hother, hkey⟩ := place
      rw [hother, List.inj_on_of_nodup_map hs.nodup (List.mem_of_getElem? hother) hm hkey]
    obtain ⟨s, hs₀, hall⟩ := readArray_frame hfill hs.commute hplace h
    refine ⟨s, hs₀, fun t => ?_⟩
    rw [RecordFrame.fill, readRecord, if_neg hlevels]
    exact hall t

theorem Lawful.read_nullable_frame (hs : shape.Lawful) {r : Record} (hslots : shape.slots.map (·.key) = r.slots)
    {key : String} {store : σ → Option α → σ} (hm : nullableSlot key read store ∈ shape.slots) (frame : RecordFrame r key)
    {levels : Nat} {t₀ : Tree} (hb : t₀.Bracketed) {s₀ : σ} (h : readRecord levels shape (frame.fill t₀) = .ok s₀) :
    ∃ s, (∃ a, read t₀ = .ok a ∧ store s (some a) = s₀) ∧ ∀ t : Tree, t.Bracketed →
      readRecord levels shape (frame.fill t) = (store s ∘ some) <$> read t := by
  obtain ⟨s, ⟨a, ha, hs₀⟩, hall⟩ := hs.read_frame hslots hm (fun _ _ => rfl) frame h
  rw [readNullable_bracketed hb, map_eq_ok] at ha
  obtain ⟨b, hb₀, rfl⟩ := ha
  refine ⟨s, ⟨b, hb₀, hs₀⟩, fun t ht => (hall t).trans ?_⟩
  rw [readNullable_bracketed ht, comp_map]

end Shape

/-! ## Among definitions -/

theorem readEntries_append (read : Reader α) (before after : List (Tree × Tree)) :
    readEntries read (before ++ after) = do
      let entries ← readEntries read before
      return entries ++ (← readEntries read after) := by
  induction before with
  | nil =>
    rw [List.nil_append, readEntries]
    cases readEntries read after <;> rfl
  | cons m before ih =>
    obtain ⟨key, value⟩ := m
    simp only [List.cons_append, readEntries, ih, bind_assoc, pure_bind]

theorem readDefinitions_frame {read : Reader α} {levels : Nat} {before after : List (Tree × Tree)} {name : String}
    {t₀ : Tree} {entries₀ : List (String × α)}
    (h : readDefinitions levels read (.obj (before ++ (.str name, t₀) :: after) none) = .ok entries₀) :
    ∃ entries entries', entries.length = before.length ∧
      (∃ a, read t₀ = .ok a ∧ entries ++ (name, a) :: entries' = entries₀) ∧ ∀ t,
        readDefinitions levels read (.obj (before ++ (.str name, t) :: after) none) =
          (fun a => entries ++ (name, a) :: entries') <$> read t := by
  have hlevels : levels ≠ 0 := (readDefinitions_eq_ok.mp h).1
  have hread : ∀ t, readDefinitions levels read (.obj (before ++ (.str name, t) :: after) none) = do
      let entries ← readEntries read before
      let a ← read t
      return entries ++ (name, a) :: (← readEntries read after) := by
    intro t
    rw [readDefinitions, if_neg hlevels, readEntries_append]
    simp only [readEntries, Tree.key, orFault, Tree.unlessStop]
    cases readEntries read before with
    | error e => rfl
    | ok entries =>
      cases read t with
      | error e => rfl
      | ok a => cases readEntries read after <;> rfl
  rw [hread] at h
  simp only [bind_eq_ok, pure_eq_ok] at h
  obtain ⟨entries, hbefore, a, ha, entries', hafter, rfl⟩ := h
  have hlength : entries.length = before.length := (readEntries_eq_ok.mp hbefore).length_eq.symm
  refine ⟨entries, entries', hlength, ⟨a, ha, rfl⟩, fun t => ?_⟩
  rw [hread, hbefore, hafter]
  cases read t <;> rfl

/-! ## In a descriptor -/

section
variable {levels : Nat} {before after : List (Tree × Tree)} {t₀ : Tree}

def descriptorWith (before after : List (Tree × Tree)) (t : Tree) : Tree := .obj (before ++ (.str "fields", t) :: after) none

theorem descriptorKind?_inlineObject {fields : Reader (List SourceField)} {members : List (Tree × Tree)}
    {inner : List SourceField} : descriptorKind? levels fields members = some (.inlineObject inner) ↔
      (∃ type, valuesOf "type" members = [type] ∧ descriptorType? type = some "inline_object") ∧
        readOnce fields "fields" members = some inner := by
  unfold descriptorKind?
  constructor
  · intro h
    split at h
    next type htype =>
      have hname : descriptorType? type = some "inline_object" := by
        split at h <;> simp_all
      simp only [hname] at h
      obtain ⟨_, hinner, ⟨⟩⟩ := Option.map_eq_some_iff.mp h
      exact ⟨⟨type, htype, hname⟩, hinner⟩
    · cases h
  · rintro ⟨⟨type, htype, hname⟩, hinner⟩
    simp [htype, hname, hinner]

/-- An inline object among the items, with other fields. -/
theorem descriptor_fields {labelField : Option String} {inner₀ : List SourceField}
    (h : Record.descriptor.read levels (descriptorWith before after t₀) = .ok ⟨labelField, .inlineObject inner₀⟩) :
    readFields (levels - 1) t₀ = .ok inner₀ ∧ ∀ t item, Record.descriptor.read levels (descriptorWith before after t) =
      .ok item ↔ ∃ inner, readFields (levels - 1) t = .ok inner ∧ item = ⟨labelField, .inlineObject inner⟩ := by
  have hvalues : ∀ key, key ≠ "fields" → ∀ t, valuesOf key (before ++ (.str "fields", t) :: after) =
      valuesOf key (before ++ after) := fun key hkey t => valuesOf_middle hkey.symm t
  have hread : ∀ t item, Record.descriptor.read levels (descriptorWith before after t) = .ok item ↔
      readOptional readString "labelField" (before ++ after) = some item.labelField ∧
        descriptorKind? levels (readFields (levels - 1)) (before ++ (.str "fields", t) :: after) = some item.kind := by
    intro t item
    have hlabel : readOptional readString "labelField" (before ++ (.str "fields", t) :: after) =
        readOptional readString "labelField" (before ++ after) := by
      simp only [readOptional, hvalues "labelField" (by decide)]
    rw [Record.read, ofOption_eq_ok, readDescriptor_eq_some, ← hlabel]
    constructor
    · rintro ⟨_, _, ⟨⟩, h⟩
      exact h
    · exact fun h => ⟨_, _, rfl, h⟩
  obtain ⟨hlabel, hkind⟩ := (hread t₀ _).mp h
  obtain ⟨⟨type, htype, hname⟩, honce⟩ := descriptorKind?_inlineObject.mp hkind
  obtain ⟨u, hu, hinner₀⟩ := readOnce_eq_some.mp honce
  have hmiddle : ∀ t, valuesOf "fields" (before ++ (.str "fields", t) :: after) =
      valuesOf "fields" before ++ t :: valuesOf "fields" after := by
    intro t
    simp [valuesOf_eq_filterMap, valueOf?]
  -- the key stands there once, so it is the one with the gap
  have hgap : valuesOf "fields" before = [] ∧ t₀ = u ∧ valuesOf "fields" after = [] := by
    rw [hmiddle] at hu
    cases hb : valuesOf "fields" before <;> simp_all
  obtain ⟨hbefore, rfl, hafter⟩ := hgap
  refine ⟨hinner₀, fun t item => ?_⟩
  have hvalue : valuesOf "fields" (before ++ (.str "fields", t) :: after) = [t] := by rw [hmiddle, hbefore, hafter]; rfl
  rw [hvalues "type" (by decide)] at htype
  obtain ⟨itemLabel, itemKind⟩ := item
  rw [hread, hlabel, descriptorKind?, hvalues "type" (by decide), htype]
  simp only [hname, readOnce, hvalue, Option.map_eq_map, Option.map_eq_some_iff, toOption_eq_some, ItemOf.mk.injEq,
    Option.some.injEq]
  constructor
  · rintro ⟨rfl, inner, hinner, rfl⟩
    exact ⟨inner, hinner, rfl, rfl⟩
  · rintro ⟨inner, hinner, rfl, rfl⟩
    exact ⟨rfl, inner, hinner, rfl⟩

/-- Descriptors that are kept are wrong in one way only. -/
theorem readDescriptors_kept {t : Tree} (hw : t.Whole) (hn : t.Nested levels)
    (hnot : ∀ d, readDescriptors levels t ≠ .ok d) : readDescriptors levels t = .error (.shape .noDescriptors) := by
  obtain ⟨v, hv⟩ := Tree.keep_ok_iff.mpr ⟨hw, hn⟩
  cases hdescribed : described? levels (readFields (levels - 1 - 1)) (readFields (levels - 1)) t with
  | some d =>
    refine absurd ?_ (hnot d)
    rw [readDescriptors_eq, describe_eq, readJson, hv, hdescribed]
    rfl
  | none =>
    rw [readDescriptors_eq, describe_eq, readJson, hv, hdescribed]
    rfl

end

/-! ## In descriptors -/

def Descriptors.isOne : Descriptors → Bool
  | .one _ => true
  | .many _ => false

def itemFields? (items : List SourceItem) (i : Nat) : Option (List SourceField) := items[i]? >>= ItemOf.inlineFields?

/-- Descriptors with a gap for the fields of one of them. -/
inductive ItemGap
  | alone (before after : List (Tree × Tree))
  | among (earlier later : List Tree) (before after : List (Tree × Tree))

namespace ItemGap

def fill : ItemGap → Tree → Tree
  | .alone before after, t => descriptorWith before after t
  | .among earlier later before after, t => .arr (earlier ++ descriptorWith before after t :: later) none

def index : ItemGap → Nat
  | .alone .. => 0
  | .among earlier .. => earlier.length

def levels (n : Nat) : ItemGap → Nat
  | .alone .. => n - 1
  | .among .. => n - 1 - 1

theorem bracketed_fill (gap : ItemGap) (t : Tree) : (gap.fill t).Bracketed := by
  cases gap <;> trivial

theorem whole_fill (gap : ItemGap) {t t' : Tree} (h : t.Whole → t'.Whole) : (gap.fill t).Whole → (gap.fill t').Whole := by
  have hdescriptor : ∀ before after, (descriptorWith before after t).Whole → (descriptorWith before after t').Whole := by
    intro before after
    simp only [descriptorWith, Tree.whole_obj, true_and, List.forall_mem_append, List.forall_mem_cons]
    exact fun ⟨hkeys, hbefore, ht, hafter⟩ => ⟨hkeys, hbefore, h ht, hafter⟩
  cases gap with
  | alone before after => exact hdescriptor before after
  | among earlier later before after =>
    simp only [fill, Tree.whole_arr, true_and, List.forall_mem_append, List.forall_mem_cons]
    exact fun ⟨hearlier, ht, hlater⟩ => ⟨hearlier, hdescriptor before after ht, hlater⟩

theorem nested_of_fill (gap : ItemGap) {t : Tree} {n : Nat} (h : (gap.fill t).Nested n) : t.Nested (gap.levels n) := by
  cases gap with
  | alone before after => exact h.of_member
  | among earlier later before after => exact h.of_item.of_member

end ItemGap

/-- There is one result of the descriptors for each result of the fields in the gap. -/
structure ItemGap.Describes (gap : ItemGap) (levels : Nat) (d₀ : Descriptors) (put : List SourceField → Descriptors) :
    Prop where
  isOne : ∀ fields, (put fields).isOne = d₀.isOne
  found : ∀ fields, itemFields? (put fields).items gap.index = some fields
  read : ∀ t, (gap.fill t).Whole → (gap.fill t).Nested levels → ∀ d,
    readDescriptors levels (gap.fill t) = .ok d ↔ ∃ fields, readFields (gap.levels levels) t = .ok fields ∧ d = put fields

theorem ItemGap.describes (gap : ItemGap) {levels : Nat} {t₀ : Tree} {d₀ : Descriptors} {inner₀ : List SourceField}
    (h : readDescriptors levels (gap.fill t₀) = .ok d₀) (hin : itemFields? d₀.items gap.index = some inner₀) :
    readFields (gap.levels levels) t₀ = .ok inner₀ ∧ ∃ put, gap.Describes levels d₀ put := by
  cases gap with
  | alone before after =>
    obtain ⟨-, ⟨_, _, _, ⟨⟩, -⟩ | ⟨_, _, item₀, -, rfl, hitem₀⟩⟩ := readDescriptors_eq_ok.mp h
    obtain ⟨labelField, kind⟩ := item₀
    obtain rfl : kind = .inlineObject inner₀ := inlineFields?_eq_some.mp hin
    obtain ⟨hinner₀, hall⟩ := descriptor_fields hitem₀
    refine ⟨hinner₀, fun inner => .one ⟨labelField, .inlineObject inner⟩, fun _ => rfl, fun _ => rfl, fun t hw hn d => ?_⟩
    rw [readDescriptors_eq_ok]
    constructor
    · rintro ⟨-, ⟨_, _, _, ⟨⟩, -⟩ | ⟨_, _, item, -, rfl, hitem⟩⟩
      obtain ⟨inner, hinner, rfl⟩ := (hall t item).mp hitem
      exact ⟨inner, hinner, rfl⟩
    · rintro ⟨inner, hinner, rfl⟩
      exact ⟨Tree.keep_ok_iff.mpr ⟨hw, hn⟩, .inr ⟨_, _, _, rfl, rfl, (hall t _).mpr ⟨inner, hinner, rfl⟩⟩⟩
  | among earlier later before after =>
    obtain ⟨-, ⟨_, _, many, ⟨⟩, rfl, hitems⟩ | ⟨_, _, _, ⟨⟩, -⟩⟩ := readDescriptors_eq_ok.mp h
    obtain ⟨items, item₀, items', rfl, hearlier, hitem₀, hlater⟩ := forall₂_middle.mp hitems
    have hlength := hearlier.length_eq
    obtain ⟨labelField, kind⟩ := item₀
    obtain rfl : kind = .inlineObject inner₀ := by
      rw [itemFields?, index, hlength] at hin
      simpa [Descriptors.items, inlineFields?_eq_some] using hin
    obtain ⟨hinner₀, hall⟩ := descriptor_fields hitem₀
    refine ⟨hinner₀, fun inner => .many (items ++ ⟨labelField, .inlineObject inner⟩ :: items'), fun _ => rfl,
      fun inner => ?_, fun t hw hn d => ?_⟩
    · rw [itemFields?, index, hlength]
      simp [Descriptors.items, ItemOf.inlineFields?]
    rw [readDescriptors_eq_ok]
    constructor
    · rintro ⟨-, ⟨_, _, many, ⟨⟩, rfl, hitems⟩ | ⟨_, _, _, ⟨⟩, -⟩⟩
      obtain ⟨others, item, others', rfl, hothers, hitem, hothers'⟩ := forall₂_middle.mp hitems
      obtain ⟨inner, hinner, rfl⟩ := (hall t item).mp hitem
      -- the other items are read as before, so they are the same
      have hunique : Relator.RightUnique fun t item => Record.descriptor.read (levels - 1) t = .ok item :=
        fun _ _ _ h h' => Except.ok.inj (h.symm.trans h')
      rw [hunique.forall₂ hothers hearlier, hunique.forall₂ hothers' hlater]
      exact ⟨inner, hinner, rfl⟩
    · rintro ⟨inner, hinner, rfl⟩
      refine ⟨Tree.keep_ok_iff.mpr ⟨hw, hn⟩, .inl ⟨_, _, _, rfl, rfl, ?_⟩⟩
      exact forall₂_middle.mpr ⟨_, _, _, rfl, hearlier, (hall t _).mpr ⟨inner, hinner, rfl⟩, hlater⟩

end TypedContent
