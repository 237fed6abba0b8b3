import TypedContent.Canonical.Normalize
import TypedContent.Proofs.Field.Level

/-!
# Fields with other labels

Fields of the two kinds, as they are written and canonical ones, differ only in what their labels
are. `relabel` changes the labels at every depth and nothing else. Settling is such a change.
-/

namespace TypedContent

variable {L M N : Type}

mutual

def Kind.relabel (g : String → L → M) : Kind L → Kind M
  | .string => .string
  | .boolean => .boolean
  | .number => .number
  | .date => .date
  | .markdown => .markdown
  | .enum options => .enum options
  | .object target => .object target
  | .inlineObject fields => .inlineObject (relabel g fields)
  | .reference target => .reference target
  | .list item => .list (relabelItem g item)
  | .polymorphicList items typeField => .polymorphicList (relabelItems g items) typeField
  | .other name => .other name

/-- Changes the label of each field, given the field's name. -/
def relabel (g : String → L → M) : List (Field L) → List (Field M)
  | [] => []
  | ⟨a, kind⟩ :: rest => ⟨{ a with label := g a.name a.label }, kind.relabel g⟩ :: relabel g rest

def relabelItem (g : String → L → M) : Item L → Item M
  | ⟨labelField, .string⟩ => ⟨labelField, .string⟩
  | ⟨labelField, .boolean⟩ => ⟨labelField, .boolean⟩
  | ⟨labelField, .object target⟩ => ⟨labelField, .object target⟩
  | ⟨labelField, .enum options⟩ => ⟨labelField, .enum options⟩
  | ⟨labelField, .inlineObject fields⟩ => ⟨labelField, .inlineObject (relabel g fields)⟩

def relabelItems (g : String → L → M) : List (Item L) → List (Item M)
  | [] => []
  | item :: rest => relabelItem g item :: relabelItems g rest

end

/-! ## One change after the other -/

section
variable (g : String → L → M) (h : String → M → N)

mutual

theorem relabel_relabel_kind : ∀ kind : Kind L,
    (kind.relabel g).relabel h = kind.relabel fun name label => h name (g name label)
  | .inlineObject fields => by simp only [Kind.relabel, relabel_relabel fields]
  | .list item => by simp only [Kind.relabel, relabel_relabelItem item]
  | .polymorphicList items _ => by simp only [Kind.relabel, relabel_relabelItems items]
  | .string | .boolean | .number | .date | .markdown | .enum _ | .object _ | .reference _ | .other _ => by
    simp only [Kind.relabel]

theorem relabel_relabel : ∀ fields : List (Field L),
    relabel h (relabel g fields) = relabel (fun name label => h name (g name label)) fields
  | [] => rfl
  | ⟨a, kind⟩ :: rest => by simp only [relabel, relabel_relabel_kind kind, relabel_relabel rest]

theorem relabel_relabelItem : ∀ item : Item L,
    relabelItem h (relabelItem g item) = relabelItem (fun name label => h name (g name label)) item
  | ⟨_, .inlineObject fields⟩ => by simp only [relabelItem, relabel_relabel fields]
  | ⟨_, .string⟩ | ⟨_, .boolean⟩ | ⟨_, .object _⟩ | ⟨_, .enum _⟩ => by simp only [relabelItem]

theorem relabel_relabelItems : ∀ items : List (Item L),
    relabelItems h (relabelItems g items) = relabelItems (fun name label => h name (g name label)) items
  | [] => rfl
  | item :: rest => by simp only [relabelItems, relabel_relabelItem item, relabel_relabelItems rest]

end

end

/-! ## No change -/

section
variable (g : String → L → L)

theorem relabel_eq_map (fields : List (Field L)) : relabel g fields =
    fields.map fun f => ⟨{ f.toAttributes with label := g f.name f.label }, f.kind.relabel g⟩ := by
  induction fields with
  | nil => rfl
  | cons f rest ih => rw [relabel, ih, List.map_cons]

theorem relabelItems_eq_map (items : List (Item L)) : relabelItems g items = items.map (relabelItem g) := by
  induction items with
  | nil => rfl
  | cons item rest ih => rw [relabelItems, ih, List.map_cons]

theorem relabelItem_self {item : Item L} (h : ∀ inner, item.kind = .inlineObject inner → relabel g inner = inner) :
    relabelItem g item = item := by
  obtain ⟨labelField, kind⟩ := item
  cases kind with
  | inlineObject inner => rw [relabelItem, h inner rfl]
  | _ => simp only [relabelItem]

theorem relabel_kind_self {kind : Kind L} (h : ∀ inner, kind.Holds inner → relabel g inner = inner) :
    kind.relabel g = kind := by
  have hitem : ∀ item ∈ kind.items, relabelItem g item = item := fun item hm =>
    relabelItem_self g fun inner hk => h inner (.item hm hk)
  cases kind with
  | inlineObject inner => rw [Kind.relabel, h inner .inlineObject]
  | list item => rw [Kind.relabel, hitem item List.mem_cons_self]
  | polymorphicList items typeField =>
    have hitems : items.map (relabelItem g) = items := (List.map_congr_left hitem).trans (List.map_id' items)
    rw [Kind.relabel, relabelItems_eq_map, hitems]
  | _ => simp only [Kind.relabel]

/-- Fields whose labels stay as they are stay as they are. -/
theorem relabel_self (fields : List (Field L)) :
    (∀ level, Level fields level → ∀ f ∈ level, g f.name f.label = f.label) → relabel g fields = fields := by
  induction fields using fields_induction with
  | step fields ih =>
    intro h
    obtain ⟨htop, hinside⟩ := forall_level_iff.mp h
    rw [relabel_eq_map]
    refine (List.map_congr_left fun f hf => ?_).trans (List.map_id' fields)
    rw [htop f hf, relabel_kind_self g fun inner hin => ih f hf inner hin (hinside f hf inner hin)]

end

/-! ## Settled fields -/

mutual

theorem settle_kind_eq_relabel : ∀ kind : Kind (Option String),
    kind.settle = kind.relabel fun name label => label.getD name
  | .inlineObject fields => by rw [Kind.settle, Kind.relabel, settle_eq_relabel fields]
  | .list item => by rw [Kind.settle, Kind.relabel, settleItem_eq_relabel item]
  | .polymorphicList items _ => by rw [Kind.settle, Kind.relabel, settleItems_eq_relabel items]
  | .string | .boolean | .number | .date | .markdown | .enum _ | .object _ | .reference _ | .other _ => by
    rw [Kind.settle, Kind.relabel]

theorem settle_eq_relabel : ∀ fields : List SourceField, settle fields = relabel (fun name label => label.getD name) fields
  | [] => rfl
  | ⟨a, kind⟩ :: rest => by rw [settle, relabel, settle_kind_eq_relabel kind, settle_eq_relabel rest]

theorem settleItem_eq_relabel : ∀ item : SourceItem,
    settleItem item = relabelItem (fun name label => label.getD name) item
  | ⟨_, .inlineObject fields⟩ => by rw [settleItem, relabelItem, settle_eq_relabel fields]
  | ⟨_, .string⟩ | ⟨_, .boolean⟩ | ⟨_, .object _⟩ | ⟨_, .enum _⟩ => by rw [settleItem, relabelItem]

theorem settleItems_eq_relabel : ∀ items : List SourceItem,
    settleItems items = relabelItems (fun name label => label.getD name) items
  | [] => rfl
  | item :: rest => by rw [settleItems, relabelItems, settleItem_eq_relabel item, settleItems_eq_relabel rest]

end

end TypedContent
