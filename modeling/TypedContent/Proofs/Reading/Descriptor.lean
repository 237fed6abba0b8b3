import Mathlib
import TypedContent.Proofs.Reading.Record

/-!
# Item descriptors that are read

A descriptor is read key by key from members that have been kept; the keys that its type does not
use are not looked at. What the readers accept is said here without the order in which they look.
-/

namespace TypedContent

variable {levels : Nat} {fields inArray alone : Reader (List SourceField)}

def Descriptors.items : Descriptors → List SourceItem
  | .one item => [item]
  | .many items => items

theorem require_eq_ok {α : Type} {flaw : FieldFlaw} {a : Option α} {b : α} : require flaw a = .ok b ↔ a = some b := by
  cases a <;> simp [require]

theorem toOption_eq_some {ε α : Type} {x : Except ε α} {a : α} : x.toOption = some a ↔ x = .ok a := by
  cases x <;> simp [Except.toOption]

theorem readOnce_eq_some {α : Type} {read : Reader α} {key : String} {members : List (Tree × Tree)} {a : α} :
    readOnce read key members = some a ↔ ∃ t, valuesOf key members = [t] ∧ read t = .ok a := by
  unfold readOnce
  split
  next t ht => simp [ht, toOption_eq_some]
  next hnone =>
    simp only [reduceCtorEq, false_iff, not_exists, not_and]
    exact fun t ht _ => hnone t ht

/-- The kind that a descriptor gives an item. -/
def descriptorKind? (levels : Nat) (fields : Reader (List SourceField)) (members : List (Tree × Tree)) :
    Option (ItemKind SourceField) :=
  match valuesOf "type" members with
  | [type] =>
    match descriptorType? type with
    | some "string" => some .string
    | some "boolean" => some .boolean
    | some "object" => .object <$> readOnce readString "object" members
    | some "enum" => .enum <$> readOnce (readSequence (levels - 1) readString) "options" members
    | some "inline_object" => .inlineObject <$> readOnce fields "fields" members
    | _ => none
  | _ => none

theorem readDescriptor_obj (members : List (Tree × Tree)) (stop : Option Fault) :
    readDescriptor levels fields (.obj members stop) = (readOptional readString "labelField" members).bind
      fun labelField => (descriptorKind? levels fields members).map (ItemOf.mk labelField) := by
  simp only [readDescriptor, descriptorKind?, Option.bind_eq_bind]
  generalize readOptional readString "labelField" members = labelField
  generalize valuesOf "type" members = types
  rcases types with _ | ⟨type, _ | ⟨other, types⟩⟩
  · cases labelField <;> rfl
  · cases labelField with
    | none => rfl
    | some labelField =>
      simp only [Option.bind_some]
      split <;> simp_all [Option.map_eq_bind]
  · cases labelField <;> rfl

theorem readDescriptor_eq_some {t : Tree} {item : SourceItem} : readDescriptor levels fields t = some item ↔
    ∃ members stop, t = .obj members stop ∧ readOptional readString "labelField" members = some item.labelField ∧
      descriptorKind? levels fields members = some item.kind := by
  cases t with
  | obj members stop =>
    obtain ⟨labelField, kind⟩ := item
    simp [readDescriptor_obj, Option.bind_eq_some_iff]
  | _ => simp [readDescriptor]

/-- What descriptors say, if they are kept. -/
def described? (levels : Nat) (inArray alone : Reader (List SourceField)) : Tree → Option Descriptors
  | .arr items _ => .many <$> items.mapM (readDescriptor (levels - 1) inArray)
  | t => .one <$> readDescriptor levels alone t

theorem describe_eq (levels : Nat) (inArray alone : Reader (List SourceField)) (t : Tree) :
    describe levels inArray alone t = readJson levels t >>= fun _ =>
      match described? levels inArray alone t with
      | some descriptors => .ok descriptors
      | none => .error (.shape .noDescriptors) := by
  cases t <;> rfl

theorem mapM_eq_some {α β : Type} {f : α → Option β} {as : List α} {bs : List β} :
    as.mapM f = some bs ↔ List.Forall₂ (fun a b => f a = some b) as bs := by
  induction as generalizing bs with
  | nil => simp [eq_comm]
  | cons a rest ih =>
    simp only [List.mapM_cons, Option.bind_eq_bind, Option.pure_def, Option.bind_eq_some_iff, ih,
      List.forall₂_cons_left_iff, Option.some.injEq]
    grind

theorem describe_eq_ok {t : Tree} {d : Descriptors} : describe levels inArray alone t = .ok d ↔
    (∃ v, t.keep levels = .ok v) ∧
      ((∃ items stop many, t = .arr items stop ∧ d = .many many ∧
          List.Forall₂ (fun t item => readDescriptor (levels - 1) inArray t = some item) items many) ∨
        ∃ members stop item, t = .obj members stop ∧ d = .one item ∧ readDescriptor levels alone t = some item) := by
  unfold describe
  simp only [bind_eq_ok, readJson, orFault_eq_ok, exists_and_right]
  refine and_congr_right fun _ => ?_
  cases t with
  | arr items stop =>
    have hmapM : ∀ many, List.Forall₂ (fun t item => readDescriptor (levels - 1) inArray t = some item) items many ↔
        items.mapM (readDescriptor (levels - 1) inArray) = some many := fun _ => mapM_eq_some.symm
    cases hmany : items.mapM (readDescriptor (levels - 1) inArray) with
    | none => simp [hmapM, hmany]
    | some many =>
      simp only [hmany, Option.map_eq_map, Option.map_some, Except.ok.injEq, Tree.arr.injEq, reduceCtorEq, false_and,
        exists_false, or_false]
      grind
  | obj members stop =>
    cases hone : readDescriptor levels alone (.obj members stop) with
    | none => simp [hone]
    | some item => simp [hone, eq_comm]
  | _ => simp [readDescriptor]

end TypedContent
