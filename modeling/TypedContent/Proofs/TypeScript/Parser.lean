import Mathlib.Data.List.Forall2
import TypedContent.Proofs.TypeScript.Token
import TypedContent.TypeScript.Render

/-!
# A parser of type declarations

The parser is a machine with a stack: it takes one token at a time, and the stack holds what
is open around the place it is at. Postfix `[]` applies to the operand before it, so it binds
more tightly than `|`; a new line or `;` ends a member, and elsewhere new lines mean nothing.
-/

namespace TypedContent

namespace TypeScript

structure Member (T : Type) where
  key : String
  isOptional : Bool
  type : T

inductive TypeExpr where
  | name (name : String)
  | literal (value : String)
  | array (element : TypeExpr)
  | union (alternatives : List TypeExpr)
  | object (members : List (Member TypeExpr))

def unionOf : List TypeExpr → TypeExpr
  | [] => .name "never"
  | [t] => t
  | ts => .union ts

/-- What is open around a type, with the alternatives that stand before it: a parenthesis, or
a member with this key that follows these members. -/
inductive Frame where
  | paren (before : List TypeExpr)
  | member (before : List TypeExpr) (members : List (Member TypeExpr)) (key : String) (isOptional : Bool)

/-- Where the parser is: before or after an operand, after an opening bracket, between the
members of an object type, or after the key of a member. -/
inductive State where
  | operand (stack : List Frame) (before : List TypeExpr)
  | operator (stack : List Frame) (before : List TypeExpr) (last : TypeExpr)
  | bracket (stack : List Frame) (before : List TypeExpr) (last : TypeExpr)
  | members (stack : List Frame) (before : List TypeExpr) (members : List (Member TypeExpr))
  | key (stack : List Frame) (before : List TypeExpr) (members : List (Member TypeExpr)) (key : String)
    (isOptional : Bool)

def endMember (members : List (Member TypeExpr)) (key : String) (isOptional : Bool) (alternatives : List TypeExpr) :
    List (Member TypeExpr) :=
  members ++ [⟨key, isOptional, unionOf alternatives⟩]

def State.step : State → Token → Option State
  | .operand stack before, .word w => some (.operator stack before (.name (String.ofList w)))
  | .operand stack before, .literal v => some (.operator stack before (.literal (String.ofList v)))
  | .operand stack before, .mark '(' => some (.operand (.paren before :: stack) [])
  | .operand stack before, .mark '\x7b' => some (.members stack before [])
  | .operand stack before, .newline => some (.operand stack before)
  | .operator stack before last, .mark '[' => some (.bracket stack before last)
  | .operator stack before last, .mark '|' => some (.operand stack (before ++ [last]))
  | .operator (.paren outer :: stack) before last, .mark ')' =>
    some (.operator stack outer (unionOf (before ++ [last])))
  | .operator (.member outer ms name isOptional :: stack) before last, .mark '\x7d' =>
    some (.operator stack outer (.object (endMember ms name isOptional (before ++ [last]))))
  | .operator (.member outer ms name isOptional :: stack) before last, .mark ';' =>
    some (.members stack outer (endMember ms name isOptional (before ++ [last])))
  | .operator (.member outer ms name isOptional :: stack) before last, .newline =>
    some (.members stack outer (endMember ms name isOptional (before ++ [last])))
  | .operator stack before last, .newline => some (.operator stack before last)
  | .bracket stack before last, .mark ']' => some (.operator stack before (.array last))
  | .bracket stack before last, .newline => some (.bracket stack before last)
  | .members stack before ms, .word w => some (.key stack before ms (String.ofList w) false)
  | .members stack before ms, .literal v => some (.key stack before ms (String.ofList v) false)
  | .members stack before ms, .mark '\x7d' => some (.operator stack before (.object ms))
  | .members stack before ms, .mark ';' => some (.members stack before ms)
  | .members stack before ms, .newline => some (.members stack before ms)
  | .key stack before ms name false, .mark '?' => some (.key stack before ms name true)
  | .key stack before ms name isOptional, .mark ':' => some (.operand (.member before ms name isOptional :: stack) [])
  | .key stack before ms name isOptional, .newline => some (.key stack before ms name isOptional)
  | _, _ => none

def State.run (s : State) (ts : List Token) : Option State := ts.foldlM State.step s

def parseType (ts : List Token) : Option TypeExpr :=
  match (State.operand [] []).run ts with
  | some (.operator [] before last) => some (unionOf (before ++ [last]))
  | _ => none

structure TypeDeclaration where
  name : String
  type : TypeExpr

/-- The exported type that a whole text declares. -/
def parseDeclaration (text : String) : Option TypeDeclaration :=
  match (Scanner.blank.tokens text.toList).map (List.dropWhile (· = Token.newline)) with
  | some (.word w :: .word v :: .word name :: .mark '=' :: ts) =>
    if w = "export".toList ∧ v = "type".toList then (parseType ts).map (⟨String.ofList name, ·⟩) else none
  | _ => none

/-! ## Reading text -/

/-- The parser goes on with the tokens of a text. -/
def State.reads (s : State) (text : List Char) : Option State := (Scanner.blank.tokens text).bind s.run

theorem reads_nil (s : State) : s.reads [] = some s := rfl

theorem reads_of_tokens {s s' : State} {t : Token} {text rest : List Char}
    (h : Scanner.blank.tokens text = (Scanner.blank.tokens rest).map (t :: ·)) (hs : s.step t = some s') :
    s.reads text = s'.reads rest := by
  rw [State.reads, h, State.reads]
  cases Scanner.blank.tokens rest with
  | none => rfl
  | some ts => simp [State.run, hs]

variable {s s' : State} {rest : List Char}

theorem reads_space : s.reads (' ' :: rest) = s.reads rest := by
  rw [State.reads, tokens_space, State.reads]

theorem reads_newline (hs : s.step .newline = some s') : s.reads ('\n' :: rest) = s'.reads rest :=
  reads_of_tokens (tokens_newline rest) hs

theorem reads_mark {c : Char} (hc : c ∈ marks) (hs : s.step (.mark c) = some s') :
    s.reads (c :: rest) = s'.reads rest :=
  reads_of_tokens (tokens_mark hc rest) hs

theorem reads_word {name : String} (hn : isIdentifier name = true) (hr : Breaks rest)
    (hs : s.step (.word name.toList) = some s') : s.reads (name.toList ++ rest) = s'.reads rest :=
  reads_of_tokens (tokens_word hn hr) hs

theorem reads_literal {value : String} (hs : s.step (.literal value.toList) = some s') :
    s.reads ((stringLiteral value).toList ++ rest) = s'.reads rest :=
  reads_of_tokens (tokens_literal value rest) hs

theorem reads_docComment {indent : String} (hi : ∀ c ∈ indent.toList, c = ' ') (texts : List String)
    (hs : s.step .newline = some s') : s.reads ((docComment indent texts).toList ++ rest) = s'.reads rest :=
  reads_of_tokens (tokens_docComment hi texts rest) hs

theorem reads_propertyName (stack : List Frame) (before : List TypeExpr) (ms : List (Member TypeExpr)) (name : String)
    (hr : Breaks rest) :
    (State.members stack before ms).reads ((propertyName name).toList ++ rest) =
      (State.key stack before ms name false).reads rest := by
  unfold propertyName
  split
  · next hn => exact reads_word hn hr (by rw [State.step, String.ofList_toList])
  · exact reads_literal (by rw [State.step, String.ofList_toList])

/-! ## Texts of types -/

/-- Wherever an operand may stand, the text is read as the alternatives. -/
def Shows (text : String) (alternatives : List TypeExpr) : Prop :=
  ∃ init last, alternatives = init ++ [last] ∧ ∀ stack before rest, Breaks rest →
    (State.operand stack before).reads (text.toList ++ rest) =
      (State.operator stack (before ++ init) last).reads rest

/-- Wherever a member may stand, the text is read up to the end of the member's type. -/
def ShowsMember (text : String) (m : Member TypeExpr) : Prop :=
  ∃ init last, m.type = unionOf (init ++ [last]) ∧ ∀ stack before ms rest, Breaks rest →
    (State.members stack before ms).reads (text.toList ++ rest) =
      (State.operator (.member before ms m.key m.isOptional :: stack) init last).reads rest

theorem shows_name {name : String} (hn : isIdentifier name = true) : Shows name [.name name] := by
  refine ⟨[], .name name, rfl, fun stack before rest hr => ?_⟩
  rw [List.append_nil]
  exact reads_word hn hr (by rw [State.step, String.ofList_toList])

theorem shows_literal (value : String) : Shows (stringLiteral value) [.literal value] := by
  refine ⟨[], .literal value, rfl, fun stack before rest hr => ?_⟩
  rw [List.append_nil]
  exact reads_literal (by rw [State.step, String.ofList_toList])

theorem shows_union {a b : String} {ts us : List TypeExpr} (ha : Shows a ts) (hb : Shows b us) :
    Shows (a ++ " | " ++ b) (ts ++ us) := by
  obtain ⟨init, last, rfl, ha⟩ := ha
  obtain ⟨init', last', rfl, hb⟩ := hb
  refine ⟨init ++ [last] ++ init', last', by simp, fun stack before rest hr => ?_⟩
  simp only [String.toList_append, List.append_assoc]
  change (State.operand stack before).reads (a.toList ++ ' ' :: '|' :: ' ' :: (b.toList ++ rest)) = _
  rw [ha _ _ _ (breaks_cons.mpr rfl), reads_space, reads_mark (by decide) rfl, reads_space, hb _ _ _ hr]
  simp only [List.append_assoc]

theorem shows_unions {texts : List String} {tss : List (List TypeExpr)} (h : List.Forall₂ Shows texts tss)
    (hne : texts ≠ []) : Shows (" | ".intercalate texts) tss.flatten := by
  induction h with
  | nil => exact absurd rfl hne
  | @cons text ts texts tss ht hts ih =>
    cases hts with
    | nil => simpa using ht
    | cons ht' hts' =>
      rw [String.intercalate_cons_cons, List.flatten_cons]
      exact shows_union ht (ih (by simp))

theorem shows_array {a : String} {t : TypeExpr} (h : Shows a [t]) : Shows (a ++ "[]") [.array t] := by
  obtain ⟨init, last, he, h⟩ := h
  obtain ⟨rfl, rfl⟩ : init = [] ∧ t = last := by
    rcases List.append_eq_singleton_iff.mp he.symm with ⟨hi, hl⟩ | ⟨-, hl⟩
    · exact ⟨hi, by simpa using hl.symm⟩
    · simp at hl
  refine ⟨[], .array t, rfl, fun stack before rest hr => ?_⟩
  rw [String.toList_append, List.append_assoc]
  change (State.operand stack before).reads (a.toList ++ '[' :: ']' :: rest) = _
  rw [h _ _ _ (breaks_cons.mpr rfl), reads_mark (by decide) rfl, reads_mark (by decide) rfl]

theorem shows_paren {a : String} {ts : List TypeExpr} (h : Shows a ts) : Shows ("(" ++ a ++ ")") [unionOf ts] := by
  obtain ⟨init, last, rfl, h⟩ := h
  refine ⟨[], unionOf (init ++ [last]), rfl, fun stack before rest hr => ?_⟩
  simp only [String.toList_append, List.append_assoc]
  change (State.operand stack before).reads ('(' :: (a.toList ++ ')' :: rest)) = _
  rw [reads_mark (by decide) rfl, h _ _ _ (breaks_cons.mpr rfl), reads_mark (by decide) rfl, List.append_nil]
  rfl

/-- A list type needs the parentheses only around a union. -/
theorem shows_arrayOf {a : String} {ts : List TypeExpr} {isUnion : Bool} (h : Shows a ts)
    (hu : isUnion = false → ∃ t, ts = [t]) : Shows (arrayOf a isUnion) [.array (unionOf ts)] := by
  unfold arrayOf
  cases isUnion with
  | true =>
    have e : "(" ++ a ++ ")[]" = "(" ++ a ++ ")" ++ "[]" := by simp [← String.toList_inj]
    rw [if_pos rfl, e]
    exact shows_array (shows_paren h)
  | false =>
    obtain ⟨t, rfl⟩ := hu rfl
    exact shows_array h

/-! ## Texts of members -/

theorem showsMember_of_shows {name type mark : String} {isOptional : Bool} {ts : List TypeExpr}
    (hm : mark = if isOptional then "?" else "") (h : Shows type ts) :
    ShowsMember (propertyName name ++ mark ++ ": " ++ type) ⟨name, isOptional, unionOf ts⟩ := by
  obtain ⟨init, last, rfl, h⟩ := h
  refine ⟨init, last, rfl, fun stack before ms rest hr => ?_⟩
  simp only [String.toList_append, List.append_assoc]
  have hstep : (State.key stack before ms name isOptional).step (.mark ':') =
      some (.operand (.member before ms name isOptional :: stack) []) := by
    cases isOptional <;> rfl
  have hcolon : (State.key stack before ms name isOptional).reads (':' :: ' ' :: (type.toList ++ rest)) =
      (State.operator (.member before ms name isOptional :: stack) init last).reads rest := by
    rw [reads_mark (by decide) hstep, reads_space, h _ _ _ hr, List.nil_append]
  cases isOptional with
  | true =>
    subst hm
    change (State.members stack before ms).reads
      ((propertyName name).toList ++ '?' :: ':' :: ' ' :: (type.toList ++ rest)) = _
    rw [reads_propertyName _ _ _ _ (breaks_cons.mpr rfl), reads_mark (by decide) rfl, hcolon]
  | false =>
    subst hm
    change (State.members stack before ms).reads ((propertyName name).toList ++ ':' :: ' ' :: (type.toList ++ rest)) = _
    rw [reads_propertyName _ _ _ _ (breaks_cons.mpr rfl), hcolon]

theorem showsMember_required {name type : String} {ts : List TypeExpr} (h : Shows type ts) :
    ShowsMember (propertyName name ++ ": " ++ type) ⟨name, false, unionOf ts⟩ := by
  have hm : ShowsMember (propertyName name ++ "" ++ ": " ++ type) ⟨name, false, unionOf ts⟩ :=
    showsMember_of_shows rfl h
  rwa [String.append_empty] at hm

theorem reads_members {texts : List String} {members : List (Member TypeExpr)}
    (h : List.Forall₂ ShowsMember texts members) (hne : texts ≠ []) (stack : List Frame) (before : List TypeExpr)
    (rest : List Char) :
    ∀ ms, (State.members stack before ms).reads (("; ".intercalate texts).toList ++ ' ' :: '\x7d' :: rest) =
      (State.operator stack before (.object (ms ++ members))).reads rest := by
  induction h with
  | nil => exact absurd rfl hne
  | @cons text m texts members hm hms ih =>
    obtain ⟨init, last, ht, hm⟩ := hm
    intro ms
    cases hms with
    | nil =>
      rw [String.intercalate_singleton, hm _ _ _ _ (breaks_cons.mpr rfl), reads_space, reads_mark (by decide) rfl,
        endMember, ← ht]
    | cons hm' hms' =>
      rw [String.intercalate_cons_cons]
      simp only [String.toList_append, List.append_assoc]
      change (State.members stack before ms).reads
        (text.toList ++ ';' :: ' ' :: (("; ".intercalate _).toList ++ ' ' :: '\x7d' :: rest)) = _
      rw [hm _ _ _ _ (breaks_cons.mpr rfl), reads_mark (by decide) rfl, reads_space, ih (by simp), endMember, ← ht,
        List.append_assoc, List.singleton_append]

theorem shows_bracedMembers {texts : List String} {members : List (Member TypeExpr)}
    (h : List.Forall₂ ShowsMember texts members) (hne : texts ≠ []) :
    Shows (bracedMembers texts) [.object members] := by
  refine ⟨[], .object members, rfl, fun stack before rest hr => ?_⟩
  simp only [bracedMembers, String.toList_append, List.append_assoc]
  change (State.operand stack before).reads ('\x7b' :: ' ' :: (_ ++ ' ' :: '\x7d' :: rest)) = _
  rw [reads_mark (by decide) rfl, reads_space, reads_members h hne, List.nil_append, List.append_nil]

theorem shows_objectType {texts : List String} {members : List (Member TypeExpr)}
    (h : List.Forall₂ ShowsMember texts members) : Shows (objectType texts) [.object members] := by
  unfold objectType
  cases h with
  | nil =>
    refine ⟨[], .object [], rfl, fun stack before rest hr => ?_⟩
    change (State.operand stack before).reads ('\x7b' :: '\x7d' :: rest) = _
    rw [reads_mark (by decide) rfl, reads_mark (by decide) rfl, List.append_nil]
  | cons hm hms => exact shows_bracedMembers (.cons hm hms) (by simp)

end TypeScript

end TypedContent
