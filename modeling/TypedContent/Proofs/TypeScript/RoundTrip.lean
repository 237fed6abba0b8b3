import TypedContent.Proofs.Canonical.Closed
import TypedContent.Proofs.TypeScript.Structure

/-!
# Declarations read back

What is rendered for a definition parses, as a whole, and to exactly the declaration that the
definition stands for. Nothing in a description, an option, a key or a name can change it:
literals and comments give back or swallow what they are given, and the names that stand bare
are identifiers because the schema checks the names of its definitions.
-/

namespace TypedContent

namespace TypeScript

def computedStructure : ComputedType → TypeExpr
  | .string => .name "string"
  | .number => .name "number"
  | .boolean => .name "boolean"
  | .date => .name dateType
  | .json => .name "any"
  | .list => .array (.name "any")

def headMembers (d : Definition) : List (Member TypeExpr) :=
  (match d with
    | .document _ => [⟨idField, false, .name "string"⟩]
    | .object _ => []) ++ [⟨typeNameField, false, .literal d.name⟩]

/-- What a definition declares. -/
def declarationOf (d : Definition) : TypeDeclaration where
  name := d.name
  type := .object (headMembers d ++ memberStructures d.fields ++
    d.computed.map fun c => ⟨c.name, false, computedStructure c.type⟩)

/-! ## Lines -/

def memberLine (notes : List String) (member : String) : String :=
  memberComment notes ++ "  " ++ member ++ "\n"

theorem renderField_memberLine (f : Canonical.Field) :
    renderField f = memberLine (fieldNotes f) (fieldKey f.toAttributes ++ ": " ++ typeOf f.kind) := by
  simp only [renderField, memberLine, String.append_assoc]

theorem renderComputed_memberLine (c : ComputedField) :
    renderComputed c = memberLine c.description.toList (propertyName c.name ++ ": " ++ computedTypeOf c.type) := by
  simp only [renderComputed, memberLine, String.append_assoc]

theorem pathMember_memberLine :
    pathMember = memberLine ["File path relative to the content directory"] (propertyName idField ++ ": " ++ "string") := by
  decide

theorem typeNameMember_memberLine (name : String) :
    "  " ++ typeNameField ++ ": " ++ stringLiteral name ++ "\n" =
      memberLine [] (propertyName typeNameField ++ ": " ++ stringLiteral name) := by
  have hkey : propertyName typeNameField = typeNameField := by decide
  simp [memberLine, memberComment, hkey, String.append_assoc]

def ReadsLine (text : String) (m : Member TypeExpr) : Prop :=
  ∀ stack before ms rest, (State.members stack before ms).reads (text.toList ++ rest) =
    (State.members stack before (ms ++ [m])).reads rest

theorem reads_memberLine {member : String} {m : Member TypeExpr} (notes : List String) (h : ShowsMember member m) :
    ReadsLine (memberLine notes member) m := by
  obtain ⟨init, last, ht, h⟩ := h
  intro stack before ms rest
  have hmember : (State.members stack before ms).reads (' ' :: ' ' :: (member.toList ++ '\n' :: rest)) =
      (State.members stack before (ms ++ [m])).reads rest := by
    rw [reads_space, reads_space, h _ _ _ _ (breaks_cons.mpr rfl), reads_newline rfl, endMember, ← ht]
  simp only [memberLine, memberComment, String.toList_append, List.append_assoc]
  split
  · exact hmember
  · rw [reads_docComment (by simp) notes rfl]
    exact hmember

theorem reads_lines {texts : List String} {members : List (Member TypeExpr)}
    (h : List.Forall₂ ReadsLine texts members) (stack : List Frame) (before : List TypeExpr) (rest : List Char) :
    ∀ ms, (State.members stack before ms).reads ((String.join texts).toList ++ rest) =
      (State.members stack before (ms ++ members)).reads rest := by
  induction h with
  | nil => simp
  | cons hm _ ih =>
    intro ms
    rw [String.join_cons, String.toList_append, List.append_assoc, hm, ih, List.append_assoc, List.singleton_append]

theorem reads_fields : ∀ {fields : List Canonical.Field} {ms : List (Member TypeExpr)},
    List.Forall₂ ShowsMember (members fields) ms → List.Forall₂ ReadsLine (fields.map renderField) ms
  | [], _, .nil => .nil
  | ⟨a, kind⟩ :: rest, _, h => by
    rw [members] at h
    cases h with
    | cons hm hms =>
      rw [List.map_cons, renderField_memberLine]
      exact .cons (reads_memberLine _ hm) (reads_fields hms)

theorem shows_computedType (type : ComputedType) :
    ∃ ts, Shows (computedTypeOf type) ts ∧ unionOf ts = computedStructure type := by
  have hany : Shows "any" [.name "any"] := shows_name (by decide)
  cases type with
  | list => exact ⟨_, shows_array hany, rfl⟩
  | string | number | boolean | date | json => exact ⟨_, shows_name (by decide), rfl⟩

theorem reads_computed : ∀ computed : List ComputedField,
    List.Forall₂ ReadsLine (computed.map renderComputed)
      (computed.map fun c => ⟨c.name, false, computedStructure c.type⟩)
  | [] => .nil
  | c :: rest => by
    obtain ⟨ts, ht, e⟩ := shows_computedType c.type
    rw [List.map_cons, List.map_cons, renderComputed_memberLine, ← e]
    exact .cons (reads_memberLine _ (showsMember_required ht)) (reads_computed rest)

theorem reads_pathMember : ReadsLine pathMember ⟨idField, false, .name "string"⟩ := by
  have htype : Shows "string" [.name "string"] := shows_name (by decide)
  rw [pathMember_memberLine]
  exact reads_memberLine _ (showsMember_required htype)

theorem reads_typeNameMember (name : String) :
    ReadsLine ("  " ++ typeNameField ++ ": " ++ stringLiteral name ++ "\n") ⟨typeNameField, false, .literal name⟩ := by
  rw [typeNameMember_memberLine]
  exact reads_memberLine _ (showsMember_required (shows_literal name))

/-! ## Declarations -/

def bodyLines (d : Definition) : List String :=
  (match d with
    | .document _ => [pathMember]
    | .object _ => []) ++
    ["  " ++ typeNameField ++ ": " ++ stringLiteral d.name ++ "\n"] ++ d.fields.map renderField ++
      d.computed.map renderComputed

theorem reads_bodyLines {d : Definition} (h : ∀ l ∈ links d.fields, isIdentifier l.target = true) :
    List.Forall₂ ReadsLine (bodyLines d) (headMembers d ++ memberStructures d.fields ++
      d.computed.map fun c => ⟨c.name, false, computedStructure c.type⟩) := by
  have hfields := reads_fields (shows_members d.fields h)
  have hcomputed := reads_computed d.computed
  refine List.rel_append (List.rel_append ?_ hfields) hcomputed
  have hname := reads_typeNameMember d.name
  cases d with
  | document d => exact .cons reads_pathMember (.cons hname .nil)
  | object o => exact .cons hname .nil

def body (d : Definition) : List Char := ' ' :: '\x7b' :: '\n' :: ((String.join (bodyLines d)).toList ++ ['\x7d'])

theorem reads_body {d : Definition} (h : ∀ l ∈ links d.fields, isIdentifier l.target = true) :
    (State.operand [] []).reads (body d) = some (.operator [] [] (declarationOf d).type) := by
  rw [body, reads_space, reads_mark (by decide) rfl, reads_newline rfl, reads_lines (reads_bodyLines h),
    List.nil_append, reads_mark (by decide) rfl, reads_nil]
  rfl

def descriptionComment (d : Definition) : String := d.description.elim "" fun text => docComment "" [text]

theorem toList_renderDefinition (d : Definition) :
    (renderDefinition d).toList = (descriptionComment d).toList ++ ("export".toList ++ ' ' :: ("type".toList ++
      ' ' :: (d.name.toList ++ ' ' :: '=' :: body d))) := by
  cases d <;> simp [renderDefinition, descriptionComment, body, bodyLines]

theorem tokens_renderDefinition {d : Definition} (hn : isIdentifier d.name = true) :
    ∃ lines : List Token, (∀ t ∈ lines, t = .newline) ∧ Scanner.blank.tokens (renderDefinition d).toList =
      (Scanner.blank.tokens (body d)).map fun ts => lines ++ .word "export".toList :: .word "type".toList ::
        .word d.name.toList :: .mark '=' :: ts := by
  have hhead : Scanner.blank.tokens ("export".toList ++ ' ' :: ("type".toList ++ ' ' :: (d.name.toList ++
      ' ' :: '=' :: body d))) = (Scanner.blank.tokens (body d)).map fun ts => .word "export".toList ::
        .word "type".toList :: .word d.name.toList :: .mark '=' :: ts := by
    rw [tokens_word (by decide) (breaks_cons.mpr rfl), tokens_space, tokens_word (by decide) (breaks_cons.mpr rfl),
      tokens_space, tokens_word hn (breaks_cons.mpr rfl), tokens_space, tokens_mark (by decide)]
    simp only [Option.map_map, Function.comp_def]
  rw [toList_renderDefinition]
  unfold descriptionComment
  cases d.description with
  | none => exact ⟨[], by simp, hhead⟩
  | some text =>
    refine ⟨[.newline], by simp, ?_⟩
    rw [Option.elim_some, tokens_docComment (by simp), hhead, Option.map_map]
    rfl

theorem parse_of_tokens {text name : String} {lines ts : List Token} {t : TypeExpr} (hl : ∀ l ∈ lines, l = .newline)
    (ht : Scanner.blank.tokens text.toList = some (lines ++ .word "export".toList :: .word "type".toList ::
      .word name.toList :: .mark '=' :: ts))
    (hr : (State.operand [] []).run ts = some (.operator [] [] t)) : parseDeclaration text = some ⟨name, t⟩ := by
  have hdrop : (lines ++ .word "export".toList :: .word "type".toList :: .word name.toList :: .mark '=' :: ts).dropWhile
      (· = Token.newline) = .word "export".toList :: .word "type".toList :: .word name.toList :: .mark '=' :: ts := by
    rw [List.dropWhile_append_of_pos (fun l h => decide_eq_true (hl l h)), List.dropWhile_cons_of_neg (by simp)]
  simp only [parseDeclaration, ht, Option.map_some, hdrop, and_self, if_true, parseType, hr, List.nil_append,
    String.ofList_toList]
  rfl

theorem parse_renderDefinition {d : Definition} (hn : isIdentifier d.name = true)
    (h : ∀ l ∈ links d.fields, isIdentifier l.target = true) :
    parseDeclaration (renderDefinition d) = some (declarationOf d) := by
  obtain ⟨lines, hl, ht⟩ := tokens_renderDefinition hn
  have hb := reads_body h
  rw [State.reads, Option.bind_eq_some_iff] at hb
  obtain ⟨ts, hts, hr⟩ := hb
  rw [hts, Option.map_some] at ht
  exact parse_of_tokens hl ht hr

example : parseDeclaration "export type A = \x7b\n  'it\\'s'?: ('a' | 'b')[]\n  next: A | C[]; \x7d" =
    some ⟨"A", .object [⟨"it's", true, .array (.union [.literal "a", .literal "b"])⟩,
      ⟨"next", false, .union [.name "A", .array (.name "C")]⟩]⟩ := by
  cbv

/-! ## The definitions of a schema -/

def definitions (c : Canonical.Schema) : List Definition :=
  c.documents.entries.map .document ++ c.objects.entries.map .object

theorem definitions_fields {c : Canonical.Schema} {d : Definition} (h : d ∈ definitions c) :
    d.fields ∈ c.fieldLists := by
  rcases List.mem_append.mp h with h | h
  · obtain ⟨d, hd, rfl⟩ := List.mem_map.mp h
    exact List.mem_append_left _ (List.mem_map.mpr ⟨d, hd, rfl⟩)
  · obtain ⟨o, ho, rfl⟩ := List.mem_map.mp h
    exact List.mem_append_right _ (List.mem_map.mpr ⟨o, ho, rfl⟩)

theorem definitions_name {c : Canonical.Schema} {d : Definition} (h : d ∈ definitions c) :
    ∃ table, d.name ∈ c.names table := by
  rcases List.mem_append.mp h with h | h
  · obtain ⟨d, hd, rfl⟩ := List.mem_map.mp h
    exact ⟨.document, Table.mem_names hd⟩
  · obtain ⟨o, ho, rfl⟩ := List.mem_map.mp h
    exact ⟨.object, Table.mem_names ho⟩

theorem names_identifier {s : Schema} {found : List ObjectType} {c : Canonical.Schema} (hn : s.Normalized found c)
    (hv : s.Valid) : ∀ table : TableKind, ∀ name ∈ c.names table, isIdentifier name = true
  | .document, name, h => by
    rw [Canonical.Schema.names, hn.document_names] at h
    obtain ⟨d, hd, rfl⟩ := List.mem_map.mp h
    exact (hv.documents d hd).name_identifier
  | .object, name, h => by
    obtain ⟨o, ho, rfl⟩ := List.mem_map.mp (hn.objects_subset h)
    exact (hv.objects o ho).name_identifier

/-- Whatever calls built the schema: the text rendered for each definition of its canonical
form parses to what that definition declares. -/
theorem definitions_parse_back (calls : List Addition) (c : Canonical.Schema)
    (h : (Schema.run calls).normalize = .ok c) :
    ∀ d ∈ definitions c, parseDeclaration (renderDefinition d) = some (declarationOf d) := by
  obtain ⟨found, hn⟩ := Schema.normalized_of_ok h
  have hid := names_identifier hn (Schema.run_valid calls)
  intro d hd
  obtain ⟨table, hname⟩ := definitions_name hd
  refine parse_renderDefinition (hid table _ hname) fun l hl => ?_
  exact hid _ _ (hn.closed _ (definitions_fields hd) l ((mem_links_iff _).mp hl))

theorem blog_parses_back :
    (Schema.run blog).normalize = .ok blogCanonical ∧
      ∀ d ∈ definitions blogCanonical, parseDeclaration (renderDefinition d) = some (declarationOf d) := by
  have h : (Schema.run blog).normalize = .ok blogCanonical := by cbv
  exact ⟨h, definitions_parse_back blog blogCanonical h⟩

end TypeScript

end TypedContent
