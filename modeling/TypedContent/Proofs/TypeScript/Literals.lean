import TypedContent.Proofs.TypeScript.Literal
import TypedContent.Proofs.TypeScript.OneLine
import TypedContent.Proofs.TypeScript.RoundTrip

/-!
# The literals of a declaration

A value is written as one literal, and the literals of a rendered declaration are, in order, the
name of the definition, the options of its enumerations and the keys that are no identifiers. The
carriage return is the only character that is not escaped and cannot stand in a literal: a value
with one is not read at all, and neither is a declaration that holds such a value.
-/

namespace TypedContent

namespace TypeScript

/-- The text is read to its end and has these literals, unless one of them holds a carriage
return. -/
def Lexes (text : String) (values : List String) : Prop :=
  feed Lexer.step .code text.toList =
    if ∃ v ∈ values, '\r' ∈ v.toList then none else some (values.map textUnits, .code)

theorem step_code {c : Char} (h : (isBare c || c == '\n') = true) : Lexer.step .code c = some ([], .code) := by
  rw [Bool.or_eq_true] at h
  rcases h with hbare | hnewline
  · simp only [isBare, decide_eq_true_eq, List.mem_cons, List.not_mem_nil, not_or] at hbare
    simp [Lexer.step, hbare]
  · rw [eq_of_beq hnewline]
    rfl

theorem feed_code : ∀ {text : List Char}, text.all (fun c => isBare c || c == '\n') = true →
    feed Lexer.step .code text = some ([], .code)
  | [], _ => rfl
  | c :: text, h => by
    rw [List.all_cons, Bool.and_eq_true] at h
    rw [feed_silent (step_code h.1), feed_code h.2]

theorem lexes_code {text : String} (h : text.toList.all (fun c => isBare c || c == '\n') = true) : Lexes text [] := by
  simpa [Lexes] using feed_code h

theorem lexes_nothing : Lexes "" [] := lexes_code (by decide)

theorem lexes_append {a b : String} {values others : List String} (ha : Lexes a values) (hb : Lexes b others) :
    Lexes (a ++ b) (values ++ others) := by
  unfold Lexes at *
  rw [String.toList_append, feed_append, ha]
  simp only [List.mem_append, or_and_right, exists_or, List.map_append]
  by_cases hv : ∃ v ∈ values, '\r' ∈ v.toList
  · simp only [hv, true_or, if_true, Option.bind_none]
  · by_cases ho : ∃ v ∈ others, '\r' ∈ v.toList
    · simp [hv, ho, hb]
    · simp [hv, ho, hb]

theorem lexes_piecewise : Piecewise Lexes where
  bare h := lexes_code (List.all_eq_true.mpr fun c hc => by rw [h.isBare hc, Bool.true_or])
  literal value := by
    unfold Lexes
    rw [feed_stringLiteral]
    simp
  append := lexes_append

theorem lexes_skipsComments :
    SkipsComments (feed Lexer.step .code) (feed Lexer.step .comment) (feed Lexer.step .star) where
  space := feed_silent rfl
  opened _ := (feed_silent rfl _).trans (feed_silent rfl _)
  inside_star := feed_silent rfl
  inside_other rest hs := feed_silent (by rw [Lexer.step, if_neg hs]) rest
  star_star := feed_silent rfl
  star_other rest hs hc := feed_silent (by rw [Lexer.step, if_neg hc, if_neg hs]) rest
  closed := feed_silent rfl

theorem lexes_docComment {indent : String} (hi : ∀ c ∈ indent.toList, c = ' ') (texts : List String) :
    Lexes (docComment indent texts) [] := by
  have hread := lexes_skipsComments.docComment hi texts []
  rw [List.append_nil, feed_silent rfl] at hread
  simpa [Lexes] using hread

theorem literals?_of_lexes {text : String} {values : List String} (h : Lexes text values) :
    literals? text = if ∃ v ∈ values, '\r' ∈ v.toList then none else some (values.map textUnits) := by
  rw [literals?, h]
  by_cases hv : ∃ v ∈ values, '\r' ∈ v.toList
  · rw [if_pos hv, if_pos hv]
  · rw [if_neg hv, if_neg hv]

/-! ## Declarations -/

theorem lexes_memberComment (notes : List String) : Lexes (memberComment notes) [] := by
  unfold memberComment
  split
  · exact lexes_nothing
  · exact lexes_docComment (by simp) notes

theorem lexes_line {member : String} {values : List String} (notes : List String) (h : Lexes member values) :
    Lexes (memberLine notes member) values := by
  have hindent : Lexes "  " [] := lexes_code (by decide)
  have hnewline : Lexes "\n" [] := lexes_code (by decide)
  have hline := lexes_append (lexes_append (lexes_append (lexes_memberComment notes) hindent) h) hnewline
  rwa [List.append_nil] at hline

/-- The line of a property: its key, and its type. -/
theorem lexes_property {name type : String} {values : List String} (notes : List String) (h : Lexes type values) :
    Lexes (memberLine notes (propertyName name ++ ": " ++ type)) (quotedName name ++ values) :=
  lexes_line notes (lexes_append
    (lexes_piecewise.append_bare (lexes_piecewise.propertyName name) (by decide)) h)

theorem lexes_computedTypeOf (type : ComputedType) : Lexes (computedTypeOf type) [] := by
  cases type <;> exact lexes_code (by decide)

theorem lexes_descriptionComment (d : Definition) : Lexes (descriptionComment d) [] := by
  unfold descriptionComment
  cases d.description with
  | none => exact lexes_nothing
  | some text => exact lexes_docComment (by simp) [text]

theorem lexes_pathLine (d : Definition) : Lexes (match d with | .document _ => pathMember | .object _ => "") [] := by
  cases d with
  | document d =>
    rw [pathMember_memberLine]
    exact lexes_property _ (lexes_code (by decide))
  | object o => exact lexes_nothing

theorem lexes_typeNameLine (name : String) :
    Lexes ("  " ++ typeNameField ++ ": " ++ stringLiteral name ++ "\n") [name] := by
  rw [typeNameMember_memberLine]
  exact lexes_property _ (lexes_piecewise.literal name)

theorem lexes_fieldLines {fields : List Canonical.Field} (h : ∀ l ∈ links fields, isIdentifier l.target = true) :
    Lexes (String.join (fields.map renderField)) (fields.flatMap fieldLiterals) := by
  refine lexes_piecewise.join fun f hf => ?_
  rw [renderField_memberLine]
  exact lexes_line _ (lexes_piecewise.members fields (fun l hl => lexes_piecewise.bare (bare_identifier (h l hl))) f hf)

theorem lexes_computedLines (computed : List ComputedField) :
    Lexes (String.join (computed.map renderComputed)) (computed.flatMap fun c => quotedName c.name) := by
  refine lexes_piecewise.join fun c _ => ?_
  rw [renderComputed_memberLine]
  simpa using lexes_property c.description.toList (lexes_computedTypeOf c.type)

def definitionLiterals (d : Definition) : List String :=
  d.name :: (d.fields.flatMap fieldLiterals ++ d.computed.flatMap fun c => quotedName c.name)

theorem lexes_renderDefinition {d : Definition} (hn : isIdentifier d.name = true)
    (h : ∀ l ∈ links d.fields, isIdentifier l.target = true) : Lexes (renderDefinition d) (definitionLiterals d) := by
  have hhead : Lexes ("export type " ++ d.name ++ " = \x7b\n") [] :=
    lexes_append (lexes_piecewise.bare_append (by decide) (lexes_piecewise.bare (bare_identifier hn)))
      (lexes_code (by decide))
  have hopening := lexes_append (lexes_append (lexes_descriptionComment d) hhead) (lexes_pathLine d)
  have hlines := lexes_append (lexes_append (lexes_typeNameLine d.name) (lexes_fieldLines h)) (lexes_computedLines d.computed)
  have hclosing : Lexes "\x7d" [] := lexes_code (by decide)
  have hall := lexes_append (lexes_append hopening hlines) hclosing
  convert hall using 1
  · rw [← String.toList_inj]
    cases d <;> simp [renderDefinition, descriptionComment]
  · simp [definitionLiterals]

theorem denotes_iff (value other : String) :
    literal? (stringLiteral value) = some (textUnits other) ↔ other = value ∧ '\r' ∉ value.toList := by
  rw [literal?_stringLiteral]
  constructor
  · intro h
    split_ifs at h with hcarriage
    exact ⟨(textUnits_injective (Option.some.inj h)).symm, hcarriage⟩
  · rintro ⟨rfl, hcarriage⟩
    rw [if_neg hcarriage]

/-- If line ends were let pass, the literal of a value would be one token with this value. It denotes
the value and no other, unless the value has a carriage return, the one character that is left as it
is and cannot stand in a literal. The literals of what is rendered for the definitions of a canonical
schema are, in order, the name, the options and the keys that are quoted. -/
theorem literals_come_back (value : String) (calls : List Addition) (c : Canonical.Schema)
    (h : (Schema.run calls).normalize = .ok c) :
    Scanner.blank.tokens (stringLiteral value).toList = some [.literal value.toList] ∧ OneLine (stringLiteral value) ∧
      literal? (stringLiteral value) = (if '\r' ∈ value.toList then none else some (textUnits value)) ∧
      (∀ other, literal? (stringLiteral value) = some (textUnits other) ↔ other = value ∧ '\r' ∉ value.toList) ∧
      ∀ d ∈ definitions c, literals? (renderDefinition d) =
        if ∃ v ∈ definitionLiterals d, '\r' ∈ v.toList then none else some ((definitionLiterals d).map textUnits) := by
  refine ⟨?_, oneLine_stringLiteral value, literal?_stringLiteral value, denotes_iff value, fun d hd => ?_⟩
  · simpa [Scanner.tokens, Scanner.finish] using tokens_literal value []
  · obtain ⟨found, hn⟩ := Schema.normalized_of_ok h
    have hid := names_identifier hn (Schema.run_valid calls)
    obtain ⟨table, hname⟩ := definitions_name hd
    refine literals?_of_lexes (lexes_renderDefinition (hid table _ hname) fun l hl => ?_)
    exact hid _ _ (hn.closed _ (definitions_fields hd) l ((mem_links_iff _).mp hl))

theorem blog_literals :
    (Schema.run blog).normalize = .ok blogCanonical ∧
      literal? (stringLiteral "it's \\\n") = some (textUnits "it's \\\n") ∧
      ∀ d ∈ definitions blogCanonical, literals? (renderDefinition d) = some ((definitionLiterals d).map textUnits) ∧
        definitionLiterals d = if d.name = "Post" then ["Post", "it's by"] else
          if d.name = "Author" then ["Author", "a", "b"] else ["Company"] := by
  have h : (Schema.run blog).normalize = .ok blogCanonical := by cbv
  have hvalues : ∀ d ∈ definitions blogCanonical, definitionLiterals d = if d.name = "Post" then ["Post", "it's by"] else
      if d.name = "Author" then ["Author", "a", "b"] else ["Company"] := by
    decide
  obtain ⟨-, -, hvalue, -, hread⟩ := literals_come_back "it's \\\n" blog blogCanonical h
  rw [if_neg (by decide)] at hvalue
  refine ⟨h, hvalue, fun d hd => ⟨?_, hvalues d hd⟩⟩
  rw [hread d hd, if_neg]
  rw [hvalues d hd]
  split_ifs <;> decide

/-- A carriage return stands in the literal as it is. -/
theorem carriage_return_not_escaped :
    stringLiteral "\r" = "'\r'" ∧ literal? (stringLiteral "\r") = none ∧ literal? "'\\r'" = some (textUnits "\r") := by
  decide

end TypeScript

end TypedContent
