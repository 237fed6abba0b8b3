import TypedContent.Package.Artifacts
import TypedContent.Proofs.Canonical.Closed
import TypedContent.Proofs.TypeScript.Unescaped

/-!
# Module specifiers

The name of the runtime module is written between quotes as it is, in the barrel module and in the
declaration module. So the specifiers denote the modules that are meant for the names which can be
quoted without escapes, and for no others.
-/

namespace TypedContent

namespace Package

open TypeScript

/-- What is written for a module of the runtime. -/
def specifier (o : PackageOptions) (suffix : String) : String := "'" ++ o.runtimeModule ++ suffix ++ "'"

/-! ## Where specifiers stand -/

def helperOpening : String := "export \x7b isType \x7d from "

def markdownOpening : String := "import type \x7b Markdown \x7d from "

def barrelOpening : String := notice ++ "\n\n" ++ helperOpening

def declarationsOpening : String := notice ++ "\n\n" ++ markdownOpening

theorem joinBlocks_cons_cons (a b : String) (blocks : List String) :
    joinBlocks (a :: b :: blocks) = a ++ "\n\n" ++ joinBlocks (b :: blocks) := by
  rw [joinBlocks, String.intercalate_cons_cons, joinBlocks, String.append_assoc]

theorem quoted_eq {a b opening suffix : String} (ha : a = opening ++ "'") (hb : b = suffix ++ "'") (o : PackageOptions) :
    a ++ o.runtimeModule ++ b = opening ++ specifier o suffix := by
  rw [ha, hb, specifier]
  simp only [String.append_assoc]

theorem helperLine_eq (o : PackageOptions) : helperLine o = helperOpening ++ specifier o "/client" :=
  quoted_eq (by decide) (by decide) o

theorem markdownLine_eq (o : PackageOptions) :
    "import type \x7b " ++ markdownType ++ " \x7d from '" ++ o.runtimeModule ++ "/core'\n" =
      markdownOpening ++ specifier o "/core" ++ "\n" := by
  have hclosing : "/core'\n" = "/core'" ++ "\n" := by decide
  have hquoted : "import type \x7b " ++ markdownType ++ " \x7d from '" ++ o.runtimeModule ++ "/core'" =
      markdownOpening ++ specifier o "/core" :=
    quoted_eq (by decide) (by decide) o
  rw [hclosing, ← String.append_assoc, hquoted]

theorem barrel_blocks (c : Canonical.Schema) : ∃ block blocks, ∀ o,
    barrel c o = joinBlocks (notice :: helperLine o :: block :: blocks) := by
  by_cases h : c.documents.names.isEmpty = true
  · simp only [barrel, h, if_true, List.cons_append, List.nil_append]
    exact ⟨_, _, fun o => rfl⟩
  · simp only [barrel, h, if_false, List.cons_append, List.nil_append, Bool.false_eq_true]
    exact ⟨_, _, fun o => rfl⟩

theorem declarations_blocks (c : Canonical.Schema) : ∃ block blocks, ∀ o, declarations c o =
    joinBlocks (notice :: ("import type \x7b " ++ markdownType ++ " \x7d from '" ++ o.runtimeModule ++ "/core'\n" ++
      helperLine o) :: block :: blocks) := by
  simp only [declarations, List.cons_append, List.nil_append]
  exact ⟨_, _, fun o => rfl⟩

theorem barrel_eq (c : Canonical.Schema) : ∃ rest, ∀ o,
    barrel c o = barrelOpening ++ specifier o "/client" ++ rest := by
  obtain ⟨block, blocks, h⟩ := barrel_blocks c
  refine ⟨"\n\n" ++ joinBlocks (block :: blocks), fun o => ?_⟩
  rw [h, joinBlocks_cons_cons, joinBlocks_cons_cons, helperLine_eq, barrelOpening]
  simp only [String.append_assoc]

theorem declarations_eq (c : Canonical.Schema) : ∃ rest, ∀ o, declarations c o =
    declarationsOpening ++ specifier o "/core" ++ ("\n" ++ helperOpening) ++ specifier o "/client" ++ rest := by
  obtain ⟨block, blocks, h⟩ := declarations_blocks c
  refine ⟨"\n\n" ++ joinBlocks (block :: blocks), fun o => ?_⟩
  rw [h, joinBlocks_cons_cons, joinBlocks_cons_cons, markdownLine_eq, helperLine_eq, declarationsOpening]
  simp only [String.append_assoc]

/-! ## How specifiers are read -/

/-- These are the literals of the text, and it ends outside of literals and comments. -/
def HasLiterals (text : String) (values : List String) : Prop :=
  feed Lexer.step .code text.toList = some (values.map textUnits, .code)

/-- The literal that a reader comes to first has this value. -/
def FirstLiteral (text value : String) : Prop :=
  ∃ others last, feed Lexer.step .code text.toList = some (textUnits value :: others, last)

theorem hasLiterals_append {a b : String} {values others : List String} (ha : HasLiterals a values)
    (hb : HasLiterals b others) : HasLiterals (a ++ b) (values ++ others) := by
  unfold HasLiterals at *
  rw [String.toList_append, feed_append_of_eq ha, hb, List.map_append]
  rfl

theorem specifier_eq {o : PackageOptions} {suffix : String} (h : Quotable (o.runtimeModule ++ suffix)) :
    specifier o suffix = stringLiteral (o.runtimeModule ++ suffix) := by
  rw [stringLiteral_of_quotable h, specifier, ← String.append_assoc]

/-- A path within a module. -/
structure IsSubpath (suffix : String) : Prop where
  slash : suffix.toList.head? = some '/'
  quotable : Quotable suffix

section
variable {o : PackageOptions} {suffix opening rest : String}

/-- Behind any text without literals: unless the name may be put between quotes, what is read first
is not the name that was to be written. -/
theorem quotable_of_firstLiteral (ho : HasLiterals opening []) (hs : IsSubpath suffix)
    (h : FirstLiteral (opening ++ specifier o suffix ++ rest) (o.runtimeModule ++ suffix)) :
    Quotable o.runtimeModule := by
  by_contra hspecial
  obtain ⟨others, last, h⟩ := h
  obtain ⟨word, hword⟩ := List.head?_eq_some_iff.mp hs.slash
  have hquotable := hs.quotable
  rw [Quotable, hword, List.all_cons, Bool.and_eq_true] at hquotable
  rw [String.toList_append, String.toList_append, List.append_assoc, feed_append_silent ho] at h
  have htext : (specifier o suffix).toList ++ rest.toList =
      '\'' :: (o.runtimeModule.toList ++ '/' :: (word ++ '\'' :: rest.toList)) := by
    simp [specifier, hword]
  rw [htext, feed_silent (show Lexer.step .code '\'' = some ([], .within .plain []) from rfl)] at h
  obtain ⟨first, others', e, hlength⟩ := first_literal_lt hquotable.2 (Bool.eq_false_iff.mpr hspecial) h
  obtain ⟨rfl, -⟩ := List.cons.inj e
  simp [textUnits, hword] at hlength

theorem firstLiteral_of_hasLiterals {text value : String} {values : List String}
    (h : HasLiterals text (value :: values)) : FirstLiteral text value :=
  ⟨_, _, h⟩

theorem hasLiterals_specifier (h : Quotable o.runtimeModule) (hs : IsSubpath suffix) :
    HasLiterals (specifier o suffix) [o.runtimeModule ++ suffix] := by
  have hquotable := quotable_append.mpr ⟨h, hs.quotable⟩
  rw [HasLiterals, specifier_eq hquotable, feed_stringLiteral, if_neg (carriage_of_quotable hquotable)]
  rfl

theorem hasLiterals_iff (ho : HasLiterals opening []) (hs : IsSubpath suffix) :
    HasLiterals (opening ++ specifier o suffix) [o.runtimeModule ++ suffix] ↔ Quotable o.runtimeModule := by
  constructor
  · intro h
    rw [← String.append_empty (s := opening ++ _)] at h
    exact quotable_of_firstLiteral ho hs (firstLiteral_of_hasLiterals h)
  · intro h
    exact hasLiterals_append ho (hasLiterals_specifier h hs)

theorem literal?_specifier_iff (hs : IsSubpath suffix) :
    literal? (specifier o suffix) = some (textUnits (o.runtimeModule ++ suffix)) ↔ Quotable o.runtimeModule := by
  constructor
  · intro h
    refine (hasLiterals_iff (show HasLiterals "" [] from rfl) hs).mp ?_
    rw [String.empty_append]
    exact feed_of_literal? h
  · intro h
    have hquotable := quotable_append.mpr ⟨h, hs.quotable⟩
    rw [specifier_eq hquotable, literal?_stringLiteral, if_neg (carriage_of_quotable hquotable)]

end

theorem hasLiterals_barrelOpening : HasLiterals barrelOpening [] := by rfl

theorem isSubpath_client : IsSubpath "/client" := ⟨by decide, by decide⟩

theorem isSubpath_core : IsSubpath "/core" := ⟨by decide, by decide⟩

/-- The name of the runtime module may be any text. Wherever a specifier with it stands, it denotes
the module that is meant if and only if there is no quote, no backslash and no end of line in the
name. The rest of the two modules does not depend on the name, and with such a name a reader comes to
it outside of literals, when it has read nothing but the specifiers. -/
theorem specifiers_denote_iff (c : Canonical.Schema) :
    (∀ o, ∀ suffix ∈ ["/core", "/client"],
      literal? (specifier o suffix) = some (textUnits (o.runtimeModule ++ suffix)) ↔ Quotable o.runtimeModule) ∧
    (∃ rest, ∀ o, barrel c o = barrelOpening ++ specifier o "/client" ++ rest ∧
      (HasLiterals (barrelOpening ++ specifier o "/client") [o.runtimeModule ++ "/client"] ↔ Quotable o.runtimeModule) ∧
      (FirstLiteral (barrel c o) (o.runtimeModule ++ "/client") → Quotable o.runtimeModule)) ∧
    ∃ rest, ∀ o, declarations c o = declarationsOpening ++ specifier o "/core" ++ ("\n" ++ helperOpening) ++
        specifier o "/client" ++ rest ∧
      (HasLiterals (declarationsOpening ++ specifier o "/core" ++ ("\n" ++ helperOpening) ++ specifier o "/client")
        [o.runtimeModule ++ "/core", o.runtimeModule ++ "/client"] ↔ Quotable o.runtimeModule) ∧
      (FirstLiteral (declarations c o) (o.runtimeModule ++ "/core") → Quotable o.runtimeModule) := by
  have hdeclarations : HasLiterals declarationsOpening [] := rfl
  have hhelper : HasLiterals ("\n" ++ helperOpening) [] := rfl
  refine ⟨fun o suffix hsuffix => ?_, ?_, ?_⟩
  · rcases List.mem_pair.mp hsuffix with rfl | rfl
    · exact literal?_specifier_iff isSubpath_core
    · exact literal?_specifier_iff isSubpath_client
  · obtain ⟨rest, h⟩ := barrel_eq c
    refine ⟨rest, fun o => ⟨h o, hasLiterals_iff hasLiterals_barrelOpening isSubpath_client, fun hfirst => ?_⟩⟩
    rw [h] at hfirst
    exact quotable_of_firstLiteral hasLiterals_barrelOpening isSubpath_client hfirst
  · obtain ⟨rest, h⟩ := declarations_eq c
    refine ⟨rest, fun o => ⟨h o, ⟨fun hread => ?_, fun hname => ?_⟩, fun hfirst => ?_⟩⟩
    · have hfirst := firstLiteral_of_hasLiterals hread
      rw [String.append_assoc] at hfirst
      exact quotable_of_firstLiteral hdeclarations isSubpath_core hfirst
    · have hcore := hasLiterals_append hdeclarations (hasLiterals_specifier hname isSubpath_core)
      exact hasLiterals_append (hasLiterals_append hcore hhelper) (hasLiterals_specifier hname isSubpath_client)
    · rw [h, String.append_assoc, String.append_assoc] at hfirst
      exact quotable_of_firstLiteral hdeclarations isSubpath_core hfirst

theorem default_specifiers_denote :
    Quotable ({} : PackageOptions).runtimeModule ∧
      literal? (specifier {} "/core") = some (textUnits (({} : PackageOptions).runtimeModule ++ "/core")) ∧
      ∃ rest, declarations blogCanonical {} = declarationsOpening ++ specifier {} "/core" ++ ("\n" ++ helperOpening) ++
          specifier {} "/client" ++ rest ∧
        HasLiterals (declarationsOpening ++ specifier {} "/core" ++ ("\n" ++ helperOpening) ++ specifier {} "/client")
          [({} : PackageOptions).runtimeModule ++ "/core", ({} : PackageOptions).runtimeModule ++ "/client"] := by
  have hname : Quotable ({} : PackageOptions).runtimeModule := by decide
  obtain ⟨hspecifier, -, rest, hall⟩ := specifiers_denote_iff blogCanonical
  obtain ⟨htext, hread, -⟩ := hall {}
  exact ⟨hname, (hspecifier {} "/core" (List.mem_pair.mpr (.inl rfl))).mpr hname, rest, htext, hread.mpr hname⟩

/-- A quote in the name ends the specifier, and what is behind it is no text of the language. -/
theorem specifier_closed_early :
    specifier { runtimeModule := "it's" } "/client" = "'it's/client'" ∧
      literal? (specifier { runtimeModule := "it's" } "/client") = none ∧
      ¬ FirstLiteral (barrel blogCanonical { runtimeModule := "it's" }) ("it's" ++ "/client") := by
  refine ⟨by decide, by decide, fun h => ?_⟩
  obtain ⟨rest, hbarrel⟩ := barrel_eq blogCanonical
  rw [hbarrel] at h
  have hname : Quotable "it's" := quotable_of_firstLiteral hasLiterals_barrelOpening isSubpath_client h
  exact absurd hname (by decide)

example : literal? (specifier { runtimeModule := "a\\b" } "/core") = some (textUnits "a\x08/core") := by
  decide

end Package

end TypedContent
