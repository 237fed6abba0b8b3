import Mathlib
import TypedContent.Proofs.Package.CalmTexts

/-!
# What the statements of a module say

Each statement of the generated modules, read line by line. Names are without blanks, as they are
identifiers or fixed; types and values stand on one line, or nothing is declared on their other
lines.
-/

namespace TypedContent

namespace Package

open TypeScript

theorem word_append {a b : String} : Word (a ++ b) ↔ Word a ∧ Word b := by
  simp only [Word, String.toList_append, List.mem_append, not_or]
  exact and_and_and_comm

theorem word_identifier {name : String} (h : isIdentifier name = true) : Word name :=
  ⟨fun hc => absurd (continues_of_identifier h hc) (by decide), oneLine_identifier h⟩

theorem word_dataConstant {name : String} (h : Word name) : Word (dataConstant name) := word_append.mpr ⟨by decide, h⟩

theorem word_dataFile {name : String} (h : Word name) : Word (dataFile name) :=
  word_append.mpr ⟨word_dataConstant h, by decide⟩

theorem Statement.oneLine_text {s : Statement} (h : ∀ piece ∈ s.pieces, OneLine piece) : OneLine s.text := by
  intro hc
  rw [Statement.text, String.toList_join, List.mem_flatMap] at hc
  obtain ⟨piece, hpiece, hc⟩ := hc
  exact h piece hpiece hc

/-! ## Imports and exports -/

theorem word_source {file : String} (h : Word file) : Word ("'./" ++ file ++ "'") :=
  word_append.mpr ⟨word_append.mpr ⟨by decide, h⟩, by decide⟩

theorem linesOf_exportAll {file : String} (h : Word file) :
    linesOf (Statement.exportAll (fromFile file)).text = [.exportAll file] := by
  have htext : (Statement.exportAll (fromFile file)).text =
      " ".intercalate ["export", "*", "from", "'./" ++ file ++ "'"] := by
    refine String.toList_inj.mp ?_
    simp [Statement.text, Statement.pieces, fromFile]
  have hwords : ∀ w ∈ ["export", "*", "from", "'./" ++ file ++ "'"], Word w := by
    simp only [List.forall_mem_cons]
    exact ⟨by decide, by decide, by decide, word_source h, by simp⟩
  rw [htext, linesOf_words hwords, readWords_exportAll]

theorem linesOf_importConstant {name file : String} (hn : Word name) (hf : Word file) :
    linesOf (Statement.importConstant name (fromFile file)).text = [.importConstant name file] := by
  have htext : (Statement.importConstant name (fromFile file)).text =
      " ".intercalate ["import", "\x7b", name, "\x7d", "from", "'./" ++ file ++ "'"] := by
    refine String.toList_inj.mp ?_
    simp [Statement.text, Statement.pieces, fromFile]
  have hwords : ∀ w ∈ ["import", "\x7b", name, "\x7d", "from", "'./" ++ file ++ "'"], Word w := by
    simp only [List.forall_mem_cons]
    exact ⟨by decide, by decide, hn, by decide, by decide, word_source hf, by simp⟩
  rw [htext, linesOf_words hwords, readWords_importConstant]

theorem intercalate_quoted (source : String) :
    " ".intercalate (wordsOf ("'" ++ source ++ "'").toList) = "'" ++ source ++ "'" := by
  rw [intercalate_wordsOf, String.ofList_toList]

theorem linesOf_exportFrom {name source : String} (hn : Word name) (hs : OneLine source) :
    linesOf (Statement.exportFrom name source).text = [.exportFrom name source] := by
  have htext : (Statement.exportFrom name source).text.toList =
      "export".toList ++ ' ' :: ("\x7b".toList ++ ' ' :: (name.toList ++ ' ' ::
        ("\x7d".toList ++ ' ' :: ("from".toList ++ ' ' :: ("'" ++ source ++ "'").toList)))) := by
    simp [Statement.text, Statement.pieces]
  have hline : OneLine (Statement.exportFrom name source).text := by
    refine Statement.oneLine_text ?_
    simp only [Statement.pieces, List.forall_mem_cons]
    exact ⟨by decide, hn.2, by decide, hs, by decide, by simp⟩
  rw [linesOf, readLines_line hline (by simp [htext]), htext, wordsOf_cons (by decide), wordsOf_cons (by decide),
    wordsOf_cons hn.1, wordsOf_cons (by decide), wordsOf_cons (by decide)]
  simp only [String.ofList_toList, readWords_exportFrom (intercalate_quoted source)]

theorem linesOf_importType {name source : String} (hn : Word name) (hs : OneLine source) :
    linesOf (Statement.importType name source).text = [.importType name source] := by
  have htext : (Statement.importType name source).text.toList =
      "import".toList ++ ' ' :: ("type".toList ++ ' ' :: ("\x7b".toList ++ ' ' :: (name.toList ++ ' ' ::
        ("\x7d".toList ++ ' ' :: ("from".toList ++ ' ' :: ("'" ++ source ++ "'").toList))))) := by
    simp [Statement.text, Statement.pieces]
  have hline : OneLine (Statement.importType name source).text := by
    refine Statement.oneLine_text ?_
    simp only [Statement.pieces, List.forall_mem_cons]
    exact ⟨by decide, hn.2, by decide, hs, by decide, by simp⟩
  rw [linesOf, readLines_line hline (by simp [htext]), htext, wordsOf_cons (by decide), wordsOf_cons (by decide),
    wordsOf_cons (by decide), wordsOf_cons hn.1, wordsOf_cons (by decide), wordsOf_cons (by decide)]
  simp only [String.ofList_toList, readWords_importType (intercalate_quoted source)]

/-! ## Constants and types -/

/-- The words of a declaration, up to what is declared. -/
theorem wordsOf_declaration {keyword name : String} (hk : Word keyword) (hn : Word name) (value : List Char) :
    wordsOf (("export " ++ keyword ++ " " ++ name ++ " = ").toList ++ value) =
      "export" :: keyword :: name :: "=" :: wordsOf value := by
  have htext : ("export " ++ keyword ++ " " ++ name ++ " = ").toList ++ value =
      "export".toList ++ ' ' :: (keyword.toList ++ ' ' :: (name.toList ++ ' ' :: ("=".toList ++ ' ' :: value))) := by
    simp
  rw [htext, wordsOf_cons (by decide), wordsOf_cons hk.1, wordsOf_cons hn.1, wordsOf_cons (by decide)]
  simp only [String.ofList_toList]

theorem linesOf_constant {name value : String} (hn : Word name) (hv : OneLine value) :
    linesOf (Statement.constant name value).text = [.constant name value] := by
  have htext : (Statement.constant name value).text.toList =
      ("export " ++ "const" ++ " " ++ name ++ " = ").toList ++ value.toList := by
    simp [Statement.text, Statement.pieces]
  have hline : OneLine (Statement.constant name value).text := by
    refine Statement.oneLine_text ?_
    simp only [Statement.pieces, List.forall_mem_cons]
    exact ⟨by decide, hn.2, by decide, hv, by simp⟩
  have hvalue : wordsOf value.toList ≠ [] := by simp [wordsOf]
  rw [linesOf, readLines_line hline (by simp [htext]), htext, wordsOf_declaration (by decide) hn,
    readWords_constant _ hvalue, intercalate_wordsOf, String.ofList_toList]

theorem linesOf_type {name expr : String} (hn : Word name) (he : OneLine expr) :
    linesOf (Statement.type "" name expr).text = [.type name (wordsOf expr.toList)] := by
  have htext : (Statement.type "" name expr).text.toList =
      ("export " ++ "type" ++ " " ++ name ++ " = ").toList ++ expr.toList := by
    simp [Statement.text, Statement.pieces]
  have hline : OneLine (Statement.type "" name expr).text := by
    refine Statement.oneLine_text ?_
    simp only [Statement.pieces, List.forall_mem_cons]
    exact ⟨by decide, by decide, hn.2, by decide, he, by simp⟩
  rw [linesOf, readLines_line hline (by simp [htext]), htext, wordsOf_declaration (by decide) hn, readWords_type]

theorem linesOf_ambientConstant {name expr : String} (hn : Word name) (he : Word expr) :
    linesOf (Statement.ambientConstant name expr).text = [.ambientConstant name expr] := by
  have htext : (Statement.ambientConstant name expr).text =
      " ".intercalate ["export", "declare", "const", name ++ ":", expr] := by
    refine String.toList_inj.mp ?_
    simp [Statement.text, Statement.pieces]
  have hwords : ∀ w ∈ ["export", "declare", "const", name ++ ":", expr], Word w := by
    simp only [List.forall_mem_cons]
    exact ⟨by decide, by decide, by decide, word_append.mpr ⟨hn, by decide⟩, he, by simp⟩
  rw [htext, linesOf_words hwords, readWords_ambientConstant]

/-! ## Unions and the type map -/

def unionWords (names : List String) : List String := if names.isEmpty then ["never"] else names.intersperse "|"

theorem intercalate_bars : ∀ names : List String, " | ".intercalate names = " ".intercalate (names.intersperse "|")
  | [] | [_] => rfl
  | a :: b :: names => by
    have hne : (b :: names).intersperse "|" ≠ [] := by cases names <;> simp
    have hbar : " | " = " " ++ "|" ++ " " := by decide
    rw [List.intersperse_cons_cons, String.intercalate_cons_cons, String.intercalate_cons_cons,
      String.intercalate_cons_of_ne_nil hne, ← intercalate_bars (b :: names)]
    generalize " | ".intercalate (b :: names) = rest
    simp only [hbar, String.append_assoc]

theorem word_intersperse : ∀ {names : List String}, (∀ n ∈ names, Word n) → ∀ w ∈ names.intersperse "|", Word w
  | [], h | [_], h => h
  | a :: b :: names, h => by
    rw [List.forall_mem_cons] at h
    rw [List.intersperse_cons_cons, List.forall_mem_cons, List.forall_mem_cons]
    exact ⟨h.1, by decide, word_intersperse h.2⟩

theorem wordsOf_unionOf {names : List String} (h : ∀ n ∈ names, Word n) :
    wordsOf (Package.unionOf names).toList = unionWords names := by
  unfold Package.unionOf unionWords
  cases names with
  | nil => decide
  | cons n names =>
    have hne : (n :: names).intersperse "|" ≠ [] := by cases names <;> simp
    simp only [List.isEmpty_cons, Bool.false_eq_true, if_false]
    rw [intercalate_bars, wordsOf_intercalate hne (word_intersperse h)]

/-- The line that closes what stands above it. -/
def closeLine : Line := .inner ["\x7d"]

def mapEntries (names : List String) : List Line :=
  if names.isEmpty then [] else names.map (fun n => .entry n n) ++ [closeLine]

def mapLines (names : List String) : List Line :=
  .type "DocumentTypeMap" (if names.isEmpty then ["\x7b\x7d"] else ["\x7b"]) :: mapEntries names

theorem linesOf_entry {key expr : String} (hk : Word key) (he : Word expr) :
    linesOf ("  " ++ key ++ ": " ++ expr) = [.entry key expr] := by
  have htext : "  " ++ key ++ ": " ++ expr = " ".intercalate ["", "", key ++ ":", expr] := by
    refine String.toList_inj.mp ?_
    simp
  have hwords : ∀ w ∈ ["", "", key ++ ":", expr], Word w := by
    simp only [List.forall_mem_cons]
    exact ⟨by decide, by decide, word_append.mpr ⟨hk, by decide⟩, he, by simp⟩
  rw [htext, linesOf_words hwords, readWords_entry]

def entriesText (entries : List (String × String)) : String :=
  String.join (entries.map fun e => "  " ++ e.1 ++ ": " ++ e.2 ++ "\n")

theorem readLines_entriesText : ∀ {entries : List (String × String)}, (∀ e ∈ entries, Word e.1 ∧ Word e.2) →
    readLines ((entriesText entries).toList ++ ['\x7d']) = entries.map (fun e => .entry e.1 e.2) ++ [closeLine]
  | [], _ => by decide
  | e :: entries, h => by
    rw [List.forall_mem_cons] at h
    have htext : (entriesText (e :: entries)).toList ++ ['\x7d'] =
        ("  " ++ e.1 ++ ": " ++ e.2).toList ++ '\n' :: ((entriesText entries).toList ++ ['\x7d']) := by
      simp [entriesText]
    rw [htext, readLines_append, readLines_entriesText h.2, List.map_cons]
    exact congrArg (· ++ _) (linesOf_entry h.1.1 h.1.2)

theorem linesOf_typeMap {names : List String} (h : ∀ n ∈ names, Word n) :
    linesOf (Statement.type "" "DocumentTypeMap" (typeMap names)).text = mapLines names := by
  cases names with
  | nil => decide
  | cons n names =>
    have htext : (Statement.type "" "DocumentTypeMap" (typeMap (n :: names))).text.toList =
        ("export " ++ "type" ++ " " ++ "DocumentTypeMap" ++ " = ").toList ++ ['\x7b'] ++
          '\n' :: ((entriesText ((n :: names).map fun n => (n, n))).toList ++ ['\x7d']) := by
      simp [Statement.text, Statement.pieces, typeMap, entriesText, Function.comp_def]
    have hentries : ∀ e ∈ (n :: names).map fun n => (n, n), Word e.1 ∧ Word e.2 :=
      List.forall_mem_map.mpr fun n hn => ⟨h n hn, h n hn⟩
    rw [linesOf, htext, readLines_append, readLines_entriesText hentries, readLines_line (by simp) (by simp),
      List.map_map]
    rfl

theorem linesOf_interface {name : String} {entries : List (String × String)} (hn : Word name)
    (h : ∀ e ∈ entries, Word e.1 ∧ Word e.2) : linesOf (Statement.interface name (entriesText entries)).text =
      .interface name :: (entries.map (fun e => .entry e.1 e.2) ++ [closeLine]) := by
  have htext : (Statement.interface name (entriesText entries)).text.toList =
      (" ".intercalate ["export", "interface", name, "\x7b"]).toList ++
        '\n' :: ((entriesText entries).toList ++ ['\x7d']) := by
    simp [Statement.text, Statement.pieces]
  have hwords : ∀ w ∈ ["export", "interface", name, "\x7b"], Word w := by
    simp only [List.forall_mem_cons]
    exact ⟨by decide, by decide, hn, by decide, by simp⟩
  have hfirst := linesOf_words hwords
  rw [readWords_interface] at hfirst
  rw [linesOf, htext, readLines_append, readLines_entriesText h]
  exact congrArg (· ++ _) hfirst

/-! ## Definitions -/

theorem readLines_descriptionComment (d : Definition) (rest : List Char) :
    ∃ inner : List Line, (∀ l ∈ inner, l.isInner = true) ∧
      readLines ((descriptionComment d).toList ++ rest) = inner ++ readLines rest := by
  unfold descriptionComment
  cases d.description with
  | none => exact ⟨[], by simp, rfl⟩
  | some text =>
    obtain ⟨comment, e, hcalm⟩ := docComment_calm (by simp : ∀ c ∈ "".toList, c = ' ') [text]
    have hopened : Calm ('/' :: '*' :: comment) := calm_cons (by decide) (calm_cons (by decide) hcalm)
    obtain ⟨inner, hinner, hread⟩ := readLines_calm hopened
    have hfirst : Quiet (('/' :: '*' :: comment).takeWhile (· ≠ '\n')) := quiet_comment _
    have htext : (docComment "" [text]).toList ++ rest = '/' :: '*' :: comment ++ '\n' :: rest := by simp [e]
    rw [Option.elim_some, htext, readLines_append]
    refine ⟨_, ?_, rfl⟩
    rw [hread, List.forall_mem_append]
    exact ⟨readLines_quiet (newline_takeWhile _) hfirst, hinner⟩

theorem linesOf_definitionStatement {d : Definition} (hn : Word d.name) (h : ∀ l ∈ links d.fields, OneLine l.target) :
    ∃ before after : List Line, (∀ l ∈ before ++ after, l.isInner = true) ∧
      linesOf (definitionStatement d).text = before ++ .type d.name ["\x7b"] :: after := by
  have htext : (definitionStatement d).text.toList = (descriptionComment d).toList ++
      (("export " ++ "type" ++ " " ++ d.name ++ " = ").toList ++ ['\x7b'] ++
        '\n' :: ((String.join (bodyLines d)).toList ++ ['\x7d'])) := by
    simp [definitionStatement, Statement.text, Statement.pieces]
  have hline : '\n' ∉ ("export " ++ "type" ++ " " ++ d.name ++ " = ").toList ++ ['\x7b'] := by
    have hname := hn.2
    simp [hname]
  have hbody : Mute ((String.join (bodyLines d)).toList ++ ['\x7d']) :=
    (mute_join (mute_bodyLines h)).append (mute_single (by decide))
  obtain ⟨before, hbefore, hread⟩ := readLines_descriptionComment d
    (("export " ++ "type" ++ " " ++ d.name ++ " = ").toList ++ ['\x7b'] ++
      '\n' :: ((String.join (bodyLines d)).toList ++ ['\x7d']))
  -- the comment before the name and the body after it are mute, so the name is read off one line
  refine ⟨before, readLines ((String.join (bodyLines d)).toList ++ ['\x7d']), ?_, ?_⟩
  · rw [List.forall_mem_append]
    exact ⟨hbefore, readLines_mute hbody⟩
  · rw [linesOf, htext, hread, readLines_append, readLines_line hline (by simp), wordsOf_declaration (by decide) hn,
      readWords_type]
    rfl

/-! ## Data modules -/

theorem linesOf_dataModule (t : TypeDocuments) (h : Word t.typeName) :
    ∃ (value : String) (after : List Line),
      linesOf (dataModule t) = .constant (dataConstant t.typeName) value :: after ∧ ∀ l ∈ after, l.isInner = true := by
  have htext : (dataModule t).toList =
      ("export " ++ "const" ++ " " ++ dataConstant t.typeName ++ " = ").toList ++
        Json.print .pretty 0 (.arr (t.documents.map (·.toJson))) ++ ['\n'] := by
    change ("export const " ++ dataConstant t.typeName ++ " = " ++ String.ofList _ ++ "\n").toList = _
    simp only [String.toList_append, String.toList_ofList, String.reduceToList, List.cons_append, List.nil_append,
      List.append_assoc]
  have hname := word_dataConstant h
  have hline : '\n' ∉ ("export " ++ "const" ++ " " ++ dataConstant t.typeName ++ " = ").toList := by
    have hbreak := hname.2
    simp [hbreak]
  obtain ⟨after, hafter, hread⟩ :=
    readLines_calm (calm_append_of_line hline (calm_print 0 (.arr (t.documents.map (·.toJson)))))
  have hkept : ∀ c ∈ ("export " ++ "const" ++ " " ++ dataConstant t.typeName ++ " = ").toList,
      decide (c ≠ '\n') = true :=
    fun c hc => decide_eq_true fun e => hline (e ▸ hc)
  rw [List.takeWhile_append_of_pos hkept] at hread
  have hfirst : '\n' ∉ ("export " ++ "const" ++ " " ++ dataConstant t.typeName ++ " = ").toList ++
      (Json.print .pretty 0 (.arr (t.documents.map (·.toJson)))).takeWhile (· ≠ '\n') := by
    rw [List.mem_append, not_or]
    exact ⟨hline, newline_takeWhile _⟩
  rw [linesOf, htext, readLines_append, hread, readLines_line hfirst (by simp), wordsOf_declaration (by decide) hname,
    readWords_constant _ (by simp [wordsOf]), readLines_nil, List.append_nil]
  exact ⟨_, after, rfl, hafter⟩

end Package

end TypedContent
