import Mathlib
import TypedContent.Proofs.Package.Statements
import TypedContent.Proofs.TypeScript.OneLine

/-!
# Generated modules read line by line

A module is split into lines and a line into words. The first words tell what a line says: which
file is exported or imported, which constant or type is declared, what an entry of a type is. A
line that is indented, closes a bracket or is part of a comment belongs to what stands above or
below it. Any other line is kept as one of an unknown spelling, so only empty lines are passed
over, and what a module enumerates is found in its text alone.
-/

namespace TypedContent

namespace Package

inductive Line where
  | remark (words : List String)
  | exportAll (file : String)
  | exportFrom (name source : String)
  | exportType (name : String)
  | importConstant (name file : String)
  | importType (name source : String)
  | constant (name value : String)
  | ambientConstant (name type : String)
  | type (name : String) (expr : List String)
  | interface (name : String)
  | openGlobal
  | entry (key type : String)
  /-- The line is part of a statement or a comment that takes several lines. -/
  | inner (words : List String)
  | unknown (words : List String)
  deriving DecidableEq

/-- What stands between the opening and the closing text. -/
def between? (opening closing text : String) : Option String :=
  ((text.toList.dropPrefix? opening.toList).bind (·.dropSuffix? closing.toList)).map String.ofList

def exportOf? : List String → Option Line
  | ["*", "from", source] => (between? "'./" "'" source).map .exportAll
  | "\x7b" :: name :: "\x7d" :: "from" :: source => (between? "'" "'" (" ".intercalate source)).map (.exportFrom name)
  | "const" :: name :: "=" :: word :: words => some (.constant name (" ".intercalate (word :: words)))
  | ["declare", "const", name, type] => (between? "" ":" name).map (.ambientConstant · type)
  | "type" :: name :: "=" :: words => some (.type name words)
  | ["type", opening, name, closing] =>
    if opening = "\x7b" ∧ closing = "\x7d" then some (.exportType name) else none
  | ["interface", name, "\x7b"] => some (.interface name)
  | _ => none

def importOf? : List String → Option Line
  | ["\x7b", name, "\x7d", "from", source] => (between? "'./" "'" source).map (.importConstant name)
  | "type" :: "\x7b" :: name :: "\x7d" :: "from" :: source =>
    (between? "'" "'" (" ".intercalate source)).map (.importType name)
  | _ => none

def entryOf? : List String → Option Line
  | ["", key, type] => (between? "" ":" key).map (.entry · type)
  | _ => none

/-- The line in one of the spellings that the modules use. -/
def spelled? : List String → Option Line
  | "//" :: words => some (.remark words)
  | "export" :: words => exportOf? words
  | "import" :: words => importOf? words
  | ["declare", "global", "\x7b"] => some .openGlobal
  | "" :: words => entryOf? words
  | _ => none

/-- A line of this first word does not stand for itself. -/
def goesOn (first : String) : Bool :=
  match first.toList with
  | [] | ',' :: _ | ']' :: _ | '\x7d' :: _ | '/' :: '*' :: _ => true
  | _ => false

def readWords (words : List String) : Line :=
  (spelled? words).getD (if goesOn (words.headD "") then .inner words else .unknown words)

def wordsOf (line : List Char) : List String := (line.splitOn ' ').map String.ofList

def readLines (text : List Char) : List Line :=
  ((text.splitOn '\n').filter (!·.isEmpty)).map fun line => readWords (wordsOf line)

def linesOf (text : String) : List Line := readLines text.toList

theorem between?_append (opening closing text : String) :
    between? opening closing (opening ++ text ++ closing) = some text := by
  have hopening : (opening ++ text ++ closing).toList.dropPrefix? opening.toList = some (text ++ closing).toList :=
    List.dropPrefix?_eq_some_iff.mpr ⟨opening.toList, by simp, by simp⟩
  have hclosing : (text ++ closing).toList.dropSuffix? closing.toList = some text.toList :=
    List.dropSuffix?_eq_some_iff.mpr ⟨closing.toList, by simp, by simp⟩
  rw [between?, hopening, Option.bind_some, hclosing, Option.map_some, String.ofList_toList]

theorem eq_of_between? {opening closing text inside : String} (h : between? opening closing text = some inside) :
    text = opening ++ inside ++ closing := by
  obtain ⟨chars, hchars, rfl⟩ := Option.map_eq_some_iff.mp h
  obtain ⟨rest, hopening, hclosing⟩ := Option.bind_eq_some_iff.mp hchars
  obtain ⟨before, e, hbefore⟩ := List.dropPrefix?_eq_some_iff.mp hopening
  obtain ⟨after, e', hafter⟩ := List.dropSuffix?_eq_some_iff.mp hclosing
  rw [beq_iff_eq] at hbefore hafter
  refine String.toList_inj.mp ?_
  simp [e, e', hbefore, hafter]

/-! ## Nothing is lost -/

/-- The line as it is written. -/
def Line.words : Line → List String
  | .remark words => "//" :: words
  | .exportAll file => ["export", "*", "from", "'./" ++ file ++ "'"]
  | .exportFrom name source => ["export", "\x7b", name, "\x7d", "from", "'" ++ source ++ "'"]
  | .exportType name => ["export", "type", "\x7b", name, "\x7d"]
  | .importConstant name file => ["import", "\x7b", name, "\x7d", "from", "'./" ++ file ++ "'"]
  | .importType name source => ["import", "type", "\x7b", name, "\x7d", "from", "'" ++ source ++ "'"]
  | .constant name value => ["export", "const", name, "=", value]
  | .ambientConstant name expr => ["export", "declare", "const", name ++ ":", expr]
  | .type name expr => "export" :: "type" :: name :: "=" :: expr
  | .interface name => ["export", "interface", name, "\x7b"]
  | .openGlobal => ["declare", "global", "\x7b"]
  | .entry key expr => ["", "", key ++ ":", expr]
  | .inner words | .unknown words => words

def Line.text (l : Line) : String := " ".intercalate l.words

theorem intercalate_joined {last : List String} (h : last ≠ []) (words : List String) :
    " ".intercalate (words ++ [" ".intercalate last]) = " ".intercalate (words ++ last) := by
  cases words with
  | nil => simp
  | cons word words =>
    rw [String.intercalate_append_of_ne_nil (by simp) (by simp), String.intercalate_append_of_ne_nil (by simp) h,
      String.intercalate_singleton]

/-- What is quoted may hold blanks, so it is read off all the words that are left. -/
theorem intercalate_source (words : List String) {source : List String} {name : String}
    (h : between? "'" "'" (" ".intercalate source) = some name) :
    " ".intercalate (words ++ ["'" ++ name ++ "'"]) = " ".intercalate (words ++ source) := by
  have hne : source ≠ [] := by
    rintro rfl
    rw [String.intercalate_nil] at h
    exact absurd ((by decide : between? "'" "'" "" = none).symm.trans h) (by simp)
  rw [← eq_of_between? h, intercalate_joined hne]

theorem text_exportOf? {words : List String} {l : Line} (h : exportOf? words = some l) :
    l.text = " ".intercalate ("export" :: words) := by
  unfold exportOf? at h
  split at h
  · obtain ⟨file, hinside, rfl⟩ := Option.map_eq_some_iff.mp h
    rw [eq_of_between? hinside]
    rfl
  · next name source =>
    obtain ⟨file, hinside, rfl⟩ := Option.map_eq_some_iff.mp h
    exact intercalate_source ["export", "\x7b", name, "\x7d", "from"] hinside
  · next name word words =>
    cases h
    exact intercalate_joined (List.cons_ne_nil word words) ["export", "const", name, "="]
  · obtain ⟨key, hinside, rfl⟩ := Option.map_eq_some_iff.mp h
    rw [eq_of_between? hinside, String.empty_append]
    rfl
  · cases h
    rfl
  · split at h
    · next hbraces =>
      obtain ⟨rfl, rfl⟩ := hbraces
      cases h
      rfl
    · cases h
  · cases h
    rfl
  · cases h

theorem text_importOf? {words : List String} {l : Line} (h : importOf? words = some l) :
    l.text = " ".intercalate ("import" :: words) := by
  unfold importOf? at h
  split at h
  · obtain ⟨file, hinside, rfl⟩ := Option.map_eq_some_iff.mp h
    rw [eq_of_between? hinside]
    rfl
  · next name source =>
    obtain ⟨file, hinside, rfl⟩ := Option.map_eq_some_iff.mp h
    exact intercalate_source ["import", "type", "\x7b", name, "\x7d", "from"] hinside
  · cases h

theorem entryOf?_eq_some {words : List String} {l : Line} (h : entryOf? words = some l) :
    ∃ key expr, words = ["", key ++ ":", expr] ∧ l = .entry key expr := by
  unfold entryOf? at h
  split at h
  · next expr =>
    obtain ⟨key, hinside, rfl⟩ := Option.map_eq_some_iff.mp h
    rw [eq_of_between? hinside, String.empty_append]
    exact ⟨key, expr, rfl, rfl⟩
  · cases h

theorem text_spelled? {words : List String} {l : Line} (h : spelled? words = some l) :
    l.text = " ".intercalate words := by
  unfold spelled? at h
  split at h
  · cases h
    rfl
  · exact text_exportOf? h
  · exact text_importOf? h
  · cases h
    rfl
  · obtain ⟨key, expr, rfl, rfl⟩ := entryOf?_eq_some h
    rfl
  · cases h

theorem text_readWords (words : List String) : (readWords words).text = " ".intercalate words := by
  unfold readWords
  cases h : spelled? words with
  | some l => exact text_spelled? h
  | none =>
    rw [Option.getD_none]
    split <;> rfl

theorem intercalate_wordsOf (line : List Char) : " ".intercalate (wordsOf line) = String.ofList line := by
  refine String.toList_inj.mp ?_
  rw [String.toList_intercalate, String.toList_ofList, wordsOf, List.map_map]
  simp only [Function.comp_def, String.toList_ofList, List.map_id']
  exact List.intercalate_splitOn ' '

/-- What is read holds each line of the text but the empty ones, as it is written. -/
theorem text_readLines (text : List Char) :
    (readLines text).map Line.text = ((text.splitOn '\n').filter (!·.isEmpty)).map String.ofList := by
  rw [readLines, List.map_map]
  refine List.map_congr_left fun line _ => ?_
  rw [Function.comp_apply, text_readWords, intercalate_wordsOf]

/-! ## The words of each line -/

theorem readWords_exportAll (file : String) :
    readWords ["export", "*", "from", "'./" ++ file ++ "'"] = .exportAll file := by
  have hread : exportOf? ["*", "from", "'./" ++ file ++ "'"] = some (.exportAll file) := by
    rw [exportOf?, between?_append, Option.map_some]
  rw [readWords, spelled?, hread, Option.getD_some]

theorem readWords_importConstant (name file : String) :
    readWords ["import", "\x7b", name, "\x7d", "from", "'./" ++ file ++ "'"] = .importConstant name file := by
  have hread : importOf? ["\x7b", name, "\x7d", "from", "'./" ++ file ++ "'"] = some (.importConstant name file) := by
    rw [importOf?, between?_append, Option.map_some]
  rw [readWords, spelled?, hread, Option.getD_some]

theorem readWords_exportFrom {name : String} {words : List String} {source : String}
    (h : " ".intercalate words = "'" ++ source ++ "'") :
    readWords ("export" :: "\x7b" :: name :: "\x7d" :: "from" :: words) = .exportFrom name source := by
  have hread : exportOf? ("\x7b" :: name :: "\x7d" :: "from" :: words) = some (.exportFrom name source) := by
    rw [exportOf?, h, between?_append, Option.map_some]
  rw [readWords, spelled?, hread, Option.getD_some]

theorem readWords_importType {name : String} {words : List String} {source : String}
    (h : " ".intercalate words = "'" ++ source ++ "'") :
    readWords ("import" :: "type" :: "\x7b" :: name :: "\x7d" :: "from" :: words) = .importType name source := by
  have hread : importOf? ("type" :: "\x7b" :: name :: "\x7d" :: "from" :: words) = some (.importType name source) := by
    rw [importOf?, h, between?_append, Option.map_some]
  rw [readWords, spelled?, hread, Option.getD_some]

theorem readWords_constant (name : String) {words : List String} (h : words ≠ []) :
    readWords ("export" :: "const" :: name :: "=" :: words) = .constant name (" ".intercalate words) := by
  cases words with
  | nil => exact absurd rfl h
  | cons => rfl

theorem readWords_ambientConstant (name expr : String) :
    readWords ["export", "declare", "const", name ++ ":", expr] = .ambientConstant name expr := by
  have hread : exportOf? ["declare", "const", name ++ ":", expr] = some (.ambientConstant name expr) := by
    have hname : between? "" ":" (name ++ ":") = some name := between?_append "" ":" name
    rw [exportOf?, hname, Option.map_some]
  rw [readWords, spelled?, hread, Option.getD_some]

theorem readWords_type (name : String) (words : List String) :
    readWords ("export" :: "type" :: name :: "=" :: words) = .type name words := rfl

theorem readWords_interface (name : String) : readWords ["export", "interface", name, "\x7b"] = .interface name := rfl

theorem readWords_entry (key expr : String) : readWords ["", "", key ++ ":", expr] = .entry key expr := by
  have hread : entryOf? ["", key ++ ":", expr] = some (.entry key expr) := by
    have hkey : between? "" ":" (key ++ ":") = some key := between?_append "" ":" key
    rw [entryOf?, hkey, Option.map_some]
  rw [readWords, spelled?, hread, Option.getD_some]

/-! ## Lines -/

theorem readLines_append (text rest : List Char) :
    readLines (text ++ '\n' :: rest) = readLines text ++ readLines rest := by
  rw [readLines, List.splitOn_append_cons_self, List.filter_append, List.map_append]
  rfl

theorem readLines_nil : readLines [] = [] := by decide

theorem readLines_line {line : List Char} (h : '\n' ∉ line) (hne : line ≠ []) :
    readLines line = [readWords (wordsOf line)] := by
  have hkept : [line].filter (!·.isEmpty) = [line] := by simpa using hne
  rw [readLines, List.splitOn_eq_singleton h, hkept, List.map_singleton]

theorem linesOf_intercalate : ∀ texts : List String, linesOf ("\n".intercalate texts) = texts.flatMap linesOf
  | [] => by simp [linesOf, readLines_nil]
  | [text] => by simp
  | text :: text' :: texts => by
    have ih := linesOf_intercalate (text' :: texts)
    rw [String.intercalate_cons_cons, List.flatMap_cons, ← ih]
    simp only [linesOf, String.toList_append, List.append_assoc]
    exact readLines_append _ _

theorem linesOf_blocks : ∀ blocks : List String, linesOf ("\n\n".intercalate blocks) = blocks.flatMap linesOf
  | [] => by simp [linesOf, readLines_nil]
  | [text] => by simp
  | text :: text' :: texts => by
    have ih := linesOf_blocks (text' :: texts)
    rw [String.intercalate_cons_cons, List.flatMap_cons, ← ih]
    simp only [linesOf, String.toList_append, List.append_assoc]
    exact (readLines_append _ ('\n' :: _)).trans (congrArg _ (readLines_append [] _))

theorem linesOf_joinBlocks (blocks : List String) : linesOf (joinBlocks blocks) = blocks.flatMap linesOf := by
  rw [← linesOf_blocks, joinBlocks, linesOf, String.toList_append]
  exact (readLines_append _ []).trans (by rw [readLines_nil, List.append_nil]; rfl)

theorem linesOf_text (m : Module) : linesOf m.text = m.flatten.flatMap fun s => linesOf s.text := by
  rw [Module.text, linesOf_joinBlocks, List.flatMap_map, List.flatten_eq_flatMap, List.flatMap_assoc]
  refine List.flatMap_congr fun block _ => ?_
  rw [linesOf_intercalate, List.flatMap_map]
  rfl

/-! ## Words -/

theorem wordsOf_cons {word : List Char} (h : ' ' ∉ word) (rest : List Char) :
    wordsOf (word ++ ' ' :: rest) = String.ofList word :: wordsOf rest := by
  rw [wordsOf, List.splitOn_append_cons_self_of_not_mem h, List.map_cons]
  rfl

theorem wordsOf_single {word : List Char} (h : ' ' ∉ word) : wordsOf word = [String.ofList word] := by
  rw [wordsOf, List.splitOn_eq_singleton h, List.map_singleton]

/-- No blank and no line break. -/
def Word (s : String) : Prop := ' ' ∉ s.toList ∧ '\n' ∉ s.toList

instance (s : String) : Decidable (Word s) := inferInstanceAs (Decidable (' ' ∉ s.toList ∧ '\n' ∉ s.toList))

theorem wordsOf_intercalate {words : List String} (hne : words ≠ []) (h : ∀ w ∈ words, Word w) :
    wordsOf (" ".intercalate words).toList = words := by
  rw [wordsOf, String.toList_intercalate]
  change ((List.intercalate [' '] _).splitOn ' ').map _ = _
  rw [List.splitOn_intercalate _ (by simpa using fun w hw => (h w hw).1) (by simpa using hne), List.map_map]
  simp [Function.comp_def]

theorem linesOf_words {first second : String} {words : List String} (h : ∀ w ∈ first :: second :: words, Word w) :
    linesOf (" ".intercalate (first :: second :: words)) = [readWords (first :: second :: words)] := by
  have hline : OneLine (" ".intercalate (first :: second :: words)) :=
    oneLine_intercalate (by decide) fun w hw => (h w hw).2
  have hne : (" ".intercalate (first :: second :: words)).toList ≠ [] := by simp
  rw [linesOf, readLines_line hline hne, wordsOf_intercalate (by simp) h]

example : linesOf "// by name\n\nexport type A = B | C\n  D: E\n\x7d\nlet f" =
    [.remark ["by", "name"], .type "A" ["B", "|", "C"], .entry "D" "E", .inner ["\x7d"], .unknown ["let", "f"]] := by
  decide

theorem head_wordsOf (line : List Char) :
    ∃ words, wordsOf line = String.ofList (line.takeWhile (· ≠ ' ')) :: words := by
  unfold wordsOf
  induction line with
  | nil => exact ⟨[], rfl⟩
  | cons c line ih =>
    obtain ⟨words, h⟩ := ih
    obtain ⟨first, others, e⟩ := List.exists_cons_of_ne_nil (List.splitOn_ne_nil ' ' line)
    rw [e, List.map_cons, List.cons.injEq, String.ofList_inj] at h
    rw [List.splitOn_cons_eq_if_modifyHead, e]
    by_cases hc : c = ' '
    · exact ⟨(first :: others).map String.ofList, by simp [hc]⟩
    · exact ⟨others.map String.ofList, by simp [hc, h.1]⟩

/-! ## Lines that declare nothing -/

def Line.isEntry : Line → Bool
  | .entry .. => true
  | _ => false

/-- An entry, or another line of a statement or a comment that takes several lines. -/
def Line.isInner : Line → Bool
  | .entry .. | .inner _ => true
  | _ => false

theorem Line.isInner_iff {l : Line} :
    l.isInner = true ↔ (∃ key expr, l = .entry key expr) ∨ ∃ words, l = .inner words := by
  cases l <;> simp [Line.isInner]

def Quiet (line : List Char) : Prop := (readWords (wordsOf line)).isInner = true

theorem goesOn_keywords : ∀ first ∈ ["//", "export", "import", "declare"], goesOn first = false := by decide

theorem spelled?_of_goesOn {first : String} (h : goesOn first = true) (hne : first ≠ "") (words : List String) :
    spelled? (first :: words) = none := by
  have hkeyword : ∀ keyword ∈ ["//", "export", "import", "declare"], first ≠ keyword := by
    rintro keyword hmem rfl
    rw [goesOn_keywords first hmem] at h
    cases h
  unfold spelled?
  split
  all_goals simp_all

theorem readWords_inner {first : String} (h : goesOn first = true) (words : List String) :
    (readWords (first :: words)).isInner = true := by
  rw [readWords, List.headD_cons, if_pos h]
  by_cases hblank : first = ""
  · subst hblank
    cases hread : entryOf? words with
    | none =>
      rw [spelled?, hread]
      rfl
    | some l =>
      obtain ⟨key, expr, -, rfl⟩ := entryOf?_eq_some hread
      rw [spelled?, hread]
      rfl
  · rw [spelled?_of_goesOn h hblank]
    rfl

theorem quiet_of_head {line : List Char} (h : goesOn (String.ofList (line.takeWhile (· ≠ ' '))) = true) :
    Quiet line := by
  obtain ⟨words, hwords⟩ := head_wordsOf line
  rw [Quiet, hwords]
  exact readWords_inner h words

/-- What a line that goes on begins with, where it is not a comment. -/
def continuations : List Char := ['\n', ' ', ',', ']', '\x7d']

theorem quiet_cons {c : Char} (h : c ∈ continuations) (hc : c ≠ '\n') (line : List Char) : Quiet (c :: line) := by
  refine quiet_of_head ?_
  simp only [continuations, List.mem_cons, List.not_mem_nil, or_false] at h
  obtain rfl | rfl | rfl | rfl | rfl := h
  · exact absurd rfl hc
  all_goals simp [goesOn]

theorem quiet_comment (line : List Char) : Quiet ('/' :: '*' :: line) := quiet_of_head (by simp [goesOn])

/-! ## Texts whose later lines declare nothing -/

/-- Each line but the first goes on. -/
def Calm (text : List Char) : Prop := text.IsChain fun c next => c = '\n' → next ∈ continuations

/-- Even the first line goes on. -/
structure Mute (text : List Char) : Prop where
  calm : Calm text
  head : ∀ c ∈ text.head?, c ∈ continuations

theorem calm_cons {c : Char} (hc : c ≠ '\n') {text : List Char} (h : Calm text) : Calm (c :: text) :=
  List.isChain_cons.mpr ⟨fun _ _ e => absurd e hc, h⟩

theorem calm_of_line : ∀ {line : List Char}, '\n' ∉ line → Calm line
  | [], _ => .nil
  | c :: line, h => by
    rw [List.mem_cons, not_or] at h
    exact calm_cons (Ne.symm h.1) (calm_of_line h.2)

theorem calm_break {text : List Char} (h : Mute text) : Calm ('\n' :: text) :=
  List.isChain_cons.mpr ⟨fun c hc _ => h.head c hc, h.calm⟩

theorem Calm.append {a b : List Char} (ha : Calm a) (hb : Mute b) : Calm (a ++ b) :=
  List.isChain_append.mpr ⟨ha, hb.calm, fun _ _ next hnext _ => hb.head next hnext⟩

theorem calm_append_of_line {line text : List Char} (hl : '\n' ∉ line) (ht : Calm text) : Calm (line ++ text) :=
  List.isChain_append.mpr ⟨calm_of_line hl, ht, fun _ hc _ _ e => absurd (e ▸ List.mem_of_mem_getLast? hc) hl⟩

theorem mute_nil : Mute [] := ⟨.nil, by simp⟩

theorem mute_single {c : Char} (hc : c ∈ continuations) : Mute [c] :=
  ⟨.singleton c, fun _ hnext => Option.mem_some.mp hnext ▸ hc⟩

theorem mute_blank {text : List Char} (h : Calm text) : Mute (' ' :: text) :=
  ⟨calm_cons (by decide) h, by simp [continuations]⟩

theorem Mute.append {a b : List Char} (ha : Mute a) (hb : Mute b) : Mute (a ++ b) where
  calm := ha.calm.append hb
  head := by
    cases a with
    | nil => exact hb.head
    | cons c a => exact ha.head

theorem mute_blanks : ∀ n : Nat, Mute (List.replicate n ' ')
  | 0 => mute_nil
  | n + 1 => mute_blank (mute_blanks n).calm

theorem mute_join : ∀ {texts : List String}, (∀ s ∈ texts, Mute s.toList) → Mute (String.join texts).toList
  | [], _ => mute_nil
  | s :: texts, h => by
    rw [List.forall_mem_cons] at h
    rw [String.join_cons, String.toList_append]
    exact h.1.append (mute_join h.2)

theorem quiet_takeWhile {text : List Char} (h : ∀ c ∈ text.head?, c ∈ continuations) :
    Quiet (text.takeWhile (· ≠ '\n')) := by
  have hnil : Quiet [] := quiet_of_head rfl
  cases text with
  | nil => exact hnil
  | cons c text =>
    by_cases hc : c = '\n'
    · rw [List.takeWhile_cons_of_neg (by simpa using hc)]
      exact hnil
    · rw [List.takeWhile_cons_of_pos (by simpa using hc)]
      exact quiet_cons (h c rfl) hc _

theorem quiet_lines : ∀ {text : List Char}, Calm text → ∃ lines, (∀ line ∈ lines, Quiet line) ∧
    text.splitOn '\n' = text.takeWhile (· ≠ '\n') :: lines
  | [], _ => ⟨[], by simp, rfl⟩
  | c :: text, h => by
    obtain ⟨hhead, htail⟩ := List.isChain_cons.mp h
    obtain ⟨lines, hlines, e⟩ := quiet_lines htail
    rw [List.splitOn_cons_eq_if_modifyHead, e]
    -- at a line break the first line of the rest becomes a later line
    by_cases hc : c = '\n'
    · refine ⟨text.takeWhile (· ≠ '\n') :: lines, ?_, by simp [hc]⟩
      exact List.forall_mem_cons.mpr ⟨quiet_takeWhile fun next hnext => hhead next hnext hc, hlines⟩
    · exact ⟨lines, hlines, by simp [hc]⟩

theorem newline_takeWhile (text : List Char) : '\n' ∉ text.takeWhile (· ≠ '\n') :=
  fun h => by simpa using List.mem_takeWhile_imp h

theorem readLines_calm {text : List Char} (h : Calm text) :
    ∃ inner : List Line, (∀ l ∈ inner, l.isInner = true) ∧
      readLines text = readLines (text.takeWhile (· ≠ '\n')) ++ inner := by
  obtain ⟨lines, hlines, e⟩ := quiet_lines h
  refine ⟨(lines.filter (!·.isEmpty)).map fun line => readWords (wordsOf line), ?_, ?_⟩
  · exact List.forall_mem_map.mpr fun line hline => hlines line (List.mem_of_mem_filter hline)
  · rw [readLines, e, ← List.singleton_append, List.filter_append, List.map_append, readLines,
      List.splitOn_eq_singleton (newline_takeWhile text)]

theorem readLines_quiet {line : List Char} (hl : '\n' ∉ line) (h : Quiet line) :
    ∀ l ∈ readLines line, l.isInner = true := by
  cases line with
  | nil => simp [readLines_nil]
  | cons c line =>
    rw [readLines_line hl (List.cons_ne_nil c line), List.forall_mem_singleton]
    exact h

theorem readLines_mute {text : List Char} (h : Mute text) : ∀ l ∈ readLines text, l.isInner = true := by
  obtain ⟨inner, hinner, e⟩ := readLines_calm h.calm
  rw [e, List.forall_mem_append]
  exact ⟨readLines_quiet (newline_takeWhile text) (quiet_takeWhile h.head), hinner⟩

end Package

end TypedContent
