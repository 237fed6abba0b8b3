import TypedContent.Proofs.TypeScript.Comments
import TypedContent.TypeScript.Name

/-!
# Tokens of the generated TypeScript

The scanner reads one character at a time; what it is in the middle of is its state. A string
literal runs to the first quote that is not escaped, a comment to the first `*/`. However a
name, a literal or a comment is spelled, the scanner gets exactly that back from its text and
goes on behind it.
-/

namespace TypedContent

namespace TypeScript

inductive Token where
  | word (chars : List Char)
  | literal (chars : List Char)
  | mark (c : Char)
  | newline
  deriving DecidableEq

/-- What a scanner is in the middle of. `escape` follows a backslash in a literal, `slash` the
slash that begins a comment, and `star` a star in one. -/
inductive Scanner where
  | blank
  | word (chars : List Char)
  | literal (chars : List Char)
  | escape (chars : List Char)
  | slash
  | comment
  | star
  deriving DecidableEq

def marks : List Char := ['\x7b', '\x7d', '[', ']', '(', ')', '|', ':', ';', '?', '=']

/-- A character between two tokens: the tokens that it completes, and the state after it. -/
def start (c : Char) : Option (List Token × Scanner) :=
  if startsIdentifier c then some ([], .word [c])
  else if c = '\'' then some ([], .literal [])
  else if c = '/' then some ([], .slash)
  else if c = '\n' then some ([.newline], .blank)
  else if c ∈ [' ', '\t', '\r'] then some ([], .blank)
  else if c ∈ marks then some ([.mark c], .blank)
  else none

def unescape (c : Char) : Option Char :=
  if c = '\\' then some '\\'
  else if c = '\'' then some '\''
  else if c = 'n' then some '\n'
  else none

def Scanner.step : Scanner → Char → Option (List Token × Scanner)
  | .blank, c => start c
  | .word chars, c =>
    if continuesIdentifier c then some ([], .word (chars ++ [c]))
    else (start c).map fun (ts, s) => (.word chars :: ts, s)
  | .literal chars, c =>
    if c = '\'' then some ([.literal chars], .blank)
    else if c = '\\' then some ([], .escape chars)
    else some ([], .literal (chars ++ [c]))
  | .escape chars, c => (unescape c).map fun d => ([], .literal (chars ++ [d]))
  | .slash, c => if c = '*' then some ([], .comment) else none
  | .comment, c => some ([], if c = '*' then .star else .comment)
  | .star, c => some ([], if c = '/' then .blank else if c = '*' then .star else .comment)

def Scanner.finish : Scanner → Option (List Token)
  | .blank => some []
  | .word chars => some [.word chars]
  | _ => none

def Scanner.tokens : Scanner → List Char → Option (List Token)
  | s, [] => s.finish
  | s, c :: rest => (s.step c).bind fun (ts, s') => (s'.tokens rest).map (ts ++ ·)

theorem tokens_of_step {s s' : Scanner} {c : Char} {rest : List Char} (h : s.step c = some ([], s')) :
    s.tokens (c :: rest) = s'.tokens rest := by
  simp [Scanner.tokens, h]

theorem tokens_of_emit {s s' : Scanner} {c : Char} {t : Token} {rest : List Char} (h : s.step c = some ([t], s')) :
    s.tokens (c :: rest) = (s'.tokens rest).map (t :: ·) := by
  simp [Scanner.tokens, h]

/-! ## Marks and white space -/

theorem tokens_space (rest : List Char) : Scanner.blank.tokens (' ' :: rest) = Scanner.blank.tokens rest :=
  tokens_of_step (by decide)

theorem tokens_newline (rest : List Char) :
    Scanner.blank.tokens ('\n' :: rest) = (Scanner.blank.tokens rest).map (.newline :: ·) :=
  tokens_of_emit (by decide)

theorem tokens_mark {c : Char} (hc : c ∈ marks) (rest : List Char) :
    Scanner.blank.tokens (c :: rest) = (Scanner.blank.tokens rest).map (.mark c :: ·) := by
  have hall : (marks.all fun c => start c = some ([.mark c], .blank)) = true := by decide
  exact tokens_of_emit (of_decide_eq_true (List.all_eq_true.mp hall c hc))

/-! ## Names -/

/-- No name goes on into the text. -/
def Breaks (text : List Char) : Prop := ∀ c ∈ text.head?, continuesIdentifier c = false

@[simp] theorem breaks_cons {c : Char} {text : List Char} : Breaks (c :: text) ↔ continuesIdentifier c = false := by
  simp [Breaks]

theorem tokens_word_end {chars rest : List Char} (h : Breaks rest) :
    (Scanner.word chars).tokens rest = (Scanner.blank.tokens rest).map (.word chars :: ·) := by
  cases rest with
  | nil => rfl
  | cons c rest =>
    rw [breaks_cons] at h
    simp only [Scanner.tokens, Scanner.step, h]
    cases start c with
    | none => rfl
    | some p => simp [Function.comp_def]

theorem tokens_word_rest {rest : List Char} (h : Breaks rest) :
    ∀ {more chars : List Char}, more.all continuesIdentifier = true →
      (Scanner.word chars).tokens (more ++ rest) = (Scanner.blank.tokens rest).map (.word (chars ++ more) :: ·)
  | [], chars, _ => by rw [List.nil_append, List.append_nil, tokens_word_end h]
  | c :: more, chars, hm => by
    rw [List.all_cons, Bool.and_eq_true] at hm
    rw [List.cons_append, tokens_of_step (by rw [Scanner.step, if_pos hm.1]), tokens_word_rest h hm.2,
      List.append_assoc, List.singleton_append]

theorem tokens_word {name : String} {rest : List Char} (hn : isIdentifier name = true) (h : Breaks rest) :
    Scanner.blank.tokens (name.toList ++ rest) = (Scanner.blank.tokens rest).map (.word name.toList :: ·) := by
  unfold isIdentifier at hn
  split at hn
  · cases hn
  · next c more e =>
    rw [Bool.and_eq_true] at hn
    rw [e, List.cons_append, tokens_of_step (by rw [Scanner.step, start, if_pos hn.1]), tokens_word_rest h hn.2,
      List.singleton_append]

/-! ## Literals -/

theorem tokens_escape (c : Char) (chars rest : List Char) :
    (Scanner.literal chars).tokens (escape c ++ rest) = (Scanner.literal (chars ++ [c])).tokens rest := by
  unfold escape
  split
  · next h => subst h; rw [List.cons_append, tokens_of_step rfl]; exact tokens_of_step rfl
  split
  · next h => subst h; rw [List.cons_append, tokens_of_step rfl]; exact tokens_of_step rfl
  split
  · next h => subst h; rw [List.cons_append, tokens_of_step rfl]; exact tokens_of_step rfl
  · next hb hq _ => exact tokens_of_step (by rw [Scanner.step, if_neg hq, if_neg hb])

theorem tokens_escaped (rest : List Char) : ∀ value chars : List Char,
    (Scanner.literal chars).tokens (value.flatMap escape ++ '\'' :: rest) =
      (Scanner.blank.tokens rest).map (.literal (chars ++ value) :: ·)
  | [], chars => by
    rw [List.append_nil, List.flatMap_nil, List.nil_append]
    exact tokens_of_emit (by rw [Scanner.step, if_pos rfl])
  | c :: value, chars => by
    rw [List.flatMap_cons, List.append_assoc, tokens_escape, tokens_escaped rest value, List.append_assoc,
      List.singleton_append]

theorem tokens_literal (value : String) (rest : List Char) :
    Scanner.blank.tokens ((stringLiteral value).toList ++ rest) =
      (Scanner.blank.tokens rest).map (.literal value.toList :: ·) := by
  rw [stringLiteral, String.toList_ofList, List.cons_append, tokens_of_step rfl, List.append_assoc,
    List.singleton_append, tokens_escaped, List.nil_append]

/-! ## Comments -/

theorem tokens_skipsComments :
    SkipsComments Scanner.blank.tokens Scanner.comment.tokens Scanner.star.tokens where
  space := tokens_space
  opened _ := (tokens_of_step rfl).trans (tokens_of_step rfl)
  inside_star _ := tokens_of_step rfl
  inside_other _ hs := tokens_of_step (by rw [Scanner.step, if_neg hs])
  star_star _ := tokens_of_step rfl
  star_other _ hs hc := tokens_of_step (by rw [Scanner.step, if_neg hc, if_neg hs])
  closed _ := tokens_of_step rfl

theorem tokens_docComment {indent : String} (hi : ∀ c ∈ indent.toList, c = ' ') (texts : List String)
    (rest : List Char) :
    Scanner.blank.tokens ((docComment indent texts).toList ++ rest) =
      (Scanner.blank.tokens rest).map (.newline :: ·) := by
  rw [tokens_skipsComments.docComment hi, tokens_newline]

end TypeScript

end TypedContent
