import Mathlib.Data.List.Basic
import TypedContent.Json.Scan
import TypedContent.Proofs.TypeScript.Token

/-!
# Literals as the language reads them

The value of a string literal is a sequence of 16-bit units. `Within` reads what stands behind the
opening quote, with all escapes of the language; `Lexer` reads a whole text and gives the values of
the literals in it, in order. Unlike the scanner of the tokens neither lets a literal go on over the
end of a line: a line feed or a carriage return stands in one only after a backslash, where it means
nothing.
-/

namespace TypedContent

namespace TypeScript

/-! ## Units -/

/-- The units of a code point; two if it does not fit into one. -/
def pointUnits (n : Nat) : List Nat :=
  if n < 0x10000 then [n] else [0xd800 + (n - 0x10000) / 0x400, 0xdc00 + (n - 0x10000) % 0x400]

def charUnits (c : Char) : List Nat := pointUnits c.toNat

def textUnits (text : String) : List Nat := text.toList.flatMap charUnits

/-- The units of a character can be told apart from what follows them: no character has the number
of a leading unit. -/
theorem charUnits_append_inj {c d : Char} {us vs : List Nat} (h : charUnits c ++ us = charUnits d ++ vs) :
    c = d ∧ us = vs := by
  have hc := c.valid
  have hd := d.valid
  simp only [UInt32.isValidChar, Nat.isValidChar] at hc hd
  change (c.toNat < 0xd800 ∨ 0xdfff < c.toNat ∧ c.toNat < 0x110000) at hc
  change (d.toNat < 0xd800 ∨ 0xdfff < d.toNat ∧ d.toNat < 0x110000) at hd
  have heq : c.toNat = d.toNat → c = d := fun e => Char.ext (UInt32.toNat_inj.mp e)
  unfold charUnits pointUnits at h
  split at h <;> split at h <;> simp only [List.cons_append, List.nil_append, List.cons.injEq] at h
  · exact ⟨heq h.1, h.2⟩
  · omega
  · omega
  · exact ⟨heq (by omega), h.2.2⟩

theorem charUnits_ne_nil (c : Char) : charUnits c ≠ [] := by
  unfold charUnits pointUnits
  split <;> simp

theorem flatMap_charUnits_injective : ∀ {cs ds : List Char}, cs.flatMap charUnits = ds.flatMap charUnits → cs = ds
  | [], [], _ => rfl
  | [], d :: ds, h => by simp [charUnits_ne_nil d] at h
  | c :: cs, [], h => by simp [charUnits_ne_nil c] at h
  | c :: cs, d :: ds, h => by
    rw [List.flatMap_cons, List.flatMap_cons] at h
    obtain ⟨rfl, hrest⟩ := charUnits_append_inj h
    rw [flatMap_charUnits_injective hrest]

theorem textUnits_injective {s t : String} (h : textUnits s = textUnits t) : s = t :=
  String.toList_inj.mp (flatMap_charUnits_injective h)

/-! ## Machines that give something at each step -/

section
variable {S O : Type} (step : S → Char → Option (List O × S))

/-- What the machine gives for a text, and the state it is in afterwards. -/
def feed : S → List Char → Option (List O × S)
  | s, [] => some ([], s)
  | s, c :: text => (step s c).bind fun (given, next) => (feed next text).map fun (more, last) => (given ++ more, last)

variable {step}

@[simp] theorem feed_nil (s : S) : feed step s [] = some ([], s) := rfl

theorem feed_cons_none {s : S} {c : Char} (h : step s c = none) (text : List Char) : feed step s (c :: text) = none := by
  rw [feed, h, Option.bind_none]

theorem feed_cons {s next : S} {c : Char} {given : List O} (h : step s c = some (given, next)) (text : List Char) :
    feed step s (c :: text) = (feed step next text).map fun (more, last) => (given ++ more, last) := by
  rw [feed, h, Option.bind_some]

theorem feed_silent {s next : S} {c : Char} (h : step s c = some ([], next)) (text : List Char) :
    feed step s (c :: text) = feed step next text := by
  rw [feed_cons h]
  exact Option.map_id'

theorem feed_append (rest : List Char) : ∀ (text : List Char) (s : S), feed step s (text ++ rest) =
    (feed step s text).bind fun (given, next) => (feed step next rest).map fun (more, last) => (given ++ more, last)
  | [], s => by simp
  | c :: text, s => by
    rw [List.cons_append]
    cases h : step s c with
    | none => rw [feed_cons_none h, feed_cons_none h, Option.bind_none]
    | some p =>
      rw [feed_cons h, feed_cons h, feed_append rest text]
      cases feed step p.2 text with
      | none => rfl
      | some q => simp [Function.comp_def]

theorem feed_append_of_eq {s next : S} {text : List Char} {given : List O} (h : feed step s text = some (given, next))
    (rest : List Char) :
    feed step s (text ++ rest) = (feed step next rest).map fun (more, last) => (given ++ more, last) := by
  rw [feed_append, h, Option.bind_some]

theorem feed_append_silent {s next : S} {text : List Char} (h : feed step s text = some ([], next)) (rest : List Char) :
    feed step s (text ++ rest) = feed step next rest := by
  rw [feed_append_of_eq h]
  exact Option.map_id'

end

/-! ## Inside a literal -/

/-- Where a reader is inside a literal: after a backslash, after an escaped zero or an escaped
carriage return, before a digit of a code that has `more` digits after it, after the `u` that begins
a code, in a code in braces, or behind the closing quote. -/
inductive Within where
  | plain
  | escape
  | zero
  | carriage
  | code (more value : Nat)
  | unicode
  | braced (value : Option Nat)
  | closed
  deriving DecidableEq

namespace Within

/-- The character that a backslash and a letter stand for. -/
def escaped : Char → Char
  | 'b' => '\x08'
  | 't' => '\t'
  | 'n' => '\n'
  | 'v' => '\x0b'
  | 'f' => '\x0c'
  | 'r' => '\r'
  | c => c

def plainStep (c : Char) : Option (List Nat × Within) :=
  if c = '\'' then some ([], .closed)
  else if c = '\\' then some ([], .escape)
  else if c = '\n' ∨ c = '\r' then none
  else some (charUnits c, .plain)

def codeStep (more value : Nat) (c : Char) : Option (List Nat × Within) :=
  (Json.hexValue? c).map fun digit =>
    match more with
    | 0 => ([value * 16 + digit], .plain)
    | more + 1 => ([], .code more (value * 16 + digit))

def step : Within → Char → Option (List Nat × Within)
  | .plain, c => plainStep c
  | .escape, c =>
    if c = 'u' then some ([], .unicode)
    else if c = 'x' then some ([], .code 1 0)
    else if c = '0' then some ([0], .zero)
    else if isAsciiDigit c then none
    else if c = '\r' then some ([], .carriage)
    else if c ∈ ['\n', '\u2028', '\u2029'] then some ([], .plain)
    else some (charUnits (escaped c), .plain)
  | .zero, c => if isAsciiDigit c then none else plainStep c
  | .carriage, c => if c = '\n' then some ([], .plain) else plainStep c
  | .code more value, c => codeStep more value c
  | .unicode, c => if c = '\x7b' then some ([], .braced none) else codeStep 3 0 c
  | .braced value, c =>
    if c = '\x7d' then value.map fun n => (pointUnits n, .plain)
    else (Json.hexValue? c).bind fun digit =>
      let n := value.getD 0 * 16 + digit
      if n ≤ 0x10ffff then some ([], .braced (some n)) else none
  | .closed, _ => none

end Within

/-- The value of a text that is one literal and nothing else. -/
def literal? (text : String) : Option (List Nat) :=
  match text.toList with
  | '\'' :: rest =>
    match feed Within.step .plain rest with
    | some (units, .closed) => some units
    | _ => none
  | _ => none

example : literal? "'\\x41\\u0042\\u\x7b1f600\x7d\\0\\\nit\\'s'" =
    some [0x41, 0x42, 0xd83d, 0xde00, 0, 'i'.toNat, 't'.toNat, '\''.toNat, 's'.toNat] := by
  decide

/-! ## Texts with literals -/

/-- Where a reader of a text is: between literals and comments, after a slash, in a comment, at a
star in one, or in a literal with these units so far. -/
inductive Lexer where
  | code
  | slash
  | line
  | comment
  | star
  | within (inside : Within) (units : List Nat)
  deriving DecidableEq

/-- Texts with other quotes, with templates or with regular expressions are not read. -/
def Lexer.step : Lexer → Char → Option (List (List Nat) × Lexer)
  | .code, c =>
    if c = '\'' then some ([], .within .plain [])
    else if c = '/' then some ([], .slash)
    else if c ∈ ['"', '\x60', '\\'] then none
    else some ([], .code)
  | .slash, c => if c = '/' then some ([], .line) else if c = '*' then some ([], .comment) else none
  | .line, c => some ([], if c ∈ ['\n', '\r', '\u2028', '\u2029'] then .code else .line)
  | .comment, c => some ([], if c = '*' then .star else .comment)
  | .star, c => some ([], if c = '/' then .code else if c = '*' then .star else .comment)
  | .within inside units, c => (inside.step c).map fun (given, next) =>
    if next = .closed then ([units ++ given], .code) else ([], .within next (units ++ given))

/-- The values of the literals of a text. -/
def literals? (text : String) : Option (List (List Nat)) :=
  match feed Lexer.step .code text.toList with
  | some (literals, .code) | some (literals, .line) => some literals
  | _ => none

theorem Lexer.step_open {inside next : Within} {c : Char} {given : List Nat} (h : inside.step c = some (given, next))
    (hne : next ≠ .closed) (units : List Nat) :
    Lexer.step (.within inside units) c = some ([], .within next (units ++ given)) := by
  simp [Lexer.step, h, hne]

theorem Lexer.step_close {inside : Within} {c : Char} {given : List Nat} (h : inside.step c = some (given, .closed))
    (units : List Nat) : Lexer.step (.within inside units) c = some ([units ++ given], .code) := by
  simp [Lexer.step, h]

/-- As long as the literal is open, the reader of the text reads what the reader of the literal does. -/
theorem feed_within : ∀ {text : List Char} {inside last : Within} {given : List Nat} (units : List Nat),
    feed Within.step inside text = some (given, last) → inside ≠ .closed →
      feed Lexer.step (.within inside units) text =
        some (if last = .closed then ([units ++ given], .code) else ([], .within last (units ++ given)))
  | [], inside, last, given, units, h, hne => by
    obtain ⟨rfl, rfl⟩ : [] = given ∧ inside = last := by simpa using h
    simp [hne]
  | c :: text, inside, last, given, units, h, hne => by
    cases hstep : inside.step c with
    | none => rw [feed_cons_none hstep] at h; cases h
    | some p =>
      obtain ⟨first, next⟩ := p
      rw [feed_cons hstep, Option.map_eq_some_iff] at h
      obtain ⟨⟨more, last'⟩, hmore, e⟩ := h
      obtain ⟨rfl, rfl⟩ := Prod.mk.inj e
      by_cases hclosed : next = .closed
      · subst hclosed
        -- nothing is read behind the closing quote
        cases text with
        | nil =>
          obtain ⟨rfl, rfl⟩ : [] = more ∧ Within.closed = last' := by simpa using hmore
          rw [feed_cons (Lexer.step_close hstep units)]
          simp
        | cons d text => rw [feed_cons_none rfl] at hmore; cases hmore
      · rw [feed_cons (Lexer.step_open hstep hclosed units), feed_within (units ++ first) hmore hclosed,
          List.append_assoc]
        rfl

theorem feed_of_literal? {text : String} {units : List Nat} (h : literal? text = some units) :
    feed Lexer.step .code text.toList = some ([units], .code) := by
  unfold literal? at h
  split at h
  · next rest e =>
    split at h
    · next units' hread =>
      obtain rfl := Option.some.inj h
      rw [e, feed_silent (show Lexer.step .code '\'' = some ([], .within .plain []) from rfl),
        feed_within [] hread (by decide)]
      rfl
    · cases h
  · cases h

/-! ## Written literals -/

theorem feed_escape {c : Char} (h : c ≠ '\r') : feed Within.step .plain (escape c) = some (charUnits c, .plain) := by
  by_cases hb : c = '\\'
  · subst hb; decide
  by_cases hq : c = '\''
  · subst hq; decide
  by_cases hn : c = '\n'
  · subst hn; decide
  · have hstep : Within.step .plain c = some (charUnits c, .plain) := by
      simp [Within.step, Within.plainStep, hb, hq, hn, h]
    rw [escape, if_neg hb, if_neg hq, if_neg hn, feed_cons hstep, feed_nil]
    simp

theorem feed_escaped : ∀ {value : List Char}, '\r' ∉ value →
    feed Within.step .plain (value.flatMap escape) = some (value.flatMap charUnits, .plain)
  | [], _ => rfl
  | c :: value, h => by
    rw [List.mem_cons, not_or] at h
    rw [List.flatMap_cons, feed_append_of_eq (feed_escape (Ne.symm h.1)), feed_escaped h.2]
    rfl

theorem feed_closed {value : List Char} (h : '\r' ∉ value) :
    feed Within.step .plain (value.flatMap escape ++ ['\'']) = some (value.flatMap charUnits, .closed) := by
  rw [feed_append_of_eq (feed_escaped h)]
  simp [feed, Within.step, Within.plainStep]

/-- Up to the first carriage return the value is read, and no further. -/
theorem feed_escaped_carriage {value : List Char} (h : '\r' ∈ value) (rest : List Char) :
    feed Within.step .plain (value.flatMap escape ++ rest) = none ∧
      ∀ units, feed Lexer.step (.within .plain units) (value.flatMap escape ++ rest) = none := by
  obtain ⟨before, after, rfl, hbefore⟩ := List.eq_append_cons_of_mem h
  have hread := feed_escaped hbefore
  have htext : (before ++ '\r' :: after).flatMap escape ++ rest =
      before.flatMap escape ++ '\r' :: (after.flatMap escape ++ rest) := by
    rw [List.flatMap_append, List.flatMap_cons, List.append_assoc, List.append_assoc]
    rfl
  rw [htext]
  constructor
  · rw [feed_append_of_eq hread, feed_cons_none (by decide), Option.map_none]
  · intro units
    rw [feed_append_of_eq (feed_within units hread (by decide)), feed_cons_none rfl, Option.map_none]

theorem literal?_stringLiteral (value : String) :
    literal? (stringLiteral value) = if '\r' ∈ value.toList then none else some (textUnits value) := by
  rw [literal?, stringLiteral, String.toList_ofList]
  split
  · next e =>
    obtain ⟨-, rfl⟩ := List.cons.inj e
    split_ifs with h
    · rw [(feed_escaped_carriage h _).1]
    · rw [feed_closed h]
      rfl
  · next hne => exact absurd rfl (hne _)

theorem feed_stringLiteral (value : String) : feed Lexer.step .code (stringLiteral value).toList =
    if '\r' ∈ value.toList then none else some ([textUnits value], .code) := by
  rw [stringLiteral, String.toList_ofList, feed_cons (show Lexer.step .code '\'' = some ([], .within .plain []) from rfl)]
  split_ifs with h
  · rw [(feed_escaped_carriage h _).2, Option.map_none]
  · rw [feed_within [] (feed_closed h) (by decide)]
    rfl

end TypeScript

end TypedContent
