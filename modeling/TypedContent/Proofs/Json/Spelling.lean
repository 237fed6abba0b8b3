import Mathlib
import TypedContent.Json.Tree
import TypedContent.Proofs.Except

/-!
# How words are written

The spellings of a string and of a number, as the grammar of JSON has them. A scanner takes a
spelling from the front of a text and leaves the rest, and takes nothing else.
-/

namespace TypedContent

namespace Json

/-! ## Blanks -/

def Blanks (text : List Char) : Prop := ∀ c ∈ text, isBlank c = true

theorem skipBlanks_cons {c : Char} (h : isBlank c = false) (text : List Char) : skipBlanks (c :: text) = c :: text :=
  List.dropWhile_cons_of_neg (by simp [h])

theorem skipBlanks_append {blanks : List Char} (h : Blanks blanks) (text : List Char) :
    skipBlanks (blanks ++ text) = skipBlanks text :=
  List.dropWhile_append_of_pos h

theorem skipBlanks_eq_nil {text : List Char} : skipBlanks text = [] ↔ Blanks text := by
  simp [skipBlanks, Blanks, List.dropWhile_eq_nil_iff]

theorem exists_blanks_cons {text after : List Char} {c : Char} (h : skipBlanks text = c :: after) :
    isBlank c = false ∧ ∃ blanks, Blanks blanks ∧ text = blanks ++ c :: after := by
  refine ⟨?_, text.takeWhile isBlank, fun _ hc => List.mem_takeWhile_imp hc, ?_⟩
  · have hstop := List.head?_dropWhile_not isBlank text
    rwa [show text.dropWhile isBlank = c :: after from h] at hstop
  · rw [← h]
    exact List.takeWhile_append_dropWhile.symm

/-! ## Words of letters -/

theorem scanWord_eq_ok {word text rest : List Char} : scanWord word text = .ok rest ↔ text = word ++ rest := by
  induction word generalizing text with
  | nil => simp [scanWord]
  | cons c cs ih =>
    cases text with
    | nil => simp [scanWord]
    | cons d text =>
      rw [scanWord]
      split
      next h => simp [h, ih]
      next h => simp [Ne.symm h]

/-! ## Strings -/

/-- The units of a string and its closing quote. -/
inductive WritesUnits : List StringUnit → List Char → Prop
  | quote : WritesUnits [] ['"']
  | plain {c units text} : c ≠ '\\' → c ≠ '"' → 32 ≤ c.toNat → WritesUnits units text →
    WritesUnits (.char c :: units) (c :: text)
  | letter {e c units text} : unescape? e = some c → WritesUnits units text →
    WritesUnits (.char c :: units) ('\\' :: e :: text)
  | code {a b c d n units text} : hexCode? a b c d = some n → WritesUnits units text →
    WritesUnits (.code n :: units) ('\\' :: 'u' :: a :: b :: c :: d :: text)

theorem scanString_plain {c : Char} {text : List Char} (hb : c ≠ '\\') (hq : c ≠ '"') (hc : 32 ≤ c.toNat) :
    scanString (c :: text) = (.char c :: (scanString text).1, (scanString text).2) := by
  rw [scanString]
  · simp only [hq, Nat.not_lt.mpr hc, if_false]
  all_goals
    intros
    contradiction

theorem scanString_letter {e c : Char} {text : List Char} (h : unescape? e = some c) :
    scanString ('\\' :: e :: text) = (.char c :: (scanString text).1, (scanString text).2) := by
  have hu : e ≠ 'u' := by
    rintro rfl
    cases h
  rw [scanString]
  · simp only [h]
  all_goals
    intros
    contradiction

theorem scanString_code {a b c d : Char} {n : Nat} {text : List Char} (h : hexCode? a b c d = some n) :
    scanString ('\\' :: 'u' :: a :: b :: c :: d :: text) = (.code n :: (scanString text).1, (scanString text).2) := by
  rw [scanString]
  simp only [h]

theorem WritesUnits.scan {units : List StringUnit} {text : List Char} (h : WritesUnits units text) (rest : List Char) :
    scanString (text ++ rest) = (units, .ok rest) := by
  induction h with
  | quote =>
    rw [List.singleton_append, scanString]
    · rfl
    all_goals
      intros
      contradiction
  | plain hb hq hc _ ih => rw [List.cons_append, scanString_plain hb hq hc, ih]
  | letter he _ ih => rw [List.cons_append, List.cons_append, scanString_letter he, ih]
  | code hn _ ih => simp only [List.cons_append, scanString_code hn, ih]

theorem writesUnits_of_scan {text rest : List Char} : ∀ {units : List StringUnit}, scanString text = (units, .ok rest) →
    ∃ written, text = written ++ rest ∧ WritesUnits units written := by
  fun_induction scanString text with
  | case2 a b c d text n hn units stop heq ih =>
    rintro _ ⟨⟩
    obtain ⟨written, rfl, hw⟩ := ih heq
    exact ⟨'\\' :: 'u' :: a :: b :: c :: d :: written, rfl, .code hn hw⟩
  | case5 e text _ _ c hc units stop heq ih =>
    rintro _ ⟨⟩
    obtain ⟨written, rfl, hw⟩ := ih heq
    exact ⟨'\\' :: e :: written, rfl, .letter hc hw⟩
  | case8 text =>
    rintro _ ⟨⟩
    exact ⟨['"'], rfl, .quote⟩
  | case10 c text _ _ hescape hlast hq hc units stop heq ih =>
    rintro _ ⟨⟩
    obtain ⟨written, rfl, hw⟩ := ih heq
    have hb : c ≠ '\\' := by
      intro hb
      cases hrest : written ++ rest with
      | nil => exact hlast hb hrest
      | cons e text => exact hescape e text hb hrest
    exact ⟨c :: written, rfl, .plain hb hq (Nat.not_lt.mp hc) hw⟩
  | _ => rintro _ ⟨⟩

/-- What stands in a string does not depend on what follows it. -/
theorem joinUnits_rest (units : List StringUnit) (rest rest' : List Char) :
    joinUnits units (.ok rest) = joinUnits units (.ok rest') := by
  generalize hstop : (Except.ok rest : Except Fault (List Char)) = stop
  fun_induction joinUnits units stop with
  | case1 => rfl
  | case2 | case7 => cases hstop
  | case3 c units stop ih => rw [ih hstop, joinUnits.eq_def (.char c :: units)]
  | case5 n htrailing hleading m units stop hm ih =>
    rw [ih hstop, joinUnits.eq_def (.code n :: .code m :: units)]
    simp only [htrailing, hleading, hm, if_true]
    rfl
  | case9 n units stop htrailing hleading ih =>
    rw [ih hstop, joinUnits.eq_def (.code n :: units)]
    simp only [htrailing, hleading, Bool.false_eq_true, if_false]
  | _ =>
    rw [joinUnits.eq_def]
    simp_all

/-! ## Numbers -/

def Digits (text : List Char) : Prop := text ≠ [] ∧ ∀ c ∈ text, isDigit c = true

/-- The digits before the point: only a single one may begin with zero. -/
def WholeDigits (text : List Char) : Prop := Digits text ∧ (text.head? = some '0' → text = ['0'])

inductive WritesFraction : Option (List Char) → List Char → Prop
  | none : WritesFraction none []
  | some {digits} : Digits digits → WritesFraction (some digits) ('.' :: digits)

inductive WritesExponent : Option (Bool × List Char) → List Char → Prop
  | none : WritesExponent none []
  | plain {e digits} : e = 'e' ∨ e = 'E' → Digits digits → WritesExponent (some (false, digits)) (e :: digits)
  | plus {e digits} : e = 'e' ∨ e = 'E' → Digits digits → WritesExponent (some (false, digits)) (e :: '+' :: digits)
  | minus {e digits} : e = 'e' ∨ e = 'E' → Digits digits → WritesExponent (some (true, digits)) (e :: '-' :: digits)

inductive Numeral.Writes : Numeral → List Char → Prop
  | positive {whole fraction exponent f x} : WholeDigits whole → WritesFraction fraction f → WritesExponent exponent x →
    Writes ⟨false, whole, fraction, exponent⟩ (whole ++ (f ++ x))
  | negative {whole fraction exponent f x} : WholeDigits whole → WritesFraction fraction f → WritesExponent exponent x →
    Writes ⟨true, whole, fraction, exponent⟩ ('-' :: (whole ++ (f ++ x)))

/-- What follows digits is no more of them. -/
def NoDigit (text : List Char) : Prop := ∀ c ∈ text.head?, isDigit c = false

/-- What follows a number is no part of it. -/
def Ends (text : List Char) : Prop := ∀ c ∈ text.head?, isDigit c = false ∧ c ≠ '.' ∧ c ≠ 'e' ∧ c ≠ 'E'

theorem Ends.noDigit {text : List Char} (h : Ends text) : NoDigit text := fun c hc => (h c hc).1

theorem noDigit_cons {c : Char} (h : isDigit c = false) (text : List Char) : NoDigit (c :: text) := by
  intro d hd
  cases hd
  exact h

theorem scanDigits_eq_ok {text digits rest : List Char} :
    scanDigits text = .ok (digits, rest) ↔ text = digits ++ rest ∧ Digits digits ∧ NoDigit rest := by
  constructor
  · intro h
    cases text with
    | nil => cases h
    | cons c text =>
      rw [scanDigits] at h
      split at h
      next hc =>
        cases h
        refine ⟨List.takeWhile_append_dropWhile.symm, ⟨?_, fun d hd => List.mem_takeWhile_imp hd⟩, ?_⟩
        · rw [List.takeWhile_cons_of_pos hc]
          exact List.cons_ne_nil _ _
        · intro d hd
          have hstop := List.head?_dropWhile_not isDigit (c :: text)
          rwa [Option.mem_def.mp hd] at hstop
      · cases h
  · rintro ⟨rfl, ⟨hne, hd⟩, hrest⟩
    have hnone : rest.takeWhile isDigit = [] ∧ rest.dropWhile isDigit = rest := by
      cases rest with
      | nil => exact ⟨rfl, rfl⟩
      | cons c text =>
        have hc := hrest c rfl
        exact ⟨List.takeWhile_cons_of_neg (by simp [hc]), List.dropWhile_cons_of_neg (by simp [hc])⟩
    cases digits with
    | nil => exact absurd rfl hne
    | cons d ds =>
      rw [List.cons_append, scanDigits, if_pos (hd d List.mem_cons_self), ← List.cons_append,
        List.takeWhile_append_of_pos hd, List.dropWhile_append_of_pos hd, hnone.1, hnone.2, List.append_nil]

theorem wholeDigits_zero : WholeDigits ['0'] := by
  simp [WholeDigits, Digits, isDigit]

theorem scanWhole_eq_ok {text digits rest : List Char} :
    scanWhole text = .ok (digits, rest) ↔ text = digits ++ rest ∧ WholeDigits digits ∧ NoDigit rest := by
  unfold scanWhole
  split
  next after =>
    have hone : ('0' :: after = digits ++ rest ∧ WholeDigits digits ∧ NoDigit rest) ↔
        NoDigit after ∧ ['0'] = digits ∧ after = rest := by
      constructor
      · rintro ⟨htext, ⟨⟨hne, -⟩, hzero⟩, hrest⟩
        cases digits with
        | nil => exact absurd rfl hne
        | cons d ds =>
          rw [List.cons_append, List.cons.injEq] at htext
          obtain ⟨rfl, rfl⟩ := htext
          obtain rfl : ds = [] := (List.cons.inj (hzero rfl)).2
          exact ⟨hrest, rfl, rfl⟩
      · rintro ⟨hafter, rfl, rfl⟩
        exact ⟨rfl, wholeDigits_zero, hafter⟩
    rw [hone]
    cases after with
    | nil => simp [NoDigit]
    | cons c text => cases hc : isDigit c <;> simp [NoDigit, hc]
  next hzero =>
    rw [scanDigits_eq_ok]
    refine and_congr_right ?_
    rintro rfl
    refine and_congr_left fun _ => ⟨fun h => ⟨h, fun hhead => ?_⟩, fun h => h.1⟩
    cases digits with
    | nil => cases hhead
    | cons d ds =>
      cases hhead
      exact absurd rfl (hzero (ds ++ rest))

theorem scanFraction_of_writes {fraction : Option (List Char)} {text rest : List Char} (h : WritesFraction fraction text)
    (hdigit : NoDigit rest) (hpoint : rest.head? ≠ some '.') : scanFraction (text ++ rest) = .ok (fraction, rest) := by
  cases h with
  | none =>
    rw [List.nil_append, scanFraction]
    rintro rest rfl
    exact hpoint rfl
  | some hd =>
    rw [List.cons_append, scanFraction, scanDigits_eq_ok.mpr ⟨rfl, hd, hdigit⟩]
    rfl

theorem writesFraction_of_scan {fraction : Option (List Char)} {text rest : List Char}
    (h : scanFraction text = .ok (fraction, rest)) :
    ∃ written, text = written ++ rest ∧ WritesFraction fraction written := by
  unfold scanFraction at h
  split at h
  next text =>
    simp only [bind_eq_ok, pure_eq_ok, Prod.mk.injEq] at h
    obtain ⟨⟨digits, _⟩, hscan, rfl, rfl⟩ := h
    obtain ⟨rfl, hd, -⟩ := scanDigits_eq_ok.mp hscan
    exact ⟨'.' :: digits, rfl, .some hd⟩
  · cases h
    exact ⟨[], rfl, .none⟩

theorem scanSign_digits {digits rest : List Char} (h : Digits digits) :
    scanSign (digits ++ rest) = (false, digits ++ rest) := by
  obtain ⟨hne, hd⟩ := h
  cases digits with
  | nil => exact absurd rfl hne
  | cons d ds =>
    have hdigit := hd d List.mem_cons_self
    rw [List.cons_append, scanSign]
    all_goals
      rintro rest e
      injection e with e
      subst e
      revert hdigit
      decide

theorem scanExponent_sign {e : Char} {text digits rest : List Char} {negative : Bool} (he : e = 'e' ∨ e = 'E')
    (hsign : scanSign text = (negative, digits ++ rest)) (hd : Digits digits) (hrest : NoDigit rest) :
    scanExponent (e :: text) = .ok (some (negative, digits), rest) := by
  simp [scanExponent, he, hsign, scanDigits_eq_ok.mpr ⟨rfl, hd, hrest⟩, bind, Except.bind, pure, Except.pure]

theorem scanExponent_of_writes {exponent : Option (Bool × List Char)} {text rest : List Char}
    (h : WritesExponent exponent text) (hrest : Ends rest) : scanExponent (text ++ rest) = .ok (exponent, rest) := by
  cases h with
  | none =>
    cases rest with
    | nil => rfl
    | cons c rest =>
      have hc := (hrest c rfl).2.2
      simp [scanExponent, hc]
  | plain he hd => exact scanExponent_sign he (scanSign_digits hd) hd hrest.noDigit
  | plus he hd | minus he hd => exact scanExponent_sign he rfl hd hrest.noDigit

theorem writesExponent_of_scan {exponent : Option (Bool × List Char)} {text rest : List Char}
    (h : scanExponent text = .ok (exponent, rest)) :
    ∃ written, text = written ++ rest ∧ WritesExponent exponent written := by
  unfold scanExponent at h
  split at h
  next e text =>
    split at h
    next he =>
      simp only [bind_eq_ok, pure_eq_ok, Prod.mk.injEq] at h
      obtain ⟨⟨digits, _⟩, hscan, rfl, rfl⟩ := h
      obtain ⟨htext, hd, -⟩ := scanDigits_eq_ok.mp hscan
      unfold scanSign at htext ⊢
      split at htext <;> subst htext
      · exact ⟨e :: '+' :: digits, rfl, .plus he hd⟩
      · exact ⟨e :: '-' :: digits, rfl, .minus he hd⟩
      · exact ⟨e :: digits, rfl, .plain he hd⟩
    · cases h
      exact ⟨[], rfl, .none⟩
  · cases h
    exact ⟨[], rfl, .none⟩

theorem noDigit_of_fraction {fraction : Option (List Char)} {text rest : List Char} (h : WritesFraction fraction text)
    (hrest : NoDigit rest) : NoDigit (text ++ rest) := by
  cases h with
  | none => exact hrest
  | some _ => exact noDigit_cons (by decide) _

theorem noDigit_of_exponent {exponent : Option (Bool × List Char)} {text rest : List Char} (h : WritesExponent exponent text)
    (hrest : Ends rest) : NoDigit (text ++ rest) ∧ (text ++ rest).head? ≠ some '.' := by
  cases h with
  | none => exact ⟨hrest.noDigit, fun h => (hrest _ h).2.1 rfl⟩
  | plain he _ | plus he _ | minus he _ =>
    rcases he with rfl | rfl <;> exact ⟨noDigit_cons (by decide) _, by simp⟩

theorem wholeDigits_ne_minus {digits : List Char} (h : WholeDigits digits) (text rest : List Char) :
    digits ++ text ≠ '-' :: rest := by
  obtain ⟨⟨hne, hd⟩, -⟩ := h
  cases digits with
  | nil => exact absurd rfl hne
  | cons d ds =>
    have hdigit := hd d List.mem_cons_self
    intro e
    rw [List.cons_append, List.cons.injEq] at e
    rw [e.1] at hdigit
    revert hdigit
    decide

theorem Numeral.Writes.scan {n : Numeral} {text rest : List Char} (h : n.Writes text) (hrest : Ends rest) :
    scanNumeral (text ++ rest) = .ok (n, rest) := by
  cases h with
  | positive hw hf hx =>
    obtain ⟨hdigit, hpoint⟩ := noDigit_of_exponent hx hrest
    have hwhole := scanWhole_eq_ok.mpr ⟨rfl, hw, noDigit_of_fraction hf hdigit⟩
    have hfraction := scanFraction_of_writes hf hdigit hpoint
    have hexponent := scanExponent_of_writes hx hrest
    simp only [List.append_assoc]
    unfold scanNumeral
    split
    next heq =>
      split at heq
      next text he => exact absurd he (wholeDigits_ne_minus hw _ text)
      · cases heq
        simp [hwhole, hfraction, hexponent, bind, Except.bind, pure, Except.pure]
  | negative hw hf hx =>
    obtain ⟨hdigit, hpoint⟩ := noDigit_of_exponent hx hrest
    have hwhole := scanWhole_eq_ok.mpr ⟨rfl, hw, noDigit_of_fraction hf hdigit⟩
    have hfraction := scanFraction_of_writes hf hdigit hpoint
    have hexponent := scanExponent_of_writes hx hrest
    simp [scanNumeral, hwhole, hfraction, hexponent, bind, Except.bind, pure, Except.pure]

theorem written_of_scans {text text' text'' rest whole : List Char} {fraction : Option (List Char)}
    {exponent : Option (Bool × List Char)} (hwhole : scanWhole text = .ok (whole, text'))
    (hfraction : scanFraction text' = .ok (fraction, text'')) (hexponent : scanExponent text'' = .ok (exponent, rest)) :
    ∃ f x, text = whole ++ (f ++ x) ++ rest ∧ WholeDigits whole ∧ WritesFraction fraction f ∧ WritesExponent exponent x := by
  obtain ⟨rfl, hw, -⟩ := scanWhole_eq_ok.mp hwhole
  obtain ⟨f, rfl, hf⟩ := writesFraction_of_scan hfraction
  obtain ⟨x, rfl, hx⟩ := writesExponent_of_scan hexponent
  exact ⟨f, x, by simp only [List.append_assoc], hw, hf, hx⟩

theorem writes_of_scanNumeral {n : Numeral} {text rest : List Char} (h : scanNumeral text = .ok (n, rest)) :
    ∃ written, text = written ++ rest ∧ n.Writes written := by
  unfold scanNumeral at h
  split at h
  next heq =>
    simp only [bind_eq_ok, pure_eq_ok, Prod.mk.injEq] at h
    obtain ⟨⟨whole, _⟩, hwhole, ⟨fraction, _⟩, hfraction, ⟨exponent, _⟩, hexponent, rfl, rfl⟩ := h
    obtain ⟨f, x, rfl, hw, hf, hx⟩ := written_of_scans hwhole hfraction hexponent
    split at heq <;> cases heq
    · exact ⟨_, rfl, .negative hw hf hx⟩
    · exact ⟨_, rfl, .positive hw hf hx⟩

end Json

end TypedContent
