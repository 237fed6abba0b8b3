import TypedContent.Json.Print
import TypedContent.Proofs.Json.Grammar

/-!
# How strings and numbers are printed

A quoted string writes its characters one by one, whatever characters it has. A printed number
writes itself if it is one that is kept exact.
-/

namespace TypedContent

namespace Json

/-! ## Strings -/

/-- The control characters that are escaped by a letter. -/
def lettered : List Char := ['\x08', '\t', '\n', '\x0c', '\r']

/-- The unit that a character is written as. -/
def unit (c : Char) : StringUnit :=
  if c.toNat < 32 ∧ c ∉ lettered then .code c.toNat else .char c

theorem hexCode?_control {n : Nat} (h : n < 32) :
    hexCode? '0' '0' (hexDigit (n / 16)) (hexDigit (n % 16)) = some n := by
  revert n
  decide

theorem writesUnits_escape (c : Char) {units : List StringUnit} {text : List Char} (h : WritesUnits units text) :
    WritesUnits (unit c :: units) (escape c ++ text) := by
  by_cases hq : c = '"'
  · subst hq
    exact .letter rfl h
  by_cases hb : c = '\\'
  · subst hb
    exact .letter rfl h
  by_cases hc : c.toNat < 32
  · by_cases hl : c ∈ lettered
    · simp only [lettered, List.mem_cons, List.not_mem_nil, or_false] at hl
      rcases hl with rfl | rfl | rfl | rfl | rfl <;> exact .letter rfl h
    · have hescape : escape c = ['\\', 'u', '0', '0', hexDigit (c.toNat / 16), hexDigit (c.toNat % 16)] := by
        simp only [lettered, List.mem_cons, List.not_mem_nil, or_false, not_or] at hl
        simp [escape, hq, hb, hc, hl]
      rw [hescape, unit, if_pos ⟨hc, hl⟩]
      exact .code (hexCode?_control hc) h
  · have hescape : escape c = [c] := by simp [escape, hq, hb, hc]
    rw [hescape, unit, if_neg (fun h => hc h.1)]
    exact .plain hb hq (Nat.not_lt.mp hc) h

theorem writesUnits_quoted (cs : List Char) : WritesUnits (cs.map unit) (cs.flatMap escape ++ ['"']) := by
  induction cs with
  | nil => exact .quote
  | cons c cs ih =>
    rw [List.flatMap_cons, List.append_assoc, List.map_cons]
    exact writesUnits_escape c ih

theorem joinUnits_code {n : Nat} (h : n < 32) (units : List StringUnit) (stop : Except Fault (List Char)) :
    joinUnits (.code n :: units) stop = (Char.ofNat n :: ·) <$> joinUnits units stop := by
  have htrailing : isTrailing n = false := by simp [isTrailing]; omega
  have hleading : isLeading n = false := by simp [isLeading]; omega
  rw [joinUnits.eq_def]
  simp only [htrailing, hleading, Bool.false_eq_true, if_false, bind_pure_comp]

theorem joinUnits_units (cs text : List Char) : joinUnits (cs.map unit) (.ok text) = .ok cs := by
  induction cs with
  | nil => rfl
  | cons c cs ih =>
    rw [List.map_cons, unit]
    split
    · next h =>
      rw [joinUnits_code h.1, ih, Char.ofNat_toNat]
      rfl
    · simp [joinUnits, ih, bind, Except.bind, pure, Except.pure]

theorem word_quote (s : String) : (Tree.str s).Word (quote s) := by
  have h := Tree.Word.str (writesUnits_quoted s.toList) (joinUnits_units s.toList [])
  rwa [String.ofList_toList] at h

/-! ## Numbers -/

/-- A number that is printed as it was written: an integer that is kept exact, or the double
that `-0` stands for. -/
def Exact : Number → Prop
  | .int n => -9223372036854775808 ≤ n ∧ n ≤ 18446744073709551615
  | .double x => x = Double.zero.negate

theorem isDigit_toDigits {n : Nat} : ∀ c ∈ Nat.toDigits 10 n, isDigit c = true := by
  intro c hc
  have h := Nat.isDigit_of_mem_toDigits (by decide) (by decide) hc
  simp only [Char.isDigit, Bool.and_eq_true, decide_eq_true_eq] at h
  simp only [isDigit, Bool.and_eq_true, decide_eq_true_eq]
  exact h

theorem digitsValue_toDigits (n : Nat) : digitsValue (Nat.toDigits 10 n) = n := by
  have hvalue : digitsValue (Nat.toDigits 10 n) = Nat.ofDigitChars 10 (Nat.toDigits 10 n) 0 := by
    rw [digitsValue, Nat.ofDigitChars_eq_foldl]
    simp only [Nat.mul_comm]
  rw [hvalue, Nat.ofDigitChars_ten_toDigits]

/-- Only the number zero begins with the digit zero. -/
theorem toDigits_eq_zero_cons {n : Nat} {rest : List Char} (h : Nat.toDigits 10 n = '0' :: rest) : n = 0 ∧ rest = [] := by
  induction n using Nat.strongRecOn generalizing rest with
  | ind n ih =>
    rw [Nat.toDigits_eq_if (by decide)] at h
    split at h
    · next hn =>
      injection h with h0 hr
      exact ⟨Nat.digitChar_eq_zero.mp h0, hr.symm⟩
    · next hn =>
      cases hd : Nat.toDigits 10 (n / 10) with
      | nil => exact absurd hd Nat.toDigits_ne_nil
      | cons d ds =>
        rw [hd, List.cons_append] at h
        injection h with h0 hr
        subst h0
        obtain ⟨hz, -⟩ := ih (n / 10) (by omega) hd
        omega

theorem wholeDigits_toDigits (n : Nat) : WholeDigits (Nat.toDigits 10 n) := by
  refine ⟨⟨Nat.toDigits_ne_nil, isDigit_toDigits⟩, fun h => ?_⟩
  obtain ⟨rest, hrest⟩ := List.head?_eq_some_iff.mp h
  rw [hrest, (toDigits_eq_zero_cons hrest).2]

theorem writes_printInt (n : Int) :
    (⟨decide (n < 0), Nat.toDigits 10 n.natAbs, none, none⟩ : Numeral).Writes (printInt n) := by
  have hwhole := wholeDigits_toDigits n.natAbs
  unfold printInt
  split
  next hn =>
    have h := Numeral.Writes.negative hwhole .none .none
    rwa [List.append_nil, List.append_nil, ← decide_eq_true hn] at h
  next hn =>
    have h := Numeral.Writes.positive hwhole .none .none
    rwa [List.append_nil, List.append_nil, ← decide_eq_false hn] at h

theorem value?_int {n : Int} (h : Exact (.int n)) :
    (⟨decide (n < 0), Nat.toDigits 10 n.natAbs, none, none⟩ : Numeral).value? = some (.int n) := by
  obtain ⟨hlow, hhigh⟩ := h
  have hlargest : largest = 18446744073709551615 := by decide
  have hleast : Nat.pow 2 63 = 9223372036854775808 := by decide
  unfold Numeral.value?
  simp only [digitsValue_toDigits, Option.isNone_none, true_and, hlargest, hleast, decide_eq_true_eq]
  rw [if_pos (by omega)]
  split
  · rw [if_pos (by omega)]
    congr 2
    omega
  · congr 2
    omega

theorem writes_negativeZero : (⟨true, ['0'], some ['0'], none⟩ : Numeral).Writes Double.zero.negate.text := by
  have htext : Double.zero.negate.text = '-' :: (['0'] ++ (['.', '0'] ++ [])) := by decide
  rw [htext]
  exact .negative wholeDigits_zero (.some wholeDigits_zero.1) .none

theorem word_number {n : Number} (h : Exact n) : (Tree.num n).Word (printNumber n) := by
  cases n with
  | int n => exact .num (writes_printInt n) (value?_int h)
  | double x =>
    rw [show x = Double.zero.negate from h]
    exact .num writes_negativeZero (by decide)

end Json

end TypedContent
