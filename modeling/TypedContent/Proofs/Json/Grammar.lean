import TypedContent.Proofs.Json.Spelling

/-!
# How a tree is written

The grammar of JSON, with the tree that each text writes. A text is parsed completely, and as a
tree, exactly if it writes that tree. Strings and numbers that are well formed and denote nothing
belong to the grammar; they are the broken values that can be passed over.
-/

namespace TypedContent

open Json

namespace Tree

inductive Word : Tree → List Char → Prop
  | null : Word .null ['n', 'u', 'l', 'l']
  | true : Word (.bool true) ['t', 'r', 'u', 'e']
  | false : Word (.bool false) ['f', 'a', 'l', 's', 'e']
  | str {units cs text} : WritesUnits units text → joinUnits units (.ok []) = .ok cs →
    Word (.str (String.ofList cs)) ('"' :: text)
  | noText {units fault text} : WritesUnits units text → joinUnits units (.ok []) = .error fault →
    Word (.broken (some '"') fault none) ('"' :: text)
  | num {numeral : Numeral} {n text} : numeral.Writes text → numeral.value? = some n → Word (.num n) text
  | noNumber {numeral : Numeral} {c text} : numeral.Writes (c :: text) → numeral.value? = none →
    Word (.broken (some c) .malformed none) (c :: text)

end Tree

/-- What a text writes: a value, or what stands in brackets after the opening one. -/
inductive Phrase where
  | value (t : Tree)
  | items (items : List Tree)
  | members (members : List (Tree × Tree))

inductive Phrase.Spelled : Phrase → List Char → Prop
  | blank {phrase c text} : isBlank c = true → Spelled phrase text → Spelled phrase (c :: text)
  | word {t text} : t.Word text → Spelled (.value t) text
  | noItems {blanks} : Blanks blanks → Spelled (.value (.arr [] none)) ('[' :: (blanks ++ [']']))
  | arr {items text} : Spelled (.items items) text → Spelled (.value (.arr items none)) ('[' :: text)
  | lastItem {item text blanks} : Spelled (.value item) text → Blanks blanks →
    Spelled (.items [item]) (text ++ (blanks ++ [']']))
  | nextItem {item text blanks items rest} : Spelled (.value item) text → Blanks blanks →
    Spelled (.items items) rest → Spelled (.items (item :: items)) (text ++ (blanks ++ ',' :: rest))
  | noMembers {blanks} : Blanks blanks → Spelled (.value (.obj [] none)) ('\x7b' :: (blanks ++ ['\x7d']))
  | obj {members text} : Spelled (.members members) text → Spelled (.value (.obj members none)) ('\x7b' :: text)
  | lastMember {key name blanks value text blanks'} : Spelled (.value key) name → key.isText = true → Blanks blanks →
    Spelled (.value value) text → Blanks blanks' →
    Spelled (.members [(key, value)]) (name ++ (blanks ++ ':' :: (text ++ (blanks' ++ ['\x7d']))))
  | nextMember {key name blanks value text blanks' members rest} : Spelled (.value key) name → key.isText = true →
    Blanks blanks → Spelled (.value value) text → Blanks blanks' → Spelled (.members members) rest →
    Spelled (.members ((key, value) :: members)) (name ++ (blanks ++ ':' :: (text ++ (blanks' ++ ',' :: rest))))

/-- The text writes the tree, and only blanks after it. -/
def Tree.Writes (t : Tree) (text : List Char) : Prop :=
  ∃ value blanks, text = value ++ blanks ∧ (Phrase.value t).Spelled value ∧ Blanks blanks

theorem Phrase.Spelled.blanks {phrase : Phrase} {blanks text : List Char} (hb : Blanks blanks) (h : phrase.Spelled text) :
    phrase.Spelled (blanks ++ text) := by
  induction blanks with
  | nil => exact h
  | cons c blanks ih =>
    obtain ⟨hc, hb⟩ := List.forall_mem_cons.mp hb
    exact .blank hc (ih hb)

/-! ## What follows a value -/

theorem skipBlanks_skipBlanks (text : List Char) : skipBlanks (skipBlanks text) = skipBlanks text := by
  induction text with
  | nil => rfl
  | cons c rest ih =>
    rw [skipBlanks, skipBlanks, List.dropWhile_cons]
    split
    · exact ih
    next h => exact List.dropWhile_cons_of_neg h

theorem ends_nil : Ends [] := by
  intro d hd
  cases hd

theorem ends_cons {c : Char} (h : isDigit c = false ∧ c ≠ '.' ∧ c ≠ 'e' ∧ c ≠ 'E') (text : List Char) :
    Ends (c :: text) := by
  intro d hd
  cases hd
  exact h

theorem ends_blanks {blanks text : List Char} (hb : Blanks blanks) (h : Ends text) : Ends (blanks ++ text) := by
  cases blanks with
  | nil => exact h
  | cons c blanks =>
    have hc := hb c List.mem_cons_self
    simp only [isBlank, Bool.or_eq_true, beq_iff_eq] at hc
    rcases hc with ((rfl | rfl) | rfl) | rfl <;> exact ends_cons (by decide) _

theorem skipBlanks_stop {blanks : List Char} (hb : Blanks blanks) {c : Char} (hc : isBlank c = false) (text : List Char) :
    skipBlanks (blanks ++ c :: text) = c :: text := by
  rw [skipBlanks_append hb, skipBlanks_cons hc]

/-! ## Numbers begin like nothing else -/

theorem not_special_of_number {c : Char} (h : c = '-' ∨ isDigit c = true) :
    isBlank c = false ∧ c ≠ '[' ∧ c ≠ '\x7b' ∧ c ≠ '"' ∧ c ≠ 'n' ∧ c ≠ 't' ∧ c ≠ 'f' := by
  have hne : ∀ d : Char, isDigit d = false → d ≠ '-' → c ≠ d := by
    rintro d hd hm rfl
    rcases h with rfl | h
    · exact hm rfl
    · rw [hd] at h
      cases h
  have hblank : isBlank c = false := by
    simp [isBlank, hne ' ' (by decide) (by decide), hne '\n' (by decide) (by decide), hne '\t' (by decide) (by decide),
      hne '\r' (by decide) (by decide)]
  refine ⟨hblank, ?_, ?_, ?_, ?_, ?_, ?_⟩ <;> exact hne _ (by decide) (by decide)

theorem Json.Numeral.Writes.head {n : Numeral} {text : List Char} (h : n.Writes text) :
    ∃ c rest, text = c :: rest ∧ (c = '-' ∨ isDigit c = true) := by
  cases h with
  | negative => exact ⟨'-', _, rfl, .inl rfl⟩
  | positive hw hf hx =>
    obtain ⟨⟨hne, hd⟩, -⟩ := hw
    obtain ⟨c, rest, rfl⟩ := List.exists_cons_of_ne_nil hne
    exact ⟨c, _, rfl, .inr (hd c List.mem_cons_self)⟩

namespace Tree

/-! ## Blanks before a phrase -/

section
variable {a b : List Char} (h : skipBlanks a = skipBlanks b) (fuel : Nat)
include h

theorem parseValue_skip : parseValue fuel a = parseValue fuel b := by
  cases fuel with
  | zero => rfl
  | succ fuel => rw [parseValue, parseValue, h]

theorem parseItems_skip : parseItems fuel a = parseItems fuel b := by
  cases fuel with
  | zero => rfl
  | succ fuel => rw [parseItems, parseItems, parseValue_skip h]

theorem parseMembers_skip : parseMembers fuel a = parseMembers fuel b := by
  cases fuel with
  | zero => rfl
  | succ fuel => rw [parseMembers, parseMembers, parseValue_skip h]

end

/-- A value that is parsed begins with a character that closes no bracket. -/
theorem head_of_parseValue {fuel : Nat} {text rest : List Char} {t : Tree} (h : parseValue fuel text = (t, some rest)) :
    ∃ c after, skipBlanks text = c :: after ∧ c ≠ ']' ∧ c ≠ '\x7d' := by
  cases fuel with
  | zero => cases h
  | succ fuel =>
    rw [parseValue] at h
    cases hskip : skipBlanks text with
    | nil => simp [hskip] at h
    | cons c after =>
      refine ⟨c, after, rfl, ?_, ?_⟩
      all_goals
        rintro rfl
        simp [hskip, isDigit] at h

/-! ## Words -/

theorem Word.parse {t : Tree} {text rest : List Char} (h : t.Word text) (hrest : Ends rest) (fuel : Nat) :
    parseValue (fuel + 1) (text ++ rest) = (t, some rest) := by
  have hnumber : ∀ {numeral : Numeral} {c text}, numeral.Writes (c :: text) →
      parseValue (fuel + 1) (c :: text ++ rest) = parseNumber c (c :: text ++ rest) := by
    intro numeral c text hw
    obtain ⟨_, _, ⟨⟩, hc⟩ := hw.head
    obtain ⟨hblank, h1, h2, h3, h4, h5, h6⟩ := not_special_of_number hc
    rw [List.cons_append, parseValue, skipBlanks_cons hblank]
    simp only [h1, h2, h3, h4, h5, h6, if_false, hc, if_true]
  cases h with
  | null | true | false => rfl
  | str hunits hcs =>
    rw [List.cons_append, parseValue, skipBlanks_cons (by decide)]
    simp only [Char.reduceEq, if_false, if_true, parseString, hunits.scan, joinUnits_rest _ rest [], hcs]
    rfl
  | noText hunits hfault =>
    rw [List.cons_append, parseValue, skipBlanks_cons (by decide)]
    simp only [Char.reduceEq, if_false, if_true, parseString, hunits.scan, joinUnits_rest _ rest [], hfault]
  | num hw hvalue =>
    obtain ⟨c, text, rfl, -⟩ := hw.head
    rw [hnumber hw, parseNumber, hw.scan hrest]
    simp only [hvalue]
  | noNumber hw hvalue =>
    rw [hnumber hw, parseNumber, hw.scan hrest]
    simp only [hvalue]

theorem word_of_parseWord {start : Char} {word text rest : List Char} {value t : Tree}
    (h : parseWord start word value text = (t, some rest)) : t = value ∧ text = word ++ rest := by
  unfold parseWord at h
  split at h
  next rest' hscan =>
    cases h
    exact ⟨rfl, scanWord_eq_ok.mp hscan⟩
  · cases h

theorem word_of_parseString {text rest : List Char} {t : Tree} (h : parseString text = (t, some rest)) :
    ∃ units, text = units ++ rest ∧ t.Word ('"' :: units) := by
  unfold parseString at h
  cases hscan : scanString text with
  | mk units stop =>
    cases stop with
    | error f =>
      rw [hscan] at h
      simp only at h
      split at h
      · cases h
      next heq => cases heq
      · cases h
    | ok after =>
      rw [hscan] at h
      obtain ⟨written, rfl, hunits⟩ := writesUnits_of_scan hscan
      simp only [joinUnits_rest units after []] at h
      split at h
      next hcs =>
        cases h
        exact ⟨written, rfl, .str hunits hcs⟩
      next hfault heq =>
        cases heq
        cases h
        exact ⟨written, rfl, .noText hunits hfault⟩
      next heq => cases heq

theorem word_of_parseNumber {c : Char} {text rest : List Char} {t : Tree}
    (h : parseNumber c (c :: text) = (t, some rest)) : ∃ written, c :: text = written ++ rest ∧ t.Word written := by
  unfold parseNumber at h
  split at h
  · cases h
  next numeral after hscan =>
    obtain ⟨written, htext, hw⟩ := writes_of_scanNumeral hscan
    obtain ⟨d, digits, rfl, -⟩ := hw.head
    obtain ⟨rfl, -⟩ := List.cons.inj htext
    split at h
    next n hn =>
      cases h
      exact ⟨_, htext, .num hw hn⟩
    next hn =>
      cases h
      exact ⟨_, htext, .noNumber hw hn⟩

/-- What begins with no bracket is a word. -/
theorem word_of_parseValue {fuel : Nat} {c : Char} {text rest : List Char} {t : Tree} (hc : isBlank c = false)
    (harr : c ≠ '[') (hobj : c ≠ '\x7b') (h : parseValue (fuel + 1) (c :: text) = (t, some rest)) :
    ∃ written, c :: text = written ++ rest ∧ t.Word written := by
  rw [parseValue, skipBlanks_cons hc] at h
  simp only [harr, hobj, if_false] at h
  split at h
  next hc =>
    subst hc
    obtain ⟨units, rfl, hw⟩ := word_of_parseString h
    exact ⟨'"' :: units, rfl, hw⟩
  split at h
  next hc =>
    subst hc
    obtain ⟨rfl, rfl⟩ := word_of_parseWord h
    exact ⟨_, rfl, .null⟩
  split at h
  next hc =>
    subst hc
    obtain ⟨rfl, rfl⟩ := word_of_parseWord h
    exact ⟨_, rfl, .true⟩
  split at h
  next hc =>
    subst hc
    obtain ⟨rfl, rfl⟩ := word_of_parseWord h
    exact ⟨_, rfl, .false⟩
  split at h
  · exact word_of_parseNumber h
  · cases h

/-! ## Brackets -/

section
variable {fuel : Nat} {text rest rest' after : List Char} {item key value : Tree} {items : List Tree}
  {members : List (Tree × Tree)}

theorem head_of_parseItems {stop : Option Fault} (h : parseItems fuel text = (items, stop, some rest)) :
    ∃ c after, skipBlanks text = c :: after ∧ c ≠ ']' := by
  cases fuel with
  | zero => cases h
  | succ fuel =>
    rw [parseItems] at h
    split at h
    · cases h
    next hvalue =>
      obtain ⟨c, after, hskip, hc, -⟩ := head_of_parseValue hvalue
      exact ⟨c, after, hskip, hc⟩

theorem head_of_parseMembers {stop : Option Fault} (h : parseMembers fuel text = (members, stop, some rest)) :
    ∃ c after, skipBlanks text = c :: after ∧ c ≠ '\x7d' := by
  cases fuel with
  | zero => cases h
  | succ fuel =>
    rw [parseMembers] at h
    split at h
    · cases h
    next hkey =>
      obtain ⟨c, after, hskip, -, hc⟩ := head_of_parseValue hkey
      exact ⟨c, after, hskip, hc⟩

theorem parseValue_arr (h : parseItems fuel text = (items, none, some rest)) :
    parseValue (fuel + 1) ('[' :: text) = (.arr items none, some rest) := by
  obtain ⟨c, after, hskip, hc⟩ := head_of_parseItems h
  have hitems : parseItems fuel (c :: after) = (items, none, some rest) := by
    rw [← h, ← hskip]
    exact parseItems_skip (skipBlanks_skipBlanks text) fuel
  rw [parseValue, skipBlanks_cons (by decide)]
  simp only [if_true, hskip, hc, if_false, hitems]

theorem parseValue_obj (h : parseMembers fuel text = (members, none, some rest)) :
    parseValue (fuel + 1) ('\x7b' :: text) = (.obj members none, some rest) := by
  obtain ⟨c, after, hskip, hc⟩ := head_of_parseMembers h
  have hmembers : parseMembers fuel (c :: after) = (members, none, some rest) := by
    rw [← h, ← hskip]
    exact parseMembers_skip (skipBlanks_skipBlanks text) fuel
  rw [parseValue, skipBlanks_cons (by decide)]
  simp only [Char.reduceEq, if_true, hskip, hc, if_false, hmembers]

theorem parseItems_last (h : parseValue fuel text = (item, some rest)) (hrest : skipBlanks rest = ']' :: after) :
    parseItems (fuel + 1) text = ([item], none, some after) := by
  rw [parseItems, h]
  simp only [hrest, Char.reduceEq, if_false, if_true]

theorem parseItems_more (h : parseValue fuel text = (item, some rest)) (hrest : skipBlanks rest = ',' :: rest')
    (hitems : parseItems fuel rest' = (items, none, some after)) :
    parseItems (fuel + 1) text = (item :: items, none, some after) := by
  rw [parseItems, h]
  simp only [hrest, if_true, hitems]

section
variable {colon : List Char} (hkey : parseValue fuel text = (key, some rest)) (htext : key.isText = true)
  (hrest : skipBlanks rest = ':' :: colon) (hvalue : parseValue fuel colon = (value, some rest'))
include hkey htext hrest hvalue

theorem parseMembers_last (hrest' : skipBlanks rest' = '\x7d' :: after) :
    parseMembers (fuel + 1) text = ([(key, value)], none, some after) := by
  rw [parseMembers, hkey]
  simp only [htext, Bool.not_true, Bool.false_eq_true, if_false, hrest, ne_eq, not_true_eq_false, hvalue, hrest',
    Char.reduceEq, if_true]

theorem parseMembers_more {next : List Char} (hrest' : skipBlanks rest' = ',' :: next)
    (hmembers : parseMembers fuel next = (members, none, some after)) :
    parseMembers (fuel + 1) text = ((key, value) :: members, none, some after) := by
  rw [parseMembers, hkey]
  simp only [htext, Bool.not_true, Bool.false_eq_true, if_false, hrest, ne_eq, not_true_eq_false, hvalue, hrest',
    if_true, hmembers]

end

theorem arr_of_parseValue (h : parseValue (fuel + 1) ('[' :: text) = (value, some rest)) :
    (skipBlanks text = ']' :: rest ∧ value = .arr [] none) ∨
      ∃ items stop, parseItems fuel text = (items, stop, some rest) ∧ value = .arr items stop := by
  rw [parseValue, skipBlanks_cons (by decide)] at h
  simp only [if_true] at h
  split at h
  · cases h
  next d inside hskip =>
    split at h
    next hd =>
      cases h
      exact .inl ⟨by rw [hskip, hd], rfl⟩
    · rcases hitems : parseItems fuel (d :: inside) with ⟨items, stop, left⟩
      simp only [hitems, Prod.mk.injEq] at h
      obtain ⟨rfl, rfl⟩ := h
      rw [← hskip, parseItems_skip (skipBlanks_skipBlanks text)] at hitems
      exact .inr ⟨items, stop, hitems, rfl⟩

theorem obj_of_parseValue (h : parseValue (fuel + 1) ('\x7b' :: text) = (value, some rest)) :
    (skipBlanks text = '\x7d' :: rest ∧ value = .obj [] none) ∨
      ∃ members stop, parseMembers fuel text = (members, stop, some rest) ∧ value = .obj members stop := by
  rw [parseValue, skipBlanks_cons (by decide)] at h
  simp only [Char.reduceEq, if_false, if_true] at h
  split at h
  · cases h
  next d inside hskip =>
    split at h
    next hd =>
      cases h
      exact .inl ⟨by rw [hskip, hd], rfl⟩
    · rcases hmembers : parseMembers fuel (d :: inside) with ⟨members, stop, left⟩
      simp only [hmembers, Prod.mk.injEq] at h
      obtain ⟨rfl, rfl⟩ := h
      rw [← hskip, parseMembers_skip (skipBlanks_skipBlanks text)] at hmembers
      exact .inr ⟨members, stop, hmembers, rfl⟩

theorem cases_of_parseItems {stop : Option Fault} (h : parseItems (fuel + 1) text = (items, stop, some rest)) :
    ∃ item after, parseValue fuel text = (item, some after) ∧
      ((skipBlanks after = ']' :: rest ∧ items = [item] ∧ stop = none) ∨
        ∃ next more, skipBlanks after = ',' :: next ∧ parseItems fuel next = (more, stop, some rest) ∧
          items = item :: more) := by
  rw [parseItems] at h
  split at h
  · cases h
  next item after hitem =>
    refine ⟨item, after, hitem, ?_⟩
    split at h
    · cases h
    next c next hskip =>
      split at h
      next hc =>
        rcases hmore : parseItems fuel next with ⟨more, stop', left⟩
        simp only [hmore, Prod.mk.injEq] at h
        obtain ⟨rfl, rfl, rfl⟩ := h
        exact .inr ⟨next, more, by rw [hskip, hc], hmore, rfl⟩
      split at h
      next hc =>
        cases h
        exact .inl ⟨by rw [hskip, hc], rfl, rfl⟩
      · cases h

theorem cases_of_parseMembers {stop : Option Fault} (h : parseMembers (fuel + 1) text = (members, stop, some rest)) :
    ∃ key after colon value after', parseValue fuel text = (key, some after) ∧ key.isText = true ∧
      skipBlanks after = ':' :: colon ∧ parseValue fuel colon = (value, some after') ∧
        ((skipBlanks after' = '\x7d' :: rest ∧ members = [(key, value)] ∧ stop = none) ∨
          ∃ next more, skipBlanks after' = ',' :: next ∧ parseMembers fuel next = (more, stop, some rest) ∧
            members = (key, value) :: more) := by
  rw [parseMembers] at h
  split at h
  · cases h
  next key after hkey =>
    split at h
    · cases h
    next htext =>
      split at h
      · cases h
      next c colon hskip =>
        split at h
        · cases h
        next hc =>
          split at h
          · cases h
          next value after' hvalue =>
            refine ⟨key, after, colon, value, after', hkey, by simpa using htext, by rw [hskip, not_not.mp hc], hvalue, ?_⟩
            split at h
            · cases h
            next d next hskip' =>
              split at h
              next hd =>
                rcases hmore : parseMembers fuel next with ⟨more, stop', left⟩
                simp only [hmore, Prod.mk.injEq] at h
                obtain ⟨rfl, rfl, rfl⟩ := h
                exact .inr ⟨next, more, by rw [hskip', hd], hmore, rfl⟩
              split at h
              next hd =>
                cases h
                exact .inl ⟨by rw [hskip', hd], rfl, rfl⟩
              · cases h

end

end Tree

/-! ## What is spelled is parsed -/

/-- The phrase is parsed from the text, and the rest is left. -/
def Phrase.Parsed (fuel : Nat) (text rest : List Char) : Phrase → Prop
  | .value t => Tree.parseValue fuel text = (t, some rest)
  | .items ts => Tree.parseItems fuel text = (ts, none, some rest)
  | .members ms => Tree.parseMembers fuel text = (ms, none, some rest)

theorem Phrase.Parsed.skip {phrase : Phrase} {fuel : Nat} {a b rest : List Char} (h : skipBlanks a = skipBlanks b)
    (hb : phrase.Parsed fuel b rest) : phrase.Parsed fuel a rest := by
  cases phrase with
  | value t => exact Eq.trans (Tree.parseValue_skip h fuel) hb
  | items items => exact Eq.trans (Tree.parseItems_skip h fuel) hb
  | members members => exact Eq.trans (Tree.parseMembers_skip h fuel) hb

theorem Phrase.Spelled.length_pos {phrase : Phrase} {text : List Char} (h : phrase.Spelled text) : 0 < text.length := by
  induction h with
  | word hw =>
    cases hw with
    | num hw _ =>
      obtain ⟨c, text, rfl, -⟩ := hw.head
      exact Nat.succ_pos _
    | _ => exact Nat.succ_pos _
  | _ => simp only [List.length_append, List.length_cons]; omega

/-- The phrase is parsed from the text whatever follows, with two steps for each character. -/
def Phrase.Parses (phrase : Phrase) (text : List Char) : Prop :=
  ∀ {fuel rest}, Ends rest → 2 * text.length ≤ fuel → phrase.Parsed fuel (text ++ rest) rest

namespace Phrase

theorem parses_of_step {phrase : Phrase} {text : List Char} (hpos : 0 < text.length)
    (h : ∀ {fuel rest}, Ends rest → 2 * text.length ≤ fuel + 1 → phrase.Parsed (fuel + 1) (text ++ rest) rest) :
    phrase.Parses text := by
  intro fuel rest hrest hfuel
  obtain ⟨fuel, rfl⟩ := Nat.exists_eq_add_one.mpr (show 0 < fuel by omega)
  exact h hrest hfuel

/-- A bracket or a comma ends a value, also after blanks. -/
theorem Parses.until {t : Tree} {text blanks rest : List Char} {c : Char} {fuel : Nat} (h : (value t).Parses text)
    (hb : Blanks blanks) (hc : isDigit c = false ∧ c ≠ '.' ∧ c ≠ 'e' ∧ c ≠ 'E') (hfuel : 2 * text.length ≤ fuel) :
    Tree.parseValue fuel (text ++ (blanks ++ c :: rest)) = (t, some (blanks ++ c :: rest)) :=
  h (ends_blanks hb (ends_cons hc rest)) hfuel

theorem Parses.blank {phrase : Phrase} {text : List Char} {c : Char} (hc : isBlank c = true) (h : phrase.Parses text) :
    phrase.Parses (c :: text) := by
  intro fuel rest hrest hfuel
  rw [List.length_cons] at hfuel
  exact (h hrest (by omega)).skip (List.dropWhile_cons_of_pos hc)

theorem parses_word {t : Tree} {text : List Char} (h : t.Word text) : (value t).Parses text := by
  refine parses_of_step (Spelled.word h).length_pos fun hrest _ => ?_
  exact h.parse hrest _

/-! ### Lists -/

section
variable {blanks text rest : List Char} {item : Tree} {items : List Tree}

theorem parses_noItems (hb : Blanks blanks) : (value (.arr [] none)).Parses ('[' :: (blanks ++ [']'])) := by
  refine parses_of_step (by simp) fun {_ after} _ _ => ?_
  have hclose := skipBlanks_stop hb (show isBlank ']' = false by decide) after
  simp only [Parsed, List.cons_append, List.append_assoc, List.nil_append]
  rw [Tree.parseValue, skipBlanks_cons (by decide)]
  simp only [if_true, hclose]

theorem Parses.arr (h : (Phrase.items items).Parses text) : (value (.arr items none)).Parses ('[' :: text) := by
  refine parses_of_step (by simp) fun hafter hfuel => ?_
  rw [List.length_cons] at hfuel
  exact Tree.parseValue_arr (h hafter (by omega))

theorem Parses.lastItem (h : (value item).Parses text) (hb : Blanks blanks) :
    (Phrase.items [item]).Parses (text ++ (blanks ++ [']'])) := by
  refine parses_of_step (by simp) fun {_ after} _ hfuel => ?_
  simp only [List.length_append, List.length_cons] at hfuel
  simp only [List.append_assoc, List.cons_append, List.nil_append]
  exact Tree.parseItems_last (h.until hb (by decide) (by omega)) (skipBlanks_stop hb (by decide) after)

theorem Parses.nextItem (h : (value item).Parses text) (hb : Blanks blanks) (hitems : (Phrase.items items).Parses rest) :
    (Phrase.items (item :: items)).Parses (text ++ (blanks ++ ',' :: rest)) := by
  refine parses_of_step (by simp) fun hafter hfuel => ?_
  simp only [List.length_append, List.length_cons] at hfuel
  simp only [List.append_assoc, List.cons_append]
  exact Tree.parseItems_more (h.until hb (by decide) (by omega)) (skipBlanks_stop hb (by decide) _)
    (hitems hafter (by omega))

end

/-! ### Objects -/

section
variable {blanks name text blanks' rest : List Char} {key member : Tree} {members : List (Tree × Tree)}

theorem parses_noMembers (hb : Blanks blanks) : (value (.obj [] none)).Parses ('\x7b' :: (blanks ++ ['\x7d'])) := by
  refine parses_of_step (by simp) fun {_ after} _ _ => ?_
  have hclose := skipBlanks_stop hb (show isBlank '\x7d' = false by decide) after
  simp only [Parsed, List.cons_append, List.append_assoc, List.nil_append]
  rw [Tree.parseValue, skipBlanks_cons (by decide)]
  simp only [Char.reduceEq, if_false, if_true, hclose]

theorem Parses.obj (h : (Phrase.members members).Parses text) :
    (value (.obj members none)).Parses ('\x7b' :: text) := by
  refine parses_of_step (by simp) fun hafter hfuel => ?_
  rw [List.length_cons] at hfuel
  exact Tree.parseValue_obj (h hafter (by omega))

variable (hkey : (value key).Parses name) (htext : key.isText = true) (hb : Blanks blanks)
  (hmember : (value member).Parses text) (hb' : Blanks blanks')
include hkey htext hb hmember hb'

theorem Parses.lastMember : (Phrase.members [(key, member)]).Parses
    (name ++ (blanks ++ ':' :: (text ++ (blanks' ++ ['\x7d'])))) := by
  refine parses_of_step (by simp) fun {_ after} _ hfuel => ?_
  simp only [List.length_append, List.length_cons] at hfuel
  simp only [List.append_assoc, List.cons_append, List.nil_append]
  exact Tree.parseMembers_last (hkey.until hb (by decide) (by omega)) htext (skipBlanks_stop hb (by decide) _)
    (hmember.until hb' (by decide) (by omega)) (skipBlanks_stop hb' (by decide) after)

theorem Parses.nextMember (hmembers : (Phrase.members members).Parses rest) :
    (Phrase.members ((key, member) :: members)).Parses
      (name ++ (blanks ++ ':' :: (text ++ (blanks' ++ ',' :: rest)))) := by
  refine parses_of_step (by simp) fun hafter hfuel => ?_
  simp only [List.length_append, List.length_cons] at hfuel
  simp only [List.append_assoc, List.cons_append]
  exact Tree.parseMembers_more (hkey.until hb (by decide) (by omega)) htext (skipBlanks_stop hb (by decide) _)
    (hmember.until hb' (by decide) (by omega)) (skipBlanks_stop hb' (by decide) _) (hmembers hafter (by omega))

end

theorem Spelled.parse {phrase : Phrase} {text : List Char} (h : phrase.Spelled text) : phrase.Parses text := by
  induction h with
  | blank hc _ ih => exact ih.blank hc
  | word hw => exact parses_word hw
  | noItems hb => exact parses_noItems hb
  | arr _ ih => exact ih.arr
  | lastItem _ hb ih => exact ih.lastItem hb
  | nextItem _ hb _ ih ihItems => exact ih.nextItem hb ihItems
  | noMembers hb => exact parses_noMembers hb
  | obj _ ih => exact ih.obj
  | lastMember _ htext hb _ hb' ihKey ih => exact ihKey.lastMember htext hb ih hb'
  | nextMember _ htext hb _ hb' _ ihKey ih ihMembers => exact ihKey.nextMember htext hb ih hb' ihMembers

end Phrase

/-! ## What is parsed is spelled -/

mutual

theorem spelled_of_parseValue : ∀ {fuel : Nat} {text rest : List Char} {t : Tree},
    Tree.parseValue fuel text = (t, some rest) → ∃ written, text = written ++ rest ∧ (Phrase.value t).Spelled written
  | 0, text, rest, t, h => by cases h
  | fuel + 1, text, rest, t, h => by
    obtain ⟨c, after, hskip, -⟩ := Tree.head_of_parseValue h
    obtain ⟨hc, blanks, hblanks, rfl⟩ := exists_blanks_cons hskip
    rw [Tree.parseValue_skip (hskip.trans (skipBlanks_cons hc after).symm)] at h
    suffices hs : ∃ written, c :: after = written ++ rest ∧ (Phrase.value t).Spelled written by
      obtain ⟨written, htext, hs⟩ := hs
      exact ⟨blanks ++ written, by rw [htext, List.append_assoc], hs.blanks hblanks⟩
    by_cases harr : c = '['
    · subst harr
      obtain ⟨hclose, rfl⟩ | ⟨items, stop, hitems, rfl⟩ := Tree.arr_of_parseValue h
      · obtain ⟨-, blanks', hblanks', rfl⟩ := exists_blanks_cons hclose
        exact ⟨'[' :: (blanks' ++ [']']), by simp, .noItems hblanks'⟩
      · obtain ⟨rfl, written, rfl, hs⟩ := spelled_of_parseItems hitems
        exact ⟨'[' :: written, rfl, .arr hs⟩
    by_cases hobj : c = '\x7b'
    · subst hobj
      obtain ⟨hclose, rfl⟩ | ⟨members, stop, hmembers, rfl⟩ := Tree.obj_of_parseValue h
      · obtain ⟨-, blanks', hblanks', rfl⟩ := exists_blanks_cons hclose
        exact ⟨'\x7b' :: (blanks' ++ ['\x7d']), by simp, .noMembers hblanks'⟩
      · obtain ⟨rfl, written, rfl, hs⟩ := spelled_of_parseMembers hmembers
        exact ⟨'\x7b' :: written, rfl, .obj hs⟩
    · obtain ⟨written, htext, hw⟩ := Tree.word_of_parseValue hc harr hobj h
      exact ⟨written, htext, .word hw⟩

theorem spelled_of_parseItems : ∀ {fuel : Nat} {text rest : List Char} {items : List Tree} {stop : Option Fault},
    Tree.parseItems fuel text = (items, stop, some rest) →
      stop = none ∧ ∃ written, text = written ++ rest ∧ (Phrase.items items).Spelled written
  | 0, text, rest, items, stop, h => by cases h
  | fuel + 1, text, rest, items, stop, h => by
    obtain ⟨item, after, hitem, hnext⟩ := Tree.cases_of_parseItems h
    obtain ⟨written, rfl, hs⟩ := spelled_of_parseValue hitem
    obtain ⟨hclose, rfl, rfl⟩ | ⟨next, more, hcomma, hmore, rfl⟩ := hnext
    · obtain ⟨-, blanks, hblanks, rfl⟩ := exists_blanks_cons hclose
      exact ⟨rfl, written ++ (blanks ++ [']']), by simp, .lastItem hs hblanks⟩
    · obtain ⟨-, blanks, hblanks, rfl⟩ := exists_blanks_cons hcomma
      obtain ⟨hstop, inside, rfl, hinside⟩ := spelled_of_parseItems hmore
      exact ⟨hstop, written ++ (blanks ++ ',' :: inside), by simp, .nextItem hs hblanks hinside⟩

theorem spelled_of_parseMembers : ∀ {fuel : Nat} {text rest : List Char} {members : List (Tree × Tree)}
    {stop : Option Fault}, Tree.parseMembers fuel text = (members, stop, some rest) →
      stop = none ∧ ∃ written, text = written ++ rest ∧ (Phrase.members members).Spelled written
  | 0, text, rest, members, stop, h => by cases h
  | fuel + 1, text, rest, members, stop, h => by
    obtain ⟨key, after, colon, value, after', hkey, htext, hcolon, hvalue, hnext⟩ := Tree.cases_of_parseMembers h
    obtain ⟨name, rfl, hname⟩ := spelled_of_parseValue hkey
    obtain ⟨-, blanks, hblanks, rfl⟩ := exists_blanks_cons hcolon
    obtain ⟨written, rfl, hs⟩ := spelled_of_parseValue hvalue
    obtain ⟨hclose, rfl, rfl⟩ | ⟨next, more, hcomma, hmore, rfl⟩ := hnext
    · obtain ⟨-, blanks', hblanks', rfl⟩ := exists_blanks_cons hclose
      exact ⟨rfl, _, by simp, .lastMember hname htext hblanks hs hblanks'⟩
    · obtain ⟨-, blanks', hblanks', rfl⟩ := exists_blanks_cons hcomma
      obtain ⟨hstop, inside, rfl, hinside⟩ := spelled_of_parseMembers hmore
      exact ⟨hstop, _, by simp, .nextMember hname htext hblanks hs hblanks' hinside⟩

end

/-! ## Texts -/

/-- The trees that texts write are the ones they have. -/
theorem Tree.writes_iff {t : Tree} {text : List Char} :
    t.Writes text ↔ ∃ rest, Tree.ofText text = (t, some rest) ∧ skipBlanks rest = [] := by
  constructor
  · rintro ⟨value, blanks, rfl, hs, hb⟩
    have hends : Ends blanks := by simpa using ends_blanks hb ends_nil
    exact ⟨blanks, hs.parse hends (by rw [List.length_append]; omega), skipBlanks_eq_nil.mpr hb⟩
  · rintro ⟨rest, htree, hrest⟩
    obtain ⟨written, rfl, hs⟩ := spelled_of_parseValue htree
    exact ⟨written, rest, rfl, hs, skipBlanks_eq_nil.mp hrest⟩

/-- A text writes one tree. -/
theorem Tree.Writes.unique {t t' : Tree} {text : List Char} (h : t.Writes text) (h' : t'.Writes text) : t = t' := by
  obtain ⟨rest, htree, -⟩ := Tree.writes_iff.mp h
  obtain ⟨rest', htree', -⟩ := Tree.writes_iff.mp h'
  exact (Prod.mk.inj (htree.symm.trans htree')).1

end TypedContent
