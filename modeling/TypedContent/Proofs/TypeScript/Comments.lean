import TypedContent.TypeScript.Comment

/-!
# Comments are skipped

Nothing in a text can close the comment that it is written in. So whoever reads comments up to the
first `*/` goes on behind the whole comment, with the end of its line.
-/

namespace TypedContent

namespace TypeScript

/-- What is made of a text by a reader that stands outside of comments, inside one, or at a star
in one. -/
structure SkipsComments {X : Type} (outside inside star : List Char → X) : Prop where
  space : ∀ rest, outside (' ' :: rest) = outside rest
  opened : ∀ rest, outside ('/' :: '*' :: rest) = inside rest
  inside_star : ∀ rest, inside ('*' :: rest) = star rest
  inside_other : ∀ {c} rest, c ≠ '*' → inside (c :: rest) = inside rest
  star_star : ∀ rest, star ('*' :: rest) = star rest
  star_other : ∀ {c} rest, c ≠ '*' → c ≠ '/' → star (c :: rest) = inside rest
  closed : ∀ rest, star ('/' :: rest) = outside rest

namespace SkipsComments

variable {X : Type} {outside inside star : List Char → X} (h : SkipsComments outside inside star)

include h

/-- Whatever the text, once disarmed it does not close the comment that it stands in. -/
theorem disarm {c : Char} (hs : c ≠ '*') (hc : c ≠ '/') (rest text : List Char) :
    inside (disarm text ++ c :: rest) = inside rest ∧
      (text.head? ≠ some '/' → star (TypeScript.disarm text ++ c :: rest) = inside rest) := by
  fun_induction TypeScript.disarm text with
  | case1 text ih =>
    have hslash : star ('\\' :: '/' :: (TypeScript.disarm text ++ c :: rest)) = inside rest := by
      rw [h.star_other _ (by decide) (by decide), h.inside_other _ (by decide), ih.1]
    simp only [List.cons_append]
    exact ⟨by rw [h.inside_star, hslash], fun _ => by rw [h.star_star, hslash]⟩
  | case2 d text hd ih =>
    simp only [List.cons_append]
    by_cases hstar : d = '*'
    · subst hstar
      -- the star is not followed by a slash, or it would have been disarmed
      have htext : text.head? ≠ some '/' := by
        intro h
        obtain ⟨tail, rfl⟩ := List.head?_eq_some_iff.mp h
        exact hd tail rfl rfl
      exact ⟨by rw [h.inside_star, ih.2 htext], fun _ => by rw [h.star_star, ih.2 htext]⟩
    · refine ⟨by rw [h.inside_other _ hstar, ih.1], fun hslash => ?_⟩
      rw [h.star_other _ hstar (by simpa using hslash), ih.1]
  | case3 => exact ⟨h.inside_other rest hs, fun _ => h.star_other rest hs hc⟩

theorem spaces {indent : List Char} (hi : ∀ c ∈ indent, c = ' ') (rest : List Char) :
    outside (indent ++ rest) = outside rest ∧ inside (indent ++ rest) = inside rest := by
  induction indent with
  | nil => exact ⟨rfl, rfl⟩
  | cons c indent ih =>
    rw [List.forall_mem_cons] at hi
    obtain ⟨rfl, hi⟩ := hi
    exact ⟨(h.space _).trans (ih hi).1, (h.inside_other _ (by decide)).trans (ih hi).2⟩

theorem line {indent : String} (hi : ∀ c ∈ indent.toList, c = ' ') (text rest : List Char) :
    inside ((indent ++ " * " ++ String.ofList (TypeScript.disarm text) ++ "\n").toList ++ rest) = inside rest := by
  simp only [String.toList_append, String.toList_ofList, List.append_assoc]
  rw [(h.spaces hi _).2]
  change inside (' ' :: '*' :: ' ' :: (TypeScript.disarm text ++ '\n' :: rest)) = _
  rw [h.inside_other _ (by decide), h.inside_star, h.star_other _ (by decide) (by decide),
    (h.disarm (by decide) (by decide) rest text).1]

theorem lines {indent : String} (hi : ∀ c ∈ indent.toList, c = ' ') (rest : List Char) :
    ∀ texts : List (List Char), inside
      ((String.join (texts.map fun l => indent ++ " * " ++ String.ofList (TypeScript.disarm l) ++ "\n")).toList ++ rest) =
        inside rest
  | [] => by simp
  | text :: texts => by
    rw [List.map_cons, String.join_cons, String.toList_append, List.append_assoc, h.line hi, lines hi rest texts]

/-- A comment is read as the end of the line that it ends with. -/
theorem docComment {indent : String} (hi : ∀ c ∈ indent.toList, c = ' ') (texts : List String) (rest : List Char) :
    outside ((docComment indent texts).toList ++ rest) = outside ('\n' :: rest) := by
  unfold TypeScript.docComment
  split
  · next e =>
    obtain ⟨text, -, rfl⟩ := List.map_eq_singleton_iff.mp e
    simp only [String.toList_append, String.toList_ofList, List.append_assoc]
    rw [(h.spaces hi _).1]
    change outside ('/' :: '*' :: '*' :: ' ' :: (TypeScript.disarm text ++ ' ' :: '*' :: '/' :: '\n' :: rest)) = _
    rw [h.opened, h.inside_star, h.star_other _ (by decide) (by decide), (h.disarm (by decide) (by decide) _ text).1,
      h.inside_star, h.closed]
  · rw [List.map_map]
    simp only [Function.comp_def, String.toList_append, List.append_assoc]
    rw [(h.spaces hi _).1]
    change outside ('/' :: '*' :: '*' :: '\n' :: ((String.join _).toList ++ _)) = _
    rw [h.opened, h.inside_star, h.star_other _ (by decide) (by decide), h.lines hi, (h.spaces hi _).2]
    change inside (' ' :: '*' :: '/' :: '\n' :: rest) = _
    rw [h.inside_other _ (by decide), h.inside_star, h.closed]

end SkipsComments

end TypeScript

end TypedContent
