/-
  Escaped text decoded.

  A decoder goes through a text from left to right and replaces the entities that
  escaping writes; whatever else it meets stays (`unescape`).  It recovers every text
  that was escaped, also one that holds entities itself: its ampersands have become
  entities, and what followed them is no longer taken for a part of one.

  Main statement: `escape_embeds`.
-/
import PackageDoc.Proofs.Checked.Html

namespace PackageDoc.Html

/-! ## The decoder -/

/-- A text with its entities replaced by the characters that they are written for. -/
def decodeEntities : List Char → List Char
  | '&' :: 'a' :: 'm' :: 'p' :: ';' :: cs => '&' :: decodeEntities cs
  | '&' :: 'l' :: 't' :: ';' :: cs => '<' :: decodeEntities cs
  | '&' :: 'g' :: 't' :: ';' :: cs => '>' :: decodeEntities cs
  | '&' :: 'q' :: 'u' :: 'o' :: 't' :: ';' :: cs => '"' :: decodeEntities cs
  | '&' :: '#' :: '3' :: '9' :: ';' :: cs => '\'' :: decodeEntities cs
  | c :: cs => c :: decodeEntities cs
  | [] => []

/-- Replaces the entities of a text. -/
def unescape (s : String) : String := String.ofList (decodeEntities s.toList)

theorem decodeEntities_cons {c : Char} (h : c ≠ '&') (cs : List Char) :
    decodeEntities (c :: cs) = c :: decodeEntities cs := by
  rw [decodeEntities] <;> (rintro _ rfl; exact absurd rfl h)

/-- A character is decoded as it was written, whatever follows it. -/
theorem decodeEntities_escapeChar (c : Char) (cs : List Char) :
    decodeEntities (escapeChar c ++ cs) = c :: decodeEntities cs := by
  by_cases hc : c ∈ specials
  · simp only [specials, List.mem_cons, List.not_mem_nil, or_false] at hc
    rcases hc with rfl | rfl | rfl | rfl | rfl <;> rfl
  · have hamp : c ≠ '&' := by
      rintro rfl
      exact hc (by decide)
    rw [escapeChar_of_not_special hc, List.singleton_append, decodeEntities_cons hamp]

theorem decodeEntities_flatMap (cs : List Char) : decodeEntities (cs.flatMap escapeChar) = cs := by
  induction cs with
  | nil => rfl
  | cons c cs ih => rw [List.flatMap_cons, decodeEntities_escapeChar, ih]

theorem unescape_escape : Function.LeftInverse unescape escape := by
  intro s
  rw [unescape, toList_escape, decodeEntities_flatMap, String.ofList_toList]

/-! ## Escaping -/

theorem escape_append (a b : String) : escape (a ++ b) = escape a ++ escape b := by
  rw [← String.toList_inj, String.toList_append, toList_escape, toList_escape, toList_escape,
    String.toList_append, List.flatMap_append]

/-- **Escaping embeds texts into safe ones.**  It may be done from the first special
    character on, and part by part; the result holds no character that ends a tag or a
    value, and each of its ampersands starts an entity; and what was escaped is decoded
    again. -/
theorem escape_embeds :
    (∀ a, Checked.escape? a = some (escape a)) ∧
      (∀ a b, escape (a ++ b) = escape a ++ escape b) ∧
      (∀ a, ∀ c ∈ ['<', '>', '"', '\''], c ∉ (escape a).toList) ∧
      (∀ a, EntitiesOnly (escape a).toList) ∧
      (∀ a, unescape (escape a) = a) ∧ Function.Injective escape := by
  refine ⟨Checked.escape?_eq, escape_append, fun a c hc => ?_, entitiesOnly_escape, unescape_escape,
    unescape_escape.injective⟩
  have hspecial : ∀ d ∈ ['<', '>', '"', '\''], d ∈ specials ∧ d ≠ '&' := by
    simp [specials]
  exact not_mem_escape (hspecial c hc).1 (hspecial c hc).2

/-- What looks escaped already is escaped all the same. -/
example : escape "&lt;" = "&amp;lt;" ∧ unescape "&amp;lt;" = "&lt;" := by decide

end PackageDoc.Html
