/-
  The normal form of doc texts.

  `Says` tells what a comment says once its marks are gone.  The lines of what the
  comments of a group say are cut at their ends, blank lines at both ends of the
  list are dropped, and `collapse` leaves one of several blank lines that follow
  each other.  `CommentGroup.text` looks back at one line only, and it drops at
  most one line at the end: it comes to the same (`dropBlankEnd_squeeze`).

  Lines that are `Normal` stay as they are, so a doc text is the doc text of its
  own lines (`text_eq_normalLines`).
-/
import Mathlib.Data.List.Destutter
import Mathlib.Data.List.Forall2
import PackageDoc.Comment
import PackageDoc.Proofs.Text.Lines

namespace PackageDoc

open Text

/-! ## Marks -/

/-- What is left of a comment without its marks. -/
inductive Says : List Char → List Char → Prop
  | spaced (b : List Char) : Says ('-' :: '-' :: ' ' :: b) b
  | line {b : List Char} : b.head? ≠ some ' ' → Says ('-' :: '-' :: b) b
  | closed (b : List Char) : Says ('/' :: '*' :: (b ++ ['*', '/'])) b
  | unclosed {b : List Char} : ¬ ['*', '/'] <:+ b → Says ('/' :: '*' :: b) b
  | bare {b : List Char} : ¬ ['-', '-'] <+: b → ¬ ['/', '*'] <+: b → Says b b

theorem dropClose_append (b : List Char) : dropClose (b ++ ['*', '/']) = b := by
  simp [dropClose]

theorem dropClose_eq_self {b : List Char} (h : ¬ ['*', '/'] <:+ b) : dropClose b = b := by
  unfold dropClose
  split
  · rename_i body hbody
    rw [List.reverse_eq_iff] at hbody
    exact absurd ⟨body.reverse, by simp [hbody]⟩ h
  · rfl

theorem says_commentBody (cs : List Char) : Says cs (commentBody cs) := by
  unfold commentBody
  split
  · exact .spaced _
  · rename_i cs hspace
    refine .line fun hhead => ?_
    obtain ⟨ds, rfl⟩ := List.head?_eq_some_iff.1 hhead
    exact hspace ds rfl
  · rename_i cs
    by_cases h : ['*', '/'] <:+ cs
    · obtain ⟨b, rfl⟩ := h
      rw [dropClose_append]
      exact .closed b
    · rw [dropClose_eq_self h]
      exact .unclosed h
  · rename_i hline hblock
    refine .bare ?_ ?_
    · rintro ⟨b, rfl⟩
      exact hline b rfl
    · rintro ⟨b, rfl⟩
      exact hblock b rfl

theorem says_iff {cs b : List Char} : Says cs b ↔ b = commentBody cs := by
  constructor
  · intro h
    cases h with
    | spaced => rfl
    | line hhead =>
      unfold commentBody
      split
      · rename_i heq
        simp only [List.cons.injEq, true_and] at heq
        exact absurd (heq ▸ rfl) hhead
      · rename_i heq
        simpa using heq
      · rename_i heq
        simp at heq
      · rename_i hline _
        exact absurd rfl (hline b)
    | closed => exact (dropClose_append b).symm
    | unclosed h => exact (dropClose_eq_self h).symm
    | bare hline hblock =>
      unfold commentBody
      split
      · exact absurd ⟨_, rfl⟩ hline
      · exact absurd ⟨_, rfl⟩ hline
      · exact absurd ⟨_, rfl⟩ hblock
      · rfl
  · rintro rfl
    exact says_commentBody cs

theorem forall₂_says_iff {cs : List Comment} {bs : List (List Char)} :
    List.Forall₂ (fun c b => Says c.text.toList b) cs bs ↔
      bs = cs.map (commentBody ·.text.toList) := by
  simp only [says_iff]
  constructor
  · intro h
    induction h with
    | nil => rfl
    | cons hb _ ih => rw [hb, ih, List.map_cons]
  · rintro rfl
    exact List.forall₂_map_right_iff.2 (List.forall₂_same.2 fun _ _ => rfl)

/-! ## Blank lines -/

/-- Two lines of which at least one has text. -/
def SomeText (l m : List Char) : Prop := l ≠ [] ∨ m ≠ []

instance : DecidableRel SomeText := fun l m => inferInstanceAs (Decidable (l ≠ [] ∨ m ≠ []))

/-- One blank line in place of several that follow each other. -/
def collapse (ls : List (List Char)) : List (List Char) := ls.destutter SomeText

/-- The lines between the blank lines at both ends. -/
def withoutBlankEnds (ls : List (List Char)) : List (List Char) := strip (·.isEmpty) ls

/-- Lines in normal form. -/
def normalLines (ls : List (List Char)) : List (List Char) := collapse (withoutBlankEnds ls)

theorem squeeze_true (ls : List (List Char)) :
    squeeze true ls = squeeze false (ls.dropWhile (·.isEmpty)) := by
  induction ls with
  | nil => rfl
  | cons l ls ih => by_cases h : l.isEmpty <;> simp [squeeze, h, ih]

theorem destutter'_apart (l : List Char) (ls : List (List Char)) :
    ls.destutter' SomeText l = l :: squeeze l.isEmpty ls := by
  induction ls generalizing l with
  | nil => rfl
  | cons m ls ih =>
    by_cases h : SomeText l m
    · rw [List.destutter'_cons_pos _ h, ih m]
      cases l <;> cases m <;> simp_all [squeeze, SomeText]
    · obtain ⟨rfl, rfl⟩ : l = [] ∧ m = [] := by simpa [SomeText] using h
      rw [List.destutter'_cons_neg _ h, ih []]
      simp [squeeze]

theorem squeeze_false (ls : List (List Char)) : squeeze false ls = collapse ls := by
  cases ls with
  | nil => rfl
  | cons l ls =>
    rw [collapse, List.destutter_cons', destutter'_apart]
    cases l <;> simp [squeeze]

theorem destutter'_concat (l m : List Char) (ls : List (List Char)) :
    (ls ++ [m]).destutter' SomeText l =
      if m = [] ∧ (ls.destutter' SomeText l).getLast? = some [] then ls.destutter' SomeText l
      else ls.destutter' SomeText l ++ [m] := by
  induction ls generalizing l with
  | nil => cases l <;> cases m <;> simp [SomeText]
  | cons k ls ih =>
    by_cases h : SomeText l k
    · have hlast : (l :: ls.destutter' SomeText k).getLast? = (ls.destutter' SomeText k).getLast? := by
        obtain ⟨d, ds, hd⟩ := List.exists_cons_of_ne_nil (List.destutter'_ne_nil ls SomeText (a := k))
        rw [hd, List.getLast?_cons_cons]
      rw [List.cons_append, List.destutter'_cons_pos _ h, List.destutter'_cons_pos _ h, ih k, hlast]
      split <;> rfl
    · rw [List.cons_append, List.destutter'_cons_neg _ h, List.destutter'_cons_neg _ h, ih l]

/-- A blank line is left out behind a blank line. -/
theorem collapse_concat (ls : List (List Char)) (m : List Char) :
    collapse (ls ++ [m]) =
      if m = [] ∧ (collapse ls).getLast? = some [] then collapse ls else collapse ls ++ [m] := by
  cases ls with
  | nil => simp [collapse]
  | cons l ls => exact destutter'_concat l m ls

@[simp]
theorem dropBlankEnd_concat_nil (ls : List (List Char)) : dropBlankEnd (ls ++ [[]]) = ls := by
  simp [dropBlankEnd]

theorem dropBlankEnd_eq_self {ls : List (List Char)} (h : ls.getLast? ≠ some []) :
    dropBlankEnd ls = ls :=
  if_neg h

/-- Of the blank lines at the end, one is left to be dropped. -/
theorem dropBlankEnd_collapse (ls : List (List Char)) :
    dropBlankEnd (collapse ls) = collapse (ls.rdropWhile (·.isEmpty)) := by
  induction ls using List.reverseRecOn with
  | nil => rfl
  | append_singleton ls m ih =>
    by_cases hm : m = []
    · subst hm
      rw [List.rdropWhile_concat_pos _ _ _ rfl, ← ih, collapse_concat]
      by_cases hlast : (collapse ls).getLast? = some []
      · rw [if_pos ⟨rfl, hlast⟩]
      · rw [if_neg (hlast ·.2), dropBlankEnd_concat_nil, dropBlankEnd_eq_self hlast]
    · rw [List.rdropWhile_concat_neg _ _ _ (by simpa using hm), collapse_concat, if_neg (hm ·.1),
        dropBlankEnd_eq_self (by simpa using hm)]

/-- To look back at one line is enough. -/
theorem dropBlankEnd_squeeze (ls : List (List Char)) :
    dropBlankEnd (squeeze true ls) = normalLines ls := by
  rw [squeeze_true, squeeze_false, dropBlankEnd_collapse, normalLines, withoutBlankEnds,
    strip]

/-! ## Normal lines -/

/-- Lines with nothing to take away: each of them is one line and ends with no
    spacing, and no blank line stands at an end or behind another one. -/
structure Normal (ls : List (List Char)) : Prop where
  onLine : ∀ l ∈ ls, '\n' ∉ l
  cut : ∀ l ∈ ls, dropEndWhile isSpacing l = l
  first : ls.head? ≠ some []
  last : ls.getLast? ≠ some []
  apart : ls.IsChain SomeText

theorem normalLines_subset (ls : List (List Char)) : normalLines ls ⊆ ls :=
  ((List.destutter_sublist _ _).trans (strip_sublist _ ls)).subset

theorem head?_collapse (ls : List (List Char)) : (collapse ls).head? = ls.head? := by
  cases ls with
  | nil => rfl
  | cons l ls => rw [collapse, List.destutter_cons', destutter'_apart]; rfl

theorem getLast?_collapse (ls : List (List Char)) : (collapse ls).getLast? = ls.getLast? := by
  induction ls using List.reverseRecOn with
  | nil => rfl
  | append_singleton ls m _ =>
    rw [collapse_concat]
    split
    · rename_i h
      rw [h.2, List.getLast?_concat, h.1]
    · rw [List.getLast?_concat, List.getLast?_concat]

theorem normal_normalLines {ls : List (List Char)} (hline : ∀ l ∈ ls, '\n' ∉ l)
    (hcut : ∀ l ∈ ls, dropEndWhile isSpacing l = l) : Normal (normalLines ls) where
  onLine l hl := hline l (normalLines_subset ls hl)
  cut l hl := hcut l (normalLines_subset ls hl)
  first := by
    rw [normalLines, head?_collapse]
    exact fun h => not_of_head?_strip h rfl
  last := by
    rw [normalLines, getLast?_collapse]
    exact fun h => not_of_getLast?_strip h rfl
  apart := List.isChain_destutter _ _

namespace Normal

variable {ls : List (List Char)} (h : Normal ls)
include h

theorem normalLines_eq_self : normalLines ls = ls := by
  have hfirst : ∀ l ∈ ls.head?, ¬ l.isEmpty := fun l hl hempty =>
    h.first (hl.trans (congrArg some (List.isEmpty_iff.1 hempty)))
  have hlast : ∀ l ∈ ls.getLast?, ¬ l.isEmpty := fun l hl hempty =>
    h.last (hl.trans (congrArg some (List.isEmpty_iff.1 hempty)))
  rw [normalLines, withoutBlankEnds, strip_eq_self hfirst hlast]
  exact List.destutter_of_isChain _ _ h.apart

theorem getLast?_ne_return : ∀ l ∈ ls, l.getLast? ≠ some '\r' :=
  fun l hl hlast => not_of_getLast? (h.cut l hl) hlast rfl

theorem lines_terminated : lines (terminated ls) = ls :=
  Text.lines_terminated h.onLine h.getLast?_ne_return

theorem head?_terminated : (terminated ls).head? ≠ some '\n' := by
  cases ls with
  | nil => simp
  | cons l ls =>
    have hfirst := h.first
    have hline := h.onLine l List.mem_cons_self
    cases l with
    | nil => simp at hfirst
    | cons c l => simpa using fun heq : c = '\n' => hline (by simp [heq])

theorem terminated_eq_append (hne : ls ≠ []) :
    ∃ front c, terminated ls = front ++ [c, '\n'] ∧ c ≠ '\n' := by
  have hlast := h.last
  obtain ⟨front, l, rfl⟩ := (List.eq_nil_or_concat' ls).resolve_left hne
  have hl : l ≠ [] := by simpa using hlast
  obtain ⟨l, c, rfl⟩ := (List.eq_nil_or_concat' l).resolve_left hl
  refine ⟨terminated front ++ l, c, by simp, fun hc => ?_⟩
  exact h.onLine (l ++ [c]) (by simp) (by simp [hc])

/-- It never holds three line feeds in a row: two blank lines would stand together. -/
theorem not_infix_terminated : ¬ ['\n', '\n', '\n'] <:+: terminated ls := by
  rintro ⟨front, rest, heq⟩
  have hsplit := splitOn_terminated h.onLine
  rw [← heq, List.append_assoc] at hsplit
  have hblank (cs : List Char) : ('\n' :: cs).splitOn '\n' = [] :: cs.splitOn '\n' :=
    List.splitOn_append_cons_self [] cs
  simp only [List.cons_append, List.nil_append, List.splitOn_append_cons_self, hblank] at hsplit
  obtain ⟨r, rs, hr⟩ := List.exists_cons_of_ne_nil (List.splitOn_ne_nil '\n' rest)
  have hls := congrArg List.dropLast hsplit
  rw [hr, List.dropLast_concat, List.dropLast_append_of_ne_nil (by simp)] at hls
  have hapart := h.apart
  rw [← hls] at hapart
  simpa [SomeText] using (List.isChain_append_cons_cons.1 hapart).2.1

end Normal

/-! ## Doc texts -/

/-- The lines of some texts, without the spacing at their ends. -/
def cutLines (bodies : List (List Char)) : List (List Char) :=
  (bodies.flatMap (·.splitOn '\n')).map (dropEndWhile isSpacing)

theorem bodyLines_eq (cs : List Comment) :
    bodyLines cs = cutLines (cs.map (commentBody ·.text.toList)) := by
  rw [bodyLines, cutLines, List.flatMap_map, List.map_flatMap]

theorem normal_cutLines (bodies : List (List Char)) : Normal (normalLines (cutLines bodies)) := by
  refine normal_normalLines ?_ ?_ <;> intro l hl <;> obtain ⟨piece, hpiece, rfl⟩ := List.mem_map.1 hl
  · obtain ⟨b, -, hb⟩ := List.mem_flatMap.1 hpiece
    exact fun h => not_mem_of_mem_splitOn hb (dropEndWhile_subset _ _ h)
  · exact dropEndWhile_dropEndWhile _ _

/-- Normal lines are what is left of themselves. -/
theorem Normal.cutLines_eq_self {ls : List (List Char)} (h : Normal ls) : cutLines ls = ls := by
  have hsplit : ls.flatMap (·.splitOn '\n') = ls := by
    rw [List.flatMap_congr fun l hl => List.splitOn_eq_singleton (h.onLine l hl)]
    exact List.flatMap_singleton' ls
  rw [cutLines, hsplit, List.map_congr_left h.cut, List.map_id']

/-- A line as a comment. -/
def lineComment (l : List Char) : String := "-- " ++ String.ofList l

theorem commentBody_lineComment (l : List Char) : commentBody (lineComment l).toList = l := by
  simp [lineComment, commentBody]

namespace CommentGroup

theorem text_eq (g : CommentGroup) :
    g.text = String.ofList
      (terminated (normalLines (cutLines (g.comments.map (commentBody ·.text.toList))))) := by
  rw [text, dropBlankEnd_squeeze, bodyLines_eq, terminated]

/-- Comments that say normal lines give these lines as their text. -/
theorem text_eq_of_normal {g : CommentGroup} {ls : List (List Char)} (hls : Normal ls)
    (h : g.comments.map (·.text) = ls.map lineComment) :
    g.text = String.ofList (terminated ls) := by
  have hbodies : g.comments.map (commentBody ·.text.toList) = ls := by
    calc g.comments.map (commentBody ·.text.toList)
      _ = (g.comments.map (·.text)).map (commentBody ·.toList) := by rw [List.map_map]; rfl
      _ = ls.map (commentBody <| String.toList <| lineComment ·) := by
        rw [h, List.map_map]; rfl
      _ = ls := by simp [commentBody_lineComment]
  rw [text_eq, hbodies, hls.cutLines_eq_self, hls.normalLines_eq_self]

theorem exists_lineComments {ls : List (List Char)} (h : ls ≠ []) :
    ∃ g : CommentGroup, g.comments.map (·.text) = ls.map lineComment :=
  ⟨⟨ls.map (⟨lineComment ·, 0⟩), by simpa using h⟩, by simp⟩

/-- **A doc text is in normal form.**  Each comment of a group says one thing, and the
    text is what they say, cut into lines that end with no spacing, without the blank
    lines at both ends, and with one blank line in place of several.

    So the text is empty or ends with one line feed; it never starts with one and never
    holds three in a row; and the comments made of its own lines, of which there are some
    unless the text is empty, have the same text. -/
theorem text_eq_normalLines (g : CommentGroup) :
    (∃ bodies,
      (∀ bs, List.Forall₂ (fun c b => Says c.text.toList b) g.comments bs ↔ bs = bodies) ∧
      g.text = String.ofList (terminated (normalLines (cutLines bodies)))) ∧
    (g.text = "" ∨ ∃ front c, g.text.toList = front ++ [c, '\n'] ∧ c ≠ '\n') ∧
    g.text.toList.head? ≠ some '\n' ∧
    ¬ ['\n', '\n', '\n'] <:+: g.text.toList ∧
    (g.text ≠ "" → ∃ g' : CommentGroup,
      g'.comments.map (·.text) = (lines g.text.toList).map lineComment) ∧
    ∀ g' : CommentGroup, g'.comments.map (·.text) = (lines g.text.toList).map lineComment →
      g'.text = g.text := by
  refine ⟨⟨_, fun _ => forall₂_says_iff, g.text_eq⟩, ?_⟩
  have hnormal := normal_cutLines (g.comments.map (commentBody ·.text.toList))
  have htext := g.text_eq
  generalize normalLines (cutLines (g.comments.map (commentBody ·.text.toList))) = ls
    at hnormal htext
  have hchars : g.text.toList = terminated ls := by rw [htext, String.toList_ofList]
  have hlines : lines g.text.toList = ls := by rw [hchars, hnormal.lines_terminated]
  have hne (h : g.text ≠ "") : ls ≠ [] := fun hls => h (by rw [htext, hls]; rfl)
  rw [hlines, hchars]
  refine ⟨?_, hnormal.head?_terminated, hnormal.not_infix_terminated,
    fun h => exists_lineComments (hne h), fun g' h => (text_eq_of_normal hnormal h).trans htext.symm⟩
  by_cases h : g.text = ""
  · exact .inl h
  · exact .inr (hnormal.terminated_eq_append (hne h))

/-- Blank lines from two comments stand together in the first group. -/
theorem text_of_own_lines :
    CommentGroup.text ⟨[⟨"/*\n Adds.\n\n\n  x \n*/", 0⟩, ⟨"--", 22⟩, ⟨"-- \ty \r", 25⟩, ⟨"/*/", 33⟩],
        by simp⟩ = " Adds.\n\n  x\n\n\ty\n/\n" ∧
      CommentGroup.text ⟨[⟨"--  Adds.", 0⟩, ⟨"-- ", 10⟩, ⟨"--   x", 14⟩, ⟨"-- ", 21⟩, ⟨"-- \ty", 25⟩,
        ⟨"-- /", 31⟩], by simp⟩ = " Adds.\n\n  x\n\n\ty\n/\n" := by
  have htext : CommentGroup.text ⟨[⟨"/*\n Adds.\n\n\n  x \n*/", 0⟩, ⟨"--", 22⟩, ⟨"-- \ty \r", 25⟩,
      ⟨"/*/", 33⟩], by simp⟩ = " Adds.\n\n  x\n\n\ty\n/\n" := by decide +kernel
  refine ⟨htext, ?_⟩
  rw [(text_eq_normalLines _).2.2.2.2.2 ⟨_, _⟩ ?_, htext]
  decide +kernel

end CommentGroup

end PackageDoc
