/-
  Texts and their lines.

  A text is cut at its line feeds into pieces that hold none.  `terminated` puts
  lines together again, with a line feed behind each: that gives back both the
  pieces (`splitOn_terminated`) and, where no line ends with a carriage return,
  the lines (`lines_terminated`).

  What is blank can be dropped at both ends, of a line (`trim`) as of a list of
  lines: `strip` is either.
-/
import Mathlib.Data.List.DropRight
import Mathlib.Data.List.TakeWhile
import PackageDoc.Text.Lines

namespace PackageDoc.Text

/-- No piece of a text holds the character at which it was cut. -/
theorem not_mem_of_mem_splitOn {sep : Char} {cs piece : List Char} (h : piece ∈ cs.splitOn sep) :
    sep ∉ piece := by
  induction cs generalizing piece with
  | nil =>
    rw [List.splitOn_nil, List.mem_singleton] at h
    simp [h]
  | cons c cs ih =>
    rw [List.splitOn_cons_eq_if_modifyHead] at h
    split at h
    · rcases List.mem_cons.1 h with rfl | h
      · simp
      · exact ih h
    · rename_i hc
      obtain ⟨p, ps, hps⟩ := List.exists_cons_of_ne_nil (List.splitOn_ne_nil sep cs)
      rw [hps, List.modifyHead_cons] at h
      rcases List.mem_cons.1 h with rfl | h
      · have hp : sep ∉ p := ih (hps ▸ List.mem_cons_self)
        simpa [hp] using fun heq : sep = c => hc (by simp [heq])
      · exact ih (hps ▸ List.mem_cons_of_mem _ h)

theorem dropEndWhile_subset (p : Char → Bool) (cs : List Char) : dropEndWhile p cs ⊆ cs :=
  (List.rdropWhile_prefix p cs).subset

@[simp]
theorem dropEndWhile_dropEndWhile (p : Char → Bool) (cs : List Char) :
    dropEndWhile p (dropEndWhile p cs) = dropEndWhile p cs :=
  List.rdropWhile_idempotent p cs

/-! ## Both ends -/

section Strip

variable {α : Type} {p : α → Bool} {xs : List α} {x : α}

/-- A list without the members at its ends that satisfy `p`. -/
def strip (p : α → Bool) (xs : List α) : List α := (xs.dropWhile p).rdropWhile p

theorem strip_sublist (p : α → Bool) (xs : List α) : (strip p xs).Sublist xs :=
  (List.rdropWhile_prefix _ _).sublist.trans (List.dropWhile_sublist _)

/-- Where nothing is dropped, the last member is none to drop. -/
theorem not_of_getLast? (h : xs.rdropWhile p = xs) (hlast : xs.getLast? = some x) : ¬ p x := by
  obtain ⟨front, rfl⟩ := List.getLast?_eq_some_iff.1 hlast
  simpa using List.rdropWhile_eq_self_iff.1 h (by simp)

/-- What stands before a member that stays, stays too. -/
theorem rdropWhile_cons_of_not (h : ¬ p x) (xs : List α) :
    (x :: xs).rdropWhile p = x :: xs.rdropWhile p := by
  rw [List.rdropWhile, List.reverse_cons, List.dropWhile_append, List.rdropWhile]
  split <;> simp_all

theorem not_of_head?_strip (h : (strip p xs).head? = some x) : ¬ p x := by
  obtain ⟨front, hfront⟩ := List.head?_eq_some_iff.1 h
  obtain ⟨rest, hrest⟩ := List.rdropWhile_prefix p (xs.dropWhile p)
  have hhead := List.head?_dropWhile_not p xs
  rw [← hrest, ← strip, hfront] at hhead
  simpa using hhead

theorem not_of_getLast?_strip (h : (strip p xs).getLast? = some x) : ¬ p x :=
  not_of_getLast? (List.rdropWhile_idempotent p _) h

theorem strip_eq_self (hfirst : ∀ x ∈ xs.head?, ¬ p x) (hlast : ∀ x ∈ xs.getLast?, ¬ p x) :
    strip p xs = xs := by
  have hdrop : xs.dropWhile p = xs := by
    cases xs with
    | nil => rfl
    | cons x xs => exact List.dropWhile_cons_of_neg (hfirst x rfl)
  rw [strip, hdrop, List.rdropWhile_eq_self_iff]
  exact fun hne => hlast _ (List.getLast?_eq_some_getLast hne)

@[simp]
theorem strip_strip (p : α → Bool) (xs : List α) : strip p (strip p xs) = strip p xs :=
  strip_eq_self (fun _ h => not_of_head?_strip h) fun _ h => not_of_getLast?_strip h

theorem strip_append (hfront : ∀ y ∈ xs, p y) (ys : List α) : strip p (xs ++ ys) = strip p ys := by
  rw [strip, List.dropWhile_append_of_pos hfront, strip]

theorem strip_eq_nil_iff : strip p xs = [] ↔ ∀ y ∈ xs, p y := by
  rw [strip, List.rdropWhile_eq_nil_iff, ← List.dropWhile_eq_nil_iff, List.dropWhile_idempotent,
    List.dropWhile_eq_nil_iff]

end Strip

theorem trim_eq_strip (l : List Char) : trim l = strip isBlank l := rfl

theorem trim_subset (l : List Char) : trim l ⊆ l := (strip_sublist isBlank l).subset

@[simp]
theorem trim_trim (l : List Char) : trim (trim l) = trim l := strip_strip isBlank l

theorem trim_append {front : List Char} (h : isBlankLine front = true) (l : List Char) :
    trim (front ++ l) = trim l :=
  strip_append (List.all_eq_true.1 h) l

theorem trim_eq_nil_iff {l : List Char} : trim l = [] ↔ isBlankLine l = true := by
  rw [trim_eq_strip, strip_eq_nil_iff, isBlankLine, List.all_eq_true]

/-- The indent of a line is white space. -/
theorem isBlankLine_take {l : List Char} {n : Nat} (h : n ≤ indent l) :
    isBlankLine (l.take n) = true := by
  refine List.all_eq_true.2 fun c hc => ?_
  have hfront : l.take n <+: l.takeWhile (· == ' ') :=
    List.prefix_of_prefix_length_le (List.take_prefix n l) (List.takeWhile_prefix _)
      ((List.length_take_le n l).trans h)
  have hspace : (c == ' ') = true := List.mem_takeWhile_imp (p := (· == ' ')) (hfront.subset hc)
  rw [beq_iff_eq.1 hspace]
  decide

theorem trim_drop {l : List Char} {n : Nat} (h : n ≤ indent l) : trim (l.drop n) = trim l := by
  conv_rhs => rw [← List.take_append_drop n l, trim_append (isBlankLine_take h)]

/-! ## Lines put together -/

/-- Some lines as a text, each with a line feed behind it. -/
def terminated (ls : List (List Char)) : List Char := ls.flatMap (· ++ ['\n'])

@[simp]
theorem terminated_nil : terminated [] = [] := rfl

@[simp]
theorem terminated_cons (l : List Char) (ls : List (List Char)) :
    terminated (l :: ls) = l ++ '\n' :: terminated ls := by
  simp [terminated]

@[simp]
theorem terminated_append (ls ms : List (List Char)) :
    terminated (ls ++ ms) = terminated ls ++ terminated ms :=
  List.flatMap_append

variable {ls : List (List Char)}

/-- Behind the last line feed stands an empty piece. -/
theorem splitOn_terminated (h : ∀ l ∈ ls, '\n' ∉ l) :
    (terminated ls).splitOn '\n' = ls ++ [[]] := by
  induction ls with
  | nil => rfl
  | cons l ls ih =>
    obtain ⟨hl, hls⟩ := List.forall_mem_cons.1 h
    rw [terminated_cons, List.splitOn_append_cons_self_of_not_mem hl, ih hls, List.cons_append]

theorem dropReturn_eq_self {l : List Char} (h : l.getLast? ≠ some '\r') : dropReturn l = l :=
  if_neg h

theorem lines_terminated (h : ∀ l ∈ ls, '\n' ∉ l) (hreturn : ∀ l ∈ ls, l.getLast? ≠ some '\r') :
    lines (terminated ls) = ls := by
  have hdrop : ls.map dropReturn = ls :=
    (List.map_congr_left fun l hl => dropReturn_eq_self (hreturn l hl)).trans (List.map_id ls)
  simp [lines, splitOn_terminated h, hdrop]

theorem dropReturn_subset (l : List Char) : dropReturn l ⊆ l := by
  unfold dropReturn
  split
  · exact (List.dropLast_prefix l).subset
  · exact List.Subset.refl l

theorem not_mem_of_mem_lines {cs l : List Char} (h : l ∈ lines cs) : '\n' ∉ l := by
  rcases List.mem_append.1 h with h | h
  · obtain ⟨piece, hpiece, rfl⟩ := List.mem_map.1 h
    have hmem := not_mem_of_mem_splitOn ((List.dropLast_prefix _).subset hpiece)
    exact fun hl => hmem (dropReturn_subset piece hl)
  · have hlast := Option.mem_toList.1 (List.mem_filter.1 h).1
    exact not_mem_of_mem_splitOn (List.mem_of_getLast? hlast)

end PackageDoc.Text
