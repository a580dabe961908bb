/-
  The rule of attribution.

  The comments between two tokens are divided without looking at more than their lines.
  Those that document the token before are the longest run from its line on in which each
  comment starts where the one before it ends (`SameLine`).  Those that document the token
  behind are the longest run at the end of the others in which each comment starts at most
  one line further down (`Leading`).  `Attributed` tells from the two runs what the groups
  of a token are, and `commentSlots`, which goes over the comments from the first to the
  last, keeps to it (`attributed_commentSlots`).
-/
import Mathlib.Data.List.Chain
import Mathlib.Data.List.Induction
import PackageDoc.Proofs.Comment.Attribution

namespace PackageDoc

/-! ## The rule -/

/-- The comment `d` starts on the line where `c` ends. -/
def PlacedComment.Meets (c d : PlacedComment) : Prop := d.first ≤ c.last

/-- The comment `d` starts at most one line below the end of `c`. -/
def PlacedComment.Near (c d : PlacedComment) : Prop := d.first ≤ c.last + 1

/-- The comments `same` at the front of `cs` are on the line of the token before, which is
    `previous`: the longest run from there on. -/
structure SameLine (previous : Option Nat) (cs same : List PlacedComment) : Prop where
  front : same <+: cs
  chain : same.IsChain PlacedComment.Meets
  /-- without a token before, or with the first comment on another line, there are none -/
  apart : (cs.head?.map (·.first) = none ∨ cs.head?.map (·.first) ≠ previous) → same = []
  longest : (∃ line, previous = some line ∧ cs.head?.map (·.first) = some line) →
    ∀ run, run <+: cs → run.IsChain PlacedComment.Meets → run.length ≤ same.length

/-- The comments `lead` at the end of `others` stand together: the longest run up to
    there. -/
structure Leading (others lead : List PlacedComment) : Prop where
  back : lead <:+ others
  chain : lead.IsChain PlacedComment.Near
  longest : ∀ run, run <:+ others → run.IsChain PlacedComment.Near →
    run.length ≤ lead.length

/-- The groups `slots` are those of a token on line `next` with the comments `cs` before
    it and a token on line `previous` before these. -/
def Attributed (previous : Option Nat) (cs : List PlacedComment) (next : Nat) (atEnd : Bool)
    (slots : CommentSlots) : Prop :=
  ∃ same others lead, cs = same ++ others ∧ SameLine previous cs same ∧ Leading others lead ∧
    slots.line.map (·.comments) =
      (if same ≠ [] ∧ (atEnd = true ∧ others = [] ∨
          same.getLast?.map (·.last) ≠ some ((others.head?.map (·.first)).getD next)) then
        some (same.map (·.comment))
      else none) ∧
    slots.lead.map (·.comments) =
      if lead ≠ [] ∧ lead.getLast?.map (·.last + 1) = some next then some (lead.map (·.comment))
      else none

/-! ## The runs -/

theorem chain_splitRun (line : Nat) (cs : List PlacedComment) :
    (splitRun line cs).1.IsChain PlacedComment.Meets ∧
      ∀ c ∈ (splitRun line cs).1.head?, c.first ≤ line := by
  induction cs generalizing line with
  | nil => simp [splitRun]
  | cons c cs ih =>
    unfold splitRun
    split
    · rename_i hc
      obtain ⟨hchain, hhead⟩ := ih c.last
      exact ⟨List.isChain_cons.2 ⟨hhead, hchain⟩, by simpa using hc⟩
    · simp

/-- No run from the line on is longer than the one that is split off. -/
theorem length_le_splitRun {line : Nat} {cs run : List PlacedComment} (hrun : run <+: cs)
    (hchain : run.IsChain PlacedComment.Meets) (hhead : ∀ c ∈ run.head?, c.first ≤ line) :
    run.length ≤ (splitRun line cs).1.length := by
  induction run generalizing line cs with
  | nil => exact Nat.zero_le _
  | cons c run ih =>
    obtain ⟨rest, rfl⟩ := hrun
    obtain ⟨hnext, hchain⟩ := List.isChain_cons.1 hchain
    have hmore := ih (List.prefix_append run rest) hchain hnext
    have hc : c.first ≤ line := hhead c (by simp)
    rw [List.cons_append, splitRun, if_pos hc]
    simpa using hmore

theorem sameLine_splitSameLine (previous : Option Nat) (cs : List PlacedComment) :
    SameLine previous cs (splitSameLine previous cs).1 := by
  unfold splitSameLine
  split
  · rename_i line c cs
    split
    · rename_i hc
      have hfront : (splitRun line (c :: cs)).1 <+: c :: cs := ⟨_, splitRun_append line _⟩
      refine ⟨hfront, (chain_splitRun line _).1, by simp [hc], fun _ run hrun hchain => ?_⟩
      refine length_le_splitRun hrun hchain fun d hd => ?_
      obtain ⟨rest, hrest⟩ := hrun
      cases run with
      | nil => cases hd
      | cons e run =>
        obtain rfl : e = d := by simpa using hd
        obtain rfl : e = c := (List.cons.inj hrest).1
        exact Nat.le_of_eq hc
    · rename_i hc
      refine ⟨List.nil_prefix, .nil, fun _ => rfl, ?_⟩
      rintro ⟨line', hline, hhead⟩
      obtain rfl := Option.some.inj hline
      exact absurd (by simpa using hhead) hc
  · rename_i hother
    refine ⟨List.nil_prefix, .nil, fun _ => rfl, ?_⟩
    rintro ⟨line, rfl, hhead⟩
    cases cs with
    | nil => cases hhead
    | cons c cs => exact absurd rfl (hother line c cs rfl)

/-- One more comment goes on with the last run, or starts a new one. -/
theorem lastRun_concat (cs : List PlacedComment) (c : PlacedComment) :
    lastRun (cs ++ [c]) =
      if ∀ p ∈ (lastRun cs).getLast?, c.first ≤ p.last + 1 then lastRun cs ++ [c] else [c] := by
  simp only [lastRun, List.foldl_append, List.foldl_cons, List.foldl_nil, List.getLast?_reverse]
  cases cs.foldl joinRun [] with
  | nil => rfl
  | cons p run =>
    by_cases hnear : c.first ≤ p.last + 1 <;> simp [joinRun, hnear]

theorem lastRun_ne_nil {cs : List PlacedComment} (h : cs ≠ []) : lastRun cs ≠ [] := by
  rcases List.eq_nil_or_concat cs with rfl | ⟨front, c, rfl⟩
  · exact absurd rfl h
  · rw [List.concat_eq_append, lastRun_concat]
    split <;> simp

theorem getLast?_lastRun (cs : List PlacedComment) : (lastRun cs).getLast? = cs.getLast? := by
  rcases List.eq_nil_or_concat cs with rfl | ⟨front, c, rfl⟩
  · rfl
  · rw [List.concat_eq_append, lastRun_concat]
    split <;> simp

/-- The induction is on the comments from the last one on: a longer run would be one
    without the last comment, too. -/
theorem leading_lastRun (cs : List PlacedComment) : Leading cs (lastRun cs) := by
  refine ⟨lastRun_suffix cs, ?_, ?_⟩
  · induction cs using List.reverseRecOn with
    | nil => exact .nil
    | append_singleton cs c ih =>
      rw [lastRun_concat]
      split
      · rename_i hnear
        exact List.isChain_append.2 ⟨ih, .singleton c, by simpa [PlacedComment.Near] using hnear⟩
      · exact .singleton c
  · intro run hrun hchain
    induction cs using List.reverseRecOn generalizing run with
    | nil => simp [List.suffix_nil.1 hrun]
    | append_singleton cs c ih =>
      rcases List.eq_nil_or_concat run with rfl | ⟨run, d, rfl⟩
      · exact Nat.zero_le _
      rw [List.concat_eq_append] at hrun hchain ⊢
      obtain ⟨rfl, hback⟩ : d = c ∧ run <:+ cs := by
        obtain ⟨front, hfront⟩ := hrun
        rw [← List.append_assoc] at hfront
        obtain ⟨hcs, hc⟩ := List.append_inj' hfront rfl
        exact ⟨(List.cons.inj hc).1, front, hcs⟩
      obtain ⟨hchain, -, hlast⟩ := List.isChain_append.1 hchain
      have hlength := ih run hback hchain
      rw [lastRun_concat]
      by_cases hnil : run = []
      · subst hnil
        split <;> simp
      · have hsame : run.getLast? = cs.getLast? := by
          obtain ⟨front, rfl⟩ := hback
          rw [List.getLast?_append, List.getLast?_eq_some_getLast hnil, Option.some_or]
        rw [if_pos]
        · simpa using hlength
        · intro p hp
          rw [getLast?_lastRun, ← hsame] at hp
          exact hlast p hp d (by simp)

/-! ## The groups -/

theorem comments_groupOf? (cs : List PlacedComment) :
    (groupOf cs).map (·.comments) = if cs = [] then none else some (cs.map (·.comment)) := by
  cases cs <;> rfl

/-- **The groups of a token keep to the rule.** -/
theorem attributed_commentSlots (previous : Option Nat) (cs : List PlacedComment) (next : Nat)
    (atEnd : Bool) : Attributed previous cs next atEnd (commentSlots previous cs next atEnd) := by
  refine ⟨_, _, _, (splitSameLine_append previous cs).symm, sameLine_splitSameLine previous cs,
    leading_lastRun _, ?_, ?_⟩
  · simp only [commentSlots]
    split <;> rename_i hcond
    · rw [comments_groupOf?]
      by_cases hnil : (splitSameLine previous cs).1 = []
      · simp [hnil]
      · rw [if_neg hnil, if_pos ⟨hnil, hcond.elim .inr fun h => .inl h.symm⟩]
    · rw [if_neg, Option.map_none]
      · rintro ⟨-, h | h⟩
        · exact hcond (.inr h.symm)
        · exact hcond (.inl h)
  · simp only [commentSlots]
    split <;> rename_i hcond
    · have hne : lastRun (splitSameLine previous cs).2 ≠ [] := by
        intro hnil
        simp [hnil] at hcond
      rw [comments_groupOf?, if_neg hne, if_pos ⟨hne, hcond⟩]
    · rw [if_neg fun h => hcond h.2]
      rfl

end PackageDoc
