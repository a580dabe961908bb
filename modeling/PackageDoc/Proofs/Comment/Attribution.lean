/-
  The groups of a token are runs of comments.

  Whatever lines the comments stand on, the groups that they form before a token
  are made of them, one behind the other: the line group is the front of a run
  (`splitSameLine_append`), the lead group is the end of what is left
  (`lastRun_suffix`).  So every group of a token is a run of the comments on the
  way to it (`attached_attachFrom`).

  Nothing but the lines of the comments decides which groups they form, and nothing
  but how far the lines lie apart: comments that are changed, and stand further on,
  form the groups that they did (`commentSlots_move`).
-/
import PackageDoc.Comment.Attribution
import PackageDoc.Proofs.Decl.Recast

namespace PackageDoc

/-! ## Runs -/

theorem splitRun_append (line : Nat) (cs : List PlacedComment) :
    (splitRun line cs).1 ++ (splitRun line cs).2 = cs := by
  induction cs generalizing line with
  | nil => rfl
  | cons c cs ih =>
    unfold splitRun
    split
    · exact congrArg (c :: ·) (ih c.last)
    · rfl

theorem splitSameLine_append (previous : Option Nat) (cs : List PlacedComment) :
    (splitSameLine previous cs).1 ++ (splitSameLine previous cs).2 = cs := by
  unfold splitSameLine
  split
  · split
    · exact splitRun_append _ _
    · rfl
  · rfl

theorem joinRun_suffix (run : List PlacedComment) (c : PlacedComment) :
    (joinRun run c).reverse <:+ run.reverse ++ [c] := by
  unfold joinRun
  split
  · exact List.suffix_refl _
  · split
    · simp
    · exact List.suffix_append _ _

/-- The last run of some comments is the end of them.  The induction is on the
    comments that are still to be joined to the run. -/
theorem lastRun_suffix (cs : List PlacedComment) : lastRun cs <:+ cs := by
  suffices h : ∀ run, (cs.foldl joinRun run).reverse <:+ run.reverse ++ cs from h []
  induction cs with
  | nil => simp
  | cons c cs ih =>
    intro run
    obtain ⟨before, hbefore⟩ := joinRun_suffix run c
    refine (ih (joinRun run c)).trans ⟨before, ?_⟩
    rw [← List.append_assoc, hbefore]
    simp

/-! ## Groups -/

theorem comments_groupOf {cs : List PlacedComment} {g : CommentGroup} (h : groupOf cs = some g) :
    g.comments = cs.map (·.comment) := by
  unfold groupOf CommentGroup.ofList? at h
  split at h
  · cases h
  · rw [← Option.some.inj h]

/-- The groups around a token hold comments that follow one another. -/
theorem commentSlots_infix {previous : Option Nat} {cs : List PlacedComment} {next : Nat}
    {atEnd : Bool} {g : CommentGroup}
    (h : (commentSlots previous cs next atEnd).lead = some g ∨
      (commentSlots previous cs next atEnd).line = some g) :
    ∃ run, run <:+: cs ∧ g.comments = run.map (·.comment) := by
  have hsplit := splitSameLine_append previous cs
  rcases h with h | h
  · simp only [commentSlots] at h
    split at h
    · refine ⟨_, (lastRun_suffix _).isInfix.trans ?_, comments_groupOf h⟩
      exact List.IsSuffix.isInfix ⟨_, hsplit⟩
    · cases h
  · simp only [commentSlots] at h
    split at h
    · exact ⟨_, List.IsPrefix.isInfix ⟨_, hsplit⟩, comments_groupOf h⟩
    · cases h

/-! ## Comments elsewhere -/

/-- A comment that is changed and stands `k` lines further on. -/
def PlacedComment.move (f : Comment → Comment) (k : Nat) (c : PlacedComment) : PlacedComment :=
  ⟨f c.comment, c.first + k, c.last + k⟩

/-- Groups with each of their comments changed. -/
def CommentSlots.map (f : Comment → Comment) (s : CommentSlots) : CommentSlots :=
  ⟨s.line.map (·.map f), s.lead.map (·.map f)⟩

section
variable (f : Comment → Comment) (k : Nat)

@[simp]
theorem PlacedComment.first_move (c : PlacedComment) : (c.move f k).first = c.first + k := rfl

@[simp]
theorem PlacedComment.last_move (c : PlacedComment) : (c.move f k).last = c.last + k := rfl

theorem groupOf_move (cs : List PlacedComment) :
    groupOf (cs.map (·.move f k)) = (groupOf cs).map (·.map f) := by
  cases cs with
  | nil => rfl
  | cons c cs =>
    simp [groupOf, CommentGroup.ofList?, CommentGroup.map, PlacedComment.move]

theorem splitRun_move (line : Nat) (cs : List PlacedComment) :
    splitRun (line + k) (cs.map (·.move f k)) =
      ((splitRun line cs).1.map (·.move f k), (splitRun line cs).2.map (·.move f k)) := by
  induction cs generalizing line with
  | nil => rfl
  | cons c cs ih =>
    simp only [List.map_cons, splitRun, PlacedComment.first_move, PlacedComment.last_move,
      Nat.add_le_add_iff_right, ih]
    split <;> rfl

theorem foldl_joinRun_move (cs run : List PlacedComment) :
    (cs.map (·.move f k)).foldl joinRun (run.map (·.move f k)) =
      (cs.foldl joinRun run).map (·.move f k) := by
  induction cs generalizing run with
  | nil => rfl
  | cons c cs ih =>
    rw [List.map_cons, List.foldl_cons, List.foldl_cons, ← ih]
    congr 1
    cases run with
    | nil => rfl
    | cons p run =>
      simp only [joinRun, List.map_cons, PlacedComment.first_move, PlacedComment.last_move,
        Nat.add_right_comm _ k 1, Nat.add_le_add_iff_right]
      split <;> rfl

theorem lastRun_move (cs : List PlacedComment) :
    lastRun (cs.map (·.move f k)) = (lastRun cs).map (·.move f k) := by
  have h := foldl_joinRun_move f k cs []
  rw [List.map_nil] at h
  rw [lastRun, lastRun, h, List.map_reverse]

end

/-- The line of the token before: the same token, or one that stands before the
    text. -/
def Follows (k : Nat) (previous previous' : Option Nat) : Prop :=
  previous' = previous.map (· + k) ∨ previous = none ∧ ∃ line ≤ k, previous' = some line

theorem splitSameLine_move (f : Comment → Comment) {k : Nat} {previous previous' : Option Nat}
    (h : Follows k previous previous') {cs : List PlacedComment} (hcs : ∀ c ∈ cs, 0 < c.first) :
    splitSameLine previous' (cs.map (·.move f k)) =
      ((splitSameLine previous cs).1.map (·.move f k),
        (splitSameLine previous cs).2.map (·.move f k)) := by
  cases cs with
  | nil =>
    unfold splitSameLine
    cases previous <;> cases previous' <;> rfl
  | cons c cs =>
    rcases h with rfl | ⟨rfl, line, hline, rfl⟩
    · cases previous with
      | none => rfl
      | some line =>
        simp only [Option.map_some, List.map_cons, splitSameLine]
        rw [← List.map_cons (f := PlacedComment.move f k), splitRun_move]
        simp only [PlacedComment.first_move, Nat.add_right_cancel_iff]
        split <;> rfl
    · have hc := hcs c (by simp)
      simp only [List.map_cons, splitSameLine, PlacedComment.first_move]
      rw [if_neg (by omega)]
      rfl

theorem commentSlots_move (f : Comment → Comment) {k : Nat} {previous previous' : Option Nat}
    (h : Follows k previous previous') (cs : List PlacedComment) (hcs : ∀ c ∈ cs, 0 < c.first)
    (next : Nat) (atEnd : Bool) :
    commentSlots previous' (cs.map (·.move f k)) (next + k) atEnd =
      (commentSlots previous cs next atEnd).map f := by
  have hlast : ∀ (ds : List PlacedComment) (line : Nat),
      ((ds.map (·.move f k)).getLast?.map (·.last)) = some (line + k) ↔
        (ds.getLast?.map (·.last)) = some line := by
    intro ds line
    rw [List.getLast?_map]
    cases ds.getLast? <;> simp
  have hfollower : ∀ ds : List PlacedComment,
      ((ds.map (·.move f k)).head?.map (·.first)).getD (next + k) =
        (ds.head?.map (·.first)).getD next + k := by
    intro ds
    cases ds <;> rfl
  have hlead : ∀ ds : List PlacedComment,
      ((ds.map (·.move f k)).getLast?.map (·.last + 1)) = some (next + k) ↔
        (ds.getLast?.map (·.last + 1)) = some next := by
    intro ds
    rw [List.getLast?_map]
    cases ds.getLast? <;> simp [Nat.add_right_comm _ k 1]
  simp only [commentSlots, splitSameLine_move f h hcs, CommentSlots.map, hfollower, ne_eq, hlast,
    lastRun_move, hlead, groupOf_move, List.map_eq_nil_iff]
  congr 1
  · split <;> rfl
  · split <;> rfl

/-! ## Tokens -/

/-- The comment that a token is. -/
def Comment.ofToken (t : Token) : Comment := ⟨t.lexeme, t.pos⟩

/-- The groups of a token are runs of the comments on the way to it. -/
def DocToken.Attached (d : DocToken) : Prop :=
  ∀ g, d.slots.lead = some g ∨ d.slots.line = some g →
    ∃ run, run <:+: d.skipped ∧ g.comments = run.map .ofToken

theorem attached_docToken (lines : LineTable) (previous : Option Nat) (skipped : List Token)
    (t : Token) : (docToken lines previous skipped t).Attached := by
  intro g hg
  obtain ⟨run, ⟨before, after, hrun⟩, hcomments⟩ := commentSlots_infix hg
  obtain ⟨ts, after', hts, hfront, -⟩ := List.map_eq_append_iff.1 hrun.symm
  obtain ⟨before', ts', rfl, -, rfl⟩ := List.map_eq_append_iff.1 hfront
  refine ⟨ts', ⟨before', after', hts.symm⟩, ?_⟩
  rw [hcomments, List.map_map]
  rfl

theorem attached_attachFrom (lines : LineTable) (eof : Token) (previous : Option Nat)
    (skipped ts : List Token) :
    ∀ d ∈ (attachFrom lines eof previous skipped ts).1, d.Attached := by
  intro d hd
  obtain ⟨previous', skipped', t, rfl⟩ := (exists_docToken lines eof previous skipped ts).1 d hd
  exact attached_docToken lines previous' skipped' t

theorem attached_attachFrom_eof (lines : LineTable) (eof : Token) (previous : Option Nat)
    (skipped ts : List Token) : (attachFrom lines eof previous skipped ts).2.Attached := by
  obtain ⟨previous', skipped', heof⟩ := (exists_docToken lines eof previous skipped ts).2
  rw [heof]
  exact attached_docToken lines previous' skipped' eof

end PackageDoc
