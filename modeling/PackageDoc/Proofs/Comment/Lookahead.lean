/-
  Groups of comments are found while the source is scanned.

  A parser that moves on reads one token after the other until there is one that is no
  comment, and groups the comments on the way.  It always holds the token that it has read
  last (`Lookahead`), and asks the line table that the scanner has filled so far: a comment
  belongs to the group at hand if it starts not too far below the line where the one before
  it ends, and is then read past (`Lookahead.takeGroup`).  `Stop.next` is one such move.

  Where the comments end, a move has found the groups that `commentSlots` finds in the list
  of them (`Stop.next_eq`): the table is exact for what has been read, and the groups of
  the first loop and of the second are the runs `splitRun` and `lastRun`.

  Main statement: `next_attributes`.
-/
import PackageDoc.Proofs.Comment.Returns
import PackageDoc.Proofs.Comment.Rule
import PackageDoc.Proofs.Parser.Blame

namespace PackageDoc

open Text

/-! ## A token ahead -/

/-- A token that has been read, and the scanner behind it. -/
structure Lookahead where
  token : Token
  scanner : Scanner

/-- Reads a token. -/
def Scanner.ahead (s : Scanner) : Except ScanError Lookahead :=
  match s.scan with
  | (.ok t, next) => .ok ⟨t, next⟩
  | (.error e, _) => .error e

theorem Scanner.offset_le_of_ahead {s : Scanner} {l : Lookahead} (h : s.ahead = .ok l) :
    s.offset ≤ l.scanner.offset := by
  unfold Scanner.ahead Scanner.scan Scanner.read at h
  split at h
  · rename_i hscan
    split at hscan <;> cases hscan
    obtain rfl := Except.ok.inj h
    exact (Nat.le_add_right _ _).trans (Nat.le_add_right _ _)
  · cases h

namespace Lookahead

/-- The line of the token. -/
def line (l : Lookahead) : Nat := l.scanner.lines.line l.token.pos

/-- The line where the comment here ends. -/
def endLine (l : Lookahead) : Nat :=
  if ['/', '*'].isPrefixOf l.token.lexeme.toList then l.line + newlines l.token.lexeme.toList
  else l.line

/-- A measure of what is still to be read. -/
def size (l : Lookahead) : Nat :=
  l.scanner.rest.length + if l.token.kind = .eof then 0 else 1

theorem size_ahead {l next : Lookahead} (h : l.scanner.ahead = .ok next)
    (hl : l.token.kind = .comment) : next.size < l.size := by
  have hsize : l.size = l.scanner.rest.length + 1 := by simp [size, hl]
  unfold Scanner.ahead at h
  split at h
  · rename_i t s hscan
    obtain rfl := Except.ok.inj h
    rw [hsize]
    unfold size
    split
    · rename_i heof
      rw [Scanner.rest_of_eof hscan heof]
      exact Nat.zero_lt_succ _
    · rename_i hne
      exact Nat.succ_lt_succ (l.scanner.scan_shrinks hscan hne)
  · cases h

/-- Takes the comments from here on, each of which starts at most `n` lines below `line`,
    the line where the one before it ends.  Gives the line where the last of them ends. -/
def takeGroup (n line : Nat) (l : Lookahead) : Except ScanError (List Comment × Nat × Lookahead) :=
  if h : l.token.kind = .comment ∧ l.line ≤ line + n then
    match hnext : l.scanner.ahead with
    | .error e => .error e
    | .ok next =>
      have := size_ahead hnext h.1
      match takeGroup n l.endLine next with
      | .error e => .error e
      | .ok (cs, last, rest) => .ok (.ofToken l.token :: cs, last, rest)
  else .ok ([], line, l)
termination_by l.size

theorem size_takeGroup {n line last : Nat} {l rest : Lookahead} {cs : List Comment}
    (h : l.takeGroup n line = .ok (cs, last, rest)) : rest.size ≤ l.size := by
  fun_induction takeGroup n line l generalizing cs last rest with
  | case1 => cases h
  | case2 => cases h
  | case3 line l hcond next hnext hlt cs' last' rest' hmore ih =>
    obtain ⟨-, -, rfl⟩ : _ ∧ _ ∧ rest' = rest := by simpa using h
    exact (ih hmore).trans (Nat.le_of_lt hlt)
  | case4 =>
    obtain ⟨-, -, rfl⟩ : _ ∧ _ ∧ _ = rest := by simpa using h
    exact Nat.le_refl _

theorem size_takeGroup_lt {n last : Nat} {l rest : Lookahead} {cs : List Comment}
    (hl : l.token.kind = .comment) (h : l.takeGroup n l.line = .ok (cs, last, rest)) :
    rest.size < l.size := by
  rw [takeGroup, dif_pos ⟨hl, Nat.le_add_right _ _⟩] at h
  split at h
  · cases h
  · rename_i next hnext
    split at h
    · cases h
    · rename_i hmore
      obtain ⟨-, -, rfl⟩ : _ ∧ _ ∧ _ = rest := by simpa using h
      exact Nat.lt_of_le_of_lt (size_takeGroup hmore) (size_ahead hnext hl)

/-- Takes all comments from here on, group after group.  Gives the last group with the line
    where it ends. -/
def takeGroups (group : List Comment × Nat) (l : Lookahead) :
    Except ScanError ((List Comment × Nat) × Lookahead) :=
  if h : l.token.kind = .comment then
    match hgroup : l.takeGroup 1 l.line with
    | .error e => .error e
    | .ok (cs, last, rest) =>
      have := size_takeGroup_lt h hgroup
      takeGroups (cs, last) rest
  else .ok (group, l)
termination_by l.size

/-- The comments on the line of the token before, which starts at the offset `previous`. -/
def lineGroup (previous : Option Nat) (l : Lookahead) :
    Except ScanError (Option CommentGroup × Lookahead) :=
  match previous with
  | none => .ok (none, l)
  | some pos =>
    if l.line = l.scanner.lines.line pos then
      match l.takeGroup 0 l.line with
      | .error e => .error e
      | .ok (cs, last, rest) =>
        .ok (if rest.line ≠ last ∨ rest.token.kind = .eof then CommentGroup.ofList? cs else none, rest)
    else .ok (none, l)

/-- The last group of comments before the next token that is none, if it ends just above
    that token. -/
def leadGroup (l : Lookahead) : Except ScanError (Option CommentGroup × Lookahead) :=
  match l.takeGroups ([], 0) with
  | .error e => .error e
  | .ok ((cs, last), rest) => .ok (if last + 1 = rest.line then CommentGroup.ofList? cs else none, rest)

end Lookahead

/-! ## Moves of a parser -/

/-- Where a parser stops: the token there, but at the start, with its groups of comments,
    and the scanner behind it. -/
structure Stop where
  token? : Option Token
  slots : CommentSlots
  scanner : Scanner

namespace Stop

/-- Before the first token of a text. -/
def start (text : List Char) : Stop := ⟨none, {}, .ofText text⟩

/-- Moves to the next token that is no comment. -/
def next (s : Stop) : Except ScanError Stop :=
  match s.scanner.ahead with
  | .error e => .error e
  | .ok l =>
    if l.token.kind = .comment then
      match l.lineGroup (s.token?.map (·.pos)) with
      | .error e => .error e
      | .ok (line, l) =>
        match l.leadGroup with
        | .error e => .error e
        | .ok (lead, l) => .ok ⟨some l.token, ⟨line, lead⟩, l.scanner⟩
    else .ok ⟨some l.token, {}, l.scanner⟩

/-- Where a parser stops after some moves. -/
def after (text : List Char) : Nat → Except ScanError Stop
  | 0 => .ok (start text)
  | n + 1 => (after text n).bind next

end Stop

/-! ## What a move passes -/

/-- From a token that has been read over the comments `ts`, the first of which it is, to
    the next token that is no comment. -/
inductive Lookahead.Passes : Lookahead → List Token → Lookahead → Prop where
  | here {l : Lookahead} : l.token.kind ≠ .comment → Passes l [] l
  | step {l mid next : Lookahead} {ts : List Token} : l.token.kind = .comment →
      l.scanner.ahead = .ok mid → Passes mid ts next → Passes l (l.token :: ts) next

/-- The move from one stop to another is over the comments `ts`. -/
def Stop.Passes (s : Stop) (ts : List Token) (s' : Stop) : Prop :=
  ∃ l l', s.scanner.ahead = .ok l ∧ l.Passes ts l' ∧ s'.token? = some l'.token ∧
    s'.scanner = l'.scanner

namespace Lookahead

theorem Passes.comments {l next : Lookahead} {ts : List Token} (h : l.Passes ts next) :
    (∀ t ∈ ts, t.kind = .comment) ∧ next.token.kind ≠ .comment := by
  induction h with
  | here hl => exact ⟨by simp, hl⟩
  | step hl _ _ ih => exact ⟨by simpa using ⟨hl, ih.1⟩, ih.2⟩

theorem Passes.takeGroup {n line last : Nat} {l rest next : Lookahead} {cs : List Comment}
    {ts : List Token} (h : l.takeGroup n line = .ok (cs, last, rest)) (hrest : rest.Passes ts next) :
    ∃ run, l.Passes (run ++ ts) next := by
  fun_induction Lookahead.takeGroup n line l generalizing cs last rest with
  | case1 => cases h
  | case2 => cases h
  | case3 line l hcond mid hnext hlt cs' last' rest' hmore ih =>
    obtain ⟨-, -, rfl⟩ : _ ∧ _ ∧ rest' = rest := by simpa using h
    obtain ⟨run, hrun⟩ := ih hmore hrest
    exact ⟨l.token :: run, .step hcond.1 hnext hrun⟩
  | case4 =>
    obtain ⟨-, -, rfl⟩ : _ ∧ _ ∧ _ = rest := by simpa using h
    exact ⟨[], hrest⟩

theorem passes_of_takeGroups {group last : List Comment × Nat} {l next : Lookahead}
    (h : l.takeGroups group = .ok (last, next)) : ∃ ts, l.Passes ts next := by
  fun_induction Lookahead.takeGroups group l generalizing last next with
  | case1 => cases h
  | case2 group l hl cs line rest hgroup hlt ih =>
    obtain ⟨ts, hts⟩ := ih h
    obtain ⟨run, hrun⟩ := Passes.takeGroup hgroup hts
    exact ⟨_, hrun⟩
  | case3 group l hl =>
    obtain ⟨-, rfl⟩ : _ ∧ l = next := by simpa using h
    exact ⟨[], .here hl⟩

theorem passes_of_leadGroup {l next : Lookahead} {lead : Option CommentGroup}
    (h : l.leadGroup = .ok (lead, next)) : ∃ ts, l.Passes ts next := by
  unfold leadGroup at h
  split at h
  · cases h
  · rename_i hgroups
    obtain ⟨-, rfl⟩ : _ ∧ _ = next := by simpa using h
    exact passes_of_takeGroups hgroups

theorem Passes.lineGroup {previous : Option Nat} {l rest next : Lookahead}
    {group : Option CommentGroup} {ts : List Token}
    (h : l.lineGroup previous = .ok (group, rest)) (hrest : rest.Passes ts next) :
    ∃ run, l.Passes (run ++ ts) next := by
  unfold Lookahead.lineGroup at h
  split at h
  · obtain ⟨-, rfl⟩ : _ ∧ l = rest := by simpa using h
    exact ⟨[], hrest⟩
  · split at h
    · split at h
      · cases h
      · rename_i hgroup
        obtain ⟨-, rfl⟩ : _ ∧ _ = rest := by simpa using h
        exact Passes.takeGroup hgroup hrest
    · obtain ⟨-, rfl⟩ : _ ∧ l = rest := by simpa using h
      exact ⟨[], hrest⟩

end Lookahead

/-- A move that succeeds passes all comments on its way. -/
theorem Stop.exists_passes {s s' : Stop} (h : s.next = .ok s') : ∃ ts, s.Passes ts s' := by
  unfold next at h
  split at h
  · cases h
  rename_i l hl
  split at h
  · split at h
    · cases h
    · rename_i hline
      split at h
      · cases h
      · rename_i next hlead
        obtain rfl := Except.ok.inj h
        obtain ⟨ts, hts⟩ := Lookahead.passes_of_leadGroup hlead
        obtain ⟨run, hrun⟩ := Lookahead.Passes.lineGroup hline hts
        exact ⟨_, l, next, hl, hrun, rfl, rfl⟩
  · rename_i hplain
    obtain rfl := Except.ok.inj h
    exact ⟨[], l, l, hl, .here hplain, rfl, rfl⟩

/-! ## Lines on the way -/

/-- A comment with its lines in a source. -/
def Token.placed (source : ByteArray) (t : Token) : PlacedComment :=
  let first := lineAt source t.pos
  ⟨.ofToken t, first, first + newlines t.lexeme.toList⟩

@[simp]
theorem Token.comment_placed (source : ByteArray) (t : Token) :
    (t.placed source).comment = .ofToken t := rfl

/-- A comment without the mark of a block has one line. -/
theorem newlines_of_reads {lexeme piece rest : List Char}
    (h : Reads .comment lexeme piece rest) (hblock : ¬ ['/', '*'] <+: lexeme) :
    newlines lexeme = 0 := by
  generalize hkind : TokenKind.comment = kind at h
  cases h with
  | @lineComment cs rest hcs _ =>
    rw [newlines, List.count_eq_zero, lineCommentLexeme]
    intro hmem
    have hmem : '\n' ∈ '-' :: '-' :: cs := (List.mem_filter.1 hmem).1
    exact hcs '\n' (by simpa using hmem) rfl
  | @blockComment body rest _ =>
    rw [blockCommentLexeme_open] at hblock
    exact absurd (List.prefix_append ['/', '*'] _) hblock
  | word =>
    unfold wordKind at hkind
    split at hkind <;> cases hkind
  | _ => cases hkind

namespace Lookahead

/-- The token was read in its place in a text. -/
def Read (text : List Char) (l : Lookahead) : Prop :=
  ∃ s : Scanner, s.InPlace text ∧ s.ahead = .ok l

variable {text : List Char} {l mid : Lookahead}

theorem Read.scan (h : l.Read text) :
    ∃ s : Scanner, s.InPlace text ∧ s.scan = (.ok l.token, l.scanner) := by
  obtain ⟨s, hplace, hs⟩ := h
  unfold Scanner.ahead at hs
  split at hs
  · rename_i t next hscan
    obtain rfl := Except.ok.inj hs
    exact ⟨s, hplace, hscan⟩
  · cases hs

theorem Read.inPlace (h : l.Read text) : l.scanner.InPlace text := by
  obtain ⟨s, hplace, hscan⟩ := h.scan
  have hnext := hplace.scan
  rwa [hscan] at hnext

theorem Read.ahead (h : l.Read text) (hmid : l.scanner.ahead = .ok mid) : mid.Read text :=
  ⟨l.scanner, h.inPlace, hmid⟩

theorem Read.pos_le (h : l.Read text) : l.token.pos ≤ l.scanner.offset := by
  obtain ⟨token, scanner⟩ := l
  obtain ⟨s, -, hscan⟩ := h.scan
  unfold Scanner.scan Scanner.read at hscan
  split at hscan <;> cases hscan
  exact Nat.le_add_right _ _

theorem Read.line_eq (h : l.Read text) : l.line = lineAt text.utf8Encode l.token.pos :=
  (h.inPlace.exactAt h.pos_le).line

theorem Read.endLine_eq (h : l.Read text) (hl : l.token.kind = .comment) :
    l.endLine = (l.token.placed text.utf8Encode).last := by
  unfold endLine
  split
  · rw [h.line_eq]
    rfl
  · rename_i hblock
    obtain ⟨s, -, hscan⟩ := h.scan
    rcases Scanner.scan_eq_ok hscan with ⟨heof, -⟩ | ⟨gap, lexeme, piece, -, hreads, -, ht, -⟩
    · rw [hl] at heof
      cases heof
    · rw [hl] at hreads
      have hlexeme : l.token.lexeme.toList = lexeme := by
        rw [ht]
        exact String.toList_ofList
      rw [hlexeme, List.isPrefixOf_iff_prefix] at hblock
      simp [Token.placed, h.line_eq, hlexeme, newlines_of_reads hreads hblock]

end Lookahead

/-! ## The groups of a move -/

/-- Splits off the run at the front whose first comment starts at most `n` lines below
    `line`, and whose others as far below the end of the one before them. -/
def splitNear (n line : Nat) : List PlacedComment → List PlacedComment × List PlacedComment
  | [] => ([], [])
  | c :: cs =>
    if c.first ≤ line + n then
      let (run, rest) := splitNear n c.last cs
      (c :: run, rest)
    else ([], c :: cs)

theorem splitNear_zero (line : Nat) (cs : List PlacedComment) :
    splitNear 0 line cs = splitRun line cs := by
  induction cs generalizing line with
  | nil => rfl
  | cons c cs ih => simp [splitNear, splitRun, ih]

/-- Comments that are near join the run before them, and the first that is not opens a new
    one. -/
theorem foldl_joinRun_splitNear (p : PlacedComment) (run cs : List PlacedComment) :
    cs.foldl joinRun (p :: run) =
      match splitNear 1 p.last cs with
      | (near, []) => near.reverse ++ p :: run
      | (_, c :: rest) => rest.foldl joinRun [c] := by
  induction cs generalizing p run with
  | nil => rfl
  | cons c cs ih =>
    rw [List.foldl_cons, splitNear]
    by_cases hnear : c.first ≤ p.last + 1
    · rw [if_pos hnear, joinRun, if_pos hnear, ih]
      rcases splitNear 1 c.last cs with ⟨near, _ | ⟨d, rest⟩⟩ <;> simp
    · rw [if_neg hnear, joinRun, if_neg hnear]

/-- The last run is the first one, if that takes all comments, and else the last of those
    that the first one leaves. -/
theorem lastRun_cons (c : PlacedComment) (cs : List PlacedComment) :
    lastRun (c :: cs) =
      if (splitNear 1 c.first (c :: cs)).2 = [] then (splitNear 1 c.first (c :: cs)).1
      else lastRun (splitNear 1 c.first (c :: cs)).2 := by
  have hfold := foldl_joinRun_splitNear c [] cs
  rw [splitNear, if_pos (Nat.le_add_right _ _), lastRun, List.foldl_cons, joinRun, hfold]
  rcases splitNear 1 c.last cs with ⟨near, _ | ⟨d, rest⟩⟩
  · simp
  · simp [lastRun, joinRun]

/-- The line where some comments end that come behind `line`. -/
def endOf (line : Nat) (cs : List PlacedComment) : Nat := (cs.getLast?.map (·.last)).getD line

theorem endOf_cons (line : Nat) (c : PlacedComment) (cs : List PlacedComment) :
    endOf line (c :: cs) = endOf c.last cs := by
  unfold endOf
  rw [List.getLast?_cons]
  cases cs.getLast? <;> rfl

namespace Lookahead

variable {text : List Char} {l next : Lookahead} {ts : List Token}

/-- Taking a group splits the comments on the way, and stops where their run ends. -/
theorem Passes.takeGroup_eq (h : l.Passes ts next) (hl : l.Read text) (n line : Nat) :
    ∃ run rest mid, ts = run ++ rest ∧ mid.Passes rest next ∧ mid.Read text ∧
      splitNear n line (ts.map (·.placed text.utf8Encode)) =
        (run.map (·.placed text.utf8Encode), rest.map (·.placed text.utf8Encode)) ∧
      l.takeGroup n line =
        .ok (run.map .ofToken, endOf line (run.map (·.placed text.utf8Encode)), mid) := by
  induction h generalizing line with
  | @here l hplain =>
    refine ⟨[], [], l, rfl, .here hplain, hl, rfl, ?_⟩
    rw [Lookahead.takeGroup, dif_neg fun hcond => hplain hcond.1]
    rfl
  | @step l mid next ts hcomment hahead hpasses ih =>
    have hfirst : l.line = (l.token.placed text.utf8Encode).first := hl.line_eq
    rw [List.map_cons, splitNear]
    by_cases hnear : (l.token.placed text.utf8Encode).first ≤ line + n
    · obtain ⟨run, rest, stop, rfl, hrest, hstop, hsplit, hgroup⟩ :=
        ih (hl.ahead hahead) (l.token.placed text.utf8Encode).last
      refine ⟨l.token :: run, rest, stop, rfl, hrest, hstop, ?_, ?_⟩
      · rw [if_pos hnear, hsplit]
        rfl
      · rw [Lookahead.takeGroup, dif_pos ⟨hcomment, hfirst ▸ hnear⟩]
        split <;> rename_i hnext <;> rw [hahead] at hnext <;> cases hnext
        rw [hl.endLine_eq hcomment, hgroup, List.map_cons, List.map_cons, endOf_cons]
    · refine ⟨[], l.token :: ts, l, rfl, .step hcomment hahead hpasses, hl, ?_, ?_⟩
      · rw [if_neg hnear]
        rfl
      · rw [Lookahead.takeGroup, dif_neg fun hcond => hnear (hfirst ▸ hcond.2)]
        rfl

/-- The last group is the last run of the comments on the way. -/
theorem Passes.takeGroups_eq (h : l.Passes ts next) (hl : l.Read text) (group : List Comment × Nat) :
    next.Read text ∧ l.takeGroups group =
      .ok (if ts = [] then group
        else ((lastRun (ts.map (·.placed text.utf8Encode))).map (·.comment),
          endOf 0 (lastRun (ts.map (·.placed text.utf8Encode)))), next) := by
  generalize hn : ts.length = n
  induction n using Nat.strongRecOn generalizing l ts group with
  | _ n ih =>
    cases h with
    | here hplain => exact ⟨hl, by rw [takeGroups, dif_neg hplain, if_pos rfl]⟩
    | @step _ mid _ ts hcomment hahead hpasses =>
      obtain ⟨run, rest, stop, hts, hrest, hstop, hsplit, hgroup⟩ :=
        (Passes.step hcomment hahead hpasses).takeGroup_eq hl 1 l.line
      -- the group holds at least the comment here
      have hrun : run ≠ [] := by
        rintro rfl
        have hfirst : l.line = (l.token.placed text.utf8Encode).first := hl.line_eq
        rw [List.map_cons, splitNear, if_pos (by omega)] at hsplit
        cases hsplit
      have hlength : rest.length < n := by
        have hsum := congrArg List.length hts
        have hpos := List.length_pos_iff.2 hrun
        rw [List.length_append] at hsum
        omega
      obtain ⟨hnext, hmore⟩ := ih rest.length hlength hrest hstop
        (run.map .ofToken, endOf l.line (run.map (·.placed text.utf8Encode))) rfl
      refine ⟨hnext, ?_⟩
      have hlast := lastRun_cons (l.token.placed text.utf8Encode)
        (ts.map (·.placed text.utf8Encode))
      have hline : (l.token.placed text.utf8Encode).first = l.line := hl.line_eq.symm
      rw [← List.map_cons, hline, hsplit] at hlast
      rw [takeGroups, dif_pos hcomment]
      split <;> rename_i hfirst <;> rw [hgroup] at hfirst <;> cases hfirst
      rw [hmore, if_neg (List.cons_ne_nil _ _), hlast]
      by_cases hnil : rest = []
      · obtain ⟨r, run, rfl⟩ := List.exists_cons_of_ne_nil hrun
        simp [hnil, endOf_cons]
      · simp [hnil]

/-- The comments on the line of the token before are split off. -/
theorem Passes.lineGroup_eq (h : l.Passes ts next) (hl : l.Read text) (hts : ts ≠ [])
    {previous : Option Nat} (hprevious : ∀ pos ∈ previous, pos ≤ l.scanner.offset) :
    ∃ run rest mid, ts = run ++ rest ∧ mid.Passes rest next ∧ mid.Read text ∧
      splitSameLine (previous.map (lineAt text.utf8Encode)) (ts.map (·.placed text.utf8Encode)) =
        (run.map (·.placed text.utf8Encode), rest.map (·.placed text.utf8Encode)) ∧
      l.lineGroup previous = .ok
        (if (run.map (·.placed text.utf8Encode)).getLast?.map (·.last) ≠ some mid.line ∨
            mid.token.kind = .eof then
          groupOf (run.map (·.placed text.utf8Encode))
        else none, mid) := by
  obtain ⟨t, ts, rfl⟩ := List.exists_cons_of_ne_nil hts
  have hfirst : (t.placed text.utf8Encode).first = l.line := by
    cases h
    exact hl.line_eq.symm
  by_cases hsame : ∃ pos, previous = some pos ∧ l.line = lineAt text.utf8Encode pos
  · obtain ⟨pos, rfl, hline⟩ := hsame
    have hpos := (hl.inPlace.exactAt (hprevious pos rfl)).line
    obtain ⟨run, rest, mid, hsplit, hrest, hmid, hnear, hgroup⟩ := h.takeGroup_eq hl 0 l.line
    have hrun : run ≠ [] := by
      rintro rfl
      rw [List.map_cons, splitNear, if_pos (by omega)] at hnear
      cases hnear
    have hlast := List.getLast?_eq_some_getLast hrun
    refine ⟨run, rest, mid, hsplit, hrest, hmid, ?_, ?_⟩
    · rw [Option.map_some, List.map_cons, splitSameLine, if_pos (hfirst.trans hline), ← hline,
        ← splitNear_zero, ← List.map_cons, hnear]
    · simp [Lookahead.lineGroup, hpos, ← hline, hgroup, endOf, hlast, groupOf,
        Function.comp_def, eq_comm (a := mid.line)]
  · refine ⟨[], t :: ts, l, rfl, h, hl, ?_, ?_⟩
    · cases previous with
      | none => rfl
      | some pos =>
        rw [Option.map_some, List.map_cons, splitSameLine, if_neg]
        · rfl
        · exact fun heq => hsame ⟨pos, rfl, hfirst.symm.trans heq⟩
    · cases previous with
      | none => simp [Lookahead.lineGroup, groupOf, CommentGroup.ofList?]
      | some pos =>
        have hpos := (hl.inPlace.exactAt (hprevious pos rfl)).line
        have hne : l.line ≠ lineAt text.utf8Encode pos := fun heq => hsame ⟨pos, rfl, heq⟩
        simp [Lookahead.lineGroup, hpos, hne, groupOf, CommentGroup.ofList?]

/-- The last run of comments leads the token behind them if it ends just above it. -/
theorem Passes.leadGroup_eq (h : l.Passes ts next) (hl : l.Read text) :
    next.Read text ∧ l.leadGroup = .ok
      (if (lastRun (ts.map (·.placed text.utf8Encode))).getLast?.map (·.last + 1) =
          some (lineAt text.utf8Encode next.token.pos) then
        groupOf (lastRun (ts.map (·.placed text.utf8Encode)))
      else none, next) := by
  obtain ⟨hnext, hgroups⟩ := h.takeGroups_eq hl ([], 0)
  refine ⟨hnext, ?_⟩
  rw [leadGroup, hgroups]
  by_cases hts : ts = []
  · subst hts
    simp [lastRun, CommentGroup.ofList?]
  · have hne : lastRun (ts.map (·.placed text.utf8Encode)) ≠ [] := lastRun_ne_nil (by simpa using hts)
    have hlast := List.getLast?_eq_some_getLast hne
    simp [hts, hlast, endOf, hnext.line_eq, groupOf]

end Lookahead

/-- A parser stops in its place in a text. -/
def Stop.InPlace (text : List Char) (s : Stop) : Prop :=
  s.scanner.InPlace text ∧ ∀ t ∈ s.token?, t.pos ≤ s.scanner.offset

/-- The token where the comments on the way end. -/
theorem Lookahead.Passes.follower {text : List Char} {l next : Lookahead} {ts : List Token}
    (h : l.Passes ts next) (hl : l.Read text) (hnext : next.Read text) :
    (((ts.map (·.placed text.utf8Encode)).head?.map (·.first)).getD
        (lineAt text.utf8Encode next.token.pos) = l.line) ∧
      (l.token.kind = .eof ↔ ts = [] ∧ next.token.kind = .eof) := by
  cases h with
  | here hplain => simp [hl.line_eq]
  | step hcomment hahead hpasses => simp [hl.line_eq, hcomment, Token.placed]

/-- **A move finds the groups of the comments that it passes.** -/
theorem Stop.next_eq {text : List Char} {s : Stop} {l next : Lookahead} {ts : List Token}
    (hs : s.InPlace text) (hl : s.scanner.ahead = .ok l) (h : l.Passes ts next) :
    next.Read text ∧ s.next = .ok ⟨some next.token,
      commentSlots (s.token?.map (lineAt text.utf8Encode ·.pos))
        (ts.map (·.placed text.utf8Encode)) (lineAt text.utf8Encode next.token.pos)
        (next.token.kind = .eof), next.scanner⟩ := by
  have hread : l.Read text := ⟨s.scanner, hs.1, hl⟩
  rw [Stop.next, hl]
  by_cases hts : ts = []
  · subst hts
    cases h with
    | here hplain => exact ⟨hread, by simp [hplain, commentSlots_nil]⟩
  · have hcomment : l.token.kind = .comment := by
      cases h with
      | here => exact absurd rfl hts
      | step hcomment => exact hcomment
    have hprevious : ∀ pos ∈ s.token?.map (·.pos), pos ≤ l.scanner.offset := by
      intro pos hpos
      obtain ⟨t, ht, rfl⟩ := Option.mem_map.1 hpos
      exact (hs.2 t ht).trans (Scanner.offset_le_of_ahead hl)
    obtain ⟨run, rest, mid, rfl, hrest, hmid, hsplit, hline⟩ := h.lineGroup_eq hread hts hprevious
    obtain ⟨hnext, hlead⟩ := hrest.leadGroup_eq hmid
    obtain ⟨hfollower, heof⟩ := hrest.follower hmid hnext
    rw [Option.map_map] at hsplit
    refine ⟨hnext, ?_⟩
    simp only [hcomment, if_true, hline, hlead, commentSlots]
    rw [show (s.token?.map fun t => lineAt text.utf8Encode t.pos) =
      s.token?.map (lineAt text.utf8Encode ∘ fun t => t.pos) from rfl, hsplit]
    simp only [hfollower, heof, List.map_eq_nil_iff, decide_eq_true_eq]

/-! ## The tokens of a parser -/

/-- What is scanned behind a token is ahead of it. -/
theorem Scanner.ahead_of_scanRest {s : Scanner} {t : Token} {ts : List Token}
    (h : s.scanRest.tokens = t :: ts) :
    ∃ l, s.ahead = .ok l ∧ l.token = t ∧ s.scanRest = { l.scanner.scanRest with tokens := t :: ts } ∧
      l.scanner.scanRest.tokens = ts := by
  cases hscan : s.scan with
  | mk result next =>
    cases result with
    | error e =>
      rw [scanRest_error hscan] at h
      cases h
    | ok u =>
      by_cases heof : u.kind = .eof
      · rw [scanRest_eof hscan heof] at h
        cases h
      · have hrest := scanRest_token hscan heof
        rw [hrest] at h
        obtain ⟨rfl, hts⟩ := List.cons.inj h
        exact ⟨⟨u, next⟩, by simp [ahead, hscan], rfl, by rw [hrest, ← hts], hts⟩

theorem Scanner.ahead_of_ending {s : Scanner} {t : Token} (h : s.scanRest.tokens = [])
    (hend : s.scanRest.ending = .ok t) : ∃ l, s.ahead = .ok l ∧ l.token = t ∧ t.kind = .eof := by
  cases hscan : s.scan with
  | mk result next =>
    cases result with
    | error e =>
      rw [scanRest_error hscan] at hend
      cases hend
    | ok u =>
      by_cases heof : u.kind = .eof
      · rw [scanRest_eof hscan heof] at hend
        obtain rfl := Except.ok.inj hend
        exact ⟨⟨u, next⟩, by simp [ahead, hscan], rfl, heof⟩
      · rw [scanRest_token hscan heof] at h
        cases h

/-- The comments in front are passed on the way to the token behind them. -/
theorem Scanner.passes_of_scanRest {s : Scanner} {cs ts : List Token} {t : Token}
    (h : s.scanRest.tokens = cs ++ t :: ts) (hcs : ∀ c ∈ cs, c.kind = .comment)
    (ht : t.kind ≠ .comment) :
    ∃ l next, s.ahead = .ok l ∧ l.Passes cs next ∧ next.token = t ∧
      next.scanner.scanRest = { s.scanRest with tokens := ts } := by
  induction cs generalizing s with
  | nil =>
    obtain ⟨l, hl, rfl, hrest, hts⟩ := ahead_of_scanRest h
    exact ⟨l, l, hl, .here ht, rfl, by rw [hrest, ← hts]⟩
  | cons c cs ih =>
    obtain ⟨l, hl, rfl, hrest, hts⟩ := ahead_of_scanRest h
    obtain ⟨mid, next, hmid, hpasses, htoken, hscan⟩ := ih hts fun c hc => hcs c (by simp [hc])
    exact ⟨l, next, hl, .step (hcs _ (by simp)) hmid hpasses, htoken, by rw [hscan, hrest]⟩

theorem Scanner.passes_of_ending {s : Scanner} {cs : List Token} {t : Token}
    (h : s.scanRest.tokens = cs) (hcs : ∀ c ∈ cs, c.kind = .comment)
    (hend : s.scanRest.ending = .ok t) :
    ∃ l next, s.ahead = .ok l ∧ l.Passes cs next ∧ next.token = t := by
  induction cs generalizing s with
  | nil =>
    obtain ⟨l, hl, rfl, heof⟩ := ahead_of_ending h hend
    exact ⟨l, l, hl, .here (by simp [heof]), rfl⟩
  | cons c cs ih =>
    obtain ⟨l, hl, rfl, hrest, hts⟩ := ahead_of_scanRest h
    rw [hrest] at hend
    obtain ⟨mid, next, hmid, hpasses, htoken⟩ := ih hts (fun c hc => hcs c (by simp [hc])) hend
    exact ⟨l, next, hl, .step (hcs _ (by simp)) hmid hpasses, htoken⟩

/-- The first of the tokens to which comments are attached comes behind the comments in
    front. -/
theorem attachFrom_cases (lines : LineTable) (eof : Token) (previous : Option Nat)
    (skipped ts : List Token) :
    (∃ cs t us, ts = cs ++ t :: us ∧ (∀ c ∈ cs, c.kind = .comment) ∧ t.kind ≠ .comment ∧
        attachFrom lines eof previous skipped ts =
          (docToken lines previous (skipped.reverse ++ cs) t ::
              (attachFrom lines eof (some (lines.line t.pos)) [] us).1,
            (attachFrom lines eof (some (lines.line t.pos)) [] us).2)) ∨
      (∀ c ∈ ts, c.kind = .comment) ∧ attachFrom lines eof previous skipped ts =
        ([], docToken lines previous (skipped.reverse ++ ts) eof) := by
  induction ts generalizing skipped with
  | nil => exact .inr ⟨by simp, by simp [attachFrom]⟩
  | cons t ts ih =>
    by_cases ht : t.kind = .comment
    · rw [attachFrom, if_pos ht]
      rcases ih (t :: skipped) with ⟨cs, u, us, rfl, hcs, hu, hattach⟩ | ⟨hcs, hattach⟩
      · exact .inl ⟨t :: cs, u, us, rfl, by simpa using ⟨ht, hcs⟩, hu, by simpa using hattach⟩
      · exact .inr ⟨by simpa using ⟨ht, hcs⟩, by simpa using hattach⟩
    · refine .inl ⟨[], t, ts, rfl, by simp, ht, ?_⟩
      rw [attachFrom, if_neg ht, List.append_nil]
      rfl

namespace Stop

variable {text : List Char} {s s' : Stop}

/-- What is scanned behind a stop are the tokens `ds` and `eof`, with their comments. -/
structure Leaves (text : List Char) (s : Stop) (ds : List DocToken) (eof : DocToken) : Prop where
  inPlace : s.InPlace text
  mem : ∀ t ∈ s.token?, t ∈ (scanText text).tokens
  scan : ∃ read, scanText text =
    { s.scanner.scanRest with tokens := read ++ s.scanner.scanRest.tokens }
  attach : attachFrom (scanText text).lines (lastToken (scanText text).ending)
    (s.token?.map ((scanText text).lines.line ·.pos)) [] s.scanner.scanRest.tokens = (ds, eof)

theorem leaves_start (file : String) (text : List Char) :
    (start text).Leaves text (Input.ofText file text).tokens (Input.ofText file text).eof where
  inPlace := ⟨Scanner.inPlace_ofText text, by simp [start]⟩
  mem := by simp [start]
  scan := ⟨[], rfl⟩
  attach := (attached_ofText file text).symm

theorem inPlace_of_read {l : Lookahead} {slots : CommentSlots} (h : l.Read text) :
    Stop.InPlace text ⟨some l.token, slots, l.scanner⟩ :=
  ⟨h.inPlace, by simpa using h.pos_le⟩

theorem InPlace.next (hs : s.InPlace text) (h : s.next = .ok s') : s'.InPlace text := by
  obtain ⟨ts, l, next, hl, hpasses, -, -⟩ := exists_passes h
  obtain ⟨hread, hnext⟩ := next_eq hs hl hpasses
  rw [hnext] at h
  obtain rfl := Except.ok.inj h
  exact inPlace_of_read hread

theorem inPlace_after {n : Nat} (h : after text n = .ok s) : s.InPlace text := by
  induction n generalizing s with
  | zero =>
    obtain rfl := Except.ok.inj h
    exact (leaves_start "" text).inPlace
  | succ n ih =>
    rw [after] at h
    cases hn : after text n with
    | error e =>
      rw [hn] at h
      cases h
    | ok mid =>
      rw [hn] at h
      exact (ih hn).next h

/-- The lines that the table has in the end are those at the time of a move. -/
theorem slots_docToken {cs : List Token} {t : Token} {previous : Option Token}
    (hprevious : ∀ p ∈ previous, p ∈ (scanText text).tokens)
    (hcs : ∀ c ∈ cs, c ∈ (scanText text).tokens)
    (ht : t = lastToken (scanText text).ending ∨ t ∈ (scanText text).tokens) :
    commentSlots (previous.map (lineAt text.utf8Encode ·.pos)) (cs.map (·.placed text.utf8Encode))
        (lineAt text.utf8Encode t.pos) (t.kind = .eof) =
      (docToken (scanText text).lines (previous.map ((scanText text).lines.line ·.pos)) cs t).slots := by
  have hplaced : cs.map (PlacedComment.ofToken (scanText text).lines) =
      cs.map (·.placed text.utf8Encode) := by
    refine List.map_congr_left fun c hc => ?_
    rw [PlacedComment.ofToken, line_scanText text (.inr (hcs c hc))]
    rfl
  have hline : previous.map ((scanText text).lines.line ·.pos) =
      previous.map (lineAt text.utf8Encode ·.pos) := by
    cases previous with
    | none => rfl
    | some p => rw [Option.map_some, Option.map_some, line_scanText text (.inr (hprevious p rfl))]
  rw [docToken, hplaced, hline, line_scanText text ht]

/-- A move to a token gives it the groups that it has. -/
theorem Leaves.next {d eof : DocToken} {ds : List DocToken} (h : s.Leaves text (d :: ds) eof) :
    ∃ s', s.next = .ok s' ∧ s.Passes d.skipped s' ∧ s'.token? = some d.token ∧
      s'.slots = d.slots ∧ s'.Leaves text ds eof := by
  obtain ⟨read, hscan⟩ := h.scan
  have hattach := h.attach
  rcases attachFrom_cases (scanText text).lines (lastToken (scanText text).ending)
    (s.token?.map ((scanText text).lines.line ·.pos)) [] s.scanner.scanRest.tokens with
    ⟨cs, t, us, hts, hcs, ht, hcases⟩ | ⟨-, hcases⟩
  · rw [hcases, Prod.mk.injEq, List.cons.injEq] at hattach
    obtain ⟨⟨rfl, hds⟩, heof⟩ := hattach
    obtain ⟨l, next, hl, hpasses, rfl, hrest⟩ := Scanner.passes_of_scanRest hts hcs ht
    obtain ⟨hread, hnext⟩ := next_eq h.inPlace hl hpasses
    have hraw : (scanText text).tokens = read ++ cs ++ next.token :: us := by
      rw [hscan, hts, List.append_assoc]
    have hmem : next.token ∈ (scanText text).tokens := by simp [hraw]
    refine ⟨_, hnext, ⟨l, next, hl, hpasses, rfl, rfl⟩, rfl, ?_, ⟨inPlace_of_read hread, ?_, ?_, ?_⟩⟩
    · exact slots_docToken h.mem (fun c hc => by simp [hraw, hc]) (.inr hmem)
    · simpa using hmem
    · refine ⟨read ++ cs ++ [next.token], ?_⟩
      rw [hrest, hscan, hts]
      simp
    · rw [hrest, Option.map_some, ← hds, ← heof]
  · rw [hcases] at hattach
    cases hattach

/-- A move to the end of the input gives it the groups that it has. -/
theorem Leaves.next_eof {eof : DocToken} {t : Token} (h : s.Leaves text [] eof)
    (hend : (scanText text).ending = .ok t) :
    ∃ s', s.next = .ok s' ∧ s.Passes eof.skipped s' ∧ s'.token? = some eof.token ∧
      s'.slots = eof.slots := by
  obtain ⟨read, hscan⟩ := h.scan
  have hattach := h.attach
  rcases attachFrom_cases (scanText text).lines (lastToken (scanText text).ending)
    (s.token?.map ((scanText text).lines.line ·.pos)) [] s.scanner.scanRest.tokens with
    ⟨cs, t, us, -, -, -, hcases⟩ | ⟨hcs, hcases⟩
  · rw [hcases] at hattach
    cases hattach
  · rw [hcases, Prod.mk.injEq] at hattach
    obtain ⟨-, rfl⟩ := hattach
    have hending : s.scanner.scanRest.ending = .ok t := by rw [← hend, hscan]
    obtain ⟨l, next, hl, hpasses, htoken⟩ := Scanner.passes_of_ending rfl hcs hending
    obtain ⟨-, hnext⟩ := next_eq h.inPlace hl hpasses
    have hlast : next.token = lastToken (scanText text).ending := by
      rw [hend, htoken]
      rfl
    refine ⟨_, hnext, ⟨l, next, hl, hpasses, rfl, rfl⟩, ?_, ?_⟩
    · rw [hlast]
      rfl
    · rw [hlast]
      exact slots_docToken h.mem (fun c hc => by rw [hscan]; exact List.mem_append_right _ hc) (.inl rfl)

/-- The tokens of an input are those where a parser stops. -/
theorem exists_leaves (file : String) (text : List Char) {n : Nat}
    (hn : n ≤ (Input.ofText file text).tokens.length) :
    ∃ s, after text n = .ok s ∧
      s.Leaves text ((Input.ofText file text).tokens.drop n) (Input.ofText file text).eof := by
  induction n with
  | zero => exact ⟨_, rfl, leaves_start file text⟩
  | succ n ih =>
    obtain ⟨s, hs, hleaves⟩ := ih (by omega)
    rw [List.drop_eq_getElem_cons hn] at hleaves
    obtain ⟨s', hnext, -, -, -, hleaves'⟩ := hleaves.next
    exact ⟨s', by rw [after, hs]; exact hnext, hleaves'⟩

end Stop

/-- **Comment slots keep to the rule.**  Every move that succeeds, from the token `p` (or the
    start) over comments to a token that is none, finds the groups that the rule gives from
    the lines of the source; and the tokens of an input are what these moves find, each with
    its comments and its groups. -/
theorem next_attributes {source : ByteArray} {text : List Char} (htext : decode source = .ok text) :
    (∀ n s s', Stop.after text n = .ok s → s.next = .ok s' →
      ∃ comments t, s.Passes comments s' ∧ s'.token? = some t ∧
        (∀ c ∈ comments, c.kind = .comment) ∧ t.kind ≠ .comment ∧
        Attributed (s.token?.map (lineAt source ·.pos)) (comments.map (·.placed source))
          (lineAt source t.pos) (t.kind = .eof) s'.slots) ∧
      ∀ file i, i = Input.ofText file text → ∀ n,
        n < i.tokens.length ∨ n = i.tokens.length ∧ i.fault? = none →
          ∃ s s', Stop.after text n = .ok s ∧ s.next = .ok s' ∧
            s.Passes (i.current (i.tokens.drop n)).skipped s' ∧
            s'.token? = some (i.current (i.tokens.drop n)).token ∧
            s'.slots = (i.current (i.tokens.drop n)).slots := by
  rw [decode_eq_ok_iff.1 htext]
  refine ⟨fun n s s' hs hnext => ?_, ?_⟩
  · obtain ⟨comments, l, next, hl, hpasses, htoken, hscanner⟩ := Stop.exists_passes hnext
    obtain ⟨hcomments, hplain⟩ := hpasses.comments
    obtain ⟨-, heq⟩ := Stop.next_eq (Stop.inPlace_after hs) hl hpasses
    rw [hnext] at heq
    obtain rfl := Except.ok.inj heq
    exact ⟨comments, next.token, ⟨l, next, hl, hpasses, htoken, hscanner⟩, htoken, hcomments, hplain,
      attributed_commentSlots _ _ _ _⟩
  · rintro file i rfl n hn
    have hle : n ≤ (Input.ofText file text).tokens.length := by omega
    obtain ⟨s, hs, hleaves⟩ := Stop.exists_leaves file text hle
    rcases hn with hlt | ⟨rfl, hfault⟩
    · rw [List.drop_eq_getElem_cons hlt] at hleaves ⊢
      obtain ⟨s', hnext, hpasses, htoken, hslots, -⟩ := hleaves.next
      exact ⟨s, s', hs, hnext, hpasses, htoken, hslots⟩
    · rw [List.drop_length] at hleaves ⊢
      obtain ⟨t, ht⟩ := Input.ending_of_fault? file hfault
      obtain ⟨s', hnext, hpasses, htoken, hslots⟩ := hleaves.next_eof ht
      exact ⟨s, s', hs, hnext, hpasses, htoken, hslots⟩

/-- A comment behind a token, and two above the next one. -/
def groupedText : List Char := "a -- x\n-- y\n/* z\n */\nb -- w".toList

theorem current_groupedText :
    let d := (Input.ofText "x.pks" groupedText).current ((Input.ofText "x.pks" groupedText).tokens.drop 1)
    1 < (Input.ofText "x.pks" groupedText).tokens.length ∧ d.token = ⟨.ident, "b", 21, 22⟩ ∧
      d.slots.line.map (·.comments) = some [⟨"-- x", 2⟩] ∧
      d.slots.lead.map (·.comments) = some [⟨"-- y", 7⟩, ⟨"/* z\n */", 12⟩] := by
  decide +kernel

/-- The first comment documents what stands before it, the others what stands below them. -/
theorem next_attributes_grouped :
    decode groupedText.utf8Encode = .ok groupedText ∧
      ∃ s s', ∃ comments : List Token, Stop.after groupedText 1 = .ok s ∧ s.next = .ok s' ∧
        s'.token? = some ⟨.ident, "b", 21, 22⟩ ∧
        s'.slots.line.map (·.comments) = some [⟨"-- x", 2⟩] ∧
        s'.slots.lead.map (·.comments) = some [⟨"-- y", 7⟩, ⟨"/* z\n */", 12⟩] ∧
        Attributed (s.token?.map (lineAt groupedText.utf8Encode ·.pos))
          (comments.map (·.placed groupedText.utf8Encode)) (lineAt groupedText.utf8Encode 21) false
          s'.slots := by
  have htext := decode_utf8Encode groupedText
  obtain ⟨hlength, htoken, hline, hlead⟩ := current_groupedText
  obtain ⟨hrule, hmoves⟩ := next_attributes htext
  obtain ⟨s, s', hs, hnext, -, hstop, hslots⟩ := hmoves "x.pks" _ rfl 1 (.inl hlength)
  obtain ⟨comments, t, -, ht, -, -, hattributed⟩ := hrule 1 s s' hs hnext
  rw [htoken] at hstop
  obtain rfl := Option.some.inj (ht.symm.trans hstop)
  rw [← hslots] at hline hlead
  exact ⟨htext, s, s', comments, hs, hnext, hstop, hline, hlead, hattributed⟩

end PackageDoc
