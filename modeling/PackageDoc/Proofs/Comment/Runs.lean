/-
  Runs of comments with blank lines in them.

  A run at the end of some comments depends on how many blank lines may lie between two
  of its comments (`LastRun`).  The comments that lead a token are a run without blank
  lines; it is the run with single blank lines only if that has none in it
  (`LastRun.eq_iff`).  The comments and the lines that it goes by are those of the source
  (`Input.attributed_ofText`), so a doc is told from what stands between its token and
  the line of the token before it (`Input.ledBy_ofText`).
-/
import PackageDoc.Proofs.Comment.Lookahead

namespace PackageDoc

open Text

/-! ## Runs -/

/-- At most `n` blank lines lie between the comments `c` and `d`. -/
def PlacedComment.Spaced (n : Nat) (c d : PlacedComment) : Prop := d.first ≤ c.last + 1 + n

/-- The comments `run` at the end of `others`, each of them at most `n` blank lines below
    the one before it: the longest run up to there. -/
structure LastRun (n : Nat) (others run : List PlacedComment) : Prop where
  back : run <:+ others
  chain : run.IsChain (PlacedComment.Spaced n)
  longest : ∀ r, r <:+ others → r.IsChain (PlacedComment.Spaced n) → r.length ≤ run.length

theorem lastRun_zero (others : List PlacedComment) : LastRun 0 others (lastRun others) :=
  have h := leading_lastRun others
  ⟨h.back, h.chain, h.longest⟩

theorem exists_lastRun (n : Nat) (others : List PlacedComment) : ∃ run, LastRun n others run := by
  induction others with
  | nil => exact ⟨[], List.suffix_refl _, .nil, fun r hr _ => hr.length_le⟩
  | cons c others ih =>
    by_cases hchain : (c :: others).IsChain (PlacedComment.Spaced n)
    · exact ⟨c :: others, List.suffix_refl _, hchain, fun r hr _ => hr.length_le⟩
    · obtain ⟨run, hrun⟩ := ih
      refine ⟨run, hrun.back.trans (List.suffix_cons c others), hrun.chain, fun r hr hr' => ?_⟩
      rcases List.suffix_cons_iff.1 hr with rfl | hr
      · exact absurd hr' hchain
      · exact hrun.longest r hr hr'

namespace LastRun

variable {n : Nat} {others run run' narrow wide : List PlacedComment}

theorem eq_of_length (h : run <:+ others) (h' : run' <:+ others) (hlength : run.length = run'.length) :
    run = run' :=
  (List.suffix_of_suffix_length_le h h' (Nat.le_of_eq hlength)).eq_of_length hlength

theorem unique (h : LastRun n others run) (h' : LastRun n others run') : run = run' :=
  eq_of_length h.back h'.back
    (Nat.le_antisymm (h'.longest run h.back h.chain) (h.longest run' h'.back h'.chain))

/-- Without blank lines, the run is that with single blank lines if and only if nowhere
    in that just one blank line lies between two comments. -/
theorem eq_iff (h : LastRun 0 others narrow) (h' : LastRun 1 others wide) :
    narrow = wide ↔ wide.IsChain fun c d => d.first ≠ c.last + 2 := by
  constructor
  · rintro rfl
    exact h.chain.imp fun c d hspaced => by
      unfold PlacedComment.Spaced at hspaced
      omega
  · intro hwide
    have hnarrow : wide.IsChain (PlacedComment.Spaced 0) := by
      rw [List.isChain_iff_forall_rel_of_append_cons_cons] at hwide ⊢
      intro c d front back hsplit
      have hspaced := List.isChain_iff_forall_rel_of_append_cons_cons.1 h'.chain hsplit
      have hne := hwide hsplit
      unfold PlacedComment.Spaced at hspaced ⊢
      omega
    have hchain : narrow.IsChain (PlacedComment.Spaced 1) :=
      h.chain.imp fun c d hspaced => Nat.le_succ_of_le hspaced
    exact eq_of_length h.back h'.back
      (Nat.le_antisymm (h'.longest narrow h.back hchain) (h.longest wide h'.back hnarrow))

/-- The comments of the two runs are the same only if the runs are. -/
theorem map_comment_eq_iff (h : LastRun 0 others narrow) (h' : LastRun 1 others wide) :
    narrow.map (·.comment) = wide.map (·.comment) ↔
      wide.IsChain fun c d => d.first ≠ c.last + 2 := by
  rw [← h.eq_iff h']
  refine ⟨fun hmap => eq_of_length h.back h'.back ?_, fun heq => by rw [heq]⟩
  simpa using congrArg List.length hmap

end LastRun

/-! ## The slots of a token -/

/-- The groups of a token are those of the comments before it, behind the token on whose
    line they may stand. -/
theorem docToken_attachFrom (lines : LineTable) (eof : Token) (previous : Option Nat)
    (skipped ts : List Token) {before after : List DocToken} {d : DocToken}
    (h : (attachFrom lines eof previous skipped ts).1 = before ++ d :: after) :
    d = docToken lines ((before.getLast?.map (·.line)).or previous) d.skipped d.token := by
  fun_induction attachFrom lines eof previous skipped ts generalizing before with
  | case1 => simp at h
  | case2 previous skipped t ts hcomment ih => exact ih h
  | case3 previous skipped t ts hcomment d' ds last heq =>
    rename_i ih
    rw [heq] at ih
    cases before with
    | nil =>
      obtain ⟨rfl, -⟩ := List.cons.inj h
      rfl
    | cons e before =>
      obtain ⟨rfl, hds⟩ := List.cons.inj h
      have hd := ih hds
      cases hlast : before.getLast? <;> simpa [List.getLast?_cons, hlast] using hd

theorem getLast?_flatMap_raw (ts : List DocToken) :
    (ts.flatMap DocToken.raw).getLast? = ts.getLast?.map (·.token) := by
  rcases List.eq_nil_or_concat ts with rfl | ⟨front, d, rfl⟩
  · rfl
  · simp [DocToken.raw]

/-- **The slots of a token of the parser** are those that its comments and the lines of
    the source give it. -/
theorem Input.attributed_ofText (file : String) (text : List Char) {before after : List DocToken}
    {d : DocToken} (h : (ofText file text).tokens = before ++ d :: after) :
    Attributed (before.getLast?.map (lineAt text.utf8Encode ·.token.pos))
      (d.skipped.map (·.placed text.utf8Encode)) (lineAt text.utf8Encode d.token.pos) false
      d.slots := by
  have hraw : (scanText text).tokens = before.flatMap DocToken.raw ++ d.skipped ++ d.token ::
      (after.flatMap DocToken.raw ++ (ofText file text).eof.skipped) := by
    rw [← raw_ofText file, Scanned.raw_eq h]
  have hd : d.token ∈ (scanText text).tokens := by simp [hraw]
  have hkind : d.token.kind ≠ .eof := by
    obtain ⟨used, rest, -, -, hscans, -⟩ := scans_of_scanText text
    obtain ⟨m, lexeme, piece, mid, -, hread, -⟩ := hscans.reads_of_mem hd
    exact hread.kind_ne_eof
  have hprevious : ∀ p ∈ before.getLast?.map (·.token), p ∈ (scanText text).tokens := by
    intro p hp
    rw [← getLast?_flatMap_raw] at hp
    simp [hraw, List.mem_of_getLast? hp]
  have hline : before.getLast?.map (·.line) =
      (before.getLast?.map (·.token)).map ((scanText text).lines.line ·.pos) := by
    cases hlast : before.getLast? with
    | none => rfl
    | some p =>
      have hp : p ∈ (ofText file text).tokens := by simp [h, List.mem_of_getLast? hlast]
      exact congrArg some ((line_attachFrom _ _ none [] _).1 p hp)
  have hslots := congrArg DocToken.slots (docToken_attachFrom _ _ none [] _ h)
  have hskipped : ∀ c ∈ d.skipped, c ∈ (scanText text).tokens := fun c hc => by simp [hraw, hc]
  have hrule := Stop.slots_docToken hprevious hskipped (.inr hd)
  rw [decide_eq_false hkind, Option.map_map] at hrule
  rw [hslots, Option.or_none, hline, ← hrule]
  exact attributed_commentSlots _ _ _ _

/-! ## The comments that lead a token -/

/-- The comments `others` stand between the token `t` and the line of the token before it,
    or between it and the start of the source. -/
def Token.Below (t : Token) (source : ByteArray) (raw : List Token)
    (others : List PlacedComment) : Prop :=
  ∃ before comments after same, raw = before ++ comments ++ t :: after ∧
    (∀ c ∈ comments, c.kind = .comment) ∧ (∀ p ∈ before.getLast?, p.kind ≠ .comment) ∧
    comments.map (·.placed source) = same ++ others ∧
    SameLine (before.getLast?.map (lineAt source ·.pos)) (comments.map (·.placed source)) same

/-- The doc that the comments `others` give a token on the line `next`: their last run
    without blank lines, if it ends just above the token. -/
structure LeadRule (others : List PlacedComment) (next : Nat) (doc : Option CommentGroup) :
    Prop where
  run : ∃ narrow, LastRun 0 others narrow ∧ doc.map (·.comments) =
    if others.getLast?.map (·.last + 1) = some next then some (narrow.map (·.comment)) else none
  /-- it is the last run with single blank lines only if that has none in it -/
  wide : ∃ wide, LastRun 1 others wide ∧ (doc.isSome = true →
    (doc.map (·.comments) = some (wide.map (·.comment)) ↔
      wide.IsChain fun c d => d.first ≠ c.last + 2))

/-- The doc of the token `t` is that of the comments between it and the line of the token
    before it. -/
def Token.LedBy (t : Token) (source : ByteArray) (raw : List Token) (doc : Option CommentGroup) :
    Prop :=
  ∃ others, t.Below source raw others ∧ LeadRule others (lineAt source t.pos) doc

/-- The run at the end of some comments ends where they do. -/
theorem Leading.ends_iff {others lead : List PlacedComment} (h : Leading others lead) {next : Nat} :
    (lead ≠ [] ∧ lead.getLast?.map (·.last + 1) = some next) ↔
      others.getLast?.map (·.last + 1) = some next := by
  have hrun : LastRun 0 others lead := ⟨h.back, h.chain, h.longest⟩
  have hlast : lead.getLast? = others.getLast? := by
    rw [hrun.unique (lastRun_zero others), getLast?_lastRun]
  rw [hlast, and_iff_right_iff_imp]
  rintro hnext rfl
  rw [← hlast] at hnext
  cases hnext

theorem Attributed.leadRule {previous : Option Nat} {cs : List PlacedComment} {next : Nat}
    {atEnd : Bool} {slots : CommentSlots} (h : Attributed previous cs next atEnd slots) :
    ∃ same others, cs = same ++ others ∧ SameLine previous cs same ∧
      LeadRule others next slots.lead := by
  obtain ⟨same, others, lead, hcs, hsame, hleading, -, hlead⟩ := h
  have hrun : LastRun 0 others lead := ⟨hleading.back, hleading.chain, hleading.longest⟩
  have hdoc : slots.lead.map (·.comments) =
      if others.getLast?.map (·.last + 1) = some next then some (lead.map (·.comment))
      else none := by
    rw [hlead]
    exact if_congr hleading.ends_iff rfl rfl
  obtain ⟨wide, hwide⟩ := exists_lastRun 1 others
  refine ⟨same, others, hcs, hsame, ⟨⟨lead, hrun, hdoc⟩, ⟨wide, hwide, fun hsome => ?_⟩⟩⟩
  split at hdoc
  · rw [hdoc, Option.some.injEq]
    exact hrun.map_comment_eq_iff hwide
  · rw [Option.map_eq_none_iff.1 hdoc] at hsome
    cases hsome

/-- The comments that lead a token of the parser. -/
theorem Input.ledBy_ofText (file : String) (text : List Char) {d : DocToken}
    (hd : d ∈ (ofText file text).tokens) :
    d.token.LedBy text.utf8Encode (ofText file text).raw d.leadDoc := by
  obtain ⟨before, after, h⟩ := List.append_of_mem hd
  have hi := scanned_ofText file text
  obtain ⟨same, others, hothers, hsame, hrule⟩ := (attributed_ofText file text h).leadRule
  have hlast : (before.flatMap DocToken.raw).getLast?.map (lineAt text.utf8Encode ·.pos) =
      before.getLast?.map (lineAt text.utf8Encode ·.token.pos) := by
    rw [getLast?_flatMap_raw, Option.map_map]
    rfl
  refine ⟨others, ⟨before.flatMap DocToken.raw, d.skipped, _, same, Scanned.raw_eq h,
    hi.comments d hd, fun p hp => ?_, hothers, hlast ▸ hsame⟩, hrule⟩
  rw [getLast?_flatMap_raw] at hp
  obtain ⟨e, he, rfl⟩ := Option.map_eq_some_iff.1 hp
  exact hi.plain e (by simp [h, List.mem_of_getLast? he])

end PackageDoc
