/-
  Where a body is left.

  A body is skipped in rounds, each of which passes one or two tokens and changes the
  count of the blocks that are open (`skipRound`).  The count can be told from the tokens
  alone: each has a weight, which depends on its neighbours only (`Token.weight`), and
  between two rounds the count is one more than the weight of all tokens passed
  (`Skipping.counted`).  So the body is left behind the first `end` at which this comes
  to 0 (`ClosesAt`), and only a count above 0 is ever counted down.

  Main statement: `packageBody_stops`.
-/
import PackageDoc.Proofs.Parser.Body

namespace PackageDoc

/-! ## Rounds -/

/-- What the next token means for the nesting of a body. -/
def nextMark (ds : List DocToken) : Option Mark := ds.head?.bind fun d => d.token.mark?

/-- A round with `depth` open blocks: the count and the tokens behind it, or the tokens
    that are left where the body ends. -/
def skipRound (depth : Nat) : List DocToken → (Nat × List DocToken) ⊕ List DocToken
  | [] => .inr []
  | d :: ds =>
    match d.token.mark? with
    | some .begin | some .case => .inl (depth + 1, ds)
    | some .end_ =>
      if nextMark ds = some .if_ ∨ nextMark ds = some .loop then .inl (depth, ds.tail)
      else if depth - 1 = 0 then .inr ds
      else if nextMark ds = some .case then .inl (depth - 1, ds.tail)
      else .inl (depth - 1, ds)
    | _ => .inl (depth, ds)

/-- The rounds over `ds` come to one with this count and with these tokens left. -/
inductive Skipping (ds : List DocToken) : Nat → List DocToken → Prop where
  | start : Skipping ds 1 ds
  | round {depth depth' : Nat} {left left' : List DocToken} : Skipping ds depth left →
      skipRound depth left = .inl (depth', left') → Skipping ds depth' left'

/-- What a round does that does not end the body. -/
inductive Round (depth : Nat) : List DocToken → Nat → List DocToken → Prop where
  | opens {d : DocToken} {ds : List DocToken} :
      d.token.mark? = some .begin ∨ d.token.mark? = some .case → Round depth (d :: ds) (depth + 1) ds
  | passes {d : DocToken} {ds : List DocToken} :
      d.token.mark? = none ∨ d.token.mark? = some .if_ ∨ d.token.mark? = some .loop →
      Round depth (d :: ds) depth ds
  | endsStatement {e u : DocToken} {us : List DocToken} : e.token.mark? = some .end_ →
      u.token.mark? = some .if_ ∨ u.token.mark? = some .loop → Round depth (e :: u :: us) depth us
  | endsCase {e u : DocToken} {us : List DocToken} : e.token.mark? = some .end_ →
      u.token.mark? = some .case → depth - 1 ≠ 0 → Round depth (e :: u :: us) (depth - 1) us
  | endsBlock {e : DocToken} {ds : List DocToken} : e.token.mark? = some .end_ →
      ¬ (nextMark ds = some .if_ ∨ nextMark ds = some .loop) → nextMark ds ≠ some .case →
      depth - 1 ≠ 0 → Round depth (e :: ds) (depth - 1) ds

/-- A round that ends the body. -/
inductive LastRound (depth : Nat) : List DocToken → List DocToken → Prop where
  | atEnd : LastRound depth [] []
  | closes {e : DocToken} {rest : List DocToken} : e.token.mark? = some .end_ →
      ¬ (nextMark rest = some .if_ ∨ nextMark rest = some .loop) → depth - 1 = 0 →
      LastRound depth (e :: rest) rest

/-- Every round goes on in one of these ways, or ends the body. -/
theorem skipRound_cases (depth : Nat) (left : List DocToken) :
    (∃ depth' left', skipRound depth left = .inl (depth', left') ∧ Round depth left depth' left') ∨
      ∃ rest, skipRound depth left = .inr rest ∧ LastRound depth left rest := by
  cases left with
  | nil => exact .inr ⟨[], rfl, .atEnd⟩
  | cons d ds =>
    rcases hmark : d.token.mark? with _ | m
    · exact .inl ⟨depth, ds, by simp [skipRound, hmark], .passes (.inl hmark)⟩
    · cases m with
      | begin => exact .inl ⟨depth + 1, ds, by simp [skipRound, hmark], .opens (.inl hmark)⟩
      | case => exact .inl ⟨depth + 1, ds, by simp [skipRound, hmark], .opens (.inr hmark)⟩
      | if_ => exact .inl ⟨depth, ds, by simp [skipRound, hmark], .passes (.inr (.inl hmark))⟩
      | loop => exact .inl ⟨depth, ds, by simp [skipRound, hmark], .passes (.inr (.inr hmark))⟩
      | end_ =>
        by_cases hstatement : nextMark ds = some .if_ ∨ nextMark ds = some .loop
        · obtain ⟨u, us, rfl⟩ : ∃ u us, ds = u :: us := by
            cases ds with
            | nil => simp [nextMark] at hstatement
            | cons u us => exact ⟨u, us, rfl⟩
          exact .inl ⟨depth, us, by simp [skipRound, hmark, hstatement], .endsStatement hmark hstatement⟩
        by_cases hlast : depth - 1 = 0
        · exact .inr ⟨ds, by simp [skipRound, hmark, hstatement, hlast], .closes hmark hstatement hlast⟩
        by_cases hcase : nextMark ds = some .case
        · obtain ⟨u, us, rfl⟩ : ∃ u us, ds = u :: us := by
            cases ds with
            | nil => simp [nextMark] at hcase
            | cons u us => exact ⟨u, us, rfl⟩
          exact .inl ⟨depth - 1, us, by simp [skipRound, hmark, hcase, hlast], .endsCase hmark hcase hlast⟩
        · exact .inl ⟨depth - 1, ds, by simp [skipRound, hmark, hstatement, hlast, hcase],
            .endsBlock hmark hstatement hcase hlast⟩

theorem round_of_skipRound {depth depth' : Nat} {left left' : List DocToken}
    (h : skipRound depth left = .inl (depth', left')) : Round depth left depth' left' := by
  rcases skipRound_cases depth left with ⟨_, _, heq, hround⟩ | ⟨_, heq, -⟩
  · rw [h] at heq
    cases heq
    exact hround
  · rw [h] at heq
    cases heq

/-! ## The rounds are those of the split -/

theorem splitBody_end_nil {depth : Nat} {e : DocToken} (he : e.token.mark? = some .end_) :
    splitBody depth [e] = ([e], []) := by
  have hopen : ¬ (decide (e.kind = .keyword .begin) || e.isName "case") = true := by
    rw [opens_iff]
    grind
  rw [splitBody, if_neg hopen, if_pos ((kind_end_iff e).2 he)]

theorem splitBody_of_round {depth depth' : Nat} {left left' : List DocToken}
    (h : Round depth left depth' left') : (splitBody depth left).2 = (splitBody depth' left').2 := by
  cases h with
  | opens hmark => rw [splitBody_open hmark]
  | passes hmark => rw [splitBody_plain hmark]
  | endsStatement he hu => rw [splitBody_end_statement he hu]
  | endsCase he hu hdepth =>
    obtain ⟨k, rfl⟩ : ∃ k, depth = k + 1 := ⟨depth - 1, by omega⟩
    rw [splitBody_end_case he hu (by omega), Nat.add_sub_cancel]
  | endsBlock he hstatement hcase hdepth =>
    obtain ⟨k, rfl⟩ : ∃ k, depth = k + 1 := ⟨depth - 1, by omega⟩
    cases left' with
    | nil => rw [splitBody_end_nil he, splitBody]
    | cons u us =>
      have hu : u.token.mark? ≠ some .case := hcase
      rw [splitBody_end_block he hstatement, if_neg (by omega), if_neg hu, Nat.add_sub_cancel]

theorem splitBody_of_lastRound {depth : Nat} {left rest : List DocToken} (hdepth : 1 ≤ depth)
    (h : LastRound depth left rest) : (splitBody depth left).2 = rest := by
  cases h with
  | atEnd => rw [splitBody]
  | closes he hstatement hlast =>
    obtain rfl : depth = 0 + 1 := by omega
    cases rest with
    | nil => rw [splitBody_end_nil he]
    | cons u us => rw [splitBody_end_block he hstatement, if_pos rfl]

/-- **The split is made in rounds**: from between two of them it goes on to its end. -/
theorem Skipping.splitBody_eq {ds left : List DocToken} {depth : Nat} (h : Skipping ds depth left) :
    (splitBody depth left).2 = (splitBody 1 ds).2 := by
  induction h with
  | start => rfl
  | round _ hround ih => rw [← splitBody_of_round (round_of_skipRound hround), ih]

theorem Round.length_lt {depth depth' : Nat} {left left' : List DocToken}
    (h : Round depth left depth' left') : left'.length < left.length := by
  cases h <;> simp only [List.length_cons] <;> omega

/-- **The rounds come to an end.**  The induction is on the number of tokens that are
    left. -/
theorem Skipping.exists_last {ds left : List DocToken} {depth : Nat} (h : Skipping ds depth left) :
    ∃ depth' left' rest, Skipping ds depth' left' ∧ skipRound depth' left' = .inr rest ∧
      LastRound depth' left' rest := by
  generalize hn : left.length = n
  induction n using Nat.strongRecOn generalizing depth left with
  | _ n ih =>
    rcases skipRound_cases depth left with ⟨depth', left', heq, hround⟩ | ⟨rest, heq, hlast⟩
    · have hlt := hround.length_lt
      exact ih left'.length (by omega) (h.round heq) rfl
    · exact ⟨depth, left, rest, h, heq, hlast⟩

/-! ## Weights -/

/-- What a token adds to the count, between the token before it and the one behind it. -/
def Token.weight (before? : Option Token) (t : Token) (behind? : Option Token) : Int :=
  match t.mark? with
  | some .begin => 1
  | some .case => if before?.bind mark? = some .end_ then 0 else 1
  | some .end_ =>
    if behind?.bind mark? = some .if_ ∨ behind?.bind mark? = some .loop then 0 else -1
  | _ => 0

/-- The weight of the token at a place. -/
def weightAt (ts : List Token) (k : Nat) : Int :=
  (ts[k]?.map fun t => t.weight (if k = 0 then none else ts[k - 1]?) ts[k + 1]?).getD 0

/-- The weight of the first `k` tokens. -/
def runningWeight (ts : List Token) : Nat → Int
  | 0 => 0
  | k + 1 => runningWeight ts k + weightAt ts k

/-- The token `k` is the first `end` behind which no block is open, the body itself
    included. -/
structure ClosesAt (ts : List Token) (k : Nat) : Prop where
  isEnd : ts[k]?.bind Token.mark? = some .end_
  balanced : 1 + runningWeight ts (k + 1) = 0
  first : ∀ j < k, ts[j]?.bind Token.mark? = some .end_ → 1 + runningWeight ts (j + 1) ≠ 0

theorem weightAt_between (front back : List Token) (t : Token) :
    weightAt (front ++ t :: back) front.length = t.weight front.getLast? back.head? := by
  have hbefore : (if front.length = 0 then none else (front ++ t :: back)[front.length - 1]?) =
      front.getLast? := by
    rcases List.eq_nil_or_concat front with rfl | ⟨front, u, rfl⟩ <;> simp
  have hbehind : (front ++ t :: back)[front.length + 1]? = back.head? := by
    simp [List.getElem?_append_right, List.head?_eq_getElem?]
  rw [weightAt, hbefore, hbehind]
  simp

theorem runningWeight_between (front back : List Token) (t : Token) :
    runningWeight (front ++ t :: back) (front.length + 1) =
      runningWeight (front ++ t :: back) front.length + t.weight front.getLast? back.head? := by
  rw [runningWeight, weightAt_between]

theorem ClosesAt.eq {ts : List Token} {j k : Nat} (hj : ClosesAt ts j) (hk : ClosesAt ts k) :
    j = k := by
  rcases Nat.lt_trichotomy j k with h | h | h
  · exact absurd hj.balanced (hk.first j h hj.isEnd)
  · exact h
  · exact absurd hk.balanced (hj.first k h hk.isEnd)

/-! ## The count -/

/-- Behind the tokens `front` the count is one more than their weight, and it has been
    above 0 all along. -/
structure Counted (front back : List Token) (depth : Nat) : Prop where
  count : (depth : Int) = 1 + runningWeight (front ++ back) front.length
  nonneg : ∀ k ≤ front.length, 0 ≤ runningWeight (front ++ back) k

namespace Counted

variable {front back : List Token} {t : Token} {depth depth' : Nat}

theorem start (ts : List Token) : Counted [] ts 1 := by
  refine ⟨rfl, fun k hk => ?_⟩
  obtain rfl : k = 0 := by simpa using hk
  exact Int.le_refl 0

theorem pos (h : Counted front back depth) : 1 ≤ depth := by
  have hcount := h.count
  have hnonneg := h.nonneg front.length (Nat.le_refl _)
  omega

/-- **Passing a token** changes the count by the weight of the token. -/
theorem pass (h : Counted front (t :: back) depth) (hpos : 1 ≤ depth')
    (hweight : (depth' : Int) = depth + t.weight front.getLast? back.head?) :
    Counted (front ++ [t]) back depth' := by
  have hts : front ++ [t] ++ back = front ++ t :: back := by simp
  have hlength : (front ++ [t]).length = front.length + 1 := by simp
  have hsucc := runningWeight_between front back t
  have hcount := h.count
  constructor
  · rw [hts, hlength]
    omega
  · intro k hk
    rw [hts]
    rw [hlength] at hk
    rcases Nat.lt_or_ge k (front.length + 1) with hlt | hge
    · exact h.nonneg k (by omega)
    · obtain rfl : k = front.length + 1 := by omega
      omega

/-- The body is closed at an `end` that takes the count to 0. -/
theorem closesAt (h : Counted front (t :: back) depth) (ht : t.mark? = some .end_)
    (hback : ¬ (back.head?.bind Token.mark? = some .if_ ∨ back.head?.bind Token.mark? = some .loop))
    (hdepth : depth - 1 = 0) : ClosesAt (front ++ t :: back) front.length := by
  have hweight : t.weight front.getLast? back.head? = -1 := by
    rw [Token.weight, ht]
    exact if_neg hback
  have hsucc := runningWeight_between front back t
  rw [hweight] at hsucc
  have hcount := h.count
  have hpos := h.pos
  refine ⟨by simp [ht], by omega, fun j hj _ => ?_⟩
  have hnonneg := h.nonneg (j + 1) hj
  omega

/-- Where all tokens have been passed, no `end` has closed the body. -/
theorem not_closesAt (h : Counted front [] depth) (k : Nat) : ¬ ClosesAt front k := by
  intro hcloses
  have hnonneg := h.nonneg (k + 1)
  rw [List.append_nil] at hnonneg
  rcases Nat.lt_or_ge k front.length with hlt | hge
  · have hle := hnonneg hlt
    have hzero := hcloses.balanced
    omega
  · have hend := hcloses.isEnd
    rw [List.getElem?_eq_none hge] at hend
    cases hend

end Counted

/-- Between two rounds, `passed` are the tokens passed and `left` those that are left.  A
    `case` that belongs to an `end` has been passed with it. -/
structure BetweenRounds (passed left : List DocToken) (depth : Nat) : Prop where
  counted : Counted (plainTokens passed) (plainTokens left) depth
  apart : (plainTokens passed).getLast?.bind Token.mark? = some .end_ → nextMark left ≠ some .case

/-- The next token means the same with its comments and without. -/
theorem nextMark_eq (ds : List DocToken) :
    nextMark ds = (plainTokens ds).head?.bind Token.mark? := by
  cases ds <;> rfl

theorem plainTokens_concat (passed : List DocToken) (d : DocToken) :
    plainTokens (passed ++ [d]) = plainTokens passed ++ [d.token] := by
  simp [plainTokens]

theorem Counted.move {passed left : List DocToken} {d : DocToken} {depth depth' : Nat} {w : Int}
    (h : Counted (plainTokens passed) (plainTokens (d :: left)) depth)
    (hweight : d.token.weight (plainTokens passed).getLast? (plainTokens left).head? = w)
    (hpos : 1 ≤ depth') (hdepth : (depth' : Int) = depth + w) :
    Counted (plainTokens (passed ++ [d])) (plainTokens left) depth' := by
  rw [plainTokens_concat]
  subst hweight
  exact h.pass hpos hdepth

/-- Behind a token that is no `end`, a `case` opens a block. -/
theorem BetweenRounds.of_mark {passed left : List DocToken} {d : DocToken} {depth : Nat}
    (h : Counted (plainTokens (passed ++ [d])) (plainTokens left) depth)
    (hd : d.token.mark? ≠ some .end_) : BetweenRounds (passed ++ [d]) left depth := by
  refine ⟨h, fun hend => absurd ?_ hd⟩
  simpa [plainTokens_concat] using hend

/-- **A round keeps the count.** -/
theorem BetweenRounds.round {passed left left' : List DocToken} {depth depth' : Nat}
    (h : BetweenRounds passed left depth) (hround : Round depth left depth' left') :
    ∃ passed', passed ++ left = passed' ++ left' ∧ BetweenRounds passed' left' depth' := by
  obtain ⟨hcounted, hapart⟩ := h
  have hpos := hcounted.pos
  cases hround with
  | @opens d _ hmark =>
    have hweight : d.token.weight (plainTokens passed).getLast? (plainTokens left').head? = 1 := by
      rcases hmark with hmark | hmark
      · rw [Token.weight, hmark]
      · -- a `case` behind an `end` has been passed with it, so it does not start a round
        rw [Token.weight, hmark]
        exact if_neg fun hend => hapart hend hmark
    refine ⟨passed ++ [d], by simp, .of_mark (hcounted.move hweight (by omega) (by omega)) ?_⟩
    rcases hmark with h | h <;> rw [h] <;> decide
  | @passes d _ hmark =>
    have hweight : d.token.weight (plainTokens passed).getLast? (plainTokens left').head? = 0 := by
      rcases hmark with hmark | hmark | hmark <;> rw [Token.weight, hmark]
    refine ⟨passed ++ [d], by simp, .of_mark (hcounted.move hweight hpos (by omega)) ?_⟩
    rcases hmark with h | h | h <;> rw [h] <;> decide
  | @endsStatement e u _ he hu =>
    have hfirst : e.token.weight (plainTokens passed).getLast?
        (plainTokens (u :: left')).head? = 0 := by
      rw [Token.weight, he]
      exact if_pos hu
    have hsecond : u.token.weight (plainTokens (passed ++ [e])).getLast?
        (plainTokens left').head? = 0 := by
      rcases hu with hu | hu <;> rw [Token.weight, hu]
    have hmid := hcounted.move hfirst hpos (by omega)
    refine ⟨passed ++ [e] ++ [u], by simp, .of_mark (hmid.move hsecond hpos (by omega)) ?_⟩
    rcases hu with h | h <;> rw [h] <;> decide
  | @endsCase e u _ he hu hdepth =>
    have hfirst : e.token.weight (plainTokens passed).getLast?
        (plainTokens (u :: left')).head? = -1 := by
      rw [Token.weight, he]
      refine if_neg ?_
      rintro (h | h) <;> cases hu.symm.trans h
    have hsecond : u.token.weight (plainTokens (passed ++ [e])).getLast?
        (plainTokens left').head? = 0 := by
      rw [Token.weight, hu, plainTokens_concat, List.getLast?_concat]
      exact if_pos he
    have hmid : Counted _ _ (depth - 1) := hcounted.move hfirst (by omega) (by omega)
    refine ⟨passed ++ [e] ++ [u], by simp, .of_mark (hmid.move hsecond (by omega) (by omega)) ?_⟩
    rw [hu]
    decide
  | @endsBlock e _ he hstatement hcase hdepth =>
    have hweight : e.token.weight (plainTokens passed).getLast? (plainTokens left').head? = -1 := by
      rw [Token.weight, he]
      rw [nextMark_eq] at hstatement
      exact if_neg hstatement
    exact ⟨passed ++ [e], by simp, hcounted.move hweight (by omega) (by omega), fun _ => hcase⟩

/-- **Between two rounds the count is right.** -/
theorem Skipping.betweenRounds {ds left : List DocToken} {depth : Nat} (h : Skipping ds depth left) :
    ∃ passed, ds = passed ++ left ∧ BetweenRounds passed left depth := by
  induction h with
  | start => exact ⟨[], rfl, .start _, by simp [plainTokens]⟩
  | round _ hround ih =>
    obtain ⟨passed, rfl, hbetween⟩ := ih
    exact hbetween.round (round_of_skipRound hround)

/-- **The last round** passes the first `end` that balances the tokens, or finds that
    there is none. -/
theorem LastRound.closes_or_ends {passed left rest : List DocToken} {depth : Nat}
    (h : LastRound depth left rest)
    (hcounted : Counted (plainTokens passed) (plainTokens left) depth) :
    (∃ k, ClosesAt (plainTokens (passed ++ left)) k ∧ rest = (passed ++ left).drop (k + 1)) ∨
      (∀ k, ¬ ClosesAt (plainTokens (passed ++ left)) k) ∧ rest = [] := by
  have happend : plainTokens (passed ++ left) = plainTokens passed ++ plainTokens left := by
    simp [plainTokens]
  rw [happend]
  cases h with
  | atEnd =>
    refine .inr ⟨?_, rfl⟩
    simpa [plainTokens] using hcounted.not_closesAt
  | closes he hstatement hdepth =>
    rw [nextMark_eq] at hstatement
    refine .inl ⟨_, hcounted.closesAt he hstatement hdepth, ?_⟩
    simp [plainTokens, ← List.drop_drop]

/-! ## The body of a package -/

/-- A body is left where its split ends; a fault of the scanner shows only where that is
    the end of the input. -/
theorem outcome_packageBody (i : Input) (d : DocToken) (ds : List DocToken) :
    Parser.packageBody.outcome i (d :: ds) =
      match (splitBody 1 ds).2, i.fault? with
      | [], some e => .error (i.scanError e)
      | rest, _ => .ok ((), rest) := by
  have hchain : Parser.packageBody.outcome i (d :: ds) =
      (Parser.advance.outcome i (d :: ds)).bind fun x =>
        (Parser.arrive i (splitBody 1 x.2).1 (splitBody 1 x.2).2).outcome.bind fun y =>
          .ok ((), y.2) := by
    simp only [Parser.packageBody, Parser.outcome_bind]
    rfl
  rw [hchain]
  cases ds with
  | nil =>
    cases hfault : i.fault? <;>
      simp [Parser.outcome, Parser.advance, Parser.arrive, hfault, Except.bind, splitBody]
  | cons t ts =>
    have hmove : Parser.advance.outcome i (d :: t :: ts) = .ok ((), t :: ts) :=
      Parser.returns_advance.2 ⟨rfl, fun _ h => by cases h⟩
    have hsplit := splitBody_append 1 (t :: ts)
    rw [hmove]
    simp only [Except.bind]
    generalize splitBody 1 (t :: ts) = split at hsplit ⊢
    obtain ⟨passed, rest⟩ := split
    cases rest with
    | cons u us => simp [Parser.arrive]
    | nil =>
      obtain rfl : passed = t :: ts := by simpa using hsplit
      cases hfault : i.fault? <;> simp [Parser.arrive, hfault]

/-- **A body is skipped up to the `end` that balances it.**  It is left on the token
    behind the first `end` at which the weights come to -1, or at the end of the input if
    there is none, where a fault of the scanner shows.  The rounds come to that place, and
    before each of them the count with which the split goes on is one more than the weight
    of the tokens passed, and at least 1. -/
theorem packageBody_stops (i : Input) (d : DocToken) (ds : List DocToken) :
    ∃ rest,
      (Parser.packageBody.outcome i (d :: ds) =
        match rest, i.fault? with
        | [], some e => .error (i.scanError e)
        | rest, _ => .ok ((), rest)) ∧
      (∀ k, ClosesAt (plainTokens ds) k → rest = ds.drop (k + 1)) ∧
      ((∀ k, ¬ ClosesAt (plainTokens ds) k) → rest = []) ∧
      (∃ depth left, Skipping ds depth left ∧ skipRound depth left = .inr rest) ∧
      ∀ depth left, Skipping ds depth left → (splitBody depth left).2 = rest ∧ 1 ≤ depth ∧
        ∃ passed, ds = passed ++ left ∧
          (depth : Int) = 1 + runningWeight (plainTokens ds) passed.length := by
  have hstart : Skipping ds 1 ds := .start
  obtain ⟨depth, left, rest, hskipping, hround, hlast⟩ := hstart.exists_last
  obtain ⟨passed, hds, hbetween⟩ := hskipping.betweenRounds
  have hrest : (splitBody 1 ds).2 = rest := by
    rw [← hskipping.splitBody_eq, splitBody_of_lastRound hbetween.counted.pos hlast]
  have hplace := hlast.closes_or_ends hbetween.counted
  rw [← hds] at hplace
  refine ⟨rest, hrest ▸ outcome_packageBody i d ds, fun k hk => ?_, fun hnone => ?_,
    ⟨depth, left, hskipping, hround⟩, fun depth left h => ?_⟩
  · rcases hplace with ⟨j, hj, hrest⟩ | ⟨hnone, -⟩
    · rw [hrest, hj.eq hk]
    · exact absurd hk (hnone k)
  · rcases hplace with ⟨j, hj, -⟩ | ⟨-, hrest⟩
    · exact absurd hj (hnone j)
    · exact hrest
  · obtain ⟨passed, rfl, hbetween⟩ := h.betweenRounds
    refine ⟨h.splitBody_eq.trans hrest, hbetween.counted.pos, passed, rfl, ?_⟩
    simpa [plainTokens] using hbetween.counted.count

/-- A body with a `case` that is an expression and one that is a statement, and two `end`
    in a row; its last `end` is one too many. -/
def countedBody : List Char :=
  "body b is case end case if end if begin end end end x".toList

/-- The body is closed by the second `end` in the row. -/
theorem packageBody_stops_counted :
    ∃ d ds rest, (Input.ofText "b.pkb" countedBody).tokens = d :: ds ∧
      ClosesAt (plainTokens ds) 10 ∧ rest = ds.drop 11 ∧
      rest.map DocToken.kind = [.keyword .end_, .ident] ∧
      Parser.packageBody.outcome (.ofText "b.pkb" countedBody) (d :: ds) = .ok ((), rest) := by
  obtain ⟨hne, hend, hbalanced, hfirst, hkinds⟩ :
      let ts := (Input.ofText "b.pkb" countedBody).tokens
      ts ≠ [] ∧ (plainTokens ts.tail)[10]?.bind Token.mark? = some .end_ ∧
        1 + runningWeight (plainTokens ts.tail) 11 = 0 ∧
        (∀ j < 10, (plainTokens ts.tail)[j]?.bind Token.mark? = some .end_ →
          1 + runningWeight (plainTokens ts.tail) (j + 1) ≠ 0) ∧
        (ts.tail.drop 11).map DocToken.kind = [.keyword .end_, .ident] := by
    decide +kernel
  obtain ⟨d, ds, htokens⟩ := List.exists_cons_of_ne_nil hne
  rw [htokens, List.tail_cons] at hend hbalanced hfirst hkinds
  have hcloses : ClosesAt (plainTokens ds) 10 := ⟨hend, hbalanced, hfirst⟩
  obtain ⟨rest, houtcome, hclosed, -⟩ :=
    packageBody_stops (.ofText "b.pkb" countedBody) d ds
  obtain rfl := hclosed 10 hcloses
  refine ⟨d, ds, _, htokens, hcloses, rfl, hkinds, ?_⟩
  rw [houtcome]
  cases hrest : ds.drop 11 with
  | nil => simp [hrest] at hkinds
  | cons u us => rfl

end PackageDoc
