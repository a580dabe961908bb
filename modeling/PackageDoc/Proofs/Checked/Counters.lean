/-
  Counters.

  The productions count the parentheses and the blocks that are open.  A counter has 32
  bits, and it is counted down only where something is open.

  A split of tokens with such a counter gives what the split of the parser does, as long as
  there are not more tokens than a counter can count: each token opens one parenthesis or
  one block at most.  Nothing is closed that is not open, since a split stops where its
  last parenthesis or its last block is closed.
-/
import PackageDoc.Parser.Package
import PackageDoc.Proofs.Checked.Basic

namespace PackageDoc.Checked

/-! ## Splits that can fail -/

/-- How many parentheses are open behind a token.  A closing one closes one that is
    open. -/
def depthAfter? (depth : Nat) (kind : TokenKind) : Option Nat :=
  if kind = .op .openParen then add? depth 1
  else if kind = .op .closeParen then sub? depth 1
  else some depth

/-- How many parentheses are open behind a token.  A closing one may close none. -/
def depthAbove? (depth : Nat) (kind : TokenKind) : Option Nat :=
  if kind = .op .openParen then add? depth 1 else some (depthAfter depth kind)

/-- Splits the tokens of a variable into those of its type and those of its default value.
    In the value, parentheses are counted as well. -/
def splitDefault? (depth : Nat) : List DocToken → Option (List DocToken × List DocToken)
  | [] => some ([], [])
  | t :: ts =>
    if depth = 0 && startsDefault t.kind then do
      let _ ← ts.foldlM (fun depth t => depthAbove? depth t.kind) 0
      return ([], ts)
    else do
      let (type, value) ← splitDefault? (← depthAbove? depth t.kind) ts
      return (t :: type, value)

/-- Splits tokens where outside parentheses one that `stop` accepts or a closing
    parenthesis comes. -/
def splitNested? (stop : TokenKind → Bool) (depth : Nat) :
    List DocToken → Option (List DocToken × List DocToken)
  | [] => some ([], [])
  | t :: ts =>
    if depth = 0 && (t.kind = .op .closeParen || stop t.kind) then some ([], t :: ts)
    else do
      let (inner, rest) ← splitNested? stop (← depthAfter? depth t.kind) ts
      return (t :: inner, rest)

/-- Splits tokens before the parenthesis that closes the last of `depth` open ones. -/
def splitGroup? (depth : Nat) : List DocToken → Option (List DocToken × List DocToken)
  | [] => some ([], [])
  | t :: ts => do
    let next ← depthAfter? depth t.kind
    if next = 0 then return ([], t :: ts)
    else
      let (inner, rest) ← splitGroup? next ts
      return (t :: inner, rest)

/-- Splits tokens behind the `end` that closes the last of `depth` blocks. -/
def splitBody? (depth : Nat) : List DocToken → Option (List DocToken × List DocToken)
  | [] => some ([], [])
  | t :: ts =>
    if t.kind = .keyword .begin || t.isName "case" then do
      let (body, rest) ← splitBody? (← add? depth 1) ts
      return (t :: body, rest)
    else if t.kind = .keyword .end_ then
      match ts with
      | [] => do
        let _ ← sub? depth 1
        return ([t], [])
      | u :: us => do
        if closesStatement u then
          let (body, rest) ← splitBody? depth us
          return (t :: u :: body, rest)
        else
          let next ← sub? depth 1
          if next = 0 then return ([t], u :: us)
          else if u.isName "case" then
            let (body, rest) ← splitBody? next us
            return (t :: u :: body, rest)
          else
            let (body, rest) ← splitBody? next (u :: us)
            return (t :: body, rest)
    else do
      let (body, rest) ← splitBody? depth ts
      return (t :: body, rest)

/-! ## Splits that do not -/

theorem depthAbove?_eq {depth : Nat} (h : depth + 1 ≤ maxOffset) (kind : TokenKind) :
    depthAbove? depth kind = some (depthAfter depth kind) := by
  unfold depthAbove? depthAfter
  split
  · exact add?_eq h
  · rfl

theorem depthAfter?_eq {depth : Nat} {kind : TokenKind} (h : depth + 1 ≤ maxOffset)
    (hopen : kind = .op .closeParen → 1 ≤ depth) :
    depthAfter? depth kind = some (depthAfter depth kind) := by
  unfold depthAfter? depthAfter
  split
  · exact add?_eq h
  · split
    · rename_i hclose
      exact sub?_eq (hopen hclose)
    · rfl

theorem depthAfter_le (depth : Nat) (kind : TokenKind) : depthAfter depth kind ≤ depth + 1 := by
  unfold depthAfter
  split
  · exact Nat.le_refl _
  · split <;> omega

/-- Parentheses can be counted in as many tokens as a text has. -/
theorem exists_foldlM_depthAbove? {depth : Nat} {ts : List DocToken}
    (h : depth + ts.length ≤ maxOffset) :
    ∃ last, ts.foldlM (fun depth t => depthAbove? depth t.kind) depth = some last := by
  induction ts generalizing depth with
  | nil => exact ⟨depth, rfl⟩
  | cons t ts ih =>
    rw [List.length_cons] at h
    have hle := depthAfter_le depth t.kind
    rw [List.foldlM_cons, depthAbove?_eq (by omega)]
    exact ih (by omega)

theorem splitDefault?_eq {depth : Nat} {ts : List DocToken} (h : depth + ts.length ≤ maxOffset) :
    splitDefault? depth ts = some (splitDefault depth ts) := by
  induction ts generalizing depth with
  | nil => rfl
  | cons t ts ih =>
    rw [List.length_cons] at h
    have hle := depthAfter_le depth t.kind
    have hmore : splitDefault? (depthAfter depth t.kind) ts =
        some (splitDefault (depthAfter depth t.kind) ts) := ih (by omega)
    obtain ⟨last, hvalue⟩ := exists_foldlM_depthAbove? (by omega : 0 + ts.length ≤ maxOffset)
    unfold splitDefault? splitDefault
    split
    · simp [hvalue]
    · simp [depthAbove?_eq (by omega : depth + 1 ≤ maxOffset), hmore]

theorem splitNested?_eq {stop : TokenKind → Bool} {depth : Nat} {ts : List DocToken}
    (h : depth + ts.length ≤ maxOffset) :
    splitNested? stop depth ts = some (splitNested stop depth ts) := by
  induction ts generalizing depth with
  | nil => rfl
  | cons t ts ih =>
    rw [List.length_cons] at h
    have hle := depthAfter_le depth t.kind
    have hmore : splitNested? stop (depthAfter depth t.kind) ts =
        some (splitNested stop (depthAfter depth t.kind) ts) := ih (by omega)
    unfold splitNested? splitNested
    split
    · rfl
    · rename_i hgoes
      have hopen : t.kind = .op .closeParen → 1 ≤ depth := by
        intro hclose
        simp only [hclose, decide_true, Bool.true_or, Bool.and_true, decide_eq_true_eq] at hgoes
        omega
      simp [depthAfter?_eq (by omega) hopen, hmore]

/-- The counter of a group counts its own parenthesis as well. -/
theorem splitGroup?_eq {depth : Nat} {ts : List DocToken} (h : depth + 1 + ts.length ≤ maxOffset) :
    splitGroup? (depth + 1) ts = some (splitNested (fun _ => false) depth ts) := by
  induction ts generalizing depth with
  | nil => rfl
  | cons t ts ih =>
    rw [List.length_cons] at h
    have hnext : depthAfter? (depth + 1) t.kind = some (depthAfter (depth + 1) t.kind) :=
      depthAfter?_eq (by omega) (by omega)
    unfold splitGroup? splitNested
    rw [hnext]
    by_cases hstop : depth = 0 ∧ t.kind = .op .closeParen
    · obtain ⟨rfl, hclose⟩ := hstop
      simp [hclose, depthAfter]
    · have hsucc : depthAfter (depth + 1) t.kind = depthAfter depth t.kind + 1 := by
        unfold depthAfter
        split
        · rfl
        · split
          · rename_i hclose
            have hpos : depth ≠ 0 := fun hzero => hstop ⟨hzero, hclose⟩
            omega
          · rfl
      have hle := depthAfter_le depth t.kind
      have hmore : splitGroup? (depthAfter depth t.kind + 1) ts =
          some (splitNested (fun _ => false) (depthAfter depth t.kind) ts) := ih (by omega)
      simp [hsucc, hmore, hstop]

/-- Blocks can be counted in as many tokens as a text has, and a block that is closed is
    open. -/
theorem splitBody?_eq {depth : Nat} {ts : List DocToken} (hpos : 1 ≤ depth)
    (h : depth + ts.length ≤ maxOffset) : splitBody? depth ts = some (splitBody depth ts) := by
  fun_induction splitBody depth ts with
  | case1 => rfl
  | case2 depth t ts hopens body rest hbody ih =>
    rw [List.length_cons] at h
    have hmore := ih (by omega) (by omega)
    rw [splitBody?.eq_def]
    simp [hopens, add?_eq (by omega : depth + 1 ≤ maxOffset), hmore, hbody]
  | case3 depth t hopens hend =>
    rw [splitBody?, if_neg hopens, if_pos hend]
    simp [sub?_eq hpos]
  | case4 depth t hopens hend u us hstatement body rest hbody ih =>
    rw [List.length_cons, List.length_cons] at h
    have hmore := ih hpos (by omega)
    rw [splitBody?, if_neg hopens, if_pos hend]
    simp [hstatement, hmore, hbody]
  | case5 depth t hopens hend u us hstatement hlast =>
    obtain rfl : depth = 1 := by omega
    rw [splitBody?, if_neg hopens, if_pos hend]
    simp [hstatement, sub?_eq hpos]
  | case6 depth t hopens hend u us hstatement hlast hcase body rest hbody ih =>
    rw [List.length_cons, List.length_cons] at h
    have hmore := ih (by omega) (by omega)
    rw [splitBody?, if_neg hopens, if_pos hend]
    simp [hstatement, sub?_eq hpos, hcase, hmore, hbody]
    omega
  | case7 depth t hopens hend u us hstatement hlast hcase body rest hbody ih =>
    rw [List.length_cons] at h
    have hmore := ih (by omega) (by omega)
    rw [splitBody?, if_neg hopens, if_pos hend]
    simp [hstatement, sub?_eq hpos, hcase, hmore, hbody]
    omega
  | case8 depth t ts hopens hend body rest hbody ih =>
    rw [List.length_cons] at h
    have hmore := ih hpos (by omega)
    rw [splitBody?.eq_def]
    simp [hopens, hend, hmore, hbody]

end PackageDoc.Checked
