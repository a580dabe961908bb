/-
  The blocks of a doc text.

  A line is plain if it is not blank and not deeper than the base.  The lines of a
  text are cut where plain lines begin or end (`runs`), and each of these runs is
  one block or none (`blockOf`): plain lines are a paragraph, and others a
  preformatted block from the first deep line to the last.  `blocksAfter`, which
  reads line by line and does not know what follows a blank line, finds the same
  blocks (`blocks_eq_runs`).

  What is said in the blocks is what the text says, line by line: `saidLines` are
  the trimmed lines of a text that are not blank.
-/
import Mathlib.Data.List.SplitBy
import PackageDoc.Proofs.Html.Page
import PackageDoc.Proofs.Text.Lines

namespace PackageDoc.Html

open Text

/-! ## Runs of lines -/

/-- A line of a paragraph. -/
def isPlain (base : Nat) (l : List Char) : Bool := !isBlankLine l && indent l ≤ base

/-- Lines, cut where plain lines begin and where they end. -/
def runs (base : Nat) (ls : List (List Char)) : List (List (List Char)) :=
  ls.splitBy fun l m => isPlain base l == isPlain base m

/-- A line of a preformatted block that is moved left. -/
def outdent (shift : Nat) (l : List Char) : List Char :=
  if isBlankLine l then [] else l.drop (min (indent l) shift)

/-- The block of a run; none if all its lines are blank. -/
def blockOf (base : Nat) (run : List (List Char)) : Option Block :=
  if run.all (isPlain base) then some (.paragraph (run.map trim))
  else
    match strip isBlankLine run with
    | [] => none
    | l :: ls => some (.preformatted ((l :: ls).map (outdent (indent l))))

section Plain

variable {base : Nat} {run rest : List (List Char)}

theorem isPlain_iff {l : List Char} :
    isPlain base l = true ↔ isBlankLine l = false ∧ indent l ≤ base := by
  simp [isPlain]

theorem close_nil (shift : Option Nat) : Draft.close ⟨shift, []⟩ = [] := rfl

/-- Plain lines are added to a paragraph. -/
theorem blocksAfter_plain (hrun : ∀ l ∈ run, isPlain base l = true) (done : List (List Char)) :
    blocksAfter base ⟨none, done⟩ (run ++ rest) =
      blocksAfter base ⟨none, (run.map trim).reverse ++ done⟩ rest := by
  induction run generalizing done with
  | nil => rfl
  | cons l run ih =>
    obtain ⟨hl, hrun⟩ := List.forall_mem_cons.1 hrun
    obtain ⟨hblank, hindent⟩ := isPlain_iff.1 hl
    rw [List.cons_append, blocksAfter, if_neg (by simp [hblank]), if_neg (by omega), ih hrun]
    simp

/-- Any other line ends it. -/
theorem blocksAfter_close_none (hrest : ∀ l ∈ rest.head?, isPlain base l = false)
    (done : List (List Char)) :
    blocksAfter base ⟨none, done⟩ rest =
      Draft.close ⟨none, done⟩ ++ blocksAfter base ⟨none, []⟩ rest := by
  cases rest with
  | nil => simp [blocksAfter, close_nil]
  | cons l rest =>
    have hl := hrest l rfl
    by_cases hblank : isBlankLine l = true
    · simp [blocksAfter, hblank, close_nil]
    · have hdeep : base < indent l := by simpa [isPlain, hblank] using hl
      simp [blocksAfter, hblank, hdeep, close_nil]

/-- Lines that are not plain are added to a preformatted block. -/
theorem blocksAfter_deep (hrun : ∀ l ∈ run, isPlain base l = false) (shift : Nat)
    (done : List (List Char)) :
    blocksAfter base ⟨some shift, done⟩ (run ++ rest) =
      blocksAfter base ⟨some shift, (run.map (outdent shift)).reverse ++ done⟩ rest := by
  induction run generalizing done with
  | nil => rfl
  | cons l run ih =>
    obtain ⟨hl, hrun⟩ := List.forall_mem_cons.1 hrun
    by_cases hblank : isBlankLine l = true
    · rw [List.cons_append, blocksAfter, if_pos hblank, ih hrun]
      simp [outdent, hblank]
    · have hdeep : base < indent l := by simpa [isPlain, hblank] using hl
      rw [List.cons_append, blocksAfter, if_neg hblank, if_pos hdeep, ih hrun]
      simp [outdent, hblank]

/-- A plain line ends it. -/
theorem blocksAfter_close_some (hrest : ∀ l ∈ rest.head?, isPlain base l = true) (shift : Nat)
    (done : List (List Char)) :
    blocksAfter base ⟨some shift, done⟩ rest =
      Draft.close ⟨some shift, done⟩ ++ blocksAfter base ⟨none, []⟩ rest := by
  cases rest with
  | nil => simp [blocksAfter, close_nil]
  | cons l rest =>
    obtain ⟨hblank, hindent⟩ := isPlain_iff.1 (hrest l rfl)
    have hdeep : ¬ base < indent l := by omega
    simp [blocksAfter, hblank, hdeep]

/-- Blank lines before a block are no part of it. -/
theorem blocksAfter_blank (hrun : ∀ l ∈ run, isBlankLine l = true) :
    blocksAfter base ⟨none, []⟩ (run ++ rest) = blocksAfter base ⟨none, []⟩ rest := by
  induction run with
  | nil => rfl
  | cons l run ih =>
    obtain ⟨hl, hrun⟩ := List.forall_mem_cons.1 hrun
    rw [List.cons_append, blocksAfter, if_pos hl, close_nil, List.nil_append, ih hrun]

/-! ## The block of a run -/

/-- A line says the same when it is moved left. -/
theorem trim_outdent (shift : Nat) (l : List Char) : trim (outdent shift l) = trim l := by
  unfold outdent
  split
  · rename_i hblank
    rw [trim_eq_nil_iff.2 hblank]
    rfl
  · exact trim_drop (Nat.min_le_left _ _)

theorem isEmpty_outdent (shift : Nat) (l : List Char) :
    (outdent shift l).isEmpty = isBlankLine l := by
  by_cases hblank : isBlankLine l = true
  · simp [outdent, hblank]
  · have hne : outdent shift l ≠ [] := by
      intro hnil
      have htrim := trim_outdent shift l
      rw [hnil] at htrim
      exact hblank (trim_eq_nil_iff.1 htrim.symm)
    simp [hblank, hne]

theorem close_reverse_none {ls : List (List Char)} (hne : ls ≠ [])
    (h : ∀ l ∈ ls, isBlankLine l = false) :
    Draft.close ⟨none, (ls.map trim).reverse⟩ = [.paragraph (ls.map trim)] := by
  have hkept : (ls.map trim).rdropWhile (·.isEmpty) = ls.map trim := by
    refine List.rdropWhile_eq_self_iff.2 fun hne hempty => ?_
    obtain ⟨l, hl, heq⟩ := List.mem_map.1 (List.getLast_mem hne)
    rw [← heq, List.isEmpty_iff, trim_eq_nil_iff, h l hl] at hempty
    cases hempty
  unfold List.rdropWhile at hkept
  simp [Draft.close, hkept, hne]

theorem close_reverse_some (shift : Nat) (ls : List (List Char)) :
    Draft.close ⟨some shift, (ls.map (outdent shift)).reverse⟩ =
      match ls.rdropWhile isBlankLine with
      | [] => []
      | l :: ls => [.preformatted ((l :: ls).map (outdent shift))] := by
  have hempty : (fun l : List Char => l.isEmpty) ∘ outdent shift = isBlankLine :=
    funext (isEmpty_outdent shift)
  have hkept : (((ls.map (outdent shift)).reverse).dropWhile (·.isEmpty)).reverse =
      (ls.rdropWhile isBlankLine).map (outdent shift) := by
    rw [← List.map_reverse, List.dropWhile_map, hempty, ← List.map_reverse, List.rdropWhile]
  rw [Draft.close]
  simp only [hkept]
  cases ls.rdropWhile isBlankLine <;> simp

theorem blocksAfter_plainRun (hne : run ≠ []) (hrun : ∀ l ∈ run, isPlain base l = true)
    (hrest : ∀ l ∈ rest.head?, isPlain base l = false) :
    blocksAfter base ⟨none, []⟩ (run ++ rest) =
      (blockOf base run).toList ++ blocksAfter base ⟨none, []⟩ rest := by
  have hblank : ∀ l ∈ run, isBlankLine l = false := fun l hl => (isPlain_iff.1 (hrun l hl)).1
  rw [blocksAfter_plain hrun, blocksAfter_close_none hrest, List.append_nil,
    close_reverse_none hne hblank, blockOf, if_pos (List.all_eq_true.2 hrun), Option.toList_some]

/-- A run that starts with a deep line. -/
theorem blocksAfter_deepCons {l : List Char} {ls : List (List Char)}
    (hl : isBlankLine l = false) (hls : ∀ m ∈ l :: ls, isPlain base m = false)
    (hrest : ∀ m ∈ rest.head?, isPlain base m = true) :
    blocksAfter base ⟨none, []⟩ (l :: ls ++ rest) =
      Draft.close ⟨some (indent l), ((l :: ls).map (outdent (indent l))).reverse⟩ ++
        blocksAfter base ⟨none, []⟩ rest := by
  obtain ⟨hplain, hls⟩ := List.forall_mem_cons.1 hls
  have hdeep : base < indent l := by simpa [isPlain, hl] using hplain
  have hfirst : l.drop (indent l) = outdent (indent l) l := by simp [outdent, hl]
  rw [List.cons_append, blocksAfter, if_neg (by simp [hl]), if_pos hdeep, close_nil,
    List.nil_append, blocksAfter_deep hls, blocksAfter_close_some hrest, hfirst, List.map_cons,
    List.reverse_cons]

theorem blocksAfter_deepRun (hne : run ≠ []) (hrun : ∀ l ∈ run, isPlain base l = false)
    (hrest : ∀ l ∈ rest.head?, isPlain base l = true) :
    blocksAfter base ⟨none, []⟩ (run ++ rest) =
      (blockOf base run).toList ++ blocksAfter base ⟨none, []⟩ rest := by
  have hall : ¬ run.all (isPlain base) = true := by
    obtain ⟨l, run, rfl⟩ := List.exists_cons_of_ne_nil hne
    simp [hrun l List.mem_cons_self]
  have hcore := List.head?_dropWhile_not isBlankLine run
  have hsub := (List.dropWhile_sublist isBlankLine : (run.dropWhile isBlankLine).Sublist run).subset
  rw [← run.takeWhile_append_dropWhile (p := isBlankLine), List.append_assoc,
    blocksAfter_blank fun l hl => List.mem_takeWhile_imp hl, List.takeWhile_append_dropWhile,
    blockOf, if_neg hall, strip]
  cases hdrop : run.dropWhile isBlankLine with
  | nil => rfl
  | cons l ls =>
    rw [hdrop] at hcore hsub
    have hl : isBlankLine l = false := hcore
    rw [blocksAfter_deepCons hl (fun m hm => hrun m (hsub hm)) hrest, close_reverse_some]
    rw [rdropWhile_cons_of_not (by simp [hl]), Option.toList_some]

/-! ## All runs -/

/-- The lines of a run are all plain, or none of them is. -/
theorem isPlain_eq_of_isChain (h : run.IsChain fun l m => isPlain base l == isPlain base m)
    {l m : List Char} (hl : l ∈ run) (hm : m ∈ run) : isPlain base l = isPlain base m := by
  have hpairs : run.Pairwise fun l m => isPlain base l = isPlain base m := by
    have : IsTrans _ fun l m : List Char => isPlain base l = isPlain base m :=
      ⟨fun _ _ _ => Eq.trans⟩
    simpa [List.isChain_iff_pairwise] using h
  have : Std.Symm fun l m : List Char => isPlain base l = isPlain base m := ⟨fun _ _ => Eq.symm⟩
  exact List.Pairwise.forall_of_forall (R := fun l m => isPlain base l = isPlain base m)
    (fun _ _ => rfl) hpairs hl hm

/-- Runs that meet where plain lines begin or end are taken one after the other. -/
theorem blocksAfter_flatten {rs : List (List (List Char))} (hne : [] ∉ rs)
    (hruns : ∀ run ∈ rs, run.IsChain fun l m => isPlain base l == isPlain base m)
    (hborders : rs.IsChain fun a b =>
      ∃ ha hb, (isPlain base (a.getLast ha) == isPlain base (b.head hb)) = false) :
    blocksAfter base ⟨none, []⟩ rs.flatten = rs.flatMap fun run => (blockOf base run).toList := by
  induction rs with
  | nil => rfl
  | cons run rs ih =>
    obtain ⟨hrun, hruns⟩ := List.forall_mem_cons.1 hruns
    have hrunne : run ≠ [] := fun h => hne (h ▸ List.mem_cons_self)
    have hconst : ∀ l ∈ run, isPlain base l = isPlain base (run.getLast hrunne) := fun l hl =>
      isPlain_eq_of_isChain hrun hl (List.getLast_mem hrunne)
    have hrest : ∀ l ∈ rs.flatten.head?, isPlain base l = !isPlain base (run.getLast hrunne) := by
      cases rs with
      | nil => simp
      | cons next rs =>
        obtain ⟨⟨_, hnext, hborder⟩, -⟩ := List.isChain_cons_cons.1 hborders
        obtain ⟨l, next, rfl⟩ := List.exists_cons_of_ne_nil hnext
        rintro _ ⟨⟩
        rw [List.head_cons, beq_eq_false_iff_ne] at hborder
        exact Bool.eq_not.2 hborder.symm
    have ih := ih (fun h => hne (List.mem_cons_of_mem _ h)) hruns hborders.of_cons
    rw [List.flatten_cons, List.flatMap_cons, ← ih]
    cases hkind : isPlain base (run.getLast hrunne)
    · exact blocksAfter_deepRun hrunne (by simpa [hkind] using hconst) (by simpa [hkind] using hrest)
    · exact blocksAfter_plainRun hrunne (by simpa [hkind] using hconst)
        (by simpa [hkind] using hrest)

end Plain

/-- The blocks of a doc text are those of its runs. -/
theorem blocks_eq_runs (text : String) :
    blocks text = (runs (baseIndent (lines text.toList)) (lines text.toList)).filterMap
      (blockOf (baseIndent (lines text.toList))) := by
  rw [List.filterMap_eq_flatMap_toList, runs,
    ← blocksAfter_flatten (List.nil_notMem_splitBy _ _) (fun _ => List.isChain_of_mem_splitBy)
      (List.isChain_getLast_head_splitBy
        (fun l m => isPlain (baseIndent (lines text.toList)) l ==
          isPlain (baseIndent (lines text.toList)) m) _), List.flatten_splitBy, blocks]

/-! ## Blocks as HTML -/

/-- Lines of text as they stand in HTML. -/
def written (ls : List (List Char)) : String :=
  "\n".intercalate (ls.map fun l => escape (String.ofList l))

/-- A block as it stands in HTML. -/
def Block.html : Block → String
  | paragraph ls => "<p>" ++ written ls ++ "</p>"
  | preformatted ls => "<pre>" ++ written ls ++ "</pre>"

theorem renderAll_intersperse (ns : List Node) :
    renderAll (ns.intersperse .newline) = "\n".intercalate (ns.map Node.render) := by
  induction ns with
  | nil => simp [renderAll]
  | cons n ns ih =>
    cases ns with
    | nil => simp [renderAll]
    | cons m ns =>
      rw [List.intersperse_cons_cons, renderAll, renderAll, ih]
      simp [Node.render, String.intercalate_cons_cons, String.append_assoc]

theorem renderAll_lineNodes (ls : List (List Char)) : renderAll (lineNodes ls) = written ls := by
  rw [lineNodes, renderAll_intersperse, List.map_map, written]
  rfl

theorem render_node (b : Block) : b.node.render = b.html := by
  have htags : startTag "p" [] = "<p>" ∧ endTag "p" = "</p>" ∧ startTag "pre" [] = "<pre>" ∧
      endTag "pre" = "</pre>" := by decide +kernel
  cases b <;> simp [Block.node, Block.html, Node.render, renderAll_lineNodes, htags]

theorem docTextHtml_eq (text : String) :
    docTextHtml text = "\n".intercalate ((blocks text).map Block.html) := by
  rw [docTextHtml, docNodes, renderAll_intersperse, List.map_map]
  exact congrArg _ (List.map_congr_left fun b _ => render_node b)

/-! ## What is said -/

/-- The lines that are not blank, without the white space around them. -/
def saidLines (ls : List (List Char)) : List (List Char) := (ls.filter (!isBlankLine ·)).map trim

/-- A character of a text; none if the piece is a tag. -/
def Piece.char? : Piece → Option Char
  | char c => some c
  | doctype | opening _ _ | closing _ => none

/-- The text of nodes, without the tags. -/
def textAll (ns : List Node) : List Char := (piecesAll ns).filterMap Piece.char?

@[simp]
theorem saidLines_append (ls ms : List (List Char)) :
    saidLines (ls ++ ms) = saidLines ls ++ saidLines ms := by
  simp [saidLines]

theorem saidLines_flatten (lss : List (List (List Char))) :
    saidLines lss.flatten = lss.flatMap saidLines := by
  induction lss with
  | nil => rfl
  | cons ls lss ih => rw [List.flatten_cons, saidLines_append, ih, List.flatMap_cons]

theorem saidLines_eq_nil {ls : List (List Char)} (h : ∀ l ∈ ls, isBlankLine l = true) :
    saidLines ls = [] := by
  have hnone : ls.filter (!isBlankLine ·) = [] :=
    List.filter_eq_nil_iff.2 fun l hl => by simp [h l hl]
  rw [saidLines, hnone, List.map_nil]

/-- What is done at the ends of a line does not count. -/
theorem saidLines_map {f : List Char → List Char} (h : ∀ l, trim (f l) = trim l)
    (ls : List (List Char)) : saidLines (ls.map f) = saidLines ls := by
  have hblank : ∀ l, isBlankLine (f l) = isBlankLine l := fun l => by
    rw [Bool.eq_iff_iff, ← trim_eq_nil_iff, h l, trim_eq_nil_iff]
  simp [saidLines, List.filter_map, Function.comp_def, h, hblank]

theorem saidLines_strip (ls : List (List Char)) : saidLines (strip isBlankLine ls) = saidLines ls := by
  have hfront : saidLines (ls.takeWhile isBlankLine) = [] :=
    saidLines_eq_nil fun l hl => List.mem_takeWhile_imp hl
  have hback : saidLines ((ls.dropWhile isBlankLine).rtakeWhile isBlankLine) = [] :=
    saidLines_eq_nil fun l hl => List.mem_rtakeWhile_imp hl
  conv_rhs =>
    rw [← ls.takeWhile_append_dropWhile (p := isBlankLine), saidLines_append, hfront,
      ← List.rdropWhile_append_rtakeWhile (p := isBlankLine) (l := ls.dropWhile isBlankLine),
      saidLines_append, hback]
  rw [strip, List.nil_append, List.append_nil]

/-- The lines of a block. -/
def Block.lines : Block → List (List Char)
  | paragraph ls => ls
  | preformatted ls => ls

/-- A run is said whole. -/
theorem saidLines_blockOf (base : Nat) (run : List (List Char)) :
    ((blockOf base run).toList.flatMap fun b => saidLines b.lines) = saidLines run := by
  unfold blockOf
  split
  · simp [Block.lines, saidLines_map trim_trim]
  · rw [← saidLines_strip run]
    cases strip isBlankLine run with
    | nil => rfl
    | cons l ls => simpa [Block.lines] using saidLines_map (trim_outdent (indent l)) (l :: ls)

/-- The lines of texts that are put together with line ends between them. -/
theorem saidLines_splitOn_intercalate (lss : List (List Char)) :
    saidLines ((['\n'].intercalate lss).splitOn '\n') =
      lss.flatMap fun l => saidLines (l.splitOn '\n') := by
  induction lss with
  | nil => decide
  | cons l lss ih =>
    cases lss with
    | nil => simp
    | cons m lss =>
      rw [List.intercalate_cons_cons, List.append_assoc, List.singleton_append,
        List.splitOn_append_cons_self, saidLines_append, ih, List.flatMap_cons (x := l)]

theorem saidLines_splitOn_flatMap {ls : List (List Char)} (h : ∀ l ∈ ls, '\n' ∉ l) :
    (ls.flatMap fun l => saidLines (l.splitOn '\n')) = saidLines ls := by
  have hsingle : ∀ l ∈ ls, saidLines (l.splitOn '\n') = saidLines [l] := fun l hl => by
    rw [List.splitOn_eq_singleton (h l hl)]
  rw [List.flatMap_congr hsingle, ← List.flatMap_map (f := ([·])) (g := saidLines),
    ← saidLines_flatten, ← List.flatMap_def, List.flatMap_singleton']

theorem textAll_append (ms ns : List Node) : textAll (ms ++ ns) = textAll ms ++ textAll ns := by
  rw [textAll, piecesAll_append, List.filterMap_append, textAll, textAll]

theorem textAll_intersperse (ns : List Node) :
    textAll (ns.intersperse .newline) = ['\n'].intercalate (ns.map fun n => textAll [n]) := by
  induction ns with
  | nil => rfl
  | cons n ns ih =>
    cases ns with
    | nil => simp
    | cons m ns =>
      have hhead : n :: .newline :: (m :: ns).intersperse .newline =
          [n] ++ ([.newline] ++ (m :: ns).intersperse .newline) := rfl
      rw [List.intersperse_cons_cons, hhead, textAll_append, textAll_append, ih]
      simp [List.intercalate_cons_cons, textAll, piecesAll, Node.pieces, Piece.char?]

theorem textAll_lineNodes (ls : List (List Char)) :
    textAll (lineNodes ls) = ['\n'].intercalate ls := by
  have hline : ∀ l ∈ ls, textAll [Node.text (String.ofList l)] = l := fun l _ => by
    simp [textAll, piecesAll, Node.pieces, List.filterMap_map, Function.comp_def, Piece.char?]
  rw [lineNodes, textAll_intersperse, List.map_map]
  exact congrArg _ ((List.map_congr_left hline).trans (List.map_id' ls))

theorem textAll_node (b : Block) : textAll [b.node] = ['\n'].intercalate b.lines := by
  rw [← textAll_lineNodes]
  cases b <;>
    simp [textAll, piecesAll, Block.node, Node.pieces, Block.lines, Piece.char?,
      List.filterMap_cons]

theorem textAll_docNodes (text : String) :
    textAll (docNodes text) =
      ['\n'].intercalate ((blocks text).map fun b => ['\n'].intercalate b.lines) := by
  rw [docNodes, textAll_intersperse, List.map_map]
  exact congrArg _ (List.map_congr_left fun b _ => textAll_node b)

theorem outdent_subset (shift : Nat) (l : List Char) : outdent shift l ⊆ l := by
  unfold outdent
  split
  · simp
  · exact (List.drop_sublist _ _).subset

/-- The lines of a block come from lines of its run. -/
theorem exists_subset_of_mem_blockOf {base : Nat} {run : List (List Char)} {b : Block}
    (hb : b ∈ blockOf base run) {l : List Char} (hl : l ∈ b.lines) : ∃ m ∈ run, l ⊆ m := by
  unfold blockOf at hb
  split at hb
  · cases hb
    obtain ⟨m, hm, rfl⟩ := List.mem_map.1 hl
    exact ⟨m, hm, trim_subset m⟩
  · split at hb
    · cases hb
    · rename_i first ls hstrip
      cases hb
      obtain ⟨m, hm, rfl⟩ := List.mem_map.1 hl
      exact ⟨m, (strip_sublist isBlankLine run).subset (hstrip ▸ hm), outdent_subset _ m⟩

theorem not_mem_of_mem_blocks {text : String} {b : Block} (hb : b ∈ blocks text) :
    ∀ l ∈ b.lines, '\n' ∉ l := by
  intro l hl hnewline
  rw [blocks_eq_runs] at hb
  obtain ⟨run, hrun, hb⟩ := List.mem_filterMap.1 hb
  obtain ⟨m, hm, hsubset⟩ := exists_subset_of_mem_blockOf hb hl
  have hline : m ∈ lines text.toList := by
    rw [← List.flatten_splitBy _ (lines text.toList)]
    exact List.mem_flatten.2 ⟨run, hrun, hm⟩
  exact not_mem_of_mem_lines hline (hsubset hnewline)

/-- What is said in the blocks of a text is what the text says. -/
theorem saidLines_blocks (text : String) :
    ((blocks text).flatMap fun b => saidLines b.lines) = saidLines (lines text.toList) := by
  rw [blocks_eq_runs, List.filterMap_eq_flatMap_toList, List.flatMap_assoc]
  simp only [saidLines_blockOf]
  rw [← saidLines_flatten, runs, List.flatten_splitBy]

/-- **A doc text is shown line by line, in blocks.**  The HTML of a text is that of its
    runs, on lines of their own: a run of plain lines is a paragraph of trimmed lines, and
    any other is preformatted from its first deep line to its last, moved left by the
    indent of the first; blank lines alone are nothing.

    So the HTML without its tags says, line by line, what the text says. -/
theorem docTextHtml_eq_runs (text : String) :
    docTextHtml text = "\n".intercalate
      (((runs (baseIndent (lines text.toList)) (lines text.toList)).filterMap
        (blockOf (baseIndent (lines text.toList)))).map Block.html) ∧
    ∃ pieces, pieces? (docTextHtml text).toList = some pieces ∧
      saidLines ((pieces.filterMap Piece.char?).splitOn '\n') = saidLines (lines text.toList) := by
  rw [← blocks_eq_runs]
  refine ⟨docTextHtml_eq text, piecesAll (docNodes text),
    pieces?_renderAll (allOwn_docNodes text).allProper, ?_⟩
  calc saidLines ((textAll (docNodes text)).splitOn '\n')
    _ = (blocks text).flatMap fun b => b.lines.flatMap fun l => saidLines (l.splitOn '\n') := by
      rw [textAll_docNodes, saidLines_splitOn_intercalate, List.flatMap_map]
      simp only [saidLines_splitOn_intercalate]
    _ = (blocks text).flatMap fun b => saidLines b.lines :=
      List.flatMap_congr fun b hb => saidLines_splitOn_flatMap (not_mem_of_mem_blocks hb)
    _ = saidLines (lines text.toList) := saidLines_blocks text

example : docTextHtml " Sums.\n   a :=\n     b\n\n   < c\n \n up\nto it\n" =
    "<p>Sums.</p>\n<pre>a :=\n  b\n\n&lt; c</pre>\n<p>up\nto it</p>" := by decide +kernel

end PackageDoc.Html
