/-
  Which files are found, and in which order.

  Discovery only reads (`findSources_reads`).  What it finds is the list of paths
  that is strictly increasing and has exactly the sources of the roots, up to the
  spelling of a path (`mem_sources`, `exists_same_mem_sortedPaths`).  Of several
  spellings of one path the one that comes first is kept (`mem_sortedPaths`), so
  the order in which a directory lists its entries does not matter, and neither
  does the order of the roots, up to spelling (`discover_exact`).
-/
import PackageDoc.Proofs.Disk.Reordered
import PackageDoc.Proofs.Run.Basic
import Mathlib.Data.List.Sort

namespace PackageDoc

/-! ## Paths in order -/

namespace Path

theorem trans_le (p q r : Path) (hpq : p.le q = true) (hqr : q.le r = true) : p.le r = true :=
  (le_iff_key_le p r).2 (((le_iff_key_le p q).1 hpq).trans ((le_iff_key_le q r).1 hqr))

theorem total_le (p q : Path) : (p.le q || q.le p) = true := by
  rw [Bool.or_eq_true, le_iff_key_le, le_iff_key_le]
  exact Std.le_total

@[simp] theorem same_self (p : Path) : p.same p = true := same_iff_key.2 rfl

theorem same_comm (p q : Path) : p.same q = q.same p :=
  Bool.eq_iff_iff.2 (by rw [same_iff_key, same_iff_key, eq_comm])

theorem same_congr {p q : Path} (h : p.same q = true) : p.same = q.same := by
  funext r
  exact Bool.eq_iff_iff.2 (by rw [same_iff_key, same_iff_key, same_iff_key.1 h])

end Path

open PackageDoc.Path

theorem filter_mergeSort (q : Path) (ps : List Path) :
    (ps.mergeSort Path.le).filter q.same = ps.filter q.same := by
  have hsorted : (ps.filter q.same).Pairwise fun a b => a.le b = true := by
    rw [List.pairwise_filter]
    refine List.pairwise_of_forall fun a b ha hb => ?_
    rw [le_iff_key_le, ← same_iff_key.1 ha, ← same_iff_key.1 hb]
  have hsub : (ps.filter q.same).Sublist (ps.mergeSort Path.le) :=
    List.sublist_mergeSort trans_le total_le hsorted List.filter_sublist
  have hlength := ((List.mergeSort_perm ps Path.le).filter q.same).length_eq
  refine (List.Sublist.eq_of_length ?_ hlength.symm).symm
  simpa using hsub.filter q.same

theorem mem_of_mem_dropRepeated {q : Path} {ps : List Path} (h : q ∈ dropRepeated ps) : q ∈ ps := by
  fun_induction dropRepeated ps with
  | case1 => exact h
  | case2 p => exact h
  | case3 p r rest _ ih =>
    rcases List.mem_cons.1 (ih h) with rfl | hmem <;> simp [*]
  | case4 p r rest _ ih =>
    rcases List.mem_cons.1 h with rfl | hmem
    · simp
    · exact List.mem_cons_of_mem _ (ih hmem)

theorem key_lt_of_not_same {p q : Path} (hle : p.le q = true) (hsame : ¬ p.same q = true) :
    p.key < q.key :=
  lt_of_le_of_ne ((le_iff_key_le p q).1 hle) fun h => hsame (same_iff_key.2 h)

/-- What is left of paths in order is strictly increasing. -/
theorem pairwise_dropRepeated {ps : List Path} (h : ps.Pairwise fun p q => p.le q = true) :
    (dropRepeated ps).Pairwise fun p q => p.key < q.key := by
  fun_induction dropRepeated ps with
  | case1 => exact .nil
  | case2 p => simp
  | case3 p q rest _ ih =>
    exact ih (h.sublist (List.Sublist.cons_cons p (List.sublist_cons_self q rest)))
  | case4 p q rest hsame ih =>
    have htail := (List.pairwise_cons.1 h).2
    have hpq := key_lt_of_not_same ((List.pairwise_cons.1 h).1 q List.mem_cons_self) hsame
    refine List.pairwise_cons.2 ⟨fun r hr => ?_, ih htail⟩
    rcases List.mem_cons.1 (mem_of_mem_dropRepeated hr) with rfl | hrest
    · exact hpq
    · exact hpq.trans_le ((le_iff_key_le q r).1 ((List.pairwise_cons.1 htail).1 r hrest))

/-- Of paths that are the same the first one is left. -/
theorem mem_dropRepeated {q : Path} {ps : List Path}
    (h : ps.Pairwise fun p q => p.le q = true) :
    q ∈ dropRepeated ps ↔ ps.find? q.same = some q := by
  fun_induction dropRepeated ps with
  | case1 => simp
  | case2 p =>
    by_cases hq : q = p
    · simp [hq]
    · by_cases hs : q.same p <;> simp [hq, hs, Ne.symm hq]
  | case3 p r rest hsame ih =>
    have hsub : (p :: rest).Sublist (p :: r :: rest) :=
      List.Sublist.cons_cons p (List.sublist_cons_self r rest)
    have hqr : q.same r = q.same p := by rw [same_comm, ← same_congr hsame, same_comm]
    rw [ih (h.sublist hsub), List.find?_cons, List.find?_cons, List.find?_cons, hqr]
    cases q.same p <;> rfl
  | case4 p r rest hsame ih =>
    have htail := (List.pairwise_cons.1 h).2
    have hlt := pairwise_dropRepeated h
    rw [dropRepeated, if_neg hsame, List.pairwise_cons] at hlt
    rw [List.mem_cons, List.find?_cons]
    by_cases hqp : q.same p = true
    · simp only [hqp, Option.some.injEq]
      constructor
      · rintro (rfl | hmem)
        · rfl
        · exact absurd (same_iff_key.1 hqp) (hlt.1 q hmem).ne'
      · exact fun h => .inl h.symm
    · have hne : q ≠ p := fun heq => hqp (heq ▸ same_self q)
      simp [hqp, hne, ih htail]

theorem pairwise_sortedPaths (ps : List Path) :
    (sortedPaths ps).Pairwise fun p q => p.key < q.key :=
  pairwise_dropRepeated (List.pairwise_mergeSort trans_le total_le ps)

theorem mem_sortedPaths {q : Path} {ps : List Path} :
    q ∈ sortedPaths ps ↔ ps.find? q.same = some q := by
  rw [sortedPaths, mem_dropRepeated (List.pairwise_mergeSort trans_le total_le ps),
    ← List.head?_filter, filter_mergeSort, List.head?_filter]

/-- Each path is kept, in one spelling. -/
theorem exists_same_mem_sortedPaths {p : Path} {ps : List Path} :
    (∃ q ∈ sortedPaths ps, p.same q = true) ↔ ∃ q ∈ ps, p.same q = true := by
  constructor
  · rintro ⟨q, hq, hpq⟩
    exact ⟨q, List.mem_of_find?_eq_some (mem_sortedPaths.1 hq), hpq⟩
  · rintro ⟨q, hq, hpq⟩
    obtain ⟨r, hr⟩ := Option.isSome_iff_exists.1 (List.find?_isSome.2 ⟨q, hq, hpq⟩)
    have hpr := List.find?_some hr
    exact ⟨r, mem_sortedPaths.2 (by rw [← same_congr hpr, hr]), hpr⟩

/-- Paths that come first in their spelling determine what is kept. -/
theorem sortedPaths_congr {ps ps' : List Path} (h : ∀ q : Path, ps'.find? q.same = ps.find? q.same) :
    sortedPaths ps' = sortedPaths ps := by
  have : Std.Antisymm fun p q : Path => p.key < q.key := ⟨fun _ _ h h' => absurd h h'.asymm⟩
  have : Std.Irrefl fun p q : Path => p.key < q.key := ⟨fun _ => lt_irrefl _⟩
  refine (pairwise_sortedPaths ps').eq_of_mem_iff (pairwise_sortedPaths ps) fun q => ?_
  rw [mem_sortedPaths, mem_sortedPaths, h]

theorem sortedPaths_eq_self {ps : List Path}
    (h : ps.Pairwise fun p q => p.le q = true ∧ p.same q = false) : sortedPaths ps = ps := by
  have hdiffer : ps.Pairwise fun p q => p.same q = false := h.imp And.right
  rw [sortedPaths, List.mergeSort_of_pairwise (h.imp And.left)]
  clear h
  fun_induction dropRepeated ps with
  | case1 => rfl
  | case2 p => rfl
  | case3 p q rest hsame _ =>
    rw [(List.pairwise_cons.1 hdiffer).1 q List.mem_cons_self] at hsame
    cases hsame
  | case4 p q rest _ ih => rw [ih (List.pairwise_cons.1 hdiffer).2]

/-- Up to spelling, what is kept depends only on which paths there are. -/
theorem components_sortedPaths {ps ps' : List Path} (h : ∀ p, p ∈ ps' ↔ p ∈ ps) :
    (sortedPaths ps').map components = (sortedPaths ps).map components := by
  have hsorted : ∀ qs : List Path, ((sortedPaths qs).map key).Pairwise (· < ·) := fun qs =>
    List.pairwise_map.2 (pairwise_sortedPaths qs)
  have hmem : ∀ (qs : List Path) (k : List (List Nat)),
      k ∈ (sortedPaths qs).map key ↔ ∃ q ∈ qs, q.key = k := by
    intro qs k
    rw [List.mem_map]
    constructor
    · rintro ⟨q, hq, rfl⟩
      exact ⟨q, List.mem_of_find?_eq_some (mem_sortedPaths.1 hq), rfl⟩
    · rintro ⟨q, hq, rfl⟩
      obtain ⟨r, hr, hqr⟩ := exists_same_mem_sortedPaths.2 ⟨q, hq, same_self q⟩
      exact ⟨r, hr, (same_iff_key.1 hqr).symm⟩
  have hkeys : (sortedPaths ps').map key = (sortedPaths ps).map key :=
    (hsorted ps').eq_of_mem_iff (hsorted ps) fun k => by simp only [hmem, h]
  have hinj : Function.Injective (List.map Component.key) :=
    List.map_injective_iff.2 fun c d => Component.key_inj.1
  refine List.map_injective_iff.2 hinj ?_
  rw [List.map_map, List.map_map]
  exact hkeys

/-! ## Sources below a path -/

section Below

variable {α β : Type} {extension : String}

theorem sourcesIn_eq (p : Path) (entries : List (String × FileTree α)) :
    sourcesIn extension p entries =
      entries.flatMap fun e => if isHidden e.1 then [] else e.2.sources extension (p.join e.1) := by
  induction entries with
  | nil => rfl
  | cons e rest ih => rw [sourcesIn, ih, List.flatMap_cons]

mutual

/-- Which files are sources does not depend on their content. -/
theorem sources_shape (p : Path) : ∀ t : FileTree α,
    t.shape.sources extension p = t.sources extension p
  | .file _ => rfl
  | .directory entries => by
    rw [FileTree.shape, FileTree.sources, FileTree.sources, sourcesIn_shapes p entries]

theorem sourcesIn_shapes (p : Path) : ∀ entries : List (String × FileTree α),
    sourcesIn extension p (shapes entries) = sourcesIn extension p entries
  | [] => rfl
  | (name, t) :: rest => by
    rw [shapes, sourcesIn, sourcesIn, sources_shape (p.join name) t, sourcesIn_shapes p rest]

end

/-- The order of entries changes only the order in which sources are found. -/
theorem FileTree.Reordered.sources {t t' : FileTree α} (h : FileTree.Reordered t t') (p : Path) :
    (t.sources extension p).Perm (t'.sources extension p) := by
  induction h generalizing p with
  | refl t => exact .refl _
  | entries h =>
    rw [FileTree.sources, FileTree.sources, sourcesIn_eq, sourcesIn_eq]
    split
    · exact h.flatMap_right _
    · exact .refl _
  | @entry t t' name es _ ih =>
    simp only [FileTree.sources, sourcesIn]
    split
    · refine .append_right _ ?_
      split
      · exact .refl _
      · exact ih (p.join name)
    · exact .refl _
  | trans _ _ ih ih' => exact (ih p).trans (ih' p)

theorem mem_sourceAt {p q : Path} (h : q ∈ sourceAt extension p) : q = p := by
  rw [sourceAt] at h
  split at h
  · exact List.mem_singleton.1 h
  · cases h

/-- What is found below a path lies behind it by names of entries. -/
theorem exists_names_of_mem_sources {t : FileTree α} (h : t.Proper) {p q : Path}
    (hq : q ∈ t.sources extension p) :
    ∃ names, (∀ name ∈ names, IsEntryName name) ∧ q = p.joinAll names := by
  induction h generalizing p with
  | file content => exact ⟨[], by simp, mem_sourceAt hq⟩
  | directory _ hnames _ ih =>
    rw [FileTree.sources] at hq
    split at hq
    · rw [sourcesIn_eq, List.mem_flatMap] at hq
      obtain ⟨e, he, hq⟩ := hq
      split at hq
      · cases hq
      · obtain ⟨names, hall, rfl⟩ := ih e he hq
        exact ⟨e.1 :: names, List.forall_mem_cons.2 ⟨hnames e he, hall⟩, rfl⟩
    · exact ⟨[], by simp, mem_sourceAt hq⟩

theorem pairwise_sourceAt {p : Path} :
    (sourceAt extension p).Pairwise fun q r => q.components ≠ r.components := by
  rw [sourceAt]
  split <;> simp

/-- No path is found twice below a path, in whatever spelling. -/
theorem pairwise_sources {t : FileTree α} (h : t.Proper) {p : Path} (hp : p.text ≠ "") :
    (t.sources extension p).Pairwise fun q r => q.components ≠ r.components := by
  induction h generalizing p with
  | file content => exact pairwise_sourceAt
  | @directory entries distinct hnames trees ih =>
    rw [FileTree.sources]
    split
    · rw [sourcesIn_eq, List.pairwise_flatMap]
      constructor
      · intro e he
        split
        · exact .nil
        · exact ih e he (join_ne_empty hp e.1)
      · refine (List.pairwise_map.1 distinct).imp_of_mem fun {e f} he hf hne => ?_
        intro q hq r hr heq
        split at hq <;> split at hr <;> try contradiction
        obtain ⟨names, hall, rfl⟩ := exists_names_of_mem_sources (trees e he) hq
        obtain ⟨names', hall', rfl⟩ := exists_names_of_mem_sources (trees f hf) hr
        rw [← joinAll_cons, ← joinAll_cons,
          components_joinAll hp (List.forall_mem_cons.2 ⟨hnames e he, hall⟩),
          components_joinAll hp (List.forall_mem_cons.2 ⟨hnames f hf, hall'⟩)] at heq
        simp at heq
        exact hne heq.1
    · exact pairwise_sourceAt

/-- The sources below a path, if every directory that is entered has a path that is
    short enough: the files behind it by names that are not hidden. -/
theorem mem_sources {t : FileTree α} (h : t.Proper) {p : Path}
    (hshort : ∀ names entries, (∀ name ∈ names, isHidden name = false) →
      t.find? names = some (.directory entries) →
        (p.joinAll names).text.utf8ByteSize < FileTree.pathLimit) {q : Path} :
    q ∈ t.sources extension p ↔ ∃ names content, (∀ name ∈ names, isHidden name = false) ∧
      t.find? names = some (.file content) ∧ q = p.joinAll names ∧
        q ∈ sourceAt extension q := by
  induction h generalizing p with
  | file content =>
    rw [FileTree.sources]
    constructor
    · intro hq
      obtain rfl := mem_sourceAt hq
      exact ⟨[], content, by simp, rfl, rfl, hq⟩
    · rintro ⟨names, content', -, hfind, rfl, hq⟩
      cases names with
      | nil => exact hq
      | cons name names => cases hfind
  | @directory entries distinct hnames trees ih =>
    have hself : p.text.utf8ByteSize < FileTree.pathLimit := hshort [] entries (by simp) rfl
    have hfind : ∀ e ∈ entries, ∀ names,
        (FileTree.directory entries).find? (e.1 :: names) = e.2.find? names := by
      intro e he names
      rw [FileTree.find?_directory, (FileTree.lookup_eq_some_iff distinct).2 he]
      rfl
    have hbelow : ∀ e ∈ entries, isHidden e.1 = false →
        (q ∈ e.2.sources extension (p.join e.1) ↔ ∃ names content,
          (∀ name ∈ names, isHidden name = false) ∧ e.2.find? names = some (.file content) ∧
            q = p.joinAll (e.1 :: names) ∧ q ∈ sourceAt extension q) := by
      intro e he hvisible
      refine ih e he fun names below hall hdir => ?_
      rw [← joinAll_cons]
      exact hshort (e.1 :: names) below (List.forall_mem_cons.2 ⟨hvisible, hall⟩)
        ((hfind e he names).trans hdir)
    rw [FileTree.sources, if_pos hself, sourcesIn_eq, List.mem_flatMap]
    constructor
    · rintro ⟨e, he, hq⟩
      by_cases hvisible : isHidden e.1 = true
      · simp [hvisible] at hq
      · rw [if_neg hvisible] at hq
        rw [Bool.not_eq_true] at hvisible
        obtain ⟨names, content, hall, hfile, rfl, hat⟩ := (hbelow e he hvisible).1 hq
        exact ⟨e.1 :: names, content, List.forall_mem_cons.2 ⟨hvisible, hall⟩,
          (hfind e he names).trans hfile, rfl, hat⟩
    · rintro ⟨names, content, hall, hfile, rfl, hat⟩
      cases names with
      | nil => cases hfile
      | cons name names =>
        obtain ⟨hvisible, hall⟩ := List.forall_mem_cons.1 hall
        rw [FileTree.find?_directory] at hfile
        obtain ⟨u, hu, hfile⟩ := Option.bind_eq_some_iff.1 hfile
        have he := FileTree.mem_of_lookup hu
        refine ⟨(name, u), he, ?_⟩
        rw [hvisible, if_neg (by simp)]
        exact (hbelow (name, u) he hvisible).2 ⟨names, content, hall, hfile, rfl, hat⟩

end Below

/-! ## Discovery -/

namespace FileTree

variable {t t' : FileTree ByteArray} {extension : String}

/-- What is found in a tree. -/
def discover (t : FileTree ByteArray) (roots : List Path) (extension : String) :
    Except RunError (List Path) :=
  ((findSources FileTree.disk roots extension).logged.run t).1.result

/-- What a root names, as discovery looks at it. -/
def look (t : FileTree ByteArray) (root : Path) : Except RunError (Path × FileTree Unit) :=
  (((t.stat root).map (·.shape)).mapError (.look root)).bind fun u => .ok (root, u)

/-- Why discovery fails at a root, if it does. -/
def lookError? (t : FileTree ByteArray) (root : Path) : Option RunError :=
  match t.stat root with
  | .ok _ => none
  | .error e => some (.look root e)

/-- What is found below a root. -/
def sourcesOf (t : FileTree ByteArray) (extension : String) (root : Path) : List Path :=
  match t.stat root with
  | .ok u => u.sources extension root
  | .error _ => []

end FileTree

open FileTree

theorem findSources_mapM (roots : List Path) (extension : String) :
    RunM.Reads (findSources FileTree.disk roots extension) fun t =>
      (roots.mapM t.look).bind fun trees => .ok (sourcePaths extension trees) := by
  refine RunM.Reads.bind (RunM.Reads.mapM (fun root => ?_) roots) fun trees => .pure _
  exact (RunM.Reads.disk (.look root) fun t => rfl).bind fun u => .pure (root, u)

theorem discover_eq_mapM (t : FileTree ByteArray) (roots : List Path) (extension : String) :
    t.discover roots extension =
      (roots.mapM t.look).bind fun trees => .ok (sourcePaths extension trees) := by
  obtain ⟨s, h⟩ := findSources_mapM roots extension [] t
  rw [discover, RunM.logged_run, h]

/-- Discovery only reads. -/
theorem findSources_reads (roots : List Path) (extension : String) :
    RunM.Reads (findSources FileTree.disk roots extension) fun t => t.discover roots extension := by
  simp only [discover_eq_mapM]
  exact findSources_mapM roots extension

/-- Discovery fails at the first root that names nothing; else it finds what lies
    below the roots. -/
theorem discover_eq (t : FileTree ByteArray) (roots : List Path) (extension : String) :
    t.discover roots extension =
      match roots.findSome? t.lookError? with
      | some e => .error e
      | none => .ok (sortedPaths (roots.flatMap (t.sourcesOf extension))) := by
  have h : ((roots.mapM t.look).map fun trees =>
      trees.flatMap fun (p, u) => u.sources extension p) =
        match roots.findSome? t.lookError? with
        | some e => .error e
        | none => .ok (roots.flatMap (t.sourcesOf extension)) := by
    induction roots with
    | nil => rfl
    | cons root roots ih =>
      rw [List.mapM_cons, List.findSome?_cons, List.flatMap_cons, look, lookError?, sourcesOf]
      cases t.stat root with
      | error e => rfl
      | ok u =>
        cases hrest : roots.mapM t.look with
        | error e =>
          rw [hrest] at ih
          cases hfirst : roots.findSome? t.lookError? with
          | some e' => rw [hfirst] at ih; exact ih
          | none => rw [hfirst] at ih; cases ih
        | ok trees =>
          rw [hrest] at ih
          cases hfirst : roots.findSome? t.lookError? with
          | some e' => rw [hfirst] at ih; cases ih
          | none =>
            rw [hfirst] at ih
            simp only [Except.map, Except.mapError, Except.bind, bind, pure, Except.pure,
              List.flatMap_cons, sources_shape, Except.ok.inj ih]
  have hsort : ((roots.mapM t.look).bind fun trees => .ok (sourcePaths extension trees)) =
      ((roots.mapM t.look).map fun trees =>
        trees.flatMap fun (p, u) => u.sources extension p).map sortedPaths := by
    cases roots.mapM t.look <;> rfl
  rw [discover_eq_mapM, hsort, h]
  cases roots.findSome? t.lookError? <;> rfl

theorem lookError?_eq_none {t : FileTree ByteArray} {root : Path} :
    t.lookError? root = none ↔ ∃ u, t.stat root = .ok u := by
  rw [lookError?]
  cases t.stat root <;> simp

/-- What is found where every root names something. -/
theorem discover_eq_ok {t : FileTree ByteArray} {roots : List Path} {extension : String}
    {ps : List Path} :
    t.discover roots extension = .ok ps ↔ (∀ root ∈ roots, ∃ u, t.stat root = .ok u) ∧
      ps = sortedPaths (roots.flatMap (t.sourcesOf extension)) := by
  simp only [← lookError?_eq_none]
  rw [discover_eq, ← List.findSome?_eq_none_iff]
  cases roots.findSome? t.lookError? with
  | none => simp [eq_comm]
  | some e => simp

/-- What lies below a root is found as it is if it is in order. -/
theorem discover_singleton {t u : FileTree ByteArray} {root : Path} {extension : String}
    {ps : List Path} (hroot : t.stat root = .ok u) (hps : t.sourcesOf extension root = ps)
    (hsorted : ps.Pairwise fun p q => p.le q = true ∧ p.same q = false) :
    t.discover [root] extension = .ok ps := by
  rw [discover_eq_ok, List.flatMap_singleton, hps, sortedPaths_eq_self hsorted]
  exact ⟨by simp [hroot], rfl⟩

theorem discover_eq_error {t : FileTree ByteArray} {roots : List Path} {extension : String} :
    (∃ e, t.discover roots extension = .error e) ↔ ∃ root ∈ roots, ∃ e, t.stat root = .error e := by
  have hmissing : ∀ root, (∃ e, t.stat root = .error e) ↔ t.lookError? root ≠ none := by
    intro root
    rw [ne_eq, lookError?_eq_none]
    cases t.stat root <;> simp
  simp only [hmissing]
  rw [discover_eq]
  cases hfirst : roots.findSome? t.lookError? with
  | none => simpa using List.findSome?_eq_none_iff.1 hfirst
  | some e =>
    obtain ⟨root, hroot, he⟩ := List.exists_of_findSome?_eq_some hfirst
    exact ⟨fun _ => ⟨root, hroot, by simp [he]⟩, fun _ => ⟨e, rfl⟩⟩

/-- Paths that are all different are found wherever they stand. -/
theorem find?_same_of_perm {ps ps' : List Path} (h : ps.Perm ps')
    (hdistinct : ps.Pairwise fun q r => q.components ≠ r.components) (q : Path) :
    ps'.find? q.same = ps.find? q.same := by
  cases hfirst : ps.find? q.same with
  | none =>
    rw [List.find?_eq_none] at hfirst ⊢
    exact fun r hr => hfirst r (h.mem_iff.2 hr)
  | some r =>
    have hr := List.mem_of_find?_eq_some hfirst
    have hsome : (ps'.find? q.same).isSome :=
      List.find?_isSome.2 ⟨r, h.mem_iff.1 hr, List.find?_some hfirst⟩
    obtain ⟨r', hfirst'⟩ := Option.isSome_iff_exists.1 hsome
    have hr' := h.mem_iff.2 (List.mem_of_find?_eq_some hfirst')
    have hsame : r'.key = r.key :=
      (same_iff_key.1 (List.find?_some hfirst')).symm.trans (same_iff_key.1 (List.find?_some hfirst))
    rw [hfirst', List.inj_on_of_nodup_map (List.pairwise_map.2 hdistinct) hr' hr (key_inj.1 hsame)]

/-- The order in which directories list their entries does not matter. -/
theorem FileTree.Reordered.discover {t t' : FileTree ByteArray} (h : t.Reordered t')
    (hp : t.Proper) (roots : List Path) (extension : String) :
    t'.discover roots extension = t.discover roots extension := by
  have herror : t'.lookError? = t.lookError? := by
    funext root
    rw [lookError?, lookError?]
    cases hstat : t.stat root with
    | ok u =>
      obtain ⟨u', hstat', -⟩ := h.stat hp hstat
      rw [hstat']
    | error e => rw [h.stat_error hp hstat]
  have hsources : ∀ q : Path, (roots.flatMap (t'.sourcesOf extension)).find? q.same =
      (roots.flatMap (t.sourcesOf extension)).find? q.same := by
    intro q
    rw [List.find?_flatMap, List.find?_flatMap]
    congr 1
    funext root
    rw [sourcesOf, sourcesOf]
    cases hstat : t.stat root with
    | ok u =>
      obtain ⟨u', hstat', hu⟩ := h.stat hp hstat
      obtain ⟨place, hplace, hfind, -⟩ := stat_eq_ok.1 hstat
      rw [hstat']
      exact find?_same_of_perm (hu.sources root)
        (pairwise_sources (hp.find? hfind).1 (text_of_locate hplace).1) q
    | error e => rw [h.stat_error hp hstat]
  rw [discover_eq, discover_eq, herror, sortedPaths_congr hsources]

/-! ## Exactness -/

/-- The sources of some roots: a root that is a file, and a file that lies in a root
    by names of which none starts with a dot, if the name of the file ends with a dot
    and the extension. -/
inductive IsSource (t : FileTree ByteArray) (roots : List Path) (extension : String) : Path → Prop
  | root {root : Path} {content : ByteArray} {name : String} (mem : root ∈ roots)
      (file : t.stat root = .ok (.file content)) (named : root.fileName? = some name)
      (ending : '.' :: extension.toList <:+ name.toList) : IsSource t roots extension root
  | below {root : Path} {entries : List (String × FileTree ByteArray)} {content : ByteArray}
      {names : List String} {name : String} (mem : root ∈ roots)
      (directory : t.stat root = .ok (.directory entries))
      (visible : ∀ n ∈ names ++ [name], n.toList.head? ≠ some '.')
      (file : (FileTree.directory entries).find? (names ++ [name]) = some (.file content))
      (ending : '.' :: extension.toList <:+ name.toList) :
      IsSource t roots extension (root.joinAll (names ++ [name]))

/-- Every directory that discovery comes to can be opened by its path. -/
def Readable (t : FileTree ByteArray) (roots : List Path) : Prop :=
  ∀ root ∈ roots, ∀ entries names below, t.stat root = .ok (.directory entries) →
    (∀ n ∈ names, n.toList.head? ≠ some '.') →
      (FileTree.directory entries).find? names = some (.directory below) →
        ∃ u, t.stat (root.joinAll names) = .ok u

theorem isHidden_eq_false {name : String} :
    isHidden name = false ↔ name.toList.head? ≠ some '.' := by
  rw [isHidden, decide_eq_false_iff_not]

theorem short_of_readable {t u : FileTree ByteArray} {roots : List Path}
    (h : Readable t roots) {root : Path} (mem : root ∈ roots) (hstat : t.stat root = .ok u)
    (names : List String) (below : List (String × FileTree ByteArray))
    (visible : ∀ name ∈ names, isHidden name = false)
    (hfind : u.find? names = some (.directory below)) :
    (root.joinAll names).text.utf8ByteSize < pathLimit := by
  cases u with
  | file content => cases names <;> cases hfind
  | directory entries =>
    simp only [isHidden_eq_false] at visible
    obtain ⟨v, hv⟩ := h root mem entries names below hstat visible hfind
    obtain ⟨place, hplace, -⟩ := stat_eq_ok.1 hv
    exact (text_of_locate hplace).2

theorem mem_sourceAt_self {extension : String} {p : Path} :
    p ∈ sourceAt extension p ↔ ∃ name, p.fileName? = some name ∧
      '.' :: extension.toList <:+ name.toList := by
  rw [sourceAt]
  cases p.fileName? with
  | none => simp
  | some name => simp [hasExtension, endsWith]

theorem isSource_iff {t : FileTree ByteArray} {roots : List Path} (hp : t.Proper)
    (hreadable : Readable t roots) {extension : String} {q : Path} :
    IsSource t roots extension q ↔ ∃ root ∈ roots, q ∈ t.sourcesOf extension root := by
  constructor
  · intro h
    cases h with
    | root mem file named ending =>
      refine ⟨q, mem, ?_⟩
      rw [sourcesOf, file]
      exact mem_sourceAt_self.2 ⟨_, named, ending⟩
    | @below root entries content names name mem directory visible file ending =>
      refine ⟨root, mem, ?_⟩
      have hroot := hp.stat directory
      rw [sourcesOf, directory]
      refine (mem_sources hroot (short_of_readable hreadable mem directory)).2
        ⟨names ++ [name], content, ?_, file, rfl, ?_⟩
      · simpa only [isHidden_eq_false] using visible
      · refine mem_sourceAt_self.2 ⟨name, ?_, ending⟩
        rw [fileName?_joinAll (text_of_stat directory) (hroot.find? file).2 (by simp)]
        simp
  · rintro ⟨root, mem, hq⟩
    cases hstat : t.stat root with
    | error e => rw [sourcesOf, hstat] at hq; cases hq
    | ok u =>
      have hroot := hp.stat hstat
      rw [sourcesOf, hstat] at hq
      obtain ⟨names, content, visible, file, rfl, hat⟩ :=
        (mem_sources hroot (short_of_readable hreadable mem hstat)).1 hq
      obtain ⟨name, named, ending⟩ := mem_sourceAt_self.1 hat
      simp only [isHidden_eq_false] at visible
      rcases List.eq_nil_or_concat' names with rfl | ⟨front, last, rfl⟩
      · obtain rfl := Option.some.inj file
        exact .root mem hstat named ending
      · cases u with
        | file content' => cases front <;> cases file
        | directory entries =>
          rw [fileName?_joinAll (text_of_stat hstat) (hroot.find? file).2 (by simp)] at named
          simp only [List.getLast?_append, List.getLast?_singleton, Option.some_or,
            Option.some.injEq] at named
          subst named
          exact .below mem hstat visible file ending

/-- Discovery fails exactly if a root names nothing.  Else it gives a list of paths
    that is strictly increasing, component by component and byte by byte, and that
    has each source of the roots in one spelling and nothing else.  In which order
    directories list their entries does not matter, and the order and number of the
    roots matter only for how a path is spelled. -/
theorem discover_exact {t : FileTree ByteArray} (proper : t.Proper) (roots : List Path)
    (extension : String) :
    ((∃ e, t.discover roots extension = .error e) ↔ ∃ root ∈ roots, ∃ e, t.stat root = .error e) ∧
    (∀ t', t.Reordered t' → t'.discover roots extension = t.discover roots extension) ∧
    ∀ ps, t.discover roots extension = .ok ps →
      ps.Pairwise (fun p q => p.key < q.key) ∧
      ps.Pairwise (fun p q => p.components ≠ q.components) ∧
      (Readable t roots → ∀ p : Path, (∃ q ∈ ps, p.components = q.components) ↔
        ∃ q, IsSource t roots extension q ∧ p.components = q.components) ∧
      ∀ roots', (∀ root, root ∈ roots' ↔ root ∈ roots) →
        ∃ ps', t.discover roots' extension = .ok ps' ∧
          ps'.map components = ps.map components := by
  refine ⟨discover_eq_error, fun t' h => h.discover proper roots extension, fun ps hps => ?_⟩
  obtain ⟨hroots, rfl⟩ := discover_eq_ok.1 hps
  have hincreasing := pairwise_sortedPaths (roots.flatMap (t.sourcesOf extension))
  refine ⟨hincreasing, hincreasing.imp fun h heq => h.ne (key_inj.2 heq), ?_, ?_⟩
  · intro hreadable p
    have hsame : ∀ q : Path, p.components = q.components ↔ p.same q = true := fun q => by
      rw [same_iff_key, key_inj]
    simp only [hsame, exists_same_mem_sortedPaths, isSource_iff proper hreadable,
      List.mem_flatMap]
  · intro roots' hmem
    refine ⟨_, discover_eq_ok.2 ⟨fun root h => hroots root ((hmem root).1 h), rfl⟩, ?_⟩
    refine components_sortedPaths fun p => ?_
    simp only [List.mem_flatMap, hmem]

/-- A directory with a source, a hidden directory and a directory with another
    source. -/
def overlappingTree : FileTree ByteArray :=
  .directory [("src", .directory [
    ("sub", .directory [("a.pks", .file .empty)]),
    (".git", .directory [("x.pks", .file .empty)]),
    ("b.pks", .file .empty)])]

/-- A root and a directory in it, written with two slashes: what both hold is found
    once, in the spelling of the first. -/
theorem discover_exact_overlapping :
    overlappingTree.Proper ∧ Readable overlappingTree [⟨"src"⟩, ⟨"src//sub"⟩] ∧
    overlappingTree.discover [⟨"src"⟩, ⟨"src//sub"⟩] "pks" =
      .ok [⟨"src/b.pks"⟩, ⟨"src/sub/a.pks"⟩] ∧
    ∀ p : Path, (∃ q ∈ [Path.mk "src/b.pks", ⟨"src/sub/a.pks"⟩], p.components = q.components) ↔
      ∃ q, IsSource overlappingTree [⟨"src"⟩, ⟨"src//sub"⟩] "pks" q ∧
        p.components = q.components := by
  have proper : overlappingTree.Proper := by
    refine .directory (by decide) (by decide) fun e he => ?_
    obtain rfl := List.mem_singleton.1 he
    refine .directory (by decide) (by decide) ?_
    simp only [List.forall_mem_cons, List.not_mem_nil, false_implies, implies_true, and_true]
    refine ⟨.directory (by decide) (by decide) ?_, .directory (by decide) (by decide) ?_, .file _⟩
    all_goals
      simp only [List.forall_mem_cons, List.not_mem_nil, false_implies, implies_true, and_true]
      exact .file _
  have hsrc : overlappingTree.stat ⟨"src"⟩ = .ok (.directory [
      ("sub", .directory [("a.pks", .file .empty)]),
      (".git", .directory [("x.pks", .file .empty)]),
      ("b.pks", .file .empty)]) := rfl
  have hsub : overlappingTree.stat ⟨"src//sub"⟩ = .ok (.directory [("a.pks", .file .empty)]) := rfl
  have readable : Readable overlappingTree [⟨"src"⟩, ⟨"src//sub"⟩] := by
    intro root hroot entries names below hstat visible hfind
    simp only [List.mem_cons, List.not_mem_nil, or_false] at hroot
    obtain rfl | rfl := hroot
    · obtain rfl := FileTree.directory.inj (Except.ok.inj (hsrc.symm.trans hstat))
      cases names with
      | nil => exact ⟨_, hsrc⟩
      | cons name names =>
        simp only [find?_directory, lookup_entry, List.lookup_nil] at hfind
        split_ifs at hfind with hname hname hname
        · subst hname
          cases names with
          | nil => exact ⟨_, rfl⟩
          | cons name names =>
            simp only [Option.bind_some, find?_directory, lookup_entry, List.lookup_nil] at hfind
            split_ifs at hfind <;> cases names <;> cases hfind
        · subst hname
          exact absurd rfl (visible ".git" List.mem_cons_self)
        · cases names <;> cases hfind
        · cases hfind
    · obtain rfl := FileTree.directory.inj (Except.ok.inj (hsub.symm.trans hstat))
      cases names with
      | nil => exact ⟨_, hsub⟩
      | cons name names =>
        simp only [find?_directory, lookup_entry, List.lookup_nil] at hfind
        split_ifs at hfind <;> cases names <;> cases hfind
  have found : overlappingTree.discover [⟨"src"⟩, ⟨"src//sub"⟩] "pks" =
      .ok [⟨"src/b.pks"⟩, ⟨"src/sub/a.pks"⟩] := by
    have h₁ : Path.le ⟨"src/sub/a.pks"⟩ ⟨"src/b.pks"⟩ = false := by decide
    have h₂ : Path.le ⟨"src/sub/a.pks"⟩ ⟨"src//sub/a.pks"⟩ = true := by decide
    have h₃ : Path.le ⟨"src/b.pks"⟩ ⟨"src//sub/a.pks"⟩ = true := by decide
    have h₄ : Path.same ⟨"src/b.pks"⟩ ⟨"src/sub/a.pks"⟩ = false := by decide
    have h₅ : Path.same ⟨"src/sub/a.pks"⟩ ⟨"src//sub/a.pks"⟩ = true := by decide
    have hbelow : [Path.mk "src", ⟨"src//sub"⟩].flatMap (overlappingTree.sourcesOf "pks") =
        [⟨"src/sub/a.pks"⟩, ⟨"src/b.pks"⟩, ⟨"src//sub/a.pks"⟩] := by decide
    rw [discover_eq_ok]
    refine ⟨by simp [hsrc, hsub], ?_⟩
    rw [hbelow]
    simp [sortedPaths, List.mergeSort, dropRepeated, h₁, h₂, h₃, h₄, h₅]
  exact ⟨proper, readable, found, ((discover_exact proper _ _).2.2 _ found).2.2.1 readable⟩

end PackageDoc
