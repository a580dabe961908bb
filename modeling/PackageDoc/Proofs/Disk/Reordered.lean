/-
  Trees as a file system holds them, and the order of their entries.

  In a proper tree the entries of a directory have different names, and names that
  an entry can have.  A reordered tree has the entries of its directories in
  another order; then the same stands at each place of both (`Reordered.find?`),
  and paths name the same in both (`Reordered.stat`).
-/
import PackageDoc.Proofs.Disk.Tree

namespace PackageDoc.FileTree

variable {α : Type}

/-! ## Proper trees -/

/-- In each directory of the tree the entries have different names, and names that
    an entry can have. -/
inductive Proper : FileTree α → Prop
  | file (content : α) : Proper (file content)
  | directory {entries : List (String × FileTree α)} (distinct : (entries.map (·.1)).Nodup)
      (names : ∀ e ∈ entries, Path.IsEntryName e.1) (trees : ∀ e ∈ entries, Proper e.2) :
      Proper (directory entries)

theorem mem_of_lookup {entries : List (String × FileTree α)} {name : String} {t : FileTree α}
    (h : entries.lookup name = some t) : (name, t) ∈ entries := by
  obtain ⟨front, back, rfl, -⟩ := List.lookup_eq_some_iff.1 h
  simp

theorem lookup_eq_some_iff {entries : List (String × FileTree α)}
    (h : (entries.map (·.1)).Nodup) {name : String} {t : FileTree α} :
    entries.lookup name = some t ↔ (name, t) ∈ entries := by
  refine ⟨mem_of_lookup, fun hmem => ?_⟩
  obtain ⟨front, back, rfl⟩ := List.append_of_mem hmem
  rw [List.lookup_eq_some_iff]
  refine ⟨front, back, rfl, fun e he => ?_⟩
  rw [List.map_append, List.nodup_append] at h
  simpa using h.2.2 e.1 (List.mem_map_of_mem he) name (by simp) |>.symm

/-- What stands in a proper tree is proper, and entries lead to it. -/
theorem Proper.find? {t u : FileTree α} (h : t.Proper) {names : List String}
    (hfind : t.find? names = some u) : u.Proper ∧ ∀ name ∈ names, Path.IsEntryName name := by
  induction names generalizing t with
  | nil =>
    obtain rfl := Option.some.inj hfind
    exact ⟨h, by simp⟩
  | cons name names ih =>
    cases h with
    | file content => cases hfind
    | @directory entries _ hnames htrees =>
      rw [find?_directory] at hfind
      obtain ⟨v, hv, hfind⟩ := Option.bind_eq_some_iff.1 hfind
      have hmem := mem_of_lookup hv
      obtain ⟨hu, hrest⟩ := ih (htrees _ hmem) hfind
      exact ⟨hu, List.forall_mem_cons.2 ⟨hnames _ hmem, hrest⟩⟩

theorem Proper.stat {t u : FileTree α} (h : t.Proper) {p : Path} (hstat : t.stat p = .ok u) :
    u.Proper :=
  have ⟨_, _, hfind, _⟩ := stat_eq_ok.1 hstat
  (h.find? hfind).1

/-! ## Reordered trees -/

/-- The second tree is the first one with the entries of directories in another
    order. -/
inductive Reordered : FileTree α → FileTree α → Prop
  | refl (t : FileTree α) : Reordered t t
  | entries {es es' : List (String × FileTree α)} (h : es.Perm es') :
      Reordered (directory es) (directory es')
  | entry {t t' : FileTree α} (name : String) (es : List (String × FileTree α))
      (h : Reordered t t') :
      Reordered (directory ((name, t) :: es)) (directory ((name, t') :: es))
  | trans {t t' t'' : FileTree α} (h : Reordered t t') (h' : Reordered t' t'') : Reordered t t''

namespace Reordered

variable {t t' u : FileTree α}

theorem symm (h : Reordered t t') : Reordered t' t := by
  induction h with
  | refl t => exact .refl t
  | entries h => exact .entries h.symm
  | entry name es _ ih => exact .entry name es ih
  | trans _ _ ih ih' => exact .trans ih' ih

theorem content? (h : Reordered t t') : t'.content? = t.content? := by
  induction h with
  | refl t => rfl
  | entries h => rfl
  | entry name es _ ih => rfl
  | trans _ _ ih ih' => exact ih'.trans ih

theorem proper (h : Reordered t t') (hp : t.Proper) : t'.Proper := by
  induction h with
  | refl t => exact hp
  | entries h =>
    cases hp with
    | directory distinct names trees =>
      exact .directory ((h.map (·.1)).nodup_iff.1 distinct)
        (fun e he => names e (h.mem_iff.2 he)) fun e he => trees e (h.mem_iff.2 he)
  | entry name es _ ih =>
    cases hp with
    | directory distinct names trees =>
      have htree := ih (trees _ List.mem_cons_self)
      refine .directory distinct ?_ ?_
      · exact List.forall_mem_cons.2 (List.forall_mem_cons.1 names)
      · exact List.forall_mem_cons.2 ⟨htree, fun e he => trees e (List.mem_cons_of_mem _ he)⟩
  | trans _ _ ih ih' => exact ih' (ih hp)

/-- What stands at a place of a proper tree stands, reordered, at the same place of
    the reordered tree. -/
theorem find? (h : Reordered t t') (hp : t.Proper) {names : List String}
    (hfind : t.find? names = some u) : ∃ u', t'.find? names = some u' ∧ Reordered u u' := by
  induction h generalizing names u with
  | refl t => exact ⟨u, hfind, .refl u⟩
  | entries h =>
    cases names with
    | nil =>
      obtain rfl := Option.some.inj hfind
      exact ⟨_, rfl, .entries h⟩
    | cons name names =>
      cases hp with
      | directory distinct _ _ =>
        rw [find?_directory] at hfind ⊢
        obtain ⟨v, hv, hfind⟩ := Option.bind_eq_some_iff.1 hfind
        rw [lookup_eq_some_iff distinct, h.mem_iff,
          ← lookup_eq_some_iff ((h.map (·.1)).nodup_iff.1 distinct)] at hv
        exact ⟨u, by rw [hv]; exact hfind, .refl u⟩
  | @entry t t' name es h ih =>
    cases names with
    | nil =>
      obtain rfl := Option.some.inj hfind
      exact ⟨_, rfl, .entry name es h⟩
    | cons n names =>
      cases hp with
      | directory _ _ trees =>
        rw [find?_directory, lookup_entry] at hfind ⊢
        by_cases hn : n = name
        · rw [if_pos hn] at hfind ⊢
          exact ih (trees _ List.mem_cons_self) hfind
        · rw [if_neg hn] at hfind ⊢
          exact ⟨u, hfind, .refl u⟩
  | trans h h' ih ih' =>
    obtain ⟨v, hv, huv⟩ := ih hp hfind
    obtain ⟨w, hw, hvw⟩ := ih' (h.proper hp) hv
    exact ⟨w, hw, huv.trans hvw⟩

/-- Reordering changes nothing that stands at a place. -/
theorem view (h : Reordered t t') (hp : t.Proper) : t'.view = t.view := by
  funext place
  rw [FileTree.view, FileTree.view]
  cases hfind : t.find? place with
  | some u =>
    obtain ⟨u', hfind', hu⟩ := h.find? hp hfind
    rw [hfind', Option.map_some, Option.map_some, hu.content?]
  | none =>
    cases hfind' : t'.find? place with
    | none => rfl
    | some u' =>
      obtain ⟨u, hu, -⟩ := h.symm.find? (h.proper hp) hfind'
      rw [hfind] at hu
      cases hu

theorem locate (h : Reordered t t') (hp : t.Proper) (p : Path) : t'.locate p = t.locate p := by
  have hstep : t'.step = t.step := by
    funext place piece
    rw [step_eq, step_eq, h.view hp]
  rw [FileTree.locate, FileTree.locate, hstep]

theorem stat (h : Reordered t t') (hp : t.Proper) {p : Path} (hstat : t.stat p = .ok u) :
    ∃ u', t'.stat p = .ok u' ∧ Reordered u u' := by
  obtain ⟨place, hplace, hfind, hslash⟩ := stat_eq_ok.1 hstat
  obtain ⟨u', hfind', hu⟩ := h.find? hp hfind
  refine ⟨u', stat_eq_ok.2 ⟨place, by rw [h.locate hp, hplace], hfind', ?_⟩, hu⟩
  rwa [isDirectory_eq, hu.content?, ← isDirectory_eq]

/-- A path that names nothing names nothing in the reordered tree, for the same
    reason. -/
theorem stat_error (h : Reordered t t') (hp : t.Proper) {p : Path} {e : DiskError}
    (hstat : t.stat p = .error e) : t'.stat p = .error e := by
  rwa [stat_eq_error, h.locate hp, h.view hp, ← stat_eq_error]

end Reordered

end PackageDoc.FileTree
