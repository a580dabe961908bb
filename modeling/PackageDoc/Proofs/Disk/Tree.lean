/-
  What a file tree holds, and what changes in it.

  The view of a tree tells for each place whether a file stands there, with which
  content, or a directory, or nothing.  Paths are resolved on the view
  (`step_eq`), so two trees with one view resolve all paths alike, and what a path
  names in a tree it names in every tree that holds more (`Within.locate`).  A
  directory that is made and a file that is written change the view at one place
  and nowhere else (`view_of_makeDirectory`, `view_of_write`).
-/
import PackageDoc.Disk.Tree
import PackageDoc.Proofs.Disk.Path

namespace PackageDoc.FileTree

variable {α : Type}

/-! ## Views -/

/-- The content of a file. -/
def content? : FileTree α → Option α
  | file content => some content
  | directory _ => none

theorem isDirectory_eq (t : FileTree α) : t.isDirectory = t.content?.isNone := by
  cases t <;> rfl

/-- What stands at a place: the content of a file, or no content for a
    directory. -/
def view (t : FileTree α) (place : List String) : Option (Option α) :=
  (t.find? place).map content?

theorem view_eq_file {t : FileTree α} {place : List String} {content : α} :
    t.view place = some (some content) ↔ t.find? place = some (file content) := by
  rw [view, Option.map_eq_some_iff]
  constructor
  · rintro ⟨_ | _, hfind, hcontent⟩
    · rw [hfind, ← Option.some.inj hcontent]
    · cases hcontent
  · exact fun h => ⟨_, h, rfl⟩

theorem view_eq_directory {t : FileTree α} {place : List String} :
    t.view place = some none ↔ ∃ entries, t.find? place = some (directory entries) := by
  rw [view, Option.map_eq_some_iff]
  constructor
  · rintro ⟨_ | entries, hfind, hcontent⟩
    · cases hcontent
    · exact ⟨entries, hfind⟩
  · rintro ⟨entries, h⟩
    exact ⟨_, h, rfl⟩

theorem view_eq_none {t : FileTree α} {place : List String} :
    t.view place = none ↔ t.find? place = none := by
  rw [view, Option.map_eq_none_iff]

theorem find?_append (t : FileTree α) (front names : List String) :
    t.find? (front ++ names) = (t.find? front).bind (·.find? names) := by
  induction front generalizing t with
  | nil => rfl
  | cons name front ih =>
    simp only [List.cons_append, find?]
    cases t.entry? name with
    | none => rfl
    | some u => exact ih u

theorem find?_directory (entries : List (String × FileTree α)) (name : String)
    (names : List String) :
    (directory entries).find? (name :: names) = (entries.lookup name).bind (·.find? names) := rfl

@[simp] theorem view_nil (t : FileTree α) : t.view [] = some t.content? := rfl

theorem view_cons (entries : List (String × FileTree α)) (name : String) (names : List String) :
    (directory entries).view (name :: names) = (entries.lookup name).bind (·.view names) := by
  rw [view, find?_directory]
  cases entries.lookup name <;> rfl

/-- Nothing stands below what has no entries. -/
theorem view_below {t : FileTree α} (h : ∀ name, t.entry? name = none) (name : String)
    (names : List String) : t.view (name :: names) = none := by
  rw [view, find?, h]
  rfl

/-- Where something stands below the top, the top is a directory. -/
theorem exists_entry_of_view {t : FileTree α} {name : String} {names : List String}
    {x : Option α} (h : t.view (name :: names) = some x) :
    ∃ entries u, t = directory entries ∧ entries.lookup name = some u ∧ u.view names = some x := by
  cases t with
  | file content => cases h
  | directory entries =>
    rw [view_cons] at h
    obtain ⟨u, hu, hview⟩ := Option.bind_eq_some_iff.1 h
    exact ⟨entries, u, rfl, hu, hview⟩

/-! ## Places -/

/-- The place that a path names. -/
def locate (t : FileTree α) (p : Path) : Except DiskError (List String) := do
  (← pieces p).foldlM t.step []

/-- A path that names a place has a text that a system accepts. -/
theorem text_of_locate {t : FileTree α} {p : Path} {place : List String}
    (h : t.locate p = .ok place) : p.text ≠ "" ∧ p.text.utf8ByteSize < pathLimit := by
  cases hp : pieces p with
  | error e => rw [locate, hp] at h; cases h
  | ok ps =>
    rw [pieces] at hp
    split_ifs at hp with h1 h2 h3
    exact ⟨by simpa using h2, by omega⟩

theorem step_eq (t : FileTree α) (place : List String) (piece : String) :
    t.step place piece =
      match t.view place with
      | none => .error .noSuchEntry
      | some (some _) => .error .notDirectory
      | some none =>
        if piece = "." then .ok place
        else if piece = ".." then .ok place.dropLast
        else if maxNameLength < piece.utf8ByteSize then .error .nameTooLong
        else if (t.view (place ++ [piece])).isSome then .ok (place ++ [piece])
        else .error .noSuchEntry := by
  rw [step, view, view, find?_append]
  cases t.find? place with
  | none => rfl
  | some u =>
    cases u with
    | file content => rfl
    | directory entries =>
      cases h : entries.lookup piece <;> simp [content?, find?, entry?, h]

theorem stat_eq (t : FileTree α) (p : Path) :
    t.stat p = (t.locate p).bind fun place =>
      match t.find? place with
      | none => .error .noSuchEntry
      | some (file content) =>
        if p.text.toList.getLast? = some '/' then .error .notDirectory else .ok (file content)
      | some (directory entries) => .ok (directory entries) := by
  rw [stat, locate]
  cases pieces p with
  | error e => rfl
  | ok ps => rfl

/-- What a path names stands at its place; if that is a file, no slash ends the
    path. -/
theorem stat_eq_ok {t u : FileTree α} {p : Path} :
    t.stat p = .ok u ↔ ∃ place, t.locate p = .ok place ∧ t.find? place = some u ∧
      (u.isDirectory ∨ p.text.toList.getLast? ≠ some '/') := by
  rw [stat_eq]
  cases t.locate p with
  | error e => simp [Except.bind]
  | ok place =>
    simp only [Except.bind, Except.ok.injEq, exists_eq_left']
    cases t.find? place with
    | none => simp
    | some v =>
      cases v with
      | directory entries =>
        simp only [Except.ok.injEq, Option.some.injEq]
        exact ⟨fun h => ⟨h, .inl (h ▸ rfl)⟩, And.left⟩
      | file content =>
        by_cases hslash : p.text.toList.getLast? = some '/'
        · simp only [hslash, if_true, Option.some.injEq, ne_eq, not_true_eq_false, or_false]
          constructor
          · rintro ⟨⟩
          · rintro ⟨rfl, ⟨⟩⟩
        · simp [hslash]

theorem text_of_stat {t u : FileTree α} {p : Path} (h : t.stat p = .ok u) : p.text ≠ "" :=
  have ⟨_, hplace, _, _⟩ := stat_eq_ok.1 h
  (text_of_locate hplace).1

/-- Why a path names nothing. -/
theorem stat_eq_error {t : FileTree α} {p : Path} {e : DiskError} :
    t.stat p = .error e ↔ t.locate p = .error e ∨ ∃ place, t.locate p = .ok place ∧
      (t.view place = none ∧ e = .noSuchEntry ∨
        (∃ content, t.view place = some (some content)) ∧
          p.text.toList.getLast? = some '/' ∧ e = .notDirectory) := by
  rw [stat_eq]
  cases t.locate p with
  | error e' => simp [Except.bind]
  | ok place =>
    simp only [Except.bind, Except.ok.injEq, exists_eq_left', view, reduceCtorEq, false_or]
    cases t.find? place with
    | none => simp [eq_comm]
    | some v =>
      cases v with
      | directory entries => simp [content?]
      | file content =>
        by_cases hslash : p.text.toList.getLast? = some '/' <;> simp [content?, hslash, eq_comm]

theorem read_eq_ok {t : FileTree α} {p : Path} {content : α} :
    t.read p = .ok content ↔ t.stat p = .ok (file content) := by
  rw [read]
  cases t.stat p with
  | error e => simp [bind, Except.bind]
  | ok u => cases u <;> simp [bind, Except.bind]

/-! ## Trees that hold more -/

/-- Every directory of a tree is one of the other tree, and every file is a file
    there, perhaps with another content. -/
structure Within (t t' : FileTree α) : Prop where
  directory : ∀ place, t.view place = some none → t'.view place = some none
  file : ∀ place content, t.view place = some (some content) →
    ∃ content', t'.view place = some (some content')

namespace Within

variable {t t' t'' : FileTree α}

theorem refl (t : FileTree α) : Within t t := ⟨fun _ h => h, fun _ _ h => ⟨_, h⟩⟩

theorem trans (h : Within t t') (h' : Within t' t'') : Within t t'' where
  directory place hd := h'.directory place (h.directory place hd)
  file place content hf :=
    have ⟨_, hf'⟩ := h.file place content hf
    h'.file place _ hf'

theorem isSome_view (h : Within t t') {place : List String} (hs : (t.view place).isSome) :
    (t'.view place).isSome := by
  obtain ⟨x, hx⟩ := Option.isSome_iff_exists.1 hs
  cases x with
  | none => rw [h.directory place hx]; rfl
  | some content =>
    obtain ⟨content', hf⟩ := h.file place content hx
    rw [hf]; rfl

theorem step (h : Within t t') {place place' : List String} {piece : String}
    (hstep : t.step place piece = .ok place') : t'.step place piece = .ok place' := by
  rw [step_eq] at hstep ⊢
  split at hstep
  · cases hstep
  · cases hstep
  · rename_i hview
    rw [h.directory place hview]
    simp only at hstep ⊢
    split_ifs at hstep with h1 h2 h3 h4
    · simpa [h1] using hstep
    · simpa [h1, h2] using hstep
    · simpa [h1, h2, h3, h.isSome_view h4] using hstep

theorem foldlM_step (h : Within t t') {pieces place place' : List String}
    (hfold : pieces.foldlM t.step place = .ok place') :
    pieces.foldlM t'.step place = .ok place' := by
  induction pieces generalizing place with
  | nil => exact hfold
  | cons piece pieces ih =>
    rw [List.foldlM_cons] at hfold ⊢
    cases hstep : t.step place piece with
    | error e => rw [hstep] at hfold; cases hfold
    | ok next =>
      rw [hstep] at hfold
      rw [h.step hstep]
      exact ih hfold

theorem locate (h : Within t t') {p : Path} {place : List String}
    (hplace : t.locate p = .ok place) : t'.locate p = .ok place := by
  rw [FileTree.locate] at hplace ⊢
  cases hp : pieces p with
  | error e => rw [hp] at hplace; cases hplace
  | ok ps =>
    rw [hp] at hplace
    exact h.foldlM_step hplace

end Within

/-! ## Changes -/

theorem lookup_entry (name other : String) (t : FileTree α) (rest : List (String × FileTree α)) :
    List.lookup other ((name, t) :: rest) = if other = name then some t else rest.lookup other := by
  by_cases h : other = name
  · simp [h]
  · rw [List.lookup_cons, beq_false_of_ne h, if_neg h]

theorem lookup_setEntry (name other : String) (new : FileTree α)
    (entries : List (String × FileTree α)) :
    (setEntry name new entries).lookup other =
      if other = name then some new else entries.lookup other := by
  induction entries with
  | nil => rw [setEntry, lookup_entry, List.lookup_nil]
  | cons e rest ih =>
    obtain ⟨n, t⟩ := e
    rw [setEntry]
    by_cases hn : n = name
    · subst hn
      rw [if_pos rfl, lookup_entry, lookup_entry]
      split <;> rfl
    · rw [if_neg hn, lookup_entry, lookup_entry, ih]
      by_cases h : other = n
      · subst h
        rw [if_pos rfl, if_neg hn, if_pos rfl]
      · rw [if_neg h, if_neg h]

/-- What is put into a directory in place of a file or of nothing is all that
    changes. -/
theorem view_put {t new : FileTree α} {dir : List String} {name : String}
    (hdir : t.view dir = some none) (hold : t.view (dir ++ [name]) ≠ some none)
    (hnew : ∀ n, new.entry? n = none) (place : List String) :
    (t.put new (dir ++ [name])).view place =
      if place = dir ++ [name] then some new.content? else t.view place := by
  induction dir generalizing t place with
  | nil =>
    obtain ⟨entries, rfl⟩ : ∃ entries, t = directory entries := by
      cases t with
      | file content => cases hdir
      | directory entries => exact ⟨entries, rfl⟩
    cases place with
    | nil => rfl
    | cons m ms =>
      simp only [List.nil_append, put, view_cons, lookup_setEntry, List.cons.injEq] at hold ⊢
      by_cases hm : m = name
      · subst hm
        cases ms with
        | nil => simp
        | cons k ks =>
          -- below a file, or where nothing stands, there is nothing before or after
          have hbelow : (entries.lookup m).bind (·.view (k :: ks)) = none := by
            cases hu : entries.lookup m with
            | none => rfl
            | some u =>
              cases u with
              | directory es => simp [hu, content?] at hold
              | file content => exact view_below (fun _ => rfl) k ks
          simp [hbelow, view_below hnew k ks]
      · simp [hm]
  | cons d ds ih =>
    obtain ⟨entries, u, rfl, hu, hds⟩ := exists_entry_of_view hdir
    rw [List.cons_append, view_cons, hu] at hold
    cases place with
    | nil => rfl
    | cons m ms =>
      simp only [List.cons_append, put, view_cons, lookup_setEntry, List.cons.injEq, entry?, hu,
        Option.getD_some]
      by_cases hm : m = d
      · subst hm
        simpa [hu] using ih hds hold ms
      · simp [hm]

/-- What is put in place of a file or of nothing leaves all directories and
    files where they are. -/
theorem within_of_view {t t' : FileTree α} {place : List String} {x : Option α}
    (hold : t.view place = none ∨ x.isSome ∧ t.view place ≠ some none)
    (h : ∀ other, t'.view other = if other = place then some x else t.view other) :
    Within t t' where
  directory other hother := by
    by_cases heq : other = place
    · subst heq
      rcases hold with hold | ⟨-, hold⟩
      · rw [hold] at hother; cases hother
      · exact absurd hother hold
    · rw [h, if_neg heq, hother]
  file other content hother := by
    by_cases heq : other = place
    · subst heq
      rcases hold with hold | ⟨hx, -⟩
      · rw [hold] at hother; cases hother
      · obtain ⟨content', rfl⟩ := Option.isSome_iff_exists.1 hx
        exact ⟨content', by rw [h, if_pos rfl]⟩
    · exact ⟨content, by rw [h, if_neg heq, hother]⟩

theorem target_eq_ok {t : FileTree α} {p : Path} {dir : List String} {last : Option String} :
    t.target p = .ok (dir, last) ↔ ∃ ps, pieces p = .ok ps ∧
      ps.dropLast.foldlM t.step [] = .ok dir ∧ t.view dir = some none ∧ ps.getLast? = last := by
  rw [target]
  cases hps : pieces p with
  | error e => simp [bind, Except.bind]
  | ok ps =>
    cases hdir : ps.dropLast.foldlM t.step [] with
    | error e => simp [bind, Except.bind, hdir]
    | ok d =>
      simp only [bind, Except.bind, hdir, Except.ok.injEq, exists_eq_left']
      cases hfind : t.find? d with
      | none =>
        simp only [reduceCtorEq, false_iff]
        rintro ⟨rfl, hview, -⟩
        rw [view_eq_none.2 hfind] at hview
        cases hview
      | some u =>
        cases u with
        | file content =>
          simp only [reduceCtorEq, false_iff]
          rintro ⟨rfl, hview, -⟩
          rw [view_eq_file.2 hfind] at hview
          cases hview
        | directory entries =>
          have hview := view_eq_directory.2 ⟨entries, hfind⟩
          simp only [Except.ok.injEq, Prod.mk.injEq]
          constructor
          · rintro ⟨rfl, rfl⟩
            exact ⟨rfl, hview, rfl⟩
          · rintro ⟨rfl, -, rfl⟩
            exact ⟨rfl, rfl⟩

/-- Where a path is to stand, it names what comes to stand there. -/
theorem locate_of_target {t t' : FileTree α} (h : Within t t') {p : Path} {dir : List String}
    {name : String} (htarget : t.target p = .ok (dir, some name))
    (hdots : ¬ (name = "." ∨ name = "..")) (hlong : ¬ maxNameLength < name.utf8ByteSize)
    (hsome : (t'.view (dir ++ [name])).isSome) : t'.locate p = .ok (dir ++ [name]) := by
  obtain ⟨ps, hps, hfold, hdir, hlast⟩ := target_eq_ok.1 htarget
  obtain ⟨front, rfl⟩ := List.getLast?_eq_some_iff.1 hlast
  rw [List.dropLast_concat] at hfold
  rw [not_or] at hdots
  rw [locate, hps]
  simp only [bind, Except.bind, List.foldlM_append, h.foldlM_step hfold, List.foldlM_cons,
    List.foldlM_nil]
  simp [step_eq, h.directory dir hdir, hdots, hlong, hsome, pure, Except.pure]

/-- A directory that is made is new, it stands where its path says, and it is all
    that changes. -/
theorem view_of_makeDirectory {t t' : FileTree α} {p : Path} (h : t.makeDirectory p = .ok t') :
    ∃ place, t'.locate p = .ok place ∧ t.view place = none ∧
      ∀ other, t'.view other = if other = place then some none else t.view other := by
  rw [makeDirectory] at h
  cases htarget : t.target p with
  | error e => rw [htarget] at h; cases h
  | ok target =>
    obtain ⟨dir, last⟩ := target
    rw [htarget] at h
    cases last with
    | none => cases h
    | some name =>
      obtain ⟨-, -, -, hdir, -⟩ := target_eq_ok.1 htarget
      simp only [bind, Except.bind] at h
      split_ifs at h with hdots hlong hsome
      obtain rfl := Except.ok.inj h
      have hnone : t.view (dir ++ [name]) = none := by
        simpa [view_eq_none] using hsome
      have hold : t.view (dir ++ [name]) ≠ some none := by simp [hnone]
      have hview : ∀ other, (t.put (directory []) (dir ++ [name])).view other =
          if other = dir ++ [name] then some none else t.view other :=
        view_put hdir hold fun _ => rfl
      refine ⟨dir ++ [name], ?_, hnone, hview⟩
      exact locate_of_target (within_of_view (.inl hnone) hview) htarget hdots hlong
        (by simp [hview])

/-- A file that is written is all that changes, it stands in a directory, and its path
    names it. -/
theorem view_of_write {t t' : FileTree α} {p : Path} {content : α}
    (h : t.write p content = .ok t') :
    ∃ dir name, t.target p = .ok (dir, some name) ∧ t.view (dir ++ [name]) ≠ some none ∧
      (∀ other, t'.view other = if other = dir ++ [name] then some (some content)
        else t.view other) ∧
      t'.locate p = .ok (dir ++ [name]) ∧ p.text.toList.getLast? ≠ some '/' := by
  rw [write] at h
  cases htarget : t.target p with
  | error e => rw [htarget] at h; cases h
  | ok target =>
    obtain ⟨dir, last⟩ := target
    rw [htarget] at h
    cases last with
    | none => cases h
    | some name =>
      obtain ⟨-, -, -, hdir, -⟩ := target_eq_ok.1 htarget
      simp only [bind, Except.bind] at h
      split_ifs at h with hdots hlong
      have hold : t.view (dir ++ [name]) ≠ some none := by
        intro hview
        obtain ⟨entries, hfind⟩ := view_eq_directory.1 hview
        rw [hfind] at h
        cases h
      have hput : t' = t.put (file content) (dir ++ [name]) := by
        split at h
        · cases h
        · exact (Except.ok.inj h).symm
      have hview : ∀ other, t'.view other = if other = dir ++ [name] then some (some content)
          else t.view other := by
        rw [hput]
        exact view_put hdir hold fun _ => rfl
      have hwithin := within_of_view (.inr ⟨rfl, hold⟩) hview
      refine ⟨dir, name, rfl, hold, hview, ?_, fun hslash => hdots (.inr (.inr hslash))⟩
      exact locate_of_target hwithin htarget (fun hname => hdots (hname.imp_right .inl)) hlong
        (by simp [hview])

end PackageDoc.FileTree
