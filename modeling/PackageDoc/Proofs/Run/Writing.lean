/-
  Writing the files of a site.

  The files are written one after the other, in the directory that the output path
  names (`Wrote`); of two files with one name the later one stays (`fileAt`).  The
  names are entries of that directory, so nothing is written elsewhere.
-/
import PackageDoc.Proofs.Disk.Directories
import PackageDoc.Proofs.Parser.Names
import PackageDoc.Proofs.Run.Basic

namespace PackageDoc

open FileTree PackageDoc.Path RunM

/-! ## The output directory -/

namespace FileTree

variable {α : Type} {t : FileTree α}

/-- The pieces between the slashes of a path. -/
def pieceTexts (p : Path) : List String :=
  ((p.text.toList.splitOn '/').filter (!·.isEmpty)).map String.ofList

/-- The directory that an output path names; an empty path is the one where paths
    start. -/
def outputDirectory (t : FileTree α) (p : Path) : Except DiskError (List String) :=
  if p.text = "" then .ok [] else t.locate p

theorem eq_pieceTexts {p : Path} {ps : List String} (h : pieces p = .ok ps) : ps = pieceTexts p := by
  rw [pieces] at h
  split_ifs at h
  exact (Except.ok.inj h).symm

theorem pieceTexts_join (p : Path) {name : String} (h : IsEntryName name) :
    pieceTexts (p.join name) = pieceTexts p ++ [name] := by
  have hname : name.toList.isEmpty = false := by
    rw [List.isEmpty_eq_false_iff]
    exact fun heq => h.1 (by simp [String.toList_inj.1 (heq.trans String.toList_empty.symm)])
  by_cases hp : p.text = ""
  · have hjoin : (p.join name).text = name := by simp [join, hp]
    have hsplit : name.toList.splitOn '/' = [name.toList] := List.splitOn_eq_singleton h.2
    rw [pieceTexts, pieceTexts, hjoin, hp, hsplit]
    simp [hname]
  · obtain ⟨front, -, hjoin, hdir⟩ := splitOn_join hp h
    rw [pieceTexts, pieceTexts, hjoin]
    rcases hdir with hdir | hdir <;> simp [hdir, hname]

/-- A directory has a text that a system accepts if one of its entries has. -/
theorem pieces_of_join {p : Path} {name : String} {ps : List String} (hp : p.text ≠ "")
    (h : pieces (p.join name) = .ok ps) : pieces p = .ok (pieceTexts p) := by
  obtain ⟨more, hmore⟩ : ∃ more, (p.join name).text = p.text ++ more := by
    rw [join]
    split
    · exact ⟨name, rfl⟩
    · exact ⟨"/" ++ name, String.append_assoc⟩
  rw [pieces, hmore] at h
  split_ifs at h with hnull _ hlong
  have hnull' : ¬ p.text.toList.contains '\x00' = true := by
    simp only [String.toList_append, List.contains_iff_mem, List.mem_append, not_or] at hnull ⊢
    exact hnull.1
  have hlong' : ¬ pathLimit ≤ p.text.utf8ByteSize := by
    rw [String.utf8ByteSize_append] at hlong
    omega
  rw [pieces, if_neg hnull', if_neg (by simpa using hp), if_neg hlong']
  rfl

/-- The entry of a directory is to stand in that directory. -/
theorem target_join {p : Path} {name n : String} {dir : List String} (hname : IsEntryName name)
    (h : t.target (p.join name) = .ok (dir, some n)) :
    n = name ∧ t.outputDirectory p = .ok dir ∧ t.view dir = some none := by
  obtain ⟨ps, hps, hfold, hdir, hlast⟩ := target_eq_ok.1 h
  obtain rfl := eq_pieceTexts hps
  rw [pieceTexts_join p hname] at hfold hlast
  rw [List.dropLast_concat] at hfold
  refine ⟨by simpa using hlast.symm, ?_, hdir⟩
  rw [outputDirectory]
  split
  · rename_i hempty
    rw [pieceTexts, hempty] at hfold
    exact hfold
  · rename_i hp
    rw [locate, pieces_of_join hp hps]
    exact hfold

theorem Within.outputDirectory {t t' : FileTree α} (h : Within t t') {p : Path}
    {dir : List String} (hdir : t.outputDirectory p = .ok dir) :
    t'.outputDirectory p = .ok dir := by
  rw [FileTree.outputDirectory] at hdir ⊢
  by_cases hp : p.text = ""
  · rwa [if_pos hp] at hdir ⊢
  · rw [if_neg hp] at hdir ⊢
    exact h.locate hdir

end FileTree

/-! ## Writing files -/

section
variable {s s' : List Event} {t t' : FileTree ByteArray} {dir : Path} {out : List String}

/-- The file of a list that stands at a place in the end: the last one with its
    name. -/
def fileAt (out : List String) (fs : List Site.SiteFile) (place : List String) :
    Option Site.SiteFile :=
  fs.reverse.find? fun f => decide (out ++ [f.name] = place)

/-- A file gives way to those that are written after it. -/
theorem fileAt_cons (out : List String) (f : Site.SiteFile) (fs : List Site.SiteFile)
    (place : List String) :
    fileAt out (f :: fs) place = (fileAt out fs place).or (fileAt out [f] place) := by
  rw [fileAt, List.reverse_cons, List.find?_append]
  rfl

/-- What writing a file gives: its path if it is a page. -/
def pageOf (dir : Path) (f : Site.SiteFile) : List Path :=
  if f.package?.isSome then [dir.join f.name] else []

/-- The files of the list, and nothing else, have been written in the directory `out`,
    which the path names. -/
structure Wrote (dir : Path) (out : List String) (fs : List Site.SiteFile)
    (t t' : FileTree ByteArray) : Prop where
  within : Within t t'
  view : ∀ place, t'.view place =
    match fileAt out fs place with
    | some f => some (some f.content.toUTF8)
    | none => t.view place
  named : ∀ f ∈ fs, t'.locate (dir.join f.name) = .ok (out ++ [f.name]) ∧
    (dir.join f.name).text.toList.getLast? ≠ some '/'

theorem Wrote.nil (dir : Path) (out : List String) (t : FileTree ByteArray) :
    Wrote dir out [] t t :=
  ⟨.refl t, fun _ => rfl, fun _ hf => absurd hf List.not_mem_nil⟩

theorem Wrote.cons {f : Site.SiteFile} {fs : List Site.SiteFile} {t'' : FileTree ByteArray}
    (h : Wrote dir out [f] t t') (h' : Wrote dir out fs t' t'') :
    Wrote dir out (f :: fs) t t'' where
  within := h.within.trans h'.within
  view place := by
    rw [fileAt_cons, h'.view, h.view]
    cases fileAt out fs place <;> rfl
  named := by
    have hf := h.named f List.mem_cons_self
    exact List.forall_mem_cons.2 ⟨⟨h'.within.locate hf.1, hf.2⟩, h'.named⟩

theorem on_disk_modify (e : DiskError → RunError)
    (g : FileTree ByteArray → Except DiskError (FileTree ByteArray)) :
    (disk e (tryModify g) : TreeM Unit).on s t =
      match g t with
      | .ok t' => ((.ok (), s), t')
      | .error error => ((.error (e error), s), t) := by
  rw [on_disk, run_tryModify]
  cases g t <;> rfl

theorem on_writeFile_eq_ok {f : Site.SiteFile} {ps : List Path} :
    (∃ s', (writeFile FileTree.disk dir f).on s t = ((.ok ps, s'), t')) ↔
      t.write (dir.join f.name) f.content.toUTF8 = .ok t' ∧ ps = pageOf dir f := by
  have hwrite : (disk (.write (dir.join f.name))
      (FileTree.disk.write (dir.join f.name) f.content) : TreeM Unit).on s t = _ :=
    on_disk_modify (.write (dir.join f.name))
      fun t : FileTree ByteArray => t.write (dir.join f.name) f.content.toUTF8
  rw [writeFile]
  simp only [on_bind, hwrite]
  cases t.write (dir.join f.name) f.content.toUTF8 with
  | error e => simp
  | ok t₁ =>
    cases hpackage : f.package? with
    | none => simp [pageOf, hpackage, eq_comm, and_comm]
    | some package =>
      have hlog (s : List Event) : (log [.wrotePage package (dir.join f.name).text] >>= fun _ =>
          pure [dir.join f.name] : TreeM (List Path)).on s t₁ =
            ((.ok [dir.join f.name], s ++ [.wrotePage package (dir.join f.name).text]), t₁) := rfl
      simp only [hlog]
      simp [pageOf, hpackage, eq_comm, and_comm]

/-- What a file that has been written changes. -/
theorem Wrote.of_write {f : Site.SiteFile} (hname : IsEntryName f.name)
    (h : t.write (dir.join f.name) f.content.toUTF8 = .ok t') :
    ∃ out, t.outputDirectory dir = .ok out ∧ t.view out = some none ∧ Wrote dir out [f] t t' := by
  obtain ⟨out, n, htarget, hold, hview, hnamed⟩ := view_of_write h
  obtain ⟨rfl, hout, hdir⟩ := target_join hname htarget
  refine ⟨out, hout, hdir, within_of_view (.inr ⟨rfl, hold⟩) hview, fun place => ?_, ?_⟩
  · rw [hview]
    by_cases heq : place = out ++ [f.name]
    · simp [fileAt, heq]
    · simp [fileAt, heq, Ne.symm heq]
  · simpa using hnamed

/-- Writes files one after the other. -/
def writeAll (dir : Path) (fs : List Site.SiteFile) (t : FileTree ByteArray) :
    Except DiskError (FileTree ByteArray) :=
  fs.foldlM (fun t f => t.write (dir.join f.name) f.content.toUTF8) t

/-- The files of a site can be written in a run if they can be written one after the
    other; the pages among them are what it gives. -/
theorem on_writeFiles {fs : List Site.SiteFile} {s : List Event} {t t' : FileTree ByteArray}
    {pss : List (List Path)} :
    (∃ s', (fs.mapM (writeFile FileTree.disk dir)).on s t = ((.ok pss, s'), t')) ↔
      writeAll dir fs t = .ok t' ∧ pss = fs.map (pageOf dir) := by
  induction fs generalizing s t pss with
  | nil =>
    constructor
    · rintro ⟨s', h⟩
      cases h
      exact ⟨rfl, rfl⟩
    · rintro ⟨h, rfl⟩
      cases h
      exact ⟨s, rfl⟩
  | cons f fs ih =>
    rw [List.mapM_cons, writeAll, List.foldlM_cons]
    constructor
    · rintro ⟨s', h⟩
      obtain ⟨ps, s₁, t₁, hfirst, h⟩ := on_bind_eq_ok.1 h
      obtain ⟨pss', s₂, t₂, hmore, h⟩ := on_bind_eq_ok.1 h
      cases h
      obtain ⟨hwrite, rfl⟩ := on_writeFile_eq_ok.1 ⟨s₁, hfirst⟩
      obtain ⟨hall, rfl⟩ := ih.1 ⟨s', hmore⟩
      rw [hwrite]
      exact ⟨hall, rfl⟩
    · rintro ⟨h, rfl⟩
      cases hwrite : t.write (dir.join f.name) f.content.toUTF8 with
      | error e =>
        rw [hwrite] at h
        cases h
      | ok t₁ =>
        rw [hwrite] at h
        obtain ⟨s₁, hfirst⟩ := on_writeFile_eq_ok.2 ⟨hwrite, rfl⟩
        obtain ⟨s', hmore⟩ := ih.2 ⟨h, rfl⟩
        exact ⟨s', on_bind_eq_ok.2 ⟨_, s₁, t₁, hfirst, on_bind_eq_ok.2 ⟨_, s', t', hmore, rfl⟩⟩⟩

/-- Writing files leaves nothing else behind. -/
theorem Wrote.of_writeAll {fs : List Site.SiteFile} (hnames : ∀ f ∈ fs, IsEntryName f.name)
    {t t' : FileTree ByteArray} (hout : t.outputDirectory dir = .ok out)
    (h : writeAll dir fs t = .ok t') : Wrote dir out fs t t' := by
  induction fs generalizing t with
  | nil =>
    cases h
    exact .nil dir out _
  | cons f fs ih =>
    obtain ⟨hf, hfs⟩ := List.forall_mem_cons.1 hnames
    rw [writeAll, List.foldlM_cons] at h
    cases hwrite : t.write (dir.join f.name) f.content.toUTF8 with
    | error e =>
      rw [hwrite] at h
      cases h
    | ok t₁ =>
      rw [hwrite] at h
      obtain ⟨out', hout', -, hwrote⟩ := Wrote.of_write hf hwrite
      obtain rfl : out' = out := Except.ok.inj (hout'.symm.trans hout)
      exact hwrote.cons (ih hfs (hwrote.within.outputDirectory hout) h)

theorem flatMap_pageOf_files (dir : Path) (c : Catalog) :
    ((Site.files c).map (pageOf dir)).flatten =
      c.packages.map fun p => dir.join (Html.pageName p.name.name) := by
  have hassets : Site.assets.flatMap (pageOf dir) = [] := rfl
  have hpage (p : Package) :
      pageOf dir (Site.pageFile c p) = [dir.join (Html.pageName p.name.name)] := rfl
  rw [← List.flatMap_def, Site.files, List.flatMap_append, hassets, List.nil_append,
    List.flatMap_map]
  simp only [hpage]
  exact List.flatMap_pure_eq_map _ _

/-- The files of a site are entries of a directory. -/
theorem isEntryName_of_mem_files {c : Catalog} (h : ∀ p ∈ c.packages, IsWordText p.name.name)
    {f : Site.SiteFile} (hf : f ∈ Site.files c) : IsEntryName f.name := by
  rw [Site.files, List.mem_append, List.mem_map] at hf
  rcases hf with hf | ⟨p, hp, rfl⟩
  · simp only [Site.assets, List.mem_cons, List.not_mem_nil, or_false] at hf
    rcases hf with rfl | rfl
    · exact (by decide : IsEntryName "main.css")
    · exact (by decide : IsEntryName "pldoc.js")
  · exact isEntryName_pageName (h p hp)

/-- The files of a site are written in the directory that the path names. -/
theorem Wrote.of_site {c : Catalog} (hnames : ∀ p ∈ c.packages, IsWordText p.name.name)
    (h : writeAll dir (Site.files c) t = .ok t') :
    ∃ out, t.outputDirectory dir = .ok out ∧ t.view out = some none ∧
      Wrote dir out (Site.files c) t t' := by
  have hentries := fun f hf => isEntryName_of_mem_files (f := f) hnames hf
  -- where the first file is written, all files are
  have hfirst : ∃ t₁, t.write (dir.join "main.css") Site.stylesheet.toUTF8 = .ok t₁ := by
    have hall : (t.write (dir.join "main.css") Site.stylesheet.toUTF8).bind _ = .ok t' := h
    cases hwrite : t.write (dir.join "main.css") Site.stylesheet.toUTF8 with
    | error e =>
      rw [hwrite] at hall
      cases hall
    | ok t₁ => exact ⟨t₁, rfl⟩
  obtain ⟨t₁, hfirst⟩ := hfirst
  obtain ⟨out, hout, hdir, -⟩ := Wrote.of_write (f := ⟨"main.css", Site.stylesheet, none⟩)
    (hentries _ (by simp [Site.files, Site.assets])) hfirst
  exact ⟨out, hout, hdir, .of_writeAll hentries hout h⟩

/-- Writing a site succeeds if the directory can be made, and the files can be written
    in it. -/
theorem on_writeSite {c : Catalog} {s : List Event} {t t' : FileTree ByteArray}
    {pages : List Path} :
    (∃ s', (writeSite FileTree.disk dir c).on s t = ((.ok pages, s'), t')) ↔
      ∃ t₁, (FileTree.disk.makeDirectories dir).run t = (.ok (), t₁) ∧
        writeAll dir (Site.files c) t₁ = .ok t' ∧
        pages = c.packages.map fun p => dir.join (Html.pageName p.name.name) := by
  constructor
  · rintro ⟨s', h⟩
    obtain ⟨_, s₁, t₁, hmake, h⟩ := on_bind_eq_ok.1 h
    obtain ⟨pss, s₂, t₂, hfiles, h⟩ := on_bind_eq_ok.1 h
    cases h
    obtain ⟨hall, rfl⟩ := on_writeFiles.1 ⟨_, hfiles⟩
    exact ⟨t₁, (on_disk_eq_ok.1 hmake).1, hall, flatMap_pageOf_files dir c⟩
  · rintro ⟨t₁, hmake, hall, rfl⟩
    obtain ⟨s', hfiles⟩ := on_writeFiles.2 ⟨hall, rfl⟩
    refine ⟨s', on_bind_eq_ok.2 ⟨(), s, t₁, on_disk_eq_ok.2 ⟨hmake, rfl⟩, ?_⟩⟩
    refine on_bind_eq_ok.2 ⟨_, s', t', hfiles, ?_⟩
    rw [flatMap_pageOf_files]
    rfl

end

end PackageDoc
