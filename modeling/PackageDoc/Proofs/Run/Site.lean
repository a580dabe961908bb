/-
  What a run reads and what it writes.

  A run finds its sources and parses all of them before it writes anything
  (`on_document`), so one that fails there leaves the tree as it was; one that
  succeeds has written the site and nothing else (`document_all_or_nothing`).
-/
import PackageDoc.Proofs.Discovery
import PackageDoc.Proofs.Run.Writing

namespace PackageDoc

open FileTree PackageDoc.Path RunM

/-! ## Runs -/

namespace FileTree

/-- What a run does to a tree. -/
def document (t : FileTree ByteArray) (o : Options) :
    Logged (Except RunError Report) × FileTree ByteArray :=
  (PackageDoc.document FileTree.disk o).logged.run t

/-- A file, as a run reads and parses it. -/
def sourceFile (t : FileTree ByteArray) (p : Path) : Except RunError SourceFile :=
  ((t.read p).mapError (.read p)).bind fun source =>
    (parse p.text source).result.mapError .parse

/-- The paths that a run finds, and the files that it parses. -/
def sourceFiles (t : FileTree ByteArray) (o : Options) :
    Except RunError (List Path × List SourceFile) :=
  (t.discover o.roots o.extension).bind fun paths =>
    (paths.mapM t.sourceFile).bind fun files => .ok (paths, files)

end FileTree

theorem parseFile_reads (p : Path) :
    RunM.Reads (parseFile FileTree.disk p) fun t => t.sourceFile p := by
  refine (RunM.Reads.disk (.read p) fun t => rfl).bind fun source => ?_
  refine RunM.Reads.bind (g := fun _ => .ok ()) (RunM.Reads.log (parse p.text source).events)
    (h := fun _ _ => (parse p.text source).result.mapError .parse) fun _ => ?_
  cases (parse p.text source).result with
  | ok file =>
    exact (RunM.Reads.log [.parsedFile p.text file.packages.length]).bind fun _ => .pure file
  | error e => exact .throw (.parse e)

/-- What follows the parsing of the files. -/
def publish {m : Type → Type} [Monad m] (d : Disk m) (o : Options) (paths : List Path)
    (files : List SourceFile) : RunM m Report := do
  let catalog : Catalog := ⟨some description, files⟩
  log [.parsedPackages catalog.packages.length]
  let pages ← writeSite d o.output catalog
  log [.wroteSite pages.length o.output.text]
  return ⟨paths.length, catalog.packages.length, pages, o.output⟩

/-- A run finds and parses all sources before it writes. -/
theorem on_document (o : Options) (s : List Event) (t : FileTree ByteArray) :
    ∃ s', (document FileTree.disk o).on s t =
      match t.sourceFiles o with
      | .ok (paths, files) => (publish FileTree.disk o paths files).on s' t
      | .error e => ((.error e, s'), t) := by
  obtain ⟨s₁, hfind⟩ := (findSources_reads o.roots o.extension).on_bind (f := fun paths => do
    log [.foundFiles paths.length o.extension]
    let files ← paths.mapM (parseFile FileTree.disk)
    publish FileTree.disk o paths files) s t
  have hdocument : (document FileTree.disk o).on s t = _ := hfind
  rw [hdocument, sourceFiles]
  cases t.discover o.roots o.extension with
  | error e => exact ⟨s₁, rfl⟩
  | ok paths =>
    obtain ⟨s₂, hparse⟩ := (RunM.Reads.mapM parseFile_reads paths).on_bind
      (f := publish FileTree.disk o paths) (s₁ ++ [.foundFiles paths.length o.extension]) t
    refine ⟨s₂, hparse.trans ?_⟩
    show _ = match (paths.mapM t.sourceFile).bind fun files => .ok (paths, files) with
      | .ok (paths, files) => (publish FileTree.disk o paths files).on s₂ t
      | .error e => ((.error e, s₂), t)
    cases paths.mapM t.sourceFile <;> rfl

theorem mapM_eq_ok {α β : Type} {f : α → Except RunError β} {as : List α} {bs : List β} :
    as.mapM f = .ok bs ↔ List.Forall₂ (fun a b => f a = .ok b) as bs := by
  induction as generalizing bs with
  | nil =>
    constructor
    · intro h
      cases h
      exact .nil
    · intro h
      cases h
      rfl
  | cons a as ih =>
    rw [List.mapM_cons]
    cases hf : f a with
    | error e =>
      constructor
      · intro h
        cases h
      · rintro (_ | ⟨hb, _⟩)
        cases hf.symm.trans hb
    | ok b =>
      cases hrest : as.mapM f with
      | error e =>
        constructor
        · intro h
          cases h
        · rintro (_ | ⟨_, hmore⟩)
          cases hrest.symm.trans (ih.2 hmore)
      | ok bs' =>
        constructor
        · intro h
          cases h
          exact .cons hf (ih.1 hrest)
        · rintro (_ | ⟨hb, hmore⟩)
          cases hf.symm.trans hb
          cases hrest.symm.trans (ih.2 hmore)
          rfl

theorem exists_error_of_mapM {α β : Type} {f : α → Except RunError β} {as : List α} {a : α}
    (ha : a ∈ as) {e : RunError} (h : f a = .error e) : ∃ e', as.mapM f = .error e' := by
  cases hmap : as.mapM f with
  | error e' => exact ⟨e', rfl⟩
  | ok bs =>
    have hall := (mapM_eq_ok.1 hmap).imp fun a b hab => And.intro (Exists.intro b hab) hab
    obtain ⟨b, hb⟩ := ((List.forall₂_and_left as bs).1 hall).1 a ha
    cases h.symm.trans hb

theorem sourceFile_eq_ok {t : FileTree ByteArray} {p : Path} {f : SourceFile} :
    t.sourceFile p = .ok f ↔
      ∃ source, t.read p = .ok source ∧ (parse p.text source).result = .ok f := by
  rw [sourceFile]
  cases t.read p with
  | error e => simp [Except.mapError, Except.bind]
  | ok source =>
    cases h : (parse p.text source).result <;> simp [Except.mapError, Except.bind, h]

theorem exists_sourceFile_error {t : FileTree ByteArray} {p : Path} :
    (∃ e, t.sourceFile p = .error e) ↔ (∃ e, t.read p = .error e) ∨
      ∃ source, t.read p = .ok source ∧ ∃ e, (parse p.text source).result = .error e := by
  rw [sourceFile]
  cases t.read p with
  | error e => simp [Except.mapError, Except.bind]
  | ok source => cases h : (parse p.text source).result <;> simp [Except.mapError, Except.bind, h]

/-- A run that finds and parses all sources gives what publishing them gives; one that
    does not fails and changes nothing. -/
theorem document_cases (t : FileTree ByteArray) (o : Options) :
    (∃ e, t.sourceFiles o = .error e ∧ (t.document o).1.result = .error e ∧
      (t.document o).2 = t) ∨
    ∃ paths files s s', t.sourceFiles o = .ok (paths, files) ∧
      (publish FileTree.disk o paths files).on s t =
        (((t.document o).1.result, s'), (t.document o).2) := by
  obtain ⟨s, h⟩ := on_document o [] t
  have hdocument : t.document o = (⟨((PackageDoc.document FileTree.disk o).on [] t).1.2,
      ((PackageDoc.document FileTree.disk o).on [] t).1.1⟩,
      ((PackageDoc.document FileTree.disk o).on [] t).2) := rfl
  rw [hdocument, h]
  cases hfiles : t.sourceFiles o with
  | error e => exact .inl ⟨e, rfl, rfl, rfl⟩
  | ok found => exact .inr ⟨found.1, found.2, s, _, rfl, rfl⟩

theorem sourceFiles_eq_ok {t : FileTree ByteArray} {o : Options} {paths : List Path}
    {files : List SourceFile} :
    t.sourceFiles o = .ok (paths, files) ↔ t.discover o.roots o.extension = .ok paths ∧
      List.Forall₂ (fun p f => t.sourceFile p = .ok f) paths files := by
  rw [sourceFiles]
  cases t.discover o.roots o.extension with
  | error e => simp [Except.bind]
  | ok ps =>
    simp only [Except.bind, Except.ok.injEq, ← mapM_eq_ok]
    cases h : ps.mapM t.sourceFile with
    | error e =>
      simp only [reduceCtorEq, false_iff]
      rintro ⟨rfl, hfiles⟩
      cases h.symm.trans hfiles
    | ok fs =>
      simp only [Except.ok.injEq, Prod.mk.injEq]
      constructor
      · rintro ⟨rfl, rfl⟩
        exact ⟨rfl, h⟩
      · rintro ⟨rfl, hfiles⟩
        exact ⟨rfl, Except.ok.inj (h.symm.trans hfiles)⟩

theorem exists_sourceFile_of_mem {t : FileTree ByteArray} {o : Options} {paths : List Path}
    {files : List SourceFile} (h : t.sourceFiles o = .ok (paths, files)) {f : SourceFile}
    (hf : f ∈ files) : ∃ p, t.sourceFile p = .ok f := by
  have hall : List.Forall₂ (fun f p => (∃ p, t.sourceFile p = .ok f) ∧ t.sourceFile p = .ok f)
      files paths := ((sourceFiles_eq_ok.1 h).2.imp fun p f hpf => ⟨⟨p, hpf⟩, hpf⟩).flip
  exact ((List.forall₂_and_left files paths).1 hall).1 f hf

/-- The report of a run on the given sources. -/
def reportOf (o : Options) (paths : List Path) (files : List SourceFile) : Report :=
  let packages := files.flatMap (·.packages)
  ⟨paths.length, packages.length,
    packages.map fun p => o.output.join (Html.pageName p.name.name), o.output⟩

theorem on_publish {o : Options} {paths : List Path} {files : List SourceFile} {s : List Event}
    {t t' : FileTree ByteArray} {report : Report} :
    (∃ s', (publish FileTree.disk o paths files).on s t = ((.ok report, s'), t')) ↔
      ∃ t₁, (FileTree.disk.makeDirectories o.output).run t = (.ok (), t₁) ∧
        writeAll o.output (Site.files ⟨some description, files⟩) t₁ = .ok t' ∧
        report = reportOf o paths files := by
  constructor
  · rintro ⟨s', h⟩
    obtain ⟨_, s₁, t₁, hlog, h⟩ := on_bind_eq_ok.1 h
    cases hlog
    obtain ⟨pages, s₂, t₂, hsite, h⟩ := on_bind_eq_ok.1 h
    obtain ⟨_, s₃, t₃, hlog, h⟩ := on_bind_eq_ok.1 h
    cases hlog
    cases h
    obtain ⟨t₁, hmake, hall, rfl⟩ := on_writeSite.1 ⟨_, hsite⟩
    exact ⟨t₁, hmake, hall, rfl⟩
  · rintro ⟨t₁, hmake, hall, rfl⟩
    obtain ⟨s₂, hsite⟩ := on_writeSite.2 ⟨t₁, hmake, hall, rfl⟩
    exact ⟨_, on_bind_eq_ok.2 ⟨(), _, t, rfl, on_bind_eq_ok.2 ⟨_, s₂, t', hsite,
      on_bind_eq_ok.2 ⟨(), _, t', rfl, rfl⟩⟩⟩⟩

/-- A run succeeds if its sources can be found and parsed, the output directory can be
    made, and the files of the site can be written one after the other. -/
theorem document_eq_ok {t t' : FileTree ByteArray} {o : Options} {report : Report} :
    (t.document o).1.result = .ok report ∧ (t.document o).2 = t' ↔
      ∃ paths files t₁, t.sourceFiles o = .ok (paths, files) ∧
        (FileTree.disk.makeDirectories o.output).run t = (.ok (), t₁) ∧
        writeAll o.output (Site.files ⟨some description, files⟩) t₁ = .ok t' ∧
        report = reportOf o paths files := by
  rcases document_cases t o with ⟨e, hfiles, herror, -⟩ | ⟨paths, files, s, s', hfiles, hpublish⟩
  · rw [herror, hfiles]
    simp
  · constructor
    · rintro ⟨hresult, rfl⟩
      rw [hresult] at hpublish
      obtain ⟨t₁, h⟩ := on_publish.1 ⟨s', hpublish⟩
      exact ⟨paths, files, t₁, hfiles, h⟩
    · rintro ⟨paths', files', t₁, hfiles', h⟩
      cases hfiles.symm.trans hfiles'
      obtain ⟨s'', hok⟩ := on_publish.2 ⟨t₁, h⟩
      have heq := hpublish.symm.trans hok
      simp only [Prod.mk.injEq] at heq
      exact ⟨heq.1.1, heq.2⟩

/-- What a run that succeeds has done. -/
theorem of_document_ok {t : FileTree ByteArray} {o : Options} {report : Report}
    (h : (t.document o).1.result = .ok report) :
    ∃ paths files t₁ out, t.sourceFiles o = .ok (paths, files) ∧
      Grown (LeadsTo o.output) t t₁ ∧ t₁.outputDirectory o.output = .ok out ∧
      t₁.view out = some none ∧
      Wrote o.output out (Site.files ⟨some description, files⟩) t₁ (t.document o).2 ∧
      report = reportOf o paths files := by
  obtain ⟨paths, files, t₁, hfiles, hmake, hall, rfl⟩ := document_eq_ok.1 ⟨h, rfl⟩
  have hnames : ∀ p ∈ (Catalog.mk (some description) files).packages, IsWordText p.name.name := by
    intro p hp
    obtain ⟨f, hf, hpf⟩ := List.mem_flatMap.1 hp
    obtain ⟨path, hpath⟩ := exists_sourceFile_of_mem hfiles hf
    obtain ⟨source, -, hparse⟩ := sourceFile_eq_ok.1 hpath
    exact isWordText_of_parse hparse p hpf
  have hgrown := grown_makeDirectories o.output t
  rw [hmake] at hgrown
  obtain ⟨out, hout, hdir, hwrote⟩ := Wrote.of_site hnames hall
  exact ⟨paths, files, t₁, out, hfiles, hgrown, hout, hdir, hwrote, rfl⟩

/-! ## All or nothing -/

/-- What has become of a tree when the pages of some packages have been written in the
    directory `out`, which the output path names. -/
structure Published (t t' : FileTree ByteArray) (output : Path) (out : List String)
    (packages : List Package) : Prop where
  /-- no directory is lost, and no file, whatever its content -/
  kept : Within t t'
  located : t'.outputDirectory output = .ok out
  directory : t'.view out = some none
  stylesheet : t'.view (out ++ ["main.css"]) = some (some Site.stylesheet.toUTF8)
  script : t'.view (out ++ ["pldoc.js"]) = some (some Site.script.toUTF8)
  /-- a file that is new or has changed is one of the site -/
  files : ∀ place content, t'.view place = some (some content) →
    t.view place = some (some content) ∨ place = out ++ ["main.css"] ∨
      place = out ++ ["pldoc.js"] ∨ ∃ p ∈ packages, place = out ++ [p.name.name ++ ".html"]
  /-- a directory that is new is the output directory, or one that it lies in -/
  directories : ∀ place, t'.view place = some none →
    t.view place = some none ∨ ∃ p, LeadsTo output p ∧ t'.locate p = .ok place

theorem fileAt_eq_some {out place : List String} {fs : List Site.SiteFile} {f : Site.SiteFile}
    (h : fileAt out fs place = some f) : f ∈ fs ∧ place = out ++ [f.name] := by
  have hmem := List.mem_of_find?_eq_some h
  have hplace := List.find?_some h
  exact ⟨List.mem_reverse.1 hmem, (of_decide_eq_true hplace).symm⟩

theorem pageName_ne_asset {f : Site.SiteFile} (hf : f ∈ Site.assets) (name : String) :
    Html.pageName name ≠ f.name := by
  intro heq
  have hlast : (Html.pageName name).toList.getLast? = some 'l' := by
    simp [Html.pageName, String.toList_append]
  rw [heq] at hlast
  simp only [Site.assets, List.mem_cons, List.not_mem_nil, or_false] at hf
  rcases hf with rfl | rfl <;> exact absurd hlast (by decide)

/-- No page stands in the place of a file that all pages share. -/
theorem fileAt_asset {out : List String} {f : Site.SiteFile} (hf : f ∈ Site.assets) (c : Catalog) :
    fileAt out (Site.files c) (out ++ [f.name]) = some f := by
  have hpages : (c.packages.map (Site.pageFile c)).reverse.find?
      (fun g => decide (out ++ [g.name] = out ++ [f.name])) = none := by
    rw [List.find?_eq_none]
    intro g hg
    obtain ⟨p, -, rfl⟩ := List.mem_map.1 (List.mem_reverse.1 hg)
    simpa using show (Site.pageFile c p).name ≠ f.name from pageName_ne_asset hf p.name.name
  rw [fileAt, Site.files, List.reverse_append, List.find?_append, hpages, Option.none_or]
  simp only [Site.assets, List.mem_cons, List.not_mem_nil, or_false] at hf
  rcases hf with rfl | rfl <;> simp [Site.assets]

theorem Wrote.published {t t₁ t' : FileTree ByteArray} {output : Path} {out : List String}
    {c : Catalog} (hgrown : Grown (LeadsTo output) t t₁)
    (hout : t₁.outputDirectory output = .ok out) (hdir : t₁.view out = some none)
    (hwrote : Wrote output out (Site.files c) t₁ t') : Published t t' output out c.packages where
  kept := hgrown.within.trans hwrote.within
  located := hwrote.within.outputDirectory hout
  directory := hwrote.within.directory out hdir
  stylesheet := by
    rw [hwrote.view, fileAt_asset (f := ⟨"main.css", Site.stylesheet, none⟩) (by simp [Site.assets])]
  script := by
    rw [hwrote.view, fileAt_asset (f := ⟨"pldoc.js", Site.script, none⟩) (by simp [Site.assets])]
  files place content h := by
    rw [hwrote.view] at h
    split at h
    · rename_i f hf
      obtain ⟨hmem, rfl⟩ := fileAt_eq_some hf
      rw [Site.files, List.mem_append, List.mem_map] at hmem
      rcases hmem with hmem | ⟨p, hp, rfl⟩
      · simp only [Site.assets, List.mem_cons, List.not_mem_nil, or_false] at hmem
        rcases hmem with rfl | rfl
        · exact .inr (.inl rfl)
        · exact .inr (.inr (.inl rfl))
      · exact .inr (.inr (.inr ⟨p, hp, rfl⟩))
    · rcases hgrown place with heq | ⟨-, hnew, -⟩
      · exact .inl (heq ▸ h)
      · cases hnew.symm.trans h
  directories place h := by
    rw [hwrote.view] at h
    split at h
    · cases h
    · rcases hgrown place with heq | ⟨-, -, p, hp, hplace⟩
      · exact .inl (heq ▸ h)
      · exact .inr ⟨p, hp, hwrote.within.locate hplace⟩

/-- A run that fails before it writes changes nothing: if a root names nothing, or if a
    file that is found cannot be read or parsed, the run fails and the tree is as it was.
    A run that succeeds has found and parsed all sources, and in the tree it has written
    the site, in the directory that the output path names, and made that directory if it
    was missing; the report counts the files, and it counts and lists the packages in
    their order. -/
theorem document_all_or_nothing (t : FileTree ByteArray) (o : Options) :
    (((∃ root ∈ o.roots, ∃ e, t.stat root = .error e) ∨
        ∃ paths, t.discover o.roots o.extension = .ok paths ∧ ∃ p ∈ paths,
          (∃ e, t.read p = .error e) ∨
            ∃ source, t.read p = .ok source ∧ ∃ e, (parse p.text source).result = .error e) →
      (∃ e, (t.document o).1.result = .error e) ∧ (t.document o).2 = t) ∧
    ∀ report, (t.document o).1.result = .ok report →
      ∃ paths files out, t.discover o.roots o.extension = .ok paths ∧
        List.Forall₂ (fun p f => ∃ source, t.read p = .ok source ∧
          (parse p.text source).result = .ok f) paths files ∧
        Published t (t.document o).2 o.output out (files.flatMap (·.packages)) ∧
        report.files = paths.length ∧
        report.packages = (files.flatMap (·.packages)).length ∧
        report.pages.length = report.packages ∧
        report.pages = (files.flatMap (·.packages)).map (fun p =>
          o.output.join (p.name.name ++ ".html")) ∧
        report.output = o.output := by
  constructor
  · intro hfault
    have hsources : ∃ e, t.sourceFiles o = .error e := by
      rw [sourceFiles]
      rcases hfault with hroot | ⟨paths, hpaths, p, hp, hfault⟩
      · obtain ⟨e, herror⟩ := discover_eq_error.2 hroot
        exact ⟨e, by rw [herror]; rfl⟩
      · obtain ⟨e, hfile⟩ := exists_sourceFile_error.2 hfault
        obtain ⟨e', herror⟩ := exists_error_of_mapM hp hfile
        exact ⟨e', by rw [hpaths]; show (paths.mapM t.sourceFile).bind _ = _; rw [herror]; rfl⟩
    obtain ⟨e, herror⟩ := hsources
    rcases document_cases t o with ⟨e', -, hresult, htree⟩ | ⟨paths, files, s, s', hfiles, -⟩
    · exact ⟨⟨e', hresult⟩, htree⟩
    · cases herror.symm.trans hfiles
  · intro report h
    obtain ⟨paths, files, t₁, out, hfiles, hgrown, hout, hdir, hwrote, rfl⟩ := of_document_ok h
    obtain ⟨hdiscover, hparsed⟩ := sourceFiles_eq_ok.1 hfiles
    refine ⟨paths, files, out, hdiscover, hparsed.imp fun p f => sourceFile_eq_ok.1,
      hwrote.published hgrown hout hdir, rfl, rfl, ?_, rfl, rfl⟩
    exact List.length_map _

/-- A tree with a file that can be parsed and one that cannot. -/
def twoFiles : FileTree ByteArray :=
  .directory [("src", .directory [
    ("p.pks", .file "create package p is end p;".toUTF8),
    ("q.pks", .file "create package q is end r;".toUTF8)])]

/-- The options of a run on a root that writes to a directory. -/
def optionsFor (root output : String) : Options := { roots := [⟨root⟩], output := ⟨output⟩ }

/-- The run on both files fails, and the one on the file that can be parsed makes the two
    directories and writes its page. -/
theorem document_all_or_nothing_twoFiles :
    (∃ paths, twoFiles.discover [⟨"src"⟩] "pks" = .ok paths ∧ ∃ p ∈ paths,
      ∃ source, twoFiles.read p = .ok source ∧ ∃ e, (parse p.text source).result = .error e) ∧
    (∃ e, (twoFiles.document (optionsFor "src" "out/docs")).1.result = .error e) ∧
    (twoFiles.document (optionsFor "src" "out/docs")).2 = twoFiles ∧
    ∃ report, (twoFiles.document (optionsFor "src/p.pks" "out/docs")).1.result = .ok report ∧
      report.pages = [⟨"out/docs/p.html"⟩] ∧ ∃ out packages, Published twoFiles
        (twoFiles.document (optionsFor "src/p.pks" "out/docs")).2 ⟨"out/docs"⟩ out packages := by
  have hfault : (parse "src/q.pks" "create package q is end r;".toUTF8).result =
      .error ⟨"src/q.pks", 1, .packageNameMismatch "q"⟩ := by
    decide +kernel
  have hfile : (parse "src/p.pks" "create package p is end p;".toUTF8).result =
      .ok ⟨"src/p.pks", [.ofItems none ⟨"p", ⟨15, 16⟩⟩ 0 25 []]⟩ := by
    decide +kernel
  have hsrc : twoFiles.stat ⟨"src"⟩ = .ok (.directory [
    ("p.pks", .file "create package p is end p;".toUTF8),
    ("q.pks", .file "create package q is end r;".toUTF8)]) := rfl
  have hp : twoFiles.stat ⟨"src/p.pks"⟩ = .ok (.file "create package p is end p;".toUTF8) := rfl
  have hq : twoFiles.read ⟨"src/q.pks"⟩ = .ok "create package q is end r;".toUTF8 := rfl
  have hboth : twoFiles.discover [⟨"src"⟩] "pks" = .ok [⟨"src/p.pks"⟩, ⟨"src/q.pks"⟩] :=
    discover_singleton hsrc (by decide) (by decide)
  have hone : twoFiles.discover [⟨"src/p.pks"⟩] "pks" = .ok [⟨"src/p.pks"⟩] :=
    discover_singleton hp (by decide) (by decide)
  have hbroken := (document_all_or_nothing twoFiles (optionsFor "src" "out/docs")).1
    (.inr ⟨_, hboth, ⟨"src/q.pks"⟩, by simp, .inr ⟨_, hq, _, hfault⟩⟩)
  have hresult : ∃ report, (twoFiles.document (optionsFor "src/p.pks" "out/docs")).1.result = .ok report ∧
      report.pages = [⟨"out/docs/p.html"⟩] := by
    have hread : twoFiles.read ⟨"src/p.pks"⟩ = .ok "create package p is end p;".toUTF8 := rfl
    have hfiles := sourceFiles_eq_ok (o := optionsFor "src/p.pks" "out/docs").2
      ⟨hone, .cons (sourceFile_eq_ok.2 ⟨_, hread, hfile⟩) .nil⟩
    have hmake : (FileTree.disk.makeDirectories ⟨"out/docs"⟩).run twoFiles =
        (.ok (), (twoFiles.put (.directory []) ["out"]).put (.directory []) ["out", "docs"]) := rfl
    have hwrite (css js html : String) : ∃ t', writeAll ⟨"out/docs"⟩
        [⟨"main.css", css, none⟩, ⟨"pldoc.js", js, none⟩, ⟨"p.html", html, some "p"⟩]
          ((twoFiles.put (.directory []) ["out"]).put (.directory []) ["out", "docs"]) =
            .ok t' := by
      have hcss : (Path.mk "out/docs").join "main.css" = ⟨"out/docs/main.css"⟩ := rfl
      have hjs : (Path.mk "out/docs").join "pldoc.js" = ⟨"out/docs/pldoc.js"⟩ := rfl
      have hpage : (Path.mk "out/docs").join "p.html" = ⟨"out/docs/p.html"⟩ := rfl
      simp only [writeAll, List.foldlM_cons, hcss, hjs, hpage]
      exact ⟨_, rfl⟩
    obtain ⟨t', hall⟩ := hwrite Site.stylesheet Site.script _
    exact ⟨_, (document_eq_ok.2 ⟨_, _, _, hfiles, hmake, hall, rfl⟩).1, rfl⟩
  obtain ⟨report, hreport, hpages⟩ := hresult
  obtain ⟨paths, files, out, -, -, hpublished, -⟩ :=
    (document_all_or_nothing twoFiles (optionsFor "src/p.pks" "out/docs")).2 report hreport
  exact ⟨⟨_, hboth, ⟨"src/q.pks"⟩, by simp, _, hq, _, hfault⟩, hbroken.1, hbroken.2, report,
    hreport, hpages, out, _, hpublished⟩

end PackageDoc
