/-
  Which pages a run leaves.

  The file of a page is named after the package alone, neither after its schema nor
  after its source file.  Packages of one name share a file, and the page of the last
  of them stays (`read_page`).  So no page is lost if and only if packages of one name
  have one page (`document_pages`); a run can write over a page, and still count and
  list it (`document_loses_page`).
-/
import Mathlib.Data.List.Dedup
import PackageDoc.Proofs.Run.Site

namespace PackageDoc

open FileTree PackageDoc.Path RunM

/-! ## The file of a page -/

/-- The last package of a name. -/
def Catalog.lastNamed? (c : Catalog) (name : String) : Option Package :=
  c.packages.reverse.find? (·.name.name = name)

theorem Catalog.lastNamed?_of_mem {c : Catalog} {p : Package} (hp : p ∈ c.packages) :
    ∃ q ∈ c.packages, q.name.name = p.name.name ∧ c.lastNamed? p.name.name = some q := by
  have hsome : (c.lastNamed? p.name.name).isSome := by
    rw [lastNamed?, List.find?_isSome]
    exact ⟨p, List.mem_reverse.2 hp, by simp⟩
  obtain ⟨q, hq⟩ := Option.isSome_iff_exists.1 hsome
  have hname := List.find?_some hq
  exact ⟨q, List.mem_reverse.1 (List.mem_of_find?_eq_some hq), of_decide_eq_true hname, hq⟩

theorem Html.pageName_inj {m n : String} : Html.pageName m = Html.pageName n ↔ m = n :=
  String.append_left_inj _

theorem Path.join_inj {p : Path} {m n : String} : p.join m = p.join n ↔ m = n := by
  rw [join, join]
  split <;> simp

/-- In the place of a page stands the page of the last package of that name. -/
theorem fileAt_page (out : List String) (c : Catalog) {name : String} {q : Package}
    (hq : c.lastNamed? name = some q) :
    fileAt out (Site.files c) (out ++ [Html.pageName name]) = some (Site.pageFile c q) := by
  have hpage : (fun f => decide (out ++ [f.name] = out ++ [Html.pageName name])) ∘
      Site.pageFile c = fun p : Package => decide (p.name.name = name) := by
    funext p
    simp [Site.pageFile, Html.pageName_inj]
  rw [Catalog.lastNamed?] at hq
  rw [fileAt, Site.files, List.reverse_append, List.find?_append, ← List.map_reverse,
    List.find?_map, hpage, hq]
  rfl

/-- A file that has been written can be read. -/
theorem Wrote.read {dir : Path} {out : List String} {fs : List Site.SiteFile}
    {t t' : FileTree ByteArray} (h : Wrote dir out fs t t') {f g : Site.SiteFile} (hf : f ∈ fs)
    (hg : fileAt out fs (out ++ [f.name]) = some g) :
    t'.read (dir.join f.name) = .ok g.content.toUTF8 := by
  obtain ⟨hlocate, hslash⟩ := h.named f hf
  have hview := h.view (out ++ [f.name])
  rw [hg] at hview
  exact read_eq_ok.2 (stat_eq_ok.2 ⟨_, hlocate, view_eq_file.1 hview, .inr hslash⟩)

/-- After a run, the file of a page has the page of the last package of its name. -/
theorem read_page {t : FileTree ByteArray} {o : Options} {report : Report}
    (h : (t.document o).1.result = .ok report) {paths : List Path} {files : List SourceFile}
    (hfiles : t.sourceFiles o = .ok (paths, files)) {p q : Package}
    (hp : p ∈ files.flatMap (·.packages))
    (hq : (Catalog.mk (some description) files).lastNamed? p.name.name = some q) :
    (t.document o).2.read (o.output.join (Html.pageName p.name.name)) =
      .ok (Html.pageHtml q ⟨some description, files⟩).toUTF8 := by
  obtain ⟨paths', files', t₁, out, hfiles', -, -, -, hwrote, -⟩ := of_document_ok h
  cases hfiles.symm.trans hfiles'
  have hmem : Site.pageFile ⟨some description, files⟩ p ∈
      Site.files ⟨some description, files⟩ :=
    List.mem_append_right _ (List.mem_map_of_mem hp)
  have hread := hwrote.read hmem (fileAt_page out _ hq)
  simpa only [Site.pageFile] using hread

/-! ## Pages that are lost -/

theorem length_dedup_eq_iff {α : Type} [DecidableEq α] {l : List α} :
    l.dedup.length = l.length ↔ l.Nodup := by
  rw [(List.dedup_sublist l).length_eq, List.dedup_eq_self]

/-- After a run that succeeds, the file of a package's page has the page of the last
    package of that name.  So every page stays if and only if packages of one name have
    one page, and there are as many page files as packages are reported if and only if
    all names are different. -/
theorem document_pages {t : FileTree ByteArray} {o : Options} {report : Report}
    (h : (t.document o).1.result = .ok report) :
    ∃ paths files c, t.discover o.roots o.extension = .ok paths ∧
      List.Forall₂ (fun p f => ∃ source, t.read p = .ok source ∧
        (parse p.text source).result = .ok f) paths files ∧
      c = Catalog.mk (some description) files ∧
      (∀ p ∈ c.packages, ∃ q, c.lastNamed? p.name.name = some q ∧
        (t.document o).2.read (o.output.join (p.name.name ++ ".html")) =
          .ok (Html.pageHtml q c).toUTF8) ∧
      ((∀ p ∈ c.packages, (t.document o).2.read (o.output.join (p.name.name ++ ".html")) =
          .ok (Html.pageHtml p c).toUTF8) ↔
        ∀ p ∈ c.packages, ∀ q ∈ c.packages, p.name.name = q.name.name →
          Html.pageHtml p c = Html.pageHtml q c) ∧
      (report.pages.dedup.length = report.packages ↔ (c.packages.map (·.name.name)).Nodup) := by
  obtain ⟨paths, files, t₁, out, hfiles, -, -, -, -, rfl⟩ := of_document_ok h
  obtain ⟨hdiscover, hparsed⟩ := sourceFiles_eq_ok.1 hfiles
  refine ⟨paths, files, _, hdiscover, hparsed.imp fun p f => sourceFile_eq_ok.1, rfl, ?_, ?_, ?_⟩
  · intro p hp
    obtain ⟨q, -, -, hq⟩ := Catalog.lastNamed?_of_mem hp
    exact ⟨q, hq, read_page h hfiles hp hq⟩
  · constructor
    · intro hkept p hp q hq hname
      have hpage := hkept q hq
      rw [← hname, hkept p hp] at hpage
      exact String.toByteArray_inj.1 (Except.ok.inj hpage)
    · intro hsame p hp
      obtain ⟨q, hq, hname, hlast⟩ := Catalog.lastNamed?_of_mem hp
      rw [hsame p hp q hq hname.symm]
      exact read_page h hfiles hp hlast
  · have hinj : Function.Injective fun name => o.output.join (Html.pageName name) :=
      fun m n hmn => Html.pageName_inj.1 (Path.join_inj.1 hmn)
    have hpages : (reportOf o paths files).pages =
        ((files.flatMap (·.packages)).map (·.name.name)).map
          fun name => o.output.join (Html.pageName name) := by
      rw [List.map_map]
      rfl
    have hlength : (reportOf o paths files).packages = (reportOf o paths files).pages.length :=
      (List.length_map _).symm
    rw [hlength, length_dedup_eq_iff, hpages, List.nodup_map_iff hinj]
    rfl

/-! ## Two packages of one name -/

/-- A tree with two packages that differ in the schema. -/
def twoSchemas : FileTree ByteArray :=
  .directory [("src", .directory [
    ("a.pks", .file "create package hr.p is procedure a; end;".toUTF8),
    ("b.pks", .file "create package fin.p is procedure b; end;".toUTF8)])]

/-- The package of the schema `hr`. -/
def hrPackage : Package :=
  .ofItems none ⟨"p", ⟨18, 19⟩⟩ 0 39
    [.routine ⟨none, ⟨"a", ⟨33, 34⟩⟩, none, .procedure, none, false, false, false⟩]

/-- The package of the schema `fin`. -/
def finPackage : Package :=
  .ofItems none ⟨"p", ⟨19, 20⟩⟩ 0 40
    [.routine ⟨none, ⟨"b", ⟨34, 35⟩⟩, none, .procedure, none, false, false, false⟩]

/-- The catalog of both. -/
def bothSchemas : Catalog :=
  ⟨some description, [⟨"src/a.pks", [hrPackage]⟩, ⟨"src/b.pks", [finPackage]⟩]⟩

theorem sourceFiles_twoSchemas : twoSchemas.sourceFiles (optionsFor "src" "out") =
    .ok ([⟨"src/a.pks"⟩, ⟨"src/b.pks"⟩], bothSchemas.files) := by
  have hhr : (parse "src/a.pks" "create package hr.p is procedure a; end;".toUTF8).result =
      .ok ⟨"src/a.pks", [hrPackage]⟩ := by
    decide +kernel
  have hfin : (parse "src/b.pks" "create package fin.p is procedure b; end;".toUTF8).result =
      .ok ⟨"src/b.pks", [finPackage]⟩ := by
    decide +kernel
  have hsrc : twoSchemas.stat ⟨"src"⟩ = .ok (.directory [
    ("a.pks", .file "create package hr.p is procedure a; end;".toUTF8),
    ("b.pks", .file "create package fin.p is procedure b; end;".toUTF8)]) := rfl
  have hread : twoSchemas.read ⟨"src/a.pks"⟩ =
      .ok "create package hr.p is procedure a; end;".toUTF8 := rfl
  have hread' : twoSchemas.read ⟨"src/b.pks"⟩ =
      .ok "create package fin.p is procedure b; end;".toUTF8 := rfl
  have hpaths : twoSchemas.discover [⟨"src"⟩] "pks" = .ok [⟨"src/a.pks"⟩, ⟨"src/b.pks"⟩] :=
    discover_singleton hsrc (by decide) (by decide)
  exact sourceFiles_eq_ok.2 ⟨hpaths, .cons (sourceFile_eq_ok.2 ⟨_, hread, hhr⟩)
    (.cons (sourceFile_eq_ok.2 ⟨_, hread', hfin⟩) .nil)⟩

theorem document_twoSchemas : (twoSchemas.document (optionsFor "src" "out")).1.result =
    .ok ⟨2, 2, [⟨"out/p.html"⟩, ⟨"out/p.html"⟩], ⟨"out"⟩⟩ := by
  have hmake : (FileTree.disk.makeDirectories ⟨"out"⟩).run twoSchemas =
      (.ok (), twoSchemas.put (.directory []) ["out"]) := rfl
  have hwrite (css js hr fin : String) : ∃ t', writeAll ⟨"out"⟩
      [⟨"main.css", css, none⟩, ⟨"pldoc.js", js, none⟩, ⟨"p.html", hr, some "p"⟩,
        ⟨"p.html", fin, some "p"⟩] (twoSchemas.put (.directory []) ["out"]) = .ok t' := by
    have hcss : (Path.mk "out").join "main.css" = ⟨"out/main.css"⟩ := rfl
    have hjs : (Path.mk "out").join "pldoc.js" = ⟨"out/pldoc.js"⟩ := rfl
    have hpage : (Path.mk "out").join "p.html" = ⟨"out/p.html"⟩ := rfl
    simp only [writeAll, List.foldlM_cons, hcss, hjs, hpage]
    exact ⟨_, rfl⟩
  obtain ⟨t', hall⟩ := hwrite Site.stylesheet Site.script _ _
  exact (document_eq_ok.2 ⟨_, _, _, sourceFiles_twoSchemas, hmake, hall, rfl⟩).1

/-- The page of the second package stays. -/
theorem document_pages_twoSchemas :
    (twoSchemas.document (optionsFor "src" "out")).1.result =
      .ok ⟨2, 2, [⟨"out/p.html"⟩, ⟨"out/p.html"⟩], ⟨"out"⟩⟩ ∧
    hrPackage ∈ bothSchemas.packages ∧
    (twoSchemas.document (optionsFor "src" "out")).2.read
      ((optionsFor "src" "out").output.join (hrPackage.name.name ++ ".html")) =
        .ok (Html.pageHtml finPackage bothSchemas).toUTF8 := by
  obtain ⟨paths, files, c, hpaths, hparsed, hc, hlast, -⟩ := document_pages document_twoSchemas
  have hfiles := sourceFiles_eq_ok.2 ⟨hpaths, hparsed.imp fun p f => sourceFile_eq_ok.2⟩
  cases sourceFiles_twoSchemas.symm.trans hfiles
  obtain rfl : c = bothSchemas := hc
  have hmem : hrPackage ∈ bothSchemas.packages := by decide
  have howner : bothSchemas.lastNamed? "p" = some finPackage := by decide
  obtain ⟨q, hq, hread⟩ := hlast hrPackage hmem
  cases howner.symm.trans hq
  exact ⟨document_twoSchemas, hmem, hread⟩

/-- The page of the first package is lost, and the report counts it. -/
theorem document_loses_page :
    twoSchemas.sourceFiles (optionsFor "src" "out") =
      .ok ([⟨"src/a.pks"⟩, ⟨"src/b.pks"⟩], bothSchemas.files) ∧
    ∃ report, (twoSchemas.document (optionsFor "src" "out")).1.result = .ok report ∧
      report.pages.dedup.length ≠ report.packages ∧
      ∃ p ∈ bothSchemas.packages, (twoSchemas.document (optionsFor "src" "out")).2.read
        (report.output.join (p.name.name ++ ".html")) ≠
          .ok (Html.pageHtml p bothSchemas).toUTF8 := by
  have hpages : Html.pageHtml finPackage bothSchemas ≠ Html.pageHtml hrPackage bothSchemas := by
    decide +kernel
  have hmem : hrPackage ∈ bothSchemas.packages := by decide
  have howner : bothSchemas.lastNamed? "p" = some finPackage := by decide
  have hread := read_page document_twoSchemas sourceFiles_twoSchemas hmem howner
  refine ⟨sourceFiles_twoSchemas, _, document_twoSchemas, by decide, hrPackage, hmem, fun heq => ?_⟩
  exact hpages (String.toByteArray_inj.1 (Except.ok.inj (hread.symm.trans heq)))

end PackageDoc
