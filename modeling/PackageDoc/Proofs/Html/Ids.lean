/-
  The ids on a page.

  A page has the ids of its dialog, of its search field and of its sections beside those
  of the entries.  They are in one space: the ids are all different, and each link of
  the dialog designates its entry, unless the name of a declaration reads like one of the
  others or like another name with a number (`pageHtml_ids`).  Both can be
  (`not_nodup_ids`).

  Main statements: `pageHtml_ids`, `not_nodup_ids`.
-/
import PackageDoc.Parser.Package
import PackageDoc.Proofs.Html.Entries
import Mathlib.Data.List.Perm.Basic

namespace PackageDoc.Html

/-! ## The ids of nodes -/

/-- The ids of the elements, in order. -/
def ids (ns : List Node) : List String := (elementsAll ns).filterMap (·.value? "id")

/-- An element with an id. -/
def Tag.isNamed (t : Tag) : Bool := (t.value? "id").isSome

/-- An element with this id. -/
def Tag.hasId (id : String) (t : Tag) : Bool := t.value? "id" = some id

theorem ids_eq (ns : List Node) : ids ns = (find Tag.isNamed ns).filterMap (·.value? "id") := by
  rw [find, List.filterMap_filter, ids]
  congr 1
  funext e
  by_cases h : (e.value? "id").isSome
  · simp [Tag.isNamed, h]
  · simp [Tag.isNamed, h]
    simpa using h

theorem ids_singlesAll (ns : List Node) : ids (singlesAll ns) = ids ns := by
  rw [ids, elementsAll_singlesAll, List.filterMap_map]
  rfl

/-- An id designates as many elements as it stands for. -/
theorem length_find_hasId (id : String) (ns : List Node) :
    (find (Tag.hasId id) ns).length = (ids ns).count id := by
  rw [find, ids, List.count_filterMap, ← List.countP_eq_length_filter]
  congr 1
  funext e
  rw [Bool.eq_iff_iff]
  simp [Tag.hasId]

/-- An element whose id is on no other element is the one that the id designates. -/
theorem find_hasId_eq {ns : List Node} (h : (ids ns).Nodup) {e : Element} (he : e ∈ elementsAll ns)
    {id : String} (hid : e.value? "id" = some id) : find (Tag.hasId id) ns = [e] := by
  have hmem : e ∈ find (Tag.hasId id) ns :=
    List.mem_filter.2 ⟨he, by simp [Tag.hasId, hid]⟩
  have hlength : (find (Tag.hasId id) ns).length ≤ 1 :=
    (length_find_hasId id ns).le.trans (List.nodup_iff_count_le_one.1 h id)
  match hfind : find (Tag.hasId id) ns with
  | [] =>
    rw [hfind] at hmem
    cases hmem
  | [e'] =>
    rw [hfind, List.mem_singleton] at hmem
    rw [hmem]
  | _ :: _ :: _ =>
    rw [hfind] at hlength
    simp at hlength

/-! ## The ids of a page -/

/-- The ids of the dialog and of the search field. -/
def widgetIds : List String := ["modal", "search-input", "list-wrap", "search-button"]

/-- The ids of a page that do not depend on names. -/
def fixedIds (p : Package) : List String := widgetIds ++ (sections p).map (·.id)

/-- The anchors that the declarations of a page ask for. -/
def bases (p : Package) : List String := (titles p).map (anchorBase ·.2)

theorem skipsDocs_isNamed : SkipsDocs Tag.isNamed := by
  simp [SkipsDocs, Tag.isNamed, Tag.value?]

theorem find_isNamed_entryBlock (e : Entry) : find Tag.isNamed (entryBlock e) = [e.element] := by
  have hdoc := find_docBlock skipsDocs_isNamed e.doc
  simp [entryBlock, heading, title, label, Entry.element, Tag.isNamed, Tag.value?, hdoc]

theorem find_isNamed_sectionBlock (s : Section) :
    find Tag.isNamed (sectionBlock s) = s.element :: s.entries.map Entry.element := by
  simp [sectionBlock, label, Section.element, Tag.isNamed, Tag.value?, find_isNamed_entryBlock,
    List.map_eq_flatMap]

theorem ids_page (p : Package) (c : Catalog) :
    ids (page p c) = widgetIds ++ (sections p).flatMap fun s => s.id :: s.entries.map (·.anchor) := by
  have hdoc := find_docBlock skipsDocs_isNamed p.doc
  have hlink : ∀ name, find Tag.isNamed (packageLink p.name.name name) = [] := by
    intro name
    by_cases h : name = p.name.name <;>
      simp [packageLink, label, Tag.isNamed, Tag.value?, h]
  have hsearch : ∀ e, find Tag.isNamed (searchLink e) = [] := by
    intro e
    simp [searchLink, title, label, Tag.isNamed, Tag.value?]
  have hsection : ∀ s : Section, (s.element :: s.entries.map Entry.element).filterMap
      (·.value? "id") = s.id :: s.entries.map (·.anchor) := by
    intro s
    simp [Section.element, Entry.element, Tag.value?, List.filterMap_map]
  simp only [Tag.value?] at hsection
  rw [ids_eq]
  simp [page, pageHead, searchDialog, sidebar, heading, title, label, Tag.isNamed,
    Tag.value?, hdoc, hlink, hsearch, flatMap_none, find_isNamed_sectionBlock,
    List.filterMap_flatMap, hsection, widgetIds]

/-- The ids of a page, those that do not depend on names first. -/
theorem perm_ids_page (p : Package) (c : Catalog) :
    (ids (page p c)).Perm (fixedIds p ++ anchors (bases p)) := by
  have hanchors : anchors (bases p) = (sections p).flatMap fun s => s.entries.map (·.anchor) := by
    rw [bases, titles_eq, List.map_map, ← List.map_flatMap]
    change anchors (List.map (fun e : Entry => anchorBase e.name) _) = (allEntries p).map (·.anchor)
    rw [map_allEntries_anchor, ← map_allEntries_toSummary, List.map_map]
    rfl
  rw [ids_page, fixedIds, List.append_assoc, hanchors, List.map_eq_flatMap]
  exact (List.flatMap_append_perm (sections p) (fun s : Section => [s.id])
    (fun s => s.entries.map (·.anchor))).symm.append_left _

theorem fixedIds_sublist (p : Package) :
    (fixedIds p).Sublist
      (widgetIds ++ ["types", "subtypes", "variables", "cursors", "functions"]) := by
  have hview := congrArg (List.map (·.1)) (sections_view p)
  rw [List.map_map] at hview
  have hids : (sections p).map (·.id) = ((summaries p).filter (!·.2.2.isEmpty)).map (·.1) := hview
  rw [fixedIds, hids]
  exact (List.filter_sublist.map _).append_left _

theorem nodup_fixedIds (p : Package) : (fixedIds p).Nodup :=
  (fixedIds_sublist p).nodup (by decide)

/-- An anchor with a number is not one of the fixed ids: none of these ends with a
    digit. -/
theorem append_toString_notMem_fixedIds (p : Package) (base : String) (k : Nat) :
    base ++ "-" ++ toString k ∉ fixedIds p := by
  intro hmem
  have hdigit : ∃ c, (base ++ "-" ++ toString k).toList.getLast? = some c ∧ c.isDigit = true := by
    have hne : (toString k).toList ≠ [] := by
      rw [Nat.toString_eq_repr, Nat.toList_repr]
      exact Nat.toDigits_ne_nil
    refine ⟨_, ?_, isDigit_of_mem_toString (List.getLast_mem hne)⟩
    rw [String.toList_append, List.getLast?_append, List.getLast?_eq_some_getLast hne]
    rfl
  have hfixed : ∀ id ∈ widgetIds ++ ["types", "subtypes", "variables", "cursors", "functions"],
      (id.toList.getLast?.map Char.isDigit) = some false := by
    decide +kernel
  obtain ⟨c, hlast, hc⟩ := hdigit
  have hnone := hfixed _ ((fixedIds_sublist p).subset hmem)
  rw [hlast, Option.map_some, hc] at hnone
  cases hnone

/-- **When the ids of a page are different**: no declaration has the name of a fixed id or
    reads like another one with its number. -/
theorem nodup_ids_page_iff (p : Package) (c : Catalog) :
    (ids (page p c)).Nodup ↔
      (∀ b ∈ bases p, b ∉ fixedIds p) ∧
        ∀ b ∈ bases p, ∀ b' ∈ bases p, ∀ k, 2 ≤ k → k ≤ (bases p).count b' →
          b ≠ b' ++ "-" ++ toString k := by
  rw [(perm_ids_page p c).nodup_iff, List.nodup_append, nodup_anchors_iff]
  constructor
  · rintro ⟨-, hanchors, hdisjoint⟩
    refine ⟨fun b hb hfixed => hdisjoint b hfixed b ?_ rfl, hanchors⟩
    exact mem_anchors_iff.2 ⟨b, hb, 1, le_rfl, List.count_pos_iff.2 hb, (numberedAnchor_one b).symm⟩
  · rintro ⟨hfixed, hanchors⟩
    refine ⟨nodup_fixedIds p, hanchors, ?_⟩
    rintro id hid a ha rfl
    obtain ⟨b, hb, k, -, -, rfl⟩ := mem_anchors_iff.1 ha
    unfold numberedAnchor at hid
    split at hid
    · exact hfixed b hb hid
    · exact append_toString_notMem_fixedIds p b k hid

/-- **The ids of a page and what they designate**: they are all different unless a name
    reads like a fixed id or like another name with a number, and while they are, the
    link of the dialog to an entry designates this entry and nothing else. -/
theorem pageHtml_ids (p : Package) (c : Catalog) :
    ∃ ns, read? (pageHtml p c) = some ns ∧
      ((ids ns).Nodup ↔
        (∀ b ∈ bases p, b ∉ fixedIds p) ∧
          ∀ b ∈ bases p, ∀ b' ∈ bases p, ∀ k, 2 ≤ k → k ≤ (bases p).count b' →
            b ≠ b' ++ "-" ++ toString k) ∧
      ((ids ns).Nodup → ∀ (i : Nat) (e : Element), (find Tag.isEntry ns)[i]? = some e →
        ∃ (a : Element) (id : String), (links "search-box" ns)[i]? = some a ∧
          a.value? "href" = some ("#" ++ id) ∧ find (Tag.hasId id) ns = [e]) := by
  refine ⟨singlesAll (page p c), read?_renderAll (allOwn_page p c).allProper, ?_, ?_⟩
  · rw [ids_singlesAll]
    exact nodup_ids_page_iff p c
  · intro h i e he
    have hentries : find Tag.isEntry (page p c) = (allEntries p).map Entry.element := by
      rw [find_isEntry_page, allEntries, List.map_flatMap]
    have hfind : e ∈ find Tag.isEntry (singlesAll (page p c)) := List.mem_of_getElem? he
    have hmem : e ∈ elementsAll (singlesAll (page p c)) := (List.mem_filter.1 hfind).1
    rw [find_singlesAll, hentries, List.getElem?_map, List.getElem?_map, Option.map_map] at he
    obtain ⟨entry, hentry, rfl⟩ := Option.map_eq_some_iff.1 he
    refine ⟨entry.link.singles, entry.anchor, ?_, rfl, find_hasId_eq h hmem rfl⟩
    rw [links_singlesAll, links_dialog, ← allEntries, List.getElem?_map, List.getElem?_map, hentry]
    rfl

/-- Overloaded routines have ids of their own. -/
theorem pageHtml_ids_overloads :
    let p := Package.ofItems none ⟨"p", .none⟩ 0 0
      [.routine ⟨none, ⟨"get", .none⟩, none, .procedure, none, false, false, false⟩,
       .routine ⟨none, ⟨"get", .none⟩, none, .function, some ⟨"t", .none⟩, false, false, false⟩]
    ∃ ns, read? (pageHtml p ⟨none, [⟨"a", [p]⟩]⟩) = some ns ∧ (ids ns).Nodup := by
  intro p
  obtain ⟨ns, hread, hiff, -⟩ := pageHtml_ids p ⟨none, [⟨"a", [p]⟩]⟩
  refine ⟨ns, hread, hiff.2 ?_⟩
  have hbases : bases p = ["get", "get"] := by decide +kernel
  have hfixed : fixedIds p = widgetIds ++ ["functions"] := by decide +kernel
  rw [hbases, hfixed]
  have hdash : ∀ b ∈ ["get", "get"], '-' ∉ b.toList := by decide
  refine ⟨by decide, fun b hb b' _ k _ _ heq => hdash b hb ?_⟩
  rw [heq]
  simp

/-- Two pairs of elements with one id: the section of the routines and a routine
    `functions`, and the second of two routines `i` and one that is called `İ2`. -/
theorem not_nodup_ids :
    ∃ f p ns,
      (parse "x.pks" ("create package p is\nprocedure i;\nprocedure i;\nprocedure İ2;\n" ++
        "procedure functions;\nend p;\n").toUTF8).result = .ok f ∧
      p ∈ f.packages ∧ read? (pageHtml p ⟨none, [f]⟩) = some ns ∧ ¬ (ids ns).Nodup := by
  have hbases : (parse "x.pks" ("create package p is\nprocedure i;\nprocedure i;\nprocedure İ2;\n" ++
      "procedure functions;\nend p;\n").toUTF8).result.toOption.map
        (·.packages.map fun p => (bases p, fixedIds p)) =
      some [(["i", "i", "i-2", "functions"], widgetIds ++ ["functions"])] := by
    decide +kernel
  obtain ⟨f, hparsed, hpackages⟩ := Option.map_eq_some_iff.1 hbases
  have hok : ∀ r : Except ParseError SourceFile, r.toOption = some f → r = .ok f := by
    intro r hr
    cases r with
    | error e => cases hr
    | ok g => exact congrArg Except.ok (Option.some.inj hr)
  obtain ⟨p, hp, hpbases⟩ := List.map_eq_singleton_iff.1 hpackages
  obtain ⟨hb, hfixed⟩ := Prod.mk.inj hpbases
  refine ⟨f, p, _, hok _ hparsed, by simp [hp],
    read?_renderAll (allOwn_page p _).allProper, ?_⟩
  rw [ids_singlesAll, nodup_ids_page_iff]
  rintro ⟨hnames, -⟩
  exact hnames "functions" (by simp [hb]) (by simp [hfixed])

end PackageDoc.Html
