/-
  Packages that are read back from their listings.

  A package that is written as the listings of canonical declarations can be
  scanned (`spells_packageText`), and parsing it gives these declarations back, up
  to their places (`parse_packageText`), unless there are so many of them that the
  source is too large (`parse_packageText_of_le`).
-/
import PackageDoc.Proofs.Parser.Words

namespace PackageDoc

open Text

/-! ## Scanning -/

/-- A text that ends with a semicolon can be scanned before anything. -/
theorem spells_statement {cs : List Char} {us : List Token} {t : Token}
    (h : Scans 0 cs (us ++ [t]) []) (ht : t.kind = .op .semicolon) :
    Spells cs ((us ++ [t]).map Token.word) := by
  intro o more hmore
  exact ⟨(us ++ [t]).map (·.shift o), [], by simp [Spacing], h.statement ht o hmore,
    by simp [Token.word]⟩

theorem spells_query {text : String} (h : isQuery text = true) :
    ∃ ws, Spells (text ++ ";").toList ws := by
  obtain ⟨us, t, -, -, -, -, -, hsemicolon, -, hscans⟩ := scans_of_isQuery h
  rw [String.toList_append]
  exact ⟨_, spells_statement hscans hsemicolon⟩

theorem Spells.fault? {cs : List Char} {ws : List (TokenKind × String)} (h : Spells cs ws)
    (file : String) : (Input.ofText file cs).fault? = none := by
  obtain ⟨ts, gap, hgap, hscans, -⟩ := h 0 [] (by simp)
  rw [List.append_nil, List.append_nil] at hscans
  obtain ⟨used, hused⟩ := hscans.suffix
  rw [hused] at hscans ⊢
  have htext := scanText_eq hscans (.eof hgap)
  exact Input.fault?_ofText_eq_none file (congrArg (·.ending) htext)

/-- A declaration with its semicolon can be scanned before any text that can. -/
theorem spells_item {item : Item} (h : item.isCanonical = true) {t : String}
    {ws : List (TokenKind × String)} (ht : Spells t.toList ws) :
    ∃ vs, Spells (item.listing ++ ";\n" ++ t).toList vs := by
  have hline : item.listing ++ ";\n" ++ t = item.listing ++ (";" ++ ("\n" ++ t)) := by
    rw [show ";\n" = ";" ++ "\n" from rfl, String.append_assoc, String.append_assoc]
  rw [hline]
  by_cases hquery : item.query = ""
  · exact ⟨_, Item.spells_listing h hquery (spells_semicolon ht.newline) (apart_semicolon _)⟩
  · cases item with
    | cursor c =>
      obtain ⟨htext, hlisting⟩ := Cursor.listing_of_query h hquery
      obtain ⟨vs, hvs⟩ := spells_query htext
      have hbody := (hvs.concat ht.newline (apart_newline t)).newline
      have hrest := ((spells_keyword .is).concat hbody (apart_newline _)).space
      have hspells := Cursor.spells_signature h hrest (apart_space _)
      rw [Item.listing, hlisting]
      simp only [String.append_assoc] at hspells ⊢
      exact ⟨_, hspells⟩
    | _ => exact absurd rfl hquery

/-- The declarations of a package, and its end. -/
def bodyText (name : String) (items : List Item) : String :=
  String.join (items.map fun item => item.listing ++ ";\n") ++ ("end " ++ name ++ ";")

theorem bodyText_cons (name : String) (item : Item) (items : List Item) :
    bodyText name (item :: items) = item.listing ++ ";\n" ++ bodyText name items := by
  simp only [bodyText, List.map_cons, String.join_cons, String.append_assoc]

theorem packageText_eq (name : String) (items : List Item) :
    packageText name items =
      "create package " ++ name ++ " is" ++ ("\n" ++ bodyText name items) := by
  unfold packageText bodyText
  rw [show " is\n" = " is" ++ "\n" from rfl]
  simp only [String.append_assoc]

section
variable {name : String}

theorem spells_end (hname : isName name = true) :
    Spells ("end " ++ name ++ ";").toList
      [Keyword.end_.word, nameWord name, Operator.semicolon.word] := by
  have hspells := spells_keyword_space .end_ (spells_name (isWord_of_isName hname)
    (spells_semicolon (t := "") .nil) (apart_semicolon _))
  rw [show "end " = Keyword.end_.spelling ++ " " from rfl, String.append_assoc, String.append_assoc]
  exact hspells

theorem spells_header (hname : isName name = true) :
    Spells ("create package " ++ name ++ " is").toList
      [Keyword.create.word, Keyword.package.word, nameWord name, Keyword.is.word] := by
  have hspells := spells_keyword_space .create (spells_keyword_space .package
    (spells_name (isWord_of_isName hname) (spells_keyword .is).space (apart_space _)))
  rw [show "create package " = Keyword.create.spelling ++ (" " ++ (Keyword.package.spelling ++ " "))
    from rfl]
  simp only [String.append_assoc]
  exact hspells

theorem spells_packageText (hname : isName name = true) {items : List Item}
    (hitems : ∀ item ∈ items, item.isCanonical = true) :
    ∃ ws, Spells (packageText name items).toList ws := by
  have hbody : ∃ ws, Spells (bodyText name items).toList ws := by
    induction items with
    | nil => exact ⟨_, spells_end hname⟩
    | cons item items ih =>
      obtain ⟨ws, hws⟩ := ih fun item hitem => hitems item (by simp [hitem])
      rw [bodyText_cons]
      exact spells_item (hitems item (by simp)) hws
  obtain ⟨ws, hws⟩ := hbody
  rw [packageText_eq]
  exact ⟨_, (spells_header hname).concat hws.newline (apart_newline _)⟩

end

/-! ## Declarations -/

namespace Parser

variable {i : Input} {ds rest : List DocToken} {t : DocToken} {more : List Char}

/-- A declaration is read back from its listing.  Its semicolon is left, and before
    it the last word of an exception. -/
theorem item_at (hi : i.Scanned) (hfault : i.fault? = none) {item : Item}
    (hitem : item.isCanonical = true) (h : i.At (item.listing.toList ++ [';'] ++ more) ds)
    (hmore : ∀ c ∈ more.head?, isSeparator c = true) :
    ∃ item' left s ds', Returns item? i ds (some item') (left ++ s :: ds') ∧
      item'.recast .unplaced = item.recast .unplaced ∧ (left = [] ∨ ∃ d, left = [d]) ∧
      s.kind = .op .semicolon ∧ i.At more ds' := by
  by_cases hquery : item.query = ""
  · have hspells := Item.spells_listing hitem hquery (spells_semicolon (t := "") .nil)
      (apart_semicolon _)
    have hplain : Plain (item.words ++ [Operator.semicolon.word]) := by simp [item.plain_words]
    rw [String.toList_append] at hspells
    obtain ⟨ds₁, ds₂, rfl, hshown, hat⟩ := h.take hi hspells hmore hplain
    obtain ⟨xs, us, hxs, hus, rfl⟩ := hshown.append_inv
    obtain ⟨s, us', hs, hnil, rfl⟩ := hus.cons_inv
    cases hnil
    obtain ⟨item', left, hreturns, hitem', hleft⟩ := item_shown ds₂ hfault hitem hquery hxs hs.kind
    rw [List.append_assoc]
    exact ⟨item', left, s, ds₂, hreturns, hitem', hleft, hs.kind, hat⟩
  · cases item with
    | cursor c =>
      obtain ⟨htext, hlisting⟩ := Cursor.listing_of_query hitem hquery
      have hspells := Cursor.spells_signature hitem (spells_keyword .is).space (apart_space _)
      have hplain : Plain (c.words ++ [Keyword.is.word]) := by
        simp [show Plain c.words from (Item.cursor c).plain_words]
      have hsplit : (Item.cursor c).listing.toList ++ [';'] ++ more =
          (c.signatureText ++ (" " ++ Keyword.is.spelling)).toList ++
            ("\n".toList ++ (c.sql.text.toList ++ [';'] ++ more)) := by
        rw [Item.listing, hlisting]
        simp only [String.toList_append, List.append_assoc]
      rw [hsplit] at h
      obtain ⟨ds₁, ds₂, rfl, hshown, hat⟩ :=
        h.take hi hspells (by simp [isSeparator, isSpacing]) hplain
      obtain ⟨xs, us, hxs, hus, rfl⟩ := hshown.append_inv
      obtain ⟨u, us', hu, hnil, rfl⟩ := hus.cons_inv
      cases hnil
      have hat := hat.skip (by simp [Spacing, isSpacing])
      obtain ⟨q, s, ds', rfl, hq, hs, hslice, hat'⟩ := hat.query hi htext hmore
      obtain ⟨item', hreturns, hitem'⟩ := item_shown_query ds' hfault hitem hxs hu.kind hq hs hslice
      rw [List.append_assoc]
      exact ⟨item', [], s, ds', hreturns, hitem', .inl rfl, hs, hat'⟩
    | _ => exact absurd rfl hquery

/-- No declaration is found at the end of a package. -/
theorem kind_ne_end {item : Item} (h : Returns item? i ds (some item) rest) :
    (i.current ds).kind ≠ .keyword .end_ := by
  intro hend
  have h := returns_current_bind.1 h
  rw [hend] at h
  simp at h

/-- A round of the declarations that finds one, and the round over its semicolon if
    its last word was left. -/
theorem item_round (hfault : i.fault? = none) {name : Ident} {item : Item}
    {left : List DocToken} {s : DocToken} {ds' : List DocToken}
    (hitem : Returns item? i ds (some item) (left ++ s :: ds'))
    (hleft : left = [] ∨ ∃ d, left = [d]) (hs : s.kind = .op .semicolon) (found : Found)
    (t : DocToken) :
    ∃ last, ∀ found' rest,
      Returns (iterate (itemStep name) id ⟨item :: found.items, last⟩) i (s :: ds') found' rest →
        Returns (iterate (itemStep name) id found) i (t :: ds) found' rest := by
  have hstep : Returns (itemStep name found) i ds
      (.inl ⟨item :: found.items, (i.current ds).span.start⟩) (left ++ s :: ds') :=
    returns_current_bind.2 (.else_ (kind_ne_end hitem) (hitem.bind (.pure _ _)))
  rcases hleft with rfl | ⟨d, rfl⟩
  · refine ⟨(i.current ds).span.start, fun found' rest hmore => ?_⟩
    exact returns_iterate_cons.2 ⟨.of_fault_none hfault _ _, _, _, hstep, hmore⟩
  · refine ⟨s.span.start, fun found' rest hmore => ?_⟩
    have hnone : Returns item? i (s :: ds') none (s :: ds') := by
      refine (Returns.current s _).bind ?_
      rw [hs]
      exact .pure _ _
    have hstep' : Returns (itemStep name ⟨item :: found.items, (i.current ds).span.start⟩) i
        (s :: ds') (.inl ⟨item :: found.items, s.span.start⟩) (s :: ds') :=
      (Returns.current s _).bind (.else_ (by simp [hs]) (hnone.bind (.pure _ _)))
    refine returns_iterate_cons.2 ⟨.of_fault_none hfault _ _, _, _, hstep, ?_⟩
    exact returns_iterate_cons.2 ⟨.of_fault_none hfault _ _, _, _, hstep', hmore⟩

/-- The declarations of a package are read back one after the other, up to its
    end. -/
theorem items_at (hi : i.Scanned) (hfault : i.fault? = none) (name : Ident)
    (hname : isName name.name = true) {items : List Item}
    (hitems : ∀ item ∈ items, item.isCanonical = true)
    (h : i.At (bodyText name.name items).toList ds) (found : Found) (t : DocToken) :
    ∃ found' n s, Returns (iterate (itemStep name) id found) i (t :: ds) found' [n, s] ∧
      n.kind = .ident ∧ s.kind = .op .semicolon ∧
      found'.items.map (·.recast .unplaced) =
        (items.reverse ++ found.items).map (·.recast .unplaced) := by
  induction items generalizing ds found t with
  | nil =>
    have h : i.At (("end " ++ name.name ++ ";").toList ++ []) ds := by simpa [bodyText] using h
    obtain ⟨es, ds₂, rfl, hshown, hat⟩ := h.take hi (spells_end hname) (by simp) (by simp)
    obtain rfl := hat.eq_nil
    obtain ⟨e, ns, he, hns, rfl⟩ := hshown.cons_inv
    obtain ⟨n, us, hn, hus, rfl⟩ := hns.cons_inv
    obtain ⟨s, us', hs, hnil, rfl⟩ := hus.cons_inv
    cases hnil
    simp only [isName, Bool.and_eq_true, decide_eq_true_eq] at hname
    have hnkind : n.kind = .ident := hn.kind.trans hname.2
    have hlexeme : (n.lexeme == name.name) = true := beq_iff_eq.2 hn.lexeme
    have hend : Returns (packageEnd name) i [e, n, s] n.span.stop [n, s] :=
      (Returns.current e _).bind ((Returns.advance hfault e _).bind ((Returns.current n _).bind
        (.then_ hnkind (.then_ hlexeme (.pure _ _)))))
    have hstep : Returns (itemStep name found) i [e, n, s] (.inr ⟨found.items, n.span.stop⟩)
        [n, s] :=
      (Returns.current e _).bind (.then_ he.kind (hend.bind (.pure _ _)))
    refine ⟨⟨found.items, n.span.stop⟩, n, s, ?_, hnkind, hs.kind, by simp⟩
    exact returns_iterate_cons.2 ⟨.of_fault_none hfault _ _, _, _, hstep, .pure _ _⟩
  | cons item items ih =>
    have hsplit : (bodyText name.name (item :: items)).toList =
        item.listing.toList ++ [';'] ++ ("\n".toList ++ (bodyText name.name items).toList) := by
      rw [bodyText_cons, show ";\n" = ";" ++ "\n" from rfl]
      simp only [String.toList_append, List.append_assoc]
      rfl
    rw [hsplit] at h
    obtain ⟨item', left, s, ds', hreturns, hitem', hleft, hs, hat⟩ :=
      item_at hi hfault (hitems item (by simp)) h (by simp [isSeparator, isSpacing])
    obtain ⟨last, hround⟩ := item_round hfault hreturns hleft hs found t
    obtain ⟨found', n, s', hloop, hn, hs', hfound'⟩ :=
      ih (fun item hitem => hitems item (by simp [hitem])) (hat.skip (by simp [Spacing, isSpacing]))
        ⟨item' :: found.items, last⟩ s
    refine ⟨found', n, s', hround found' _ hloop, hn, hs', ?_⟩
    rw [hfound']
    simp [hitem']

/-! ## Packages -/

/-- The package that a statement creates, behind the word `package`. -/
theorem package_at (hi : i.Scanned) (hfault : i.fault? = none) {name : String}
    (hname : isName name = true) {items : List Item}
    (hitems : ∀ item ∈ items, item.isCanonical = true) {create n o : DocToken}
    (hcreate : create.leadDoc = none) (hn : n.Shows (nameWord name)) (ho : o.kind = .keyword .is)
    (h : i.At (bodyText name items).toList ds) :
    ∃ p n' s, Returns (package? create) i (n :: o :: ds) (some p) [n', s] ∧
      n'.kind = .ident ∧ s.kind = .op .semicolon ∧
      p.recast .unplaced = (Package.ofItems none ⟨name, .none⟩ 0 0 items).recast .unplaced := by
  have hnkind : n.kind = .ident := by
    simp only [isName, Bool.and_eq_true, decide_eq_true_eq] at hname
    exact hn.kind.trans hname.2
  have hlexeme : n.lexeme = name := hn.lexeme
  subst hlexeme
  obtain ⟨found, n', s, hloop, hn', hs, hfound⟩ :=
    items_at hi hfault ⟨n.lexeme, n.span⟩ hname hitems h ⟨[], o.span.start⟩ o
  have hopens : Returns (takeTo fun t => t.kind = .keyword .is || t.kind = .keyword .as) i (o :: ds)
      [] (o :: ds) :=
    takeTo_here ds hfault (by simp [ho])
  have hpackageName : Returns packageName i (n :: o :: ds) ⟨n.lexeme, n.span⟩ (o :: ds) :=
    (Returns.name hnkind _).bind ((Returns.advance hfault n _).bind ((Returns.isAt _ o _).bind
      (.else_ (by simp [ho]) (hopens.bind (.pure _ _)))))
  have hitems' : Returns (Parser.items ⟨n.lexeme, n.span⟩) i (o :: ds)
      (found.items.reverse, found.last) [n', s] :=
    (Returns.current o _).bind (hloop.bind (.pure _ _))
  refine ⟨.ofItems create.leadDoc ⟨n.lexeme, n.span⟩ create.span.start found.last
    found.items.reverse, n', s, ?_, hn', hs, ?_⟩
  · refine (Returns.isAt _ n _).bind (.else_ (by simp [hnkind]) (hpackageName.bind ?_))
    exact hitems'.bind (returns_log_bind.2 (.pure _ _))
  · have hmap : found.items.reverse.map (·.recast .unplaced) = items.map (·.recast .unplaced) := by
      rw [List.map_reverse, hfound]
      simp
    rw [Package.recast_ofItems, Package.recast_ofItems, hmap, hcreate]
    rfl

/-- The search finds the package, and nothing behind it. -/
theorem packages_at (hi : i.Scanned) (hfault : i.fault? = none) {name : String}
    (hname : isName name = true) {items : List Item}
    (hitems : ∀ item ∈ items, item.isCanonical = true)
    (h : i.At (packageText name items).toList ds) :
    ∃ p, Returns packages i ds [p] [] ∧
      p.recast .unplaced = (Package.ofItems none ⟨name, .none⟩ 0 0 items).recast .unplaced := by
  have hsplit : (packageText name items).toList = ("create package " ++ name ++ " is").toList ++
      ("\n".toList ++ (bodyText name items).toList) := by
    rw [packageText_eq, String.toList_append]
    exact congrArg _ String.toList_append
  rw [hsplit] at h
  obtain ⟨us, ds', rfl, hshown, hat⟩ :=
    h.take hi (spells_header hname) (by simp [isSeparator, isSpacing]) (by simp)
  obtain ⟨c, us', hc, hus', rfl⟩ := hshown.cons_inv
  obtain ⟨k, us'', hk, hus'', rfl⟩ := hus'.cons_inv
  obtain ⟨n, os, hn, hos, rfl⟩ := hus''.cons_inv
  obtain ⟨o, os', ho, hnil, rfl⟩ := hos.cons_inv
  cases hnil
  have hc' : c.kind = .keyword .create := hc.kind
  have hk' : k.kind = .keyword .package := hk.kind
  have hbody := hat.skip (by simp [Spacing, isSpacing])
  obtain ⟨p, n', s, hpackage, hn', hs, hp⟩ :=
    package_at hi hfault hname hitems hc.leadDoc hn ho.kind hbody
  -- behind the package there is no other
  have hlast : Returns nextCreate? i [n', s] none [] := by
    refine returns_nextCreate?.2 ⟨?_, .of_fault_none hfault _ _, rfl⟩
    simp [splitPackage, hn', hs, pendingCreate]
  have hfirst : Returns nextCreate? i (c :: k :: n :: o :: ds') (some c) (k :: n :: o :: ds') := by
    refine returns_nextCreate?.2 ⟨?_, .of_fault_none hfault _ _, ?_⟩
    · simp [splitPackage, hc', hk', pendingCreate]
    · simp [splitPackage, hc', hk', pendingCreate]
  have hstep : Returns (packageStep ⟨c, []⟩) i (n :: o :: ds') (.inr [p]) [] :=
    returns_packageStep.2 ⟨some p, [n', s], none, hpackage, hlast, rfl⟩
  refine ⟨p, returns_packages.2 ⟨some c, _, hfirst, ?_⟩, hp⟩
  exact returns_iterate_cons.2 ⟨.of_fault_none hfault _ _, _, _, hstep, .pure _ _⟩

end Parser

/-! ## Files -/

theorem fault?_packageText (file : String) {name : String} (hname : isName name = true)
    {items : List Item} (hitems : ∀ item ∈ items, item.isCanonical = true) :
    (Input.ofText file (packageText name items).toList).fault? = none := by
  obtain ⟨ws, hws⟩ := spells_packageText hname hitems
  exact hws.fault? file

/-- **Packages are read back.**  Parsing the listings of canonical declarations gives
    one package, with the given name and these declarations, up to their places, as
    long as the listings are not too large a source. -/
theorem parse_packageText {file name : String} (hfile : file ≠ "") (hname : isName name = true)
    {items : List Item} (hitems : ∀ item ∈ items, item.isCanonical = true)
    (hsize : (packageText name items).toUTF8.size ≤ maxOffset) :
    ∃ p, (parse file (packageText name items).toUTF8).result = .ok ⟨file, [p]⟩ ∧
      p.recast .unplaced = (Package.ofItems none ⟨name, .none⟩ 0 0 items).recast .unplaced := by
  have hi := Input.scanned_ofText file (packageText name items).toList
  have hfault := fault?_packageText file hname hitems
  obtain ⟨p, hreturns, hp⟩ := Parser.packages_at hi hfault hname hitems (hi.at_start hfault)
  refine ⟨p, parse_eq_ok_iff.2 ⟨hfile, hsize, (packageText name items).toList, ?_, ?_⟩, hp⟩
  · rw [String.toUTF8_eq_toByteArray, String.utf8Encode_toList]
  · exact Input.parse_eq_ok.2 ⟨fun _ => hfault, rfl, [], hreturns⟩

/-- A constant, an exception, a function, a record, an array and a cursor. -/
def listedItems : List Item :=
  let x (text : String) : Ident := ⟨text, .none⟩
  [.field (.ofConstant none (x "k") (x "number(9,2) not null") (some (x "f(1)")) true),
    .field (.ofException none (x "e")),
    .routine ⟨none, x "f", some ⟨0, [.ofParameter none (x "table") .inputOutput (x "t%rowtype")
      (some (x "g(1,2)"))], 0⟩, .function, some (x "t"), true, false, true⟩,
    .type ⟨none, x "r", .record ⟨0, [.ofParameter none (x "a") .unstated (x "t") none], 0⟩⟩,
    .type ⟨none, x "v", .varray (some (x "(3)")) (x "r")⟩,
    .cursor ⟨none, x "c", none, some (x "r"), ⟨0, "select ';' -- ;\n from t "⟩⟩]

theorem parse_packageText_listed :
    (∀ item ∈ listedItems, item.isCanonical = true) ∧
      (packageText "p" listedItems).toUTF8.size ≤ maxOffset ∧
      ∃ p, (parse "a.pks" (packageText "p" listedItems).toUTF8).result = .ok ⟨"a.pks", [p]⟩ ∧
        p.recast .unplaced =
          (Package.ofItems none ⟨"p", .none⟩ 0 0 listedItems).recast .unplaced := by
  have hitems : ∀ item ∈ listedItems, item.isCanonical = true :=
    List.all_eq_true.1 (by decide +kernel)
  have hname : isName "p" = true := isName_of_plain rfl (by decide) (by decide) (by decide)
  have hsize : (packageText "p" listedItems).toUTF8.size ≤ maxOffset := by decide +kernel
  exact ⟨hitems, hsize, parse_packageText (by simp) hname hitems hsize⟩

/-- Each declaration takes two bytes at least: a semicolon and a line feed. -/
theorem le_size_packageText (name : String) (items : List Item) :
    2 * items.length ≤ (packageText name items).toUTF8.size := by
  have hbody : 2 * items.length ≤ (bodyText name items).utf8ByteSize := by
    induction items with
    | nil => exact Nat.zero_le _
    | cons item items ih =>
      have hmark : (";\n" : String).utf8ByteSize = 2 := rfl
      rw [bodyText_cons, String.utf8ByteSize_append, String.utf8ByteSize_append, hmark,
        List.length_cons]
      omega
  rw [packageText_eq, String.toUTF8_eq_toByteArray, String.size_toByteArray]
  simp only [String.utf8ByteSize_append]
  omega

/-- The listings of as many declarations as offsets can count are too large a source. -/
theorem parse_packageText_of_le {file : String} (hfile : file ≠ "") (name : String)
    {items : List Item} (h : maxOffset ≤ items.length) :
    (parse file (packageText name items).toUTF8).result =
      .error ⟨file, 1, .lexical .tooLarge⟩ := by
  have hsize : maxOffset < (packageText name items).toUTF8.size :=
    Nat.lt_of_lt_of_le (show maxOffset < 2 * maxOffset by decide)
      (Nat.le_trans (Nat.mul_le_mul_left 2 h) (le_size_packageText name items))
  exact parse_of_lt hfile hsize

/-- A record with a field whose type says `not null`; no parameter is marked as such. -/
def markedRecord (notNull : Bool) : Item :=
  let x (text : String) : Ident := ⟨text, .none⟩
  .type ⟨none, x "r", .record ⟨0, [{ Field.ofParameter none (x "a") .unstated
    (x "number not null") none with notNull }], 0⟩⟩

/-- Listings are not read back if there are too many of them, and no mark is read back for
    the field of a record. -/
theorem packageText_not_read_back :
    ((∀ item ∈ List.replicate maxOffset (markedRecord false), item.isCanonical = true) ∧
      (parse "a.pks" (packageText "p" (List.replicate maxOffset (markedRecord false))).toUTF8).result =
        .error ⟨"a.pks", 1, .lexical .tooLarge⟩) ∧
    ∃ p, (parse "a.pks" (packageText "p" [markedRecord true]).toUTF8).result = .ok ⟨"a.pks", [p]⟩ ∧
      p.recast .unplaced ≠
        (Package.ofItems none ⟨"p", .none⟩ 0 0 [markedRecord true]).recast .unplaced := by
  have hcanonical : (markedRecord false).isCanonical = true := by decide +kernel
  have hread : (parse "a.pks" (packageText "p" [markedRecord true]).toUTF8).result.toOption.map
      (·.recast .unplaced) =
        some ⟨"a.pks", [(Package.ofItems none ⟨"p", .none⟩ 0 0 [markedRecord false]).recast
          .unplaced]⟩ := by decide +kernel
  refine ⟨⟨fun item hitem => ?_, ?_⟩, ?_⟩
  · rw [List.eq_of_mem_replicate hitem, hcanonical]
  · exact parse_packageText_of_le (by decide) "p" (Nat.le_of_eq List.length_replicate.symm)
  · obtain ⟨f, hresult, hrecast⟩ := exists_ok_of_toOption hread
    obtain ⟨hfile, hpackages⟩ := SourceFile.mk.inj hrecast
    obtain ⟨p, hp, hrecast⟩ := List.map_eq_singleton_iff.1 hpackages
    refine ⟨p, ?_, ?_⟩
    · rw [hresult, ← hfile, ← hp]
    · rw [hrecast]
      decide +kernel

end PackageDoc
