/-
  Declarations stand one behind the other.

  A parser goes through the source from one place to another, and the spans of what
  it returns stand between these places (`Lies`).  So the declarations of a package
  are in order and do not overlap, whatever is skipped between them, and neither do
  the packages of a file (`parse_disjoint`).
-/
import PackageDoc.Proofs.Parser.Extent

namespace PackageDoc

open Text

/-! ## Spans in order -/

/-- The declarations of a package in the order in which they start. -/
def Package.itemsByStart (p : Package) : List Item :=
  p.items.mergeSort fun a b => a.span.start ≤ b.span.start

/-- A package whose declarations are apart: they stand behind the name of the package,
    take up room and do not overlap, and those of one kind are listed in the order of
    the source. -/
structure Package.Arranged (p : Package) : Prop where
  start_le_name : p.first ≤ p.name.span.start
  name_le : p.name.span.start ≤ p.name.span.stop
  name_le_last : p.name.span.stop ≤ p.last
  behind_name : ∀ item ∈ p.items, p.name.span.stop ≤ item.span.start
  nonempty : ∀ item ∈ p.items, item.span.start < item.span.stop
  disjoint : p.itemsByStart.Pairwise fun a b => a.span.stop ≤ b.span.start
  fields : p.fields.Pairwise fun a b => a.span.start < b.span.start
  subtypes : p.subtypes.Pairwise fun a b => a.span.start < b.span.start
  routines : p.routines.Pairwise fun a b => a.span.start < b.span.start
  cursors : p.cursors.Pairwise fun a b => a.span.start < b.span.start
  types : p.types.Pairwise fun a b => a.span.start < b.span.start

theorem Package.Arranged.start_le_last {p : Package} (h : p.Arranged) : p.first ≤ p.last :=
  Nat.le_trans h.start_le_name (Nat.le_trans h.name_le h.name_le_last)

section
variable {items : List Item}

/-- Declarations that stand one behind the other in some order do so in the order in
    which they start. -/
theorem Package.pairwise_itemsByStart {p : Package} (hperm : p.items.Perm items)
    (hnonempty : ∀ item ∈ items, item.span.start < item.span.stop)
    (h : items.Pairwise fun a b => a.span.stop ≤ b.span.start) :
    p.itemsByStart.Pairwise fun a b => a.span.stop ≤ b.span.start := by
  have hsorted : p.itemsByStart.Perm items := (List.mergeSort_perm _ _).trans hperm
  have hapart : p.itemsByStart.Pairwise fun a b =>
      a.span.stop ≤ b.span.start ∨ b.span.stop ≤ a.span.start :=
    (hsorted.symm.pairwise (h.imp Or.inl) Or.symm)
  have hstarts : p.itemsByStart.Pairwise fun a b => a.span.start ≤ b.span.start := by
    have h : p.itemsByStart.Pairwise fun a b => decide (a.span.start ≤ b.span.start) = true :=
      List.pairwise_mergeSort (fun a b c hab hbc => by simp only [decide_eq_true_eq] at *; omega)
        (fun a b => by simp only [Bool.or_eq_true, decide_eq_true_eq]; omega) p.items
    exact h.imp fun hle => of_decide_eq_true hle
  refine (hapart.and hstarts).imp_of_mem fun {a b} ha hb hab => ?_
  have ha := hnonempty a (hsorted.subset ha)
  have hb := hnonempty b (hsorted.subset hb)
  rcases hab with ⟨hle | hle, hstart⟩
  · exact hle
  · omega

/-- What is kept of declarations that stand one behind the other is listed in order. -/
theorem pairwise_filterMap_of_kind {α : Type} {span : α → Span} {f : Item → Option α}
    (hf : ∀ item, ∀ x ∈ f item, span x = item.span)
    (hnonempty : ∀ item ∈ items, item.span.start < item.span.stop)
    (h : items.Pairwise fun a b => a.span.stop ≤ b.span.start) :
    (items.filterMap f).Pairwise fun a b => (span a).start < (span b).start := by
  refine List.Pairwise.filterMap f (fun a b hab x hx y hy => ?_)
    (h.imp_of_mem fun {a b} ha _ hab => Nat.lt_of_lt_of_le (hnonempty a ha) hab)
  rw [hf a x hx, hf b y hy]
  exact hab

/-- A package is arranged if its declarations stand one behind the other, all of them
    behind its name. -/
theorem Package.arranged_ofItems (doc : Option CommentGroup) {name : Ident} {first last : Nat}
    (hfirst : first ≤ name.span.start) (hname : name.span.start ≤ name.span.stop)
    (hlast : name.span.stop ≤ last) (hbehind : ∀ item ∈ items, name.span.stop ≤ item.span.start)
    (hnonempty : ∀ item ∈ items, item.span.start < item.span.stop)
    (h : items.Pairwise fun a b => a.span.stop ≤ b.span.start) :
    (ofItems doc name first last items).Arranged where
  start_le_name := hfirst
  name_le := hname
  name_le_last := hlast
  behind_name item hitem := hbehind item (mem_of_mem_items hitem)
  nonempty item hitem := hnonempty item (mem_of_mem_items hitem)
  disjoint := pairwise_itemsByStart (items_ofItems_perm doc name first last items) hnonempty h
  fields := pairwise_filterMap_of_kind (by rintro (_ | _) x ⟨⟩; rfl) hnonempty h
  subtypes := pairwise_filterMap_of_kind (by rintro (_ | _) x ⟨⟩; rfl) hnonempty h
  routines := pairwise_filterMap_of_kind (by rintro (_ | _) x ⟨⟩; rfl) hnonempty h
  cursors := pairwise_filterMap_of_kind (by rintro (_ | _) x ⟨⟩; rfl) hnonempty h
  types := pairwise_filterMap_of_kind (by rintro (_ | _) x ⟨⟩; rfl) hnonempty h

end

/-- The name of a declaration. -/
def Item.name : Item → Ident
  | field f => f.name
  | subtype s => s.name
  | routine r => r.name
  | cursor c => c.name
  | type t => t.name

theorem Span.le_merge? (s : Span) (t? : Option Span) :
    (s.merge? t?).start ≤ s.start ∧ s.stop ≤ (s.merge? t?).stop := by
  cases t? with
  | none => exact ⟨Nat.le_refl _, Nat.le_refl _⟩
  | some t => exact ⟨Nat.min_le_left _ _, Nat.le_max_left _ _⟩

theorem Item.name_within (item : Item) :
    item.span.start ≤ item.name.span.start ∧ item.name.span.stop ≤ item.span.stop := by
  have hmerge (s t : Span) : (s.merge t).start ≤ s.start ∧ s.stop ≤ (s.merge t).stop :=
    s.le_merge? (some t)
  have hmerges (s : Span) (t? u? : Option Span) :
      ((s.merge? t?).merge? u?).start ≤ s.start ∧ s.stop ≤ ((s.merge? t?).merge? u?).stop :=
    have ⟨hstart, hstop⟩ := s.le_merge? t?
    have ⟨hstart', hstop'⟩ := (s.merge? t?).le_merge? u?
    ⟨Nat.le_trans hstart' hstart, Nat.le_trans hstop hstop'⟩
  cases item with
  | field f => exact hmerges f.name.span _ _
  | subtype s => exact hmerge s.name.span _
  | routine r => exact hmerges r.name.span _ _
  | cursor c =>
    have ⟨hstart, hstop⟩ := hmerge c.name.span c.sql.span
    have ⟨hstart', hstop'⟩ := hmerges (c.name.span.merge c.sql.span) (c.params.map (·.span))
      (c.result.map (·.span))
    exact ⟨Nat.le_trans hstart' hstart, Nat.le_trans hstop hstop'⟩
  | type t =>
    obtain ⟨doc, name, body⟩ := t
    cases body with
    | table element => exact hmerge name.span _
    | record fields => exact hmerge name.span _
    | refCursor result => exact name.span.le_merge? _
    | varray bound element =>
      cases bound with
      | none => exact hmerge name.span _
      | some bound => exact hmerges name.span (some bound.span) (some element.span)

namespace Parser

variable {i : Input} {ts us mid rest : List DocToken}

/-! ## Spans on the way -/

/-- The parser gets from `ts` to `rest`, and the span stands on the way. -/
structure Lies (i : Input) (ts rest : List DocToken) (s : Span) : Prop where
  suffix : rest <:+ ts
  start : (i.current ts).span.start ≤ s.start
  stop : s.stop ≤ (i.current rest).span.start

/-- The parser does not go back. -/
theorem current_mono (hi : i.Scanned) (hfault : i.fault? = none) (hts : ts <:+ i.tokens)
    (h : rest <:+ ts) : (i.current ts).span.start ≤ (i.current rest).span.start := by
  obtain ⟨before, hbefore⟩ := id hts
  obtain ⟨passed, rfl⟩ := h
  cases passed with
  | nil => exact Nat.le_refl _
  | cons d passed =>
    obtain ⟨-, hlt, -⟩ := hi.order_at hbefore
    rw [← List.append_assoc] at hbefore
    have hle := stop_le_current hi hfault hbefore (s := d) (by simp)
    exact Nat.le_of_lt (Nat.lt_of_lt_of_le hlt hle)

namespace Lies

variable {ts' rest' : List DocToken} {s t : Span}

/-- A longer way. -/
theorem widen (hi : i.Scanned) (hfault : i.fault? = none) (hts : ts <:+ i.tokens)
    (h : Lies i ts' rest' s) (hstart : ts' <:+ ts) (hstop : rest <:+ rest') : Lies i ts rest s where
  suffix := hstop.trans (h.suffix.trans hstart)
  start := Nat.le_trans (current_mono hi hfault hts hstart) h.start
  stop := Nat.le_trans h.stop
    (current_mono hi hfault (h.suffix.trans (hstart.trans hts)) hstop)

theorem merge (hs : Lies i ts rest s) (ht : Lies i ts rest t) : Lies i ts rest (s.merge t) where
  suffix := hs.suffix
  start := Nat.le_min.2 ⟨hs.start, ht.start⟩
  stop := Nat.max_le.2 ⟨hs.stop, ht.stop⟩

theorem merge? {t? : Option Span} (hs : Lies i ts rest s) (ht : ∀ t ∈ t?, Lies i ts rest t) :
    Lies i ts rest (s.merge? t?) := by
  cases t? with
  | none => exact hs
  | some t => exact hs.merge (ht t rfl)

theorem of_option {α : Type} {span : α → Span} {x? : Option α}
    (h : ∀ x ∈ x?, Lies i ts rest (span x)) : ∀ t ∈ x?.map span, Lies i ts rest t := by
  intro t ht
  obtain ⟨x, hx, rfl⟩ := Option.map_eq_some_iff.1 ht
  exact h x hx

/-- A token that is passed. -/
theorem token (hi : i.Scanned) (hfault : i.fault? = none) (hts : ts <:+ i.tokens)
    (passed : List DocToken) (hpassed : ts = passed ++ rest) {d : DocToken} (hd : d ∈ passed) :
    Lies i ts rest d.span := by
  obtain ⟨before, hbefore⟩ := id hts
  refine ⟨⟨passed, hpassed.symm⟩, current_le hi hts (by simp [hpassed, hd]), ?_⟩
  rw [hpassed, ← List.append_assoc] at hbefore
  exact stop_le_current hi hfault hbefore (by simp [hd])

theorem head (hi : i.Scanned) (hfault : i.fault? = none) {d : DocToken}
    (hts : d :: us <:+ i.tokens) : Lies i (d :: us) us d.span :=
  token hi hfault hts [d] rfl (by simp)

/-- The text of tokens that are passed. -/
theorem ofTokens? (hi : i.Scanned) (hfault : i.fault? = none) (hts : ts <:+ i.tokens)
    {passed xs : List DocToken} (hpassed : ts = passed ++ rest) (hxs : xs ⊆ passed) :
    ∀ x ∈ Ident.ofTokens? (plainTokens xs), Lies i ts rest x.span := by
  intro x hx
  unfold Ident.ofTokens? at hx
  split at hx
  · rename_i first last hfirst hlast
    obtain rfl := Option.some.inj hx
    obtain ⟨d, hmem, rfl⟩ := List.mem_map.1 (List.mem_of_head? hfirst)
    obtain ⟨e, he, rfl⟩ := List.mem_map.1 (List.mem_of_getLast? hlast)
    have hd := token hi hfault hts passed hpassed (hxs hmem)
    have he := token hi hfault hts passed hpassed (hxs he)
    refine ⟨hd.suffix, hd.start, Nat.max_le.2 ⟨he.stop, ?_⟩⟩
    have hlt : d.span.start < d.span.stop := by
      refine hi.start_lt_stop (hts.subset ?_)
      rw [hpassed]
      exact List.mem_append_left _ (hxs hmem)
    exact Nat.le_trans (Nat.le_of_lt hlt) hd.stop
  · cases hx

/-- A text that starts where the parser is. -/
theorem ofTokens (hi : i.Scanned) (hfault : i.fault? = none) (hts : ts <:+ i.tokens)
    {passed xs : List DocToken} (hpassed : ts = passed ++ rest) (hxs : xs ⊆ passed) :
    Lies i ts rest (Ident.ofTokens (i.current ts).span.start (plainTokens xs)).span := by
  have hsuffix : rest <:+ ts := ⟨passed, hpassed.symm⟩
  unfold Ident.ofTokens
  cases hx : Ident.ofTokens? (plainTokens xs) with
  | none => exact ⟨hsuffix, Nat.le_refl _, current_mono hi hfault hts hsuffix⟩
  | some x => exact ofTokens? hi hfault hts hpassed hxs x hx

/-- The text up to a token. -/
theorem takeWhile (hi : i.Scanned) (hfault : i.fault? = none) (hts : ts <:+ i.tokens)
    (p : DocToken → Bool) : Lies i ts (ts.dropWhile p)
      (Ident.ofTokens (i.current ts).span.start (plainTokens (ts.takeWhile p))).span :=
  ofTokens hi hfault hts List.takeWhile_append_dropWhile.symm (List.Subset.refl _)

end Lies

/-! ## Parts of declarations -/

theorem lies_fieldList (hi : i.Scanned) (hfault : i.fault? = none) (hts : ts <:+ i.tokens)
    (hopen : (i.current ts).kind = .op .openParen) {l : FieldList}
    (h : Returns fieldList i ts l rest) : Lies i ts rest l.span := by
  obtain ⟨t, us, rfl, -⟩ := cons_of_current hi.eof_kind hopen (by simp)
  obtain ⟨hopening, u, hsuffix, hclose, hclosing⟩ := closing_of_fieldList hi h
  obtain ⟨before, hbefore⟩ := id hts
  obtain ⟨passed, rfl⟩ := hsuffix
  have hu : Lies i (t :: (passed ++ u :: rest)) rest u.span :=
    .token hi hfault hts (t :: passed ++ [u]) (by simp) (by simp)
  have hlt : t.span.start ≤ u.span.start := hu.start
  have hstop : u.span.stop = u.span.start + 1 :=
    (hi.spelling (d := u) (by simp [← hbefore]) hclose (by simp)).2
  have hoffset : addOffset l.closing 1 ≤ l.closing + 1 := Nat.min_le_left _ _
  have hle := hu.stop
  refine ⟨hu.suffix, Nat.le_of_eq hopening.symm, ?_⟩
  show Nat.max (addOffset l.closing 1) l.opening ≤ _
  exact Nat.max_le.2 ⟨by omega, by omega⟩

theorem lies_fieldList? (hi : i.Scanned) (hfault : i.fault? = none) (hts : ts <:+ i.tokens)
    {l? : Option FieldList} (h : Returns fieldList? i ts l? rest) :
    ∀ l ∈ l?, Lies i ts rest l.span := by
  rw [returns_fieldList?] at h
  split at h
  · rename_i hopen
    obtain ⟨l, hl, rfl⟩ := h
    simpa using lies_fieldList hi hfault hts hopen hl
  · obtain ⟨rfl, rfl⟩ := h
    simp

theorem lies_typeTail (hi : i.Scanned) (hfault : i.fault? = none) (hts : ts <:+ i.tokens)
    {x : Ident} (h : Returns typeTail i ts x rest) : Lies i ts rest x.span := by
  obtain ⟨-, -, rfl, rfl⟩ := returns_typeTail.1 h
  have htext := Lies.takeWhile hi hfault (ts.tail_suffix.trans hts)
  exact (htext _).widen hi hfault hts ts.tail_suffix (List.suffix_refl _)

theorem lies_functionResult (hi : i.Scanned) (hfault : i.fault? = none) (hts : ts <:+ i.tokens)
    {x : Ident} (h : Returns functionResult i ts x rest) : Lies i ts rest x.span := by
  obtain ⟨-, -, -, rfl, rfl⟩ := returns_functionResult.1 h
  have htext := Lies.takeWhile hi hfault (ts.tail_suffix.trans hts)
  exact (htext _).widen hi hfault hts ts.tail_suffix (List.suffix_refl _)

theorem lies_cursorResult? (hi : i.Scanned) (hfault : i.fault? = none) (hts : ts <:+ i.tokens)
    {x? : Option Ident} (h : Returns cursorResult? i ts x? rest) :
    ∀ x ∈ x?, Lies i ts rest x.span := by
  rw [returns_cursorResult?] at h
  split at h
  · obtain ⟨-, row, hrow, rfl⟩ := h
    obtain ⟨rfl, rfl, -⟩ := returns_takeTo.1 hrow
    have htext := Lies.takeWhile hi hfault (ts.tail_suffix.trans hts)
    intro x hx
    obtain rfl := Option.some.inj hx
    exact (htext _).widen hi hfault hts ts.tail_suffix (List.suffix_refl _)
  · obtain ⟨rfl, rfl⟩ := h
    simp

/-- A query is as long as the source up to its semicolon, or empty. -/
theorem lies_cursorQuery (hi : i.Scanned) (hfault : i.fault? = none) (hts : ts <:+ i.tokens)
    {sql : Sql} (h : Returns cursorQuery i ts sql rest) : Lies i ts rest sql.span := by
  rw [returns_cursorQuery] at h
  split at h
  · obtain ⟨rfl, rfl⟩ := h
    exact ⟨List.suffix_refl _, Nat.le_refl _, stop_of_query _⟩
  · obtain ⟨opened, hopened, -, hrest, rfl⟩ := h
    have hquery : opened.tail <:+ ts := opened.tail_suffix.trans hopened.suffix
    obtain ⟨hstop, -⟩ := extract_slice hi hfault (hquery.trans hts) hrest.suffix rfl rfl
    exact ⟨hrest.suffix.trans hquery, current_mono hi hfault hts hquery,
      Nat.le_trans (stop_of_query _) (Nat.le_of_eq hstop)⟩

theorem lies_arrayBound? (hi : i.Scanned) (hfault : i.fault? = none) (hts : ts <:+ i.tokens)
    {x? : Option Ident} (h : Returns arrayBound? i ts x? rest) :
    ∀ x ∈ x?, Lies i ts rest x.span := by
  rw [returns_arrayBound?] at h
  split at h
  · rename_i hopen
    obtain ⟨g, hgroup, rfl⟩ := h
    obtain ⟨t, us, rfl, -⟩ := cons_of_current hi.eof_kind hopen (by simp)
    obtain ⟨-, hclosing, -, -⟩ := returns_group.1 hgroup
    intro x hx
    obtain rfl := Option.some.inj hx
    have hsuffix : rest <:+ us := hclosing ▸ ⟨_, splitNested_append _ 0 us⟩
    have ht := (Lies.head hi hfault hts).widen hi hfault hts (List.suffix_refl _) hsuffix
    obtain ⟨before, hbefore⟩ := id hts
    obtain ⟨-, hlt, -⟩ := hi.order_at hbefore
    -- the bound ends one byte before the end of the token it stops at
    have hstop : (i.current rest).span.stop - 1 ≤ (i.current rest).span.start := by
      cases rest with
      | nil =>
        rw [Input.current, List.headD_nil, DocToken.span, hi.eof hfault]
        exact Nat.sub_le _ _
      | cons u rest =>
        have hclose : u.kind = .op .closeParen := by
          simpa using kind_of_splitNested hclosing.symm
        have hu : u ∈ i.tokens := ((hsuffix.trans (List.suffix_cons t us)).trans hts).subset (by simp)
        have hlength : u.span.stop = u.span.start + 1 := (hi.spelling hu hclose (by simp)).2
        show u.span.stop - 1 ≤ u.span.start
        omega
    have hle := ht.stop
    refine ⟨ht.suffix, Nat.le_succ _, ?_⟩
    show Nat.max ((i.current rest).span.stop - 1) (t.span.start + 1) ≤ _
    exact Nat.max_le.2 ⟨hstop, by omega⟩
  · obtain ⟨rfl, rfl⟩ := h
    simp

/-! ## Declarations -/

theorem lies_variableField (hi : i.Scanned) (hfault : i.fault? = none) (hts : ts <:+ i.tokens)
    {f : Field} (h : Returns variableField i ts f rest) : Lies i ts rest f.span := by
  obtain ⟨hkind, -, h⟩ := returns_variableField.1 h
  obtain ⟨d, us, rfl, -⟩ := cons_of_current hi.eof_kind hkind (by simp)
  have hus : us <:+ i.tokens := (List.suffix_cons d us).trans hts
  -- the texts of the type and of the default value, from `mid` up to the semicolon
  have htexts {mid : List DocToken} (hmid : mid <:+ us) (p : DocToken → Bool) :
      let tokens := mid.takeWhile p
      let type := Ident.ofTokens (i.current mid).span.start (plainTokens (splitDefault 0 tokens).1)
      Lies i us (mid.dropWhile p) type.span ∧
        ∀ x ∈ Ident.ofTokens? (plainTokens (splitDefault 0 tokens).2),
          Lies i us (mid.dropWhile p) x.span := by
    have hmid' : mid <:+ i.tokens := hmid.trans hus
    have hpassed : mid = mid.takeWhile p ++ mid.dropWhile p :=
      List.takeWhile_append_dropWhile.symm
    refine ⟨?_, fun x hx => ?_⟩
    · exact (Lies.ofTokens hi hfault hmid' hpassed (splitDefault_isPrefix 0 _).subset).widen hi
        hfault hus hmid (List.suffix_refl _)
    · exact (Lies.ofTokens? hi hfault hmid' hpassed (splitDefault_suffix 0 _).subset x hx).widen hi
        hfault hus hmid (List.suffix_refl _)
  have hparts : f.name.span = d.span ∧ rest <:+ us ∧ (∀ x ∈ f.type?, Lies i us rest x.span) ∧
      ∀ x ∈ f.default?, Lies i us rest x.span := by
    split at h
    · obtain ⟨rfl, rfl⟩ := h
      exact ⟨rfl, List.suffix_refl _, by simp [Field.ofException], by simp [Field.ofException]⟩
    · obtain ⟨mid, tokens, hmid, htokens, rfl⟩ := h
      have hmid : mid <:+ us := by
        split at hmid
        · exact hmid.2 ▸ us.tail_suffix
        · exact hmid ▸ List.suffix_refl us
      obtain ⟨rfl, rfl, -⟩ := returns_takeTo.1 htokens
      obtain ⟨htype, hdefault⟩ := htexts hmid fun t => !decide (t.kind = .op .semicolon)
      split
      · exact ⟨rfl, htype.suffix, by simpa [Field.ofConstant] using htype, hdefault⟩
      · exact ⟨rfl, htype.suffix, by simpa [Field.ofVariable] using htype, hdefault⟩
  obtain ⟨hname, hrest, htype, hdefault⟩ := hparts
  have hwide {s : Span} (hs : Lies i us rest s) : Lies i (d :: us) rest s :=
    hs.widen hi hfault hts (List.suffix_cons d us) (List.suffix_refl _)
  have hhead := (Lies.head hi hfault hts).widen hi hfault hts (List.suffix_refl _) hrest
  unfold Field.span
  rw [hname]
  exact (hhead.merge? (.of_option fun x hx => hwide (htype x hx))).merge?
    (.of_option fun x hx => hwide (hdefault x hx))

/-- The name behind the word at hand, and what is read behind the name. -/
theorem lies_name (hi : i.Scanned) (hfault : i.fault? = none) {d n : DocToken}
    (hts : d :: n :: us <:+ i.tokens) (hrest : rest <:+ us) :
    Lies i (d :: n :: us) rest n.span ∧
      ∀ {s : Span}, Lies i us rest s → Lies i (d :: n :: us) rest s := by
  have hbehind : us <:+ d :: n :: us := (List.suffix_cons n us).trans (List.suffix_cons d _)
  have hname : Lies i (n :: us) us n.span := .head hi hfault ((List.suffix_cons d _).trans hts)
  exact ⟨hname.widen hi hfault hts (List.suffix_cons d _) hrest,
    fun hs => hs.widen hi hfault hts hbehind (List.suffix_refl _)⟩

theorem lies_subtype (hi : i.Scanned) (hfault : i.fault? = none) {d : DocToken}
    (hts : d :: us <:+ i.tokens) {x : Subtype} (h : Returns subtype i (d :: us) x rest) :
    Lies i (d :: us) rest x.span := by
  obtain ⟨-, hname, -, -, base, hbase, rfl⟩ := returns_subtype.1 h
  cases us with
  | nil => exact absurd (hi.eof_kind.symm.trans hname) (by simp)
  | cons n vs =>
    have hvs : vs <:+ i.tokens := ((List.suffix_cons n vs).trans (List.suffix_cons d _)).trans hts
    have hbase := lies_typeTail hi hfault hvs hbase
    obtain ⟨hn, hwide⟩ := lies_name hi hfault hts hbase.suffix
    exact hn.merge (hwide hbase)

theorem lies_routine (hi : i.Scanned) (hfault : i.fault? = none) {d : DocToken}
    (hts : d :: us <:+ i.tokens) {r : Routine} (h : Returns routine i (d :: us) r rest) :
    Lies i (d :: us) rest r.span := by
  obtain ⟨-, hname, -, params, mid, hparams, h⟩ := returns_routine.1 h
  cases us with
  | nil => exact absurd (hi.eof_kind.symm.trans hname) (by simp)
  | cons n vs =>
    have hvs : vs <:+ i.tokens := ((List.suffix_cons n vs).trans (List.suffix_cons d _)).trans hts
    have hmid : mid <:+ i.tokens := hparams.suffix.trans hvs
    have hparts : r.name.span = n.span ∧ r.params = params ∧ rest <:+ mid ∧
        ∀ x ∈ r.result, Lies i mid rest x.span := by
      split at h
      · obtain ⟨hskip, rfl⟩ := h
        exact ⟨rfl, rfl, hskip.suffix, by simp⟩
      · obtain ⟨result, mid', clauses, hresult, hclauses, rfl⟩ := h
        have hlies := (lies_functionResult hi hfault hmid hresult).widen hi hfault hmid
          (List.suffix_refl _) hclauses.suffix
        exact ⟨rfl, rfl, hlies.suffix, by simpa using hlies⟩
    obtain ⟨hident, rfl, hrest, hresult⟩ := hparts
    obtain ⟨hn, hwide⟩ := lies_name hi hfault hts (hrest.trans hparams.suffix)
    unfold Routine.span
    rw [hident]
    refine (hn.merge? (.of_option fun l hl => hwide ?_)).merge? (.of_option fun x hx => hwide ?_)
    · exact (lies_fieldList? hi hfault hvs hparams l hl).widen hi hfault hvs (List.suffix_refl _) hrest
    · exact (hresult x hx).widen hi hfault hvs hparams.suffix (List.suffix_refl _)

theorem lies_cursor (hi : i.Scanned) (hfault : i.fault? = none) {d : DocToken}
    (hts : d :: us <:+ i.tokens) {c : Cursor} (h : Returns cursor i (d :: us) c rest) :
    Lies i (d :: us) rest c.span := by
  obtain ⟨-, hname, -, params, mid, result, mid', sql, hparams, hresult, hquery, rfl⟩ :=
    returns_cursor.1 h
  cases us with
  | nil => exact absurd (hi.eof_kind.symm.trans hname) (by simp)
  | cons n vs =>
    have hvs : vs <:+ i.tokens := ((List.suffix_cons n vs).trans (List.suffix_cons d _)).trans hts
    have hmid : mid <:+ i.tokens := hparams.suffix.trans hvs
    have hmid' : mid' <:+ vs := hresult.suffix.trans hparams.suffix
    have hsql := lies_cursorQuery hi hfault (hmid'.trans hvs) hquery
    obtain ⟨hn, hwide⟩ := lies_name hi hfault hts (hsql.suffix.trans hmid')
    refine ((hn.merge (hwide ?_)).merge? (.of_option fun l hl => hwide ?_)).merge?
      (.of_option fun x hx => hwide ?_)
    · exact hsql.widen hi hfault hvs hmid' (List.suffix_refl _)
    · exact (lies_fieldList? hi hfault hvs hparams l hl).widen hi hfault hvs (List.suffix_refl _)
        (hsql.suffix.trans hresult.suffix)
    · exact (lies_cursorResult? hi hfault hmid hresult x hx).widen hi hfault hvs hparams.suffix
        hsql.suffix

/-- The parts of the definition of a type stand on the way from `ts` to `rest`. -/
structure BodyLies (i : Input) (ts rest : List DocToken) (body : TypeBody) : Prop where
  element : ∀ x ∈ body.element?, Lies i ts rest x.span
  bound : ∀ x ∈ body.bound?, Lies i ts rest x.span
  fields : ∀ l ∈ body.fields?, Lies i ts rest l.span

section
variable {body : TypeBody}

theorem lies_tableType (hi : i.Scanned) (hfault : i.fault? = none) (hts : ts <:+ i.tokens)
    (h : Returns tableType i ts body rest) : BodyLies i ts rest body := by
  obtain ⟨-, opened, element, hskip, helement, rfl⟩ := returns_tableType.1 h
  have hof := hskip.suffix.trans ts.tail_suffix
  have hlies := (lies_typeTail hi hfault (hof.trans hts) helement).widen hi hfault hts hof
    (List.suffix_refl _)
  exact ⟨by simpa [TypeBody.element?] using hlies, by simp [TypeBody.bound?],
    by simp [TypeBody.fields?]⟩

theorem lies_arrayType (hi : i.Scanned) (hfault : i.fault? = none) (hts : ts <:+ i.tokens)
    (h : Returns arrayType i ts body rest) : BodyLies i ts rest body := by
  obtain ⟨-, bound, closing, opened, element, hbound, hskip, helement, rfl⟩ :=
    returns_arrayType.1 h
  have hof := hskip.suffix.trans (hbound.suffix.trans ts.tail_suffix)
  have hlies := lies_typeTail hi hfault (hof.trans hts) helement
  refine ⟨?_, fun x hx => ?_, by simp [TypeBody.fields?]⟩
  · simpa [TypeBody.element?] using hlies.widen hi hfault hts hof (List.suffix_refl _)
  · exact (lies_arrayBound? hi hfault (ts.tail_suffix.trans hts) hbound x hx).widen hi hfault hts
      ts.tail_suffix (hlies.suffix.trans hskip.suffix)

theorem lies_recordType (hi : i.Scanned) (hfault : i.fault? = none) (hts : ts <:+ i.tokens)
    (h : Returns recordType i ts body rest) : BodyLies i ts rest body := by
  obtain ⟨-, hopen, l, hl, rfl⟩ := returns_recordType.1 h
  have hlies := (lies_fieldList hi hfault (ts.tail_suffix.trans hts) hopen hl).widen hi hfault hts
    ts.tail_suffix (List.suffix_refl _)
  exact ⟨by simp [TypeBody.element?], by simp [TypeBody.bound?],
    by simpa [TypeBody.fields?] using hlies⟩

theorem lies_refCursorType (hi : i.Scanned) (hfault : i.fault? = none) (hts : ts <:+ i.tokens)
    (h : Returns refCursorType i ts body rest) : BodyLies i ts rest body := by
  obtain ⟨-, -, -, h⟩ := returns_refCursorType.1 h
  split at h
  · obtain ⟨rfl, -⟩ := h
    exact ⟨by simp [TypeBody.element?], by simp [TypeBody.bound?], by simp [TypeBody.fields?]⟩
  · obtain ⟨-, x, hx, rfl⟩ := h
    have hreturn : ts.tail.tail <:+ ts := ts.tail.tail_suffix.trans ts.tail_suffix
    have hlies := (lies_typeTail hi hfault (hreturn.trans hts) hx).widen hi hfault hts hreturn
      (List.suffix_refl _)
    exact ⟨by simpa [TypeBody.element?] using hlies, by simp [TypeBody.bound?],
      by simp [TypeBody.fields?]⟩

/-- The parts of a type stand behind its name. -/
theorem lies_typeBody? (hi : i.Scanned) (hfault : i.fault? = none) (hts : ts <:+ i.tokens)
    {x : Ident} (h : Returns (typeBody? x) i ts (some body) rest) : BodyLies i ts rest body := by
  rcases returns_of_typeBody? h with h | h | ⟨-, h⟩ | ⟨-, h⟩
  · exact lies_tableType hi hfault hts h
  · exact lies_arrayType hi hfault hts h
  · exact lies_recordType hi hfault hts h
  · exact lies_refCursorType hi hfault hts h

end

theorem lies_typeDecl? (hi : i.Scanned) (hfault : i.fault? = none) {d : DocToken}
    (hts : d :: us <:+ i.tokens) {t : TypeDecl} (h : Returns typeDecl? i (d :: us) (some t) rest) :
    Lies i (d :: us) rest t.span := by
  obtain ⟨-, hname, -, -, -, body?, hbody, ht⟩ := returns_typeDecl?.1 h
  obtain ⟨body, rfl, rfl⟩ := Option.map_eq_some_iff.1 ht.symm
  cases us with
  | nil => exact absurd (hi.eof_kind.symm.trans hname) (by simp)
  | cons n vs =>
    have hvs : vs <:+ i.tokens := ((List.suffix_cons n vs).trans (List.suffix_cons d _)).trans hts
    obtain ⟨helement, hbound, hfields⟩ := lies_typeBody? hi hfault (vs.tail_suffix.trans hvs) hbody
    obtain ⟨hn, hwide⟩ := lies_name hi hfault hts (hbody.suffix.trans vs.tail_suffix)
    have hpart {s : Span} (hs : Lies i vs.tail rest s) : Lies i (d :: n :: vs) rest s :=
      hwide (hs.widen hi hfault hvs vs.tail_suffix (List.suffix_refl _))
    cases body with
    | table element => exact hn.merge (hpart (helement element rfl))
    | record fields => exact hn.merge (hpart (hfields fields rfl))
    | refCursor result => exact hn.merge? (.of_option fun y hy => hpart (helement y hy))
    | varray bound element =>
      cases bound with
      | none => exact hn.merge (hpart (helement element rfl))
      | some bound =>
        exact (hn.merge (hpart (hbound bound rfl))).merge (hpart (helement element rfl))

/-- **One declaration** stands between where its parser starts and where it stops. -/
theorem lies_item? (hi : i.Scanned) (hfault : i.fault? = none) (hts : ts <:+ i.tokens)
    {item : Item} (h : Returns item? i ts (some item) rest) : Lies i ts rest item.span := by
  obtain ⟨d, us, rfl⟩ := List.exists_cons_of_ne_nil (ne_nil_of_item? hi h)
  have hkind := returns_of_item? h
  cases item with
  | field f => exact lies_variableField hi hfault hts hkind
  | subtype s => exact lies_subtype hi hfault hts hkind.2
  | routine r =>
    obtain ⟨-, -, hr⟩ := hkind
    exact lies_routine hi hfault hts hr
  | cursor c => exact lies_cursor hi hfault hts hkind.2
  | type t => exact lies_typeDecl? hi hfault hts hkind.2

/-- A declaration takes up room: at least its name. -/
theorem nonempty_item? (hi : i.Scanned) (hfault : i.fault? = none) (hts : ts <:+ i.tokens)
    {item : Item} (h : Returns item? i ts (some item) rest) : item.span.start < item.span.stop := by
  obtain ⟨d, us, rfl, hintroduced, -⟩ := confined_item? hi hfault hts h
  obtain ⟨behind, hscans, -⟩ := hi.scans
  have hintroduces {t : Token} {word : Keyword} {x : Ident} (h : Introduces i.raw t word x) :
      x.span.start < x.span.stop := by
    obtain ⟨before, between, n, after, hraw, -, -, -, rfl⟩ := h
    exact hscans.start_lt_stop (by simp [hraw])
  have hname : item.name.span.start < item.name.span.stop := by
    cases item with
    | field f =>
      obtain ⟨hmem, -, hname⟩ := hintroduced
      rw [Item.name, hname]
      exact hscans.start_lt_stop hmem
    | subtype | routine | cursor | type => exact hintroduces hintroduced
  obtain ⟨hstart, hstop⟩ := item.name_within
  omega

/-! ## Statements -/

/-- Declarations, latest first, that stand one behind the other from one offset to
    another. -/
structure Stacked (n m : Nat) (items : List Item) : Prop where
  apart : items.Pairwise fun a b => b.span.stop ≤ a.span.start
  nonempty : ∀ item ∈ items, item.span.start < item.span.stop
  behind : ∀ item ∈ items, n ≤ item.span.start
  before : ∀ item ∈ items, item.span.stop ≤ m

theorem Stacked.nil (n m : Nat) : Stacked n m [] := ⟨.nil, by simp, by simp, by simp⟩

theorem Stacked.mono {n m m' : Nat} {items : List Item} (h : Stacked n m items) (hm : m ≤ m') :
    Stacked n m' items :=
  ⟨h.apart, h.nonempty, h.behind, fun item hitem => Nat.le_trans (h.before item hitem) hm⟩

/-- One more declaration. -/
theorem Stacked.cons {n m m' : Nat} {items : List Item} {item : Item} (h : Stacked n m items)
    (hn : n ≤ m) (hm : m ≤ item.span.start) (hitem : item.span.start < item.span.stop)
    (hm' : item.span.stop ≤ m') : Stacked n m' (item :: items) where
  apart := List.pairwise_cons.2 ⟨fun a ha => Nat.le_trans (h.before a ha) hm, h.apart⟩
  nonempty := List.forall_mem_cons.2 ⟨hitem, h.nonempty⟩
  behind := List.forall_mem_cons.2 ⟨Nat.le_trans hn hm, h.behind⟩
  before := List.forall_mem_cons.2 ⟨hm', fun a ha => by have := h.before a ha; omega⟩

/-- **One statement after the other.**  The declarations that were found stand before
    the place that the parser has come to, and so the next one stands behind them.  The
    induction is on the rounds; where a declaration is skipped, only the place moves. -/
theorem Rounds.stacked (hi : i.Scanned) (hfault : i.fault? = none) {found found' : Found} {n : Nat}
    (h : Rounds i found ts found' rest) (hts : ts <:+ i.tokens) (hn : n ≤ (i.current ts).span.start)
    (hlast : n ≤ found.last) (hfound : Stacked n (i.current ts).span.start found.items) :
    n ≤ found'.last ∧ Stacked n (i.current rest).span.start found'.items := by
  induction h with
  | refl => exact ⟨hlast, hfound⟩
  | @step found found' t us mid rest item? _ _ hitem _ ih =>
    have hus : us <:+ i.tokens := (List.suffix_cons t us).trans hts
    have hnext := current_mono hi hfault hts (List.suffix_cons t us)
    have hmid := current_mono hi hfault hus hitem.suffix
    refine ih (hitem.suffix.trans hus) (by omega) (by simp only; omega) ?_
    cases item? with
    | none => exact hfound.mono (by omega)
    | some item =>
      have hlies := lies_item? hi hfault hus hitem
      exact hfound.cons hn (Nat.le_trans hnext hlies.start) (nonempty_item? hi hfault hus hitem)
        hlies.stop

/-! ## Packages -/

theorem lies_packageName (hi : i.Scanned) (hfault : i.fault? = none) (hts : ts <:+ i.tokens)
    {x : Ident} (h : Returns packageName i ts x rest) :
    Lies i ts rest x.span ∧ x.span.start ≤ x.span.stop := by
  obtain ⟨schema, n, behind, rfl, ⟨clauses, rfl⟩, rfl, -⟩ := tokens_packageName hi.eof_kind h
  refine ⟨.token hi hfault hts (schema ++ n :: clauses) (by simp) (by simp), ?_⟩
  exact Nat.le_of_lt (hi.start_lt_stop (hts.subset (by simp)))

/-- The word `create` of the next statement stands on the way to it. -/
theorem Creates.lies (hi : i.Scanned) (hfault : i.fault? = none) (hts : ts <:+ i.tokens)
    {create : DocToken} (h : Creates i ts create us) :
    create ∈ ts ∧ create.kind = .keyword .create ∧ Lies i ts us create.span := by
  obtain ⟨t, hnext, -⟩ := h
  obtain ⟨hsplit, -, hcreate⟩ := returns_nextCreate?.1 hnext
  rw [if_neg (by simp)] at hcreate
  rcases pendingCreate_cases hcreate.symm with ⟨hnone, -⟩ | ⟨before, between, hpassed, hkind, -⟩
  · cases hnone
  · have happend := splitPackage_append none ts
    rw [hpassed, ← hsplit] at happend
    exact ⟨by simp [← happend], hkind, .token hi hfault hts
      (before ++ create :: between ++ [t]) (by simp [← happend]) (by simp)⟩

/-- Behind the `end` of a package no other one is created before it ends. -/
theorem last_le_of_packageEnd (hi : i.Scanned) {e : DocToken} (hts : e :: us <:+ i.tokens)
    {name : Ident} {last : Nat} (h : Returns (packageEnd name) i (e :: us) last rest) :
    e.span.stop ≤ last ∧ ∀ c ∈ rest, c.kind = .keyword .create → last ≤ c.span.start := by
  obtain ⟨before, hbefore⟩ := id hts
  have hle := (hi.order_at hbefore).2.2
  obtain ⟨-, rfl, hlast⟩ := returns_packageEnd.1 h
  split at hlast
  · rename_i hident
    obtain ⟨-, rfl⟩ := hlast
    obtain ⟨n, after, rfl, -⟩ := cons_of_current hi.eof_kind hident (by simp)
    have hsplit : (before ++ [e]) ++ n :: after = i.tokens := by simpa using hbefore
    obtain ⟨-, hlt, hafter⟩ := hi.order_at hsplit
    refine ⟨Nat.le_trans (hle n (by simp)) (Nat.le_of_lt hlt), fun c hc hkind => ?_⟩
    rcases List.mem_cons.1 hc with rfl | hc
    · exact absurd (hident.symm.trans hkind) (by simp)
    · exact hafter c hc
  · obtain rfl := hlast
    exact ⟨Nat.le_refl _, fun c hc _ => hle c hc⟩

/-- A package of which the declarations were found one behind the other. -/
theorem Stacked.arranged {doc : Option CommentGroup} {name : Ident} {first last m : Nat}
    {items : List Item} (h : Stacked name.span.stop m items) (hfirst : first ≤ name.span.start)
    (hname : name.span.start ≤ name.span.stop) (hlast : name.span.stop ≤ last) :
    (Package.ofItems doc name first last items.reverse).Arranged :=
  Package.arranged_ofItems doc hfirst hname hlast
    (fun item hitem => h.behind item (List.mem_reverse.1 hitem))
    (fun item hitem => h.nonempty item (List.mem_reverse.1 hitem))
    (List.pairwise_reverse.2 h.apart)

/-- **A package that is closed** is arranged, its declarations stand before the word that
    closes it, and no other package is created before it ends. -/
theorem Closes.arranged (hi : i.Scanned) (hfault : i.fault? = none) (hus : us <:+ i.tokens)
    {create : DocToken} {p : Package} (hcreate : create.span.start ≤ (i.current us).span.start)
    (h : Closes i create us p rest) :
    p.Arranged ∧ (∃ e, p.ClosedBy i.raw e ∧ ∀ item ∈ p.items, item.span.stop ≤ e.span.start) ∧
      ∀ c ∈ rest, c.kind = .keyword .create → p.last ≤ c.span.start := by
  obtain ⟨name, opening, found, t, e, behind, hname, hrounds, hend, hlast, hp⟩ := h
  have hopening : opening <:+ i.tokens := hname.suffix.trans hus
  have hts : t :: e :: behind <:+ i.tokens := hrounds.suffix.trans hopening
  have he : e :: behind <:+ i.tokens := (List.suffix_cons t _).trans hts
  obtain ⟨hlies, hle⟩ := lies_packageName hi hfault hus hname
  obtain ⟨-, hstacked⟩ :=
    hrounds.stacked hi hfault hopening hlies.stop hlies.stop (.nil _ _)
  -- the name of the package stands before its `end`, and so do its declarations
  have hstep : t.span.start ≤ e.span.start := current_mono hi hfault hts (List.suffix_cons t _)
  have hname_le : name.span.stop ≤ t.span.start :=
    Nat.le_trans hlies.stop (current_mono hi hfault hopening hrounds.suffix)
  have hlt := hi.start_lt_stop (d := e) (he.subset (by simp))
  obtain ⟨hstop, hcreates⟩ := last_le_of_packageEnd hi he hlast
  refine ⟨?_, ⟨e.token, ?_, fun item hitem => ?_⟩, hcreates⟩
  · rw [hp]
    exact hstacked.arranged (Nat.le_trans hcreate hlies.start) hle (by omega)
  · obtain rfl : p.name = name := congrArg Package.name hp
    exact closedBy_of_packageEnd hi he hend hlast
  · rw [hp] at hitem
    have hmem := List.mem_reverse.1 (Package.mem_of_mem_items hitem)
    exact Nat.le_trans (hstacked.before item hmem) hstep

theorem CutsOff.arranged (hi : i.Scanned) (hfault : i.fault? = none) (hus : us <:+ i.tokens)
    {create : DocToken} {p : Package} (hcreate : create.span.start ≤ (i.current us).span.start)
    (h : CutsOff i create us p) : p.Arranged := by
  obtain ⟨name, opening, found, hname, hrounds, rfl⟩ := h
  obtain ⟨hlies, hle⟩ := lies_packageName hi hfault hus hname
  obtain ⟨hlast, hstacked⟩ :=
    hrounds.stacked hi hfault (hname.suffix.trans hus) hlies.stop hlies.stop (.nil _ _)
  exact hstacked.arranged (Nat.le_trans hcreate hlies.start) hle hlast

theorem Closes.first {create : DocToken} {p : Package} (h : Closes i create us p rest) :
    p.first = create.span.start := by
  obtain ⟨name, opening, found, t, e, behind, -, -, -, -, hp⟩ := h
  exact congrArg Package.first hp

/-! ## The packages of a file -/

/-- **The packages of an outline** are arranged and stand one behind the other, those that
    are closed with their declarations before the words that close them.  The induction
    is on the outline; the packages behind a place start at words `create` that are left
    there. -/
theorem Outline.arranged (hi : i.Scanned) (hfault : i.fault? = none) {closed : List Package}
    {cut? : Option Package} (h : Outline i ts closed cut?) (hts : ts <:+ i.tokens) :
    (∀ p ∈ closed ++ cut?.toList, p.Arranged ∧
      ∃ c ∈ ts, c.kind = .keyword .create ∧ p.first = c.span.start) ∧
    (∀ p ∈ closed, ∃ e, p.ClosedBy i.raw e ∧ ∀ item ∈ p.items, item.span.stop ≤ e.span.start) ∧
    (closed ++ cut?.toList).Pairwise fun p q => p.span.stop ≤ q.span.start := by
  induction h with
  | done => simp
  | body hcreates _ hskip _ ih =>
    have hrest := hskip.suffix.trans hcreates.suffix
    obtain ⟨harranged, hclosed, hpairwise⟩ := ih (hrest.trans hts)
    refine ⟨fun p hp => ?_, hclosed, hpairwise⟩
    obtain ⟨hp, c, hc, hcreate⟩ := harranged p hp
    exact ⟨hp, c, hrest.subset hc, hcreate⟩
  | @closed ts us rest create p closed cut? hcreates _ hcloses _ ih =>
    have hrest := hcloses.suffix.trans hcreates.suffix
    obtain ⟨harranged, hclosed, hpairwise⟩ := ih (hrest.trans hts)
    obtain ⟨hmem, hkind, hlies⟩ := hcreates.lies hi hfault hts
    have hlt := hi.start_lt_stop (hts.subset hmem)
    have hle := hlies.stop
    obtain ⟨hp, hend, hbehind⟩ :=
      hcloses.arranged hi hfault (hcreates.suffix.trans hts) (by omega)
    refine ⟨List.forall_mem_cons.2 ⟨⟨hp, create, hmem, hkind, hcloses.first⟩, fun q hq => ?_⟩,
      List.forall_mem_cons.2 ⟨hend, hclosed⟩, List.pairwise_cons.2 ⟨fun q hq => ?_, hpairwise⟩⟩
    · obtain ⟨hq, c, hc, hcreate⟩ := harranged q hq
      exact ⟨hq, c, hrest.subset hc, hcreate⟩
    · obtain ⟨-, c, hc, hkind', hfirst⟩ := harranged q hq
      have hlast := hbehind c hc hkind'
      have hp := hp.start_le_last
      show Nat.max p.last p.first ≤ q.first
      exact Nat.max_le.2 ⟨by omega, by omega⟩
  | @cutOff ts us create p hcreates _ hcuts =>
    obtain ⟨hmem, hkind, hlies⟩ := hcreates.lies hi hfault hts
    have hlt := hi.start_lt_stop (hts.subset hmem)
    have hle := hlies.stop
    have hp := hcuts.arranged hi hfault (hcreates.suffix.trans hts) (by omega)
    obtain ⟨name, opening, found, -, -, rfl⟩ := hcuts
    simpa using ⟨hp, create, hmem, hkind, rfl⟩

end Parser

/-! ## Files -/

/-- **Declarations do not overlap.**  In a file that is parsed, the declarations of every
    package stand behind its name and one behind the other, and those of one kind are
    listed in the order of the source; those of a package that is closed stand before the
    word that closes it; and the packages stand one behind the other. -/
theorem parse_disjoint {file : String} {source : ByteArray} {f : SourceFile}
    (h : (parse file source).result = .ok f) :
    ∃ text raw closed cut?, source = text.utf8Encode ∧ tokens? source = some raw ∧
      Parser.Outline (Input.ofText file text) (Input.ofText file text).tokens closed cut? ∧
      f.packages = closed ++ cut?.toList ∧ (∀ p ∈ f.packages, p.Arranged) ∧
      (∀ p ∈ closed, ∃ e, p.ClosedBy raw e ∧ ∀ item ∈ p.items, item.span.stop ≤ e.span.start) ∧
      f.packages.Pairwise fun p q => p.span.stop ≤ q.span.start := by
  obtain ⟨text, rfl, hsize, hfault, hreturns⟩ := text_of_parse h
  have hi := Input.small_ofText file hsize
  obtain ⟨closed, cut?, houtline, hpackages⟩ := (Parser.returns_packages_iff hi.toScanned).1 hreturns
  obtain ⟨harranged, hclosed, hpairwise⟩ := houtline.arranged hi.toScanned hfault (List.suffix_refl _)
  refine ⟨text, _, closed, cut?, rfl, hi.tokens?_source hfault, houtline, hpackages, ?_, hclosed, ?_⟩
  · rw [hpackages]
    exact fun p hp => (harranged p hp).1
  · rw [hpackages]
    exact hpairwise

/-- A package with a function between two variables, and one that the end of the input
    cuts off. -/
def crowdedSource : ByteArray :=
  "create package p is v t; function f return t; w t; end p; create package q is y t;".toUTF8

theorem parse_disjoint_crowded :
    ∃ f, (parse "x.pks" crowdedSource).result = .ok f ∧
      f.packages.map (fun p => (p.span, p.name.span, p.items.map Item.span)) =
        [(⟨0, 56⟩, ⟨15, 16⟩, [⟨20, 23⟩, ⟨46, 49⟩, ⟨34, 44⟩]), (⟨58, 82⟩, ⟨73, 74⟩, [⟨78, 81⟩])] ∧
      ∃ text raw closed cut?, crowdedSource = text.utf8Encode ∧ tokens? crowdedSource = some raw ∧
        Parser.Outline (Input.ofText "x.pks" text) (Input.ofText "x.pks" text).tokens closed cut? ∧
        f.packages = closed ++ cut?.toList ∧ (∀ p ∈ f.packages, p.Arranged) ∧
        (∀ p ∈ closed, ∃ e, p.ClosedBy raw e ∧ ∀ item ∈ p.items, item.span.stop ≤ e.span.start) ∧
        f.packages.Pairwise fun p q => p.span.stop ≤ q.span.start := by
  have hparse : (parse "x.pks" crowdedSource).result.toOption.map
      (·.packages.map fun p => (p.span, p.name.span, p.items.map Item.span)) =
        some [(⟨0, 56⟩, ⟨15, 16⟩, [⟨20, 23⟩, ⟨46, 49⟩, ⟨34, 44⟩]),
          (⟨58, 82⟩, ⟨73, 74⟩, [⟨78, 81⟩])] := by
    decide +kernel
  obtain ⟨f, hresult, hvalue⟩ := exists_ok_of_toOption hparse
  exact ⟨f, hresult, hvalue, parse_disjoint hresult⟩

end PackageDoc
