/-
  Comments behind the fields of a list.

  A comment that starts on the line where a field ends, behind it, never documents that
  field.  Before the comma it documents nothing; behind the comma it documents the next
  field, unless other comments lead that or something stands behind it on its last line
  (`parse_trailing_comments`).
-/
import PackageDoc.Proofs.Parser.LeadDocs

namespace PackageDoc

open Text

/-! ## Lines -/

theorem lineAt_le (source : ByteArray) {m n : Nat} (h : m ≤ n) :
    lineAt source m ≤ lineAt source n := by
  unfold lineAt
  have hle := (List.take_sublist_take_left h (l := source.toList)).count_le 10
  omega

/-- What stands between two places on a line is on that line. -/
theorem lineAt_eq_of_le {source : ByteArray} {m k n : Nat} (hmk : m ≤ k) (hkn : k ≤ n)
    (h : lineAt source n = lineAt source m) : lineAt source k = lineAt source m := by
  have hle := lineAt_le source hmk
  have hle' := lineAt_le source hkn
  omega

/-- The comments on the line of the token before them, up to the last one that starts
    there, document that token. -/
theorem SameLine.mem_of_line {source : ByteArray} {line : Nat} {front back : List Token} {c : Token}
    {same : List PlacedComment}
    (h : SameLine (some line) ((front ++ c :: back).map (·.placed source)) same)
    (hline : ∀ b ∈ front ++ [c], lineAt source b.pos = line) : c.placed source ∈ same := by
  have hrun : (front ++ [c]).map (·.placed source) <+:
      (front ++ c :: back).map (·.placed source) := by simp
  have hfirst : ∀ e ∈ (front ++ [c]).map (·.placed source), e.first = line := by
    intro e he
    obtain ⟨b, hb, rfl⟩ := List.mem_map.1 he
    exact hline b hb
  have hlast : ∀ e ∈ (front ++ [c]).map (·.placed source), e.first ≤ e.last := by
    intro e he
    obtain ⟨b, hb, rfl⟩ := List.mem_map.1 he
    exact Nat.le_add_right _ _
  have hchain : ((front ++ [c]).map (·.placed source)).IsChain PlacedComment.Meets := by
    refine (List.pairwise_of_forall_mem_list fun a ha b hb => ?_).isChain
    show b.first ≤ a.last
    rw [hfirst b hb, ← hfirst a ha]
    exact hlast a ha
  have hhead : ((front ++ c :: back).map (·.placed source)).head?.map (·.first) = some line := by
    have hne : ((front ++ [c]).map (·.placed source)).head?.map (·.first) = some line := by
      cases front <;> simpa using hfirst _ (by simp)
    cases front <;> simpa using hne
  have hlength := h.longest ⟨line, rfl, hhead⟩ _ hrun hchain
  exact (List.prefix_of_prefix_length_le hrun h.front hlength).subset (by simp)

/-! ## Fields next to each other -/

namespace Separated

variable {ps : List FieldPart} {ts : List DocToken}

theorem head {p : FieldPart} (h : Separated (p :: ps) ts) : p.tokens <+: ts := by
  cases h with
  | single => exact List.prefix_refl _
  | cons => exact List.prefix_append _ _

/-- Between the parts of two fields that are next to each other there is just a comma. -/
theorem adjacent (h : Separated ps ts) {front back : List FieldPart} {p q : FieldPart}
    (hps : ps = front ++ p :: q :: back) :
    ∃ us comma vs, ts = us ++ p.tokens ++ comma :: (q.tokens ++ vs) ∧ comma.kind = .op .comma := by
  induction h generalizing front with
  | single r =>
    have hlength := congrArg List.length hps
    simp only [List.length_append, List.length_cons, List.length_nil] at hlength
    omega
  | @cons r comma ps ts hcomma hmore ih =>
    cases front with
    | nil =>
      obtain ⟨rfl, rfl⟩ := List.cons.inj hps
      obtain ⟨vs, rfl⟩ := hmore.head
      exact ⟨[], comma, vs, by simp, hcomma⟩
    | cons s front =>
      obtain ⟨rfl, htail⟩ := List.cons.inj hps
      obtain ⟨us, comma', vs, rfl, hcomma'⟩ := ih htail
      exact ⟨r.tokens ++ comma :: us, comma', vs, by simp, hcomma'⟩

end Separated

/-- Two fields that are next to each other in a list, and their tokens. -/
theorem FieldList.ReadFrom.adjacent {i : Input} {l : FieldList} (h : l.ReadFrom i)
    (heof : i.eof.kind = .eof) {fs ys : List Field} {x y : Field}
    (hfields : l.fields = fs ++ x :: y :: ys) :
    ∃ (before after : List DocToken) (comma : DocToken) (p q : FieldPart),
      i.tokens = before ++ p.tokens ++ comma :: q.name :: after ∧ comma.kind = .op .comma ∧
        p.Gives x ∧ q.Gives y := by
  obtain ⟨t, us, rest, ⟨start, hstart⟩, hreturns⟩ := h
  obtain ⟨ps, inner, close, rfl, -, -, -, hps, hgives⟩ := Parser.tokens_fieldList heof hreturns
  rw [hfields] at hgives
  obtain ⟨p, qs, hp, hmore, hdrop⟩ :=
    List.forall₂_cons_right_iff.1 (List.forall₂_drop_append ps fs _ hgives)
  obtain ⟨q, back, hq, -, rfl⟩ := List.forall₂_cons_right_iff.1 hmore
  have hsplit := List.take_append_drop fs.length ps
  rw [hdrop] at hsplit
  obtain ⟨us, comma, vs, rfl, hcomma⟩ := hps.adjacent hsplit.symm
  refine ⟨start ++ t :: us, q.tokens.tail ++ vs ++ close :: rest, comma, p, q, ?_, hcomma, hp, hq⟩
  simp [← hstart, FieldPart.tokens]

/-! ## Where fields end -/

theorem Ident.stop_le_of_ofTokens? {ts : List Token} {n : Nat}
    (h : ∀ t ∈ ts, t.span.start ≤ n ∧ t.span.stop ≤ n) :
    ∀ x ∈ Ident.ofTokens? ts, x.span.stop ≤ n := by
  intro x hx
  unfold Ident.ofTokens? at hx
  split at hx
  · rename_i first last hfirst hlast
    obtain rfl := Option.some.inj hx
    exact Nat.max_le.2 ⟨(h last (List.mem_of_getLast? hlast)).2,
      (h first (List.mem_of_head? hfirst)).1⟩
  · cases hx

/-- A field ends between the end of its name and that of its tokens. -/
theorem FieldPart.Gives.stop_le {p : FieldPart} {f : Field} (h : p.Gives f) {n : Nat}
    (hp : ∀ d ∈ p.tokens, d.span.start ≤ n ∧ d.span.stop ≤ n) :
    p.name.span.stop ≤ f.span.stop ∧ f.span.stop ≤ n := by
  obtain ⟨first, hfirst, hf⟩ := h.field
  have hmem {ts : List DocToken} (hts : ts ⊆ p.tokens) :
      ∀ t ∈ plainTokens ts, t.span.start ≤ n ∧ t.span.stop ≤ n := by
    intro t ht
    obtain ⟨d, hd, rfl⟩ := List.mem_map.1 ht
    exact hp d (hts hd)
  have htype : (Ident.ofTokens first.span.start (plainTokens p.type)).span.stop ≤ n := by
    have hle := Ident.stop_le_of_ofTokens? (hmem fun d (hd : d ∈ p.type) => by simp [tokens, hd])
    unfold Ident.ofTokens
    cases hx : Ident.ofTokens? (plainTokens p.type) with
    | some x => exact hle x hx
    | none =>
      have hin : first ∈ p.type ++ p.opening?.toList := List.mem_of_head? hfirst
      refine (hp first ?_).1
      simp only [tokens, List.mem_append] at hin ⊢
      tauto
  have hdefault := Ident.stop_le_of_ofTokens? (hmem fun d (hd : d ∈ p.default) => by simp [tokens, hd])
  have hname := (hp p.name (by simp [tokens])).2
  rw [hf]
  simp only [Field.span, Field.ofParameter, Option.map_some, Span.merge?, Span.merge]
  cases hx : Ident.ofTokens? (plainTokens p.default) with
  | none =>
    simp only [Option.map_none]
    omega
  | some x =>
    have hstop := hdefault x hx
    simp only [Option.map_some]
    omega

/-! ## The comments behind a comma -/

/-- The comments `same` on the line of a comma document the name on the line `next` behind
    them: the comments `others` in between do not end just above the name, and nothing
    stands behind `same` on the line where they end. -/
def PassedOn (same others : List PlacedComment) (next : Nat) : Prop :=
  others.getLast?.map (·.last + 1) ≠ some next ∧
    same.getLast?.map (·.last) ≠ some ((others.head?.map (·.first)).getD next)

/-- The doc of a field whose name is the token `d`: the comments on the line of the token
    before it, if they are passed on, and else others or none. -/
theorem Input.fieldDoc_ofText (file : String) (text : List Char) {before after : List DocToken}
    {d : DocToken} (h : (ofText file text).tokens = before ++ d :: after) :
    ∃ same others, d.skipped = same ++ others ∧
      SameLine (before.getLast?.map (lineAt text.utf8Encode ·.token.pos))
        (d.skipped.map (·.placed text.utf8Encode)) (same.map (·.placed text.utf8Encode)) ∧
      let passed := PassedOn (same.map (·.placed text.utf8Encode))
        (others.map (·.placed text.utf8Encode)) (lineAt text.utf8Encode d.token.pos)
      (passed → d.fieldDoc.map (·.comments) =
          if same ≠ [] then some (same.map .ofToken) else none) ∧
        (¬ passed → ∀ g ∈ d.fieldDoc, ∃ run ⊆ others, g.comments = run.map .ofToken) := by
  obtain ⟨same', others', lead, hcs, hsame, hleading, hline, hlead⟩ := attributed_ofText file text h
  obtain ⟨same, others, hskipped, rfl, rfl⟩ := List.map_eq_append_iff.1 hcs
  refine ⟨same, others, hskipped, hsame, ?_⟩
  rw [if_congr hleading.ends_iff rfl rfl] at hlead
  unfold DocToken.fieldDoc PassedOn
  split at hlead
  · rename_i hends
    obtain ⟨g, hg, hcomments⟩ := Option.map_eq_some_iff.1 hlead
    refine ⟨fun hpassed => absurd hends hpassed.1, fun _ g' hg' => ?_⟩
    obtain rfl : g = g' := by simpa [hg] using hg'
    obtain ⟨front, hback⟩ := hleading.back
    obtain ⟨front', run, rfl, -, rfl⟩ := List.map_eq_append_iff.1 hback.symm
    exact ⟨run, List.subset_append_right _ _, by simpa [Function.comp_def] using hcomments⟩
  · rename_i hends
    simp only [Bool.false_eq_true, false_and, false_or] at hline
    rw [Option.map_eq_none_iff.1 hlead, Option.none_or]
    refine ⟨fun hpassed => ?_, fun hpassed g hg => ?_⟩
    · rw [hline, List.map_map]
      exact if_congr (by rw [and_iff_left hpassed.2, ne_eq, List.map_eq_nil_iff]) rfl rfl
    · rw [if_neg fun hlast => hpassed ⟨hends, hlast.2⟩, Option.map_eq_none_iff] at hline
      rw [hline] at hg
      cases hg

/-- The comment `c` starts behind the field `f`, on the line where that ends. -/
structure Token.Trails (c : Token) (source : ByteArray) (f : Field) : Prop where
  kind : c.kind = .comment
  behind : f.span.stop ≤ c.pos
  line : lineAt source c.pos = lineAt source f.span.stop

/-- The comment `c` is in the doc of the field `f`. -/
def Token.Documents (c : Token) (f : Field) : Prop := ∃ g ∈ f.doc, Comment.ofToken c ∈ g.comments

/-- Behind the field `x` stands a comma, and behind that the name `n` of the field `y`; in
    between, the comments `same` are on the line of the comma, and the comments `others`
    are behind these. -/
def Joined (source : ByteArray) (raw : List Token) (x y : Field) (same others : List Token)
    (n : Token) : Prop :=
  ∃ before comma after, raw = before ++ comma :: (same ++ others) ++ n :: after ∧
    comma.kind = .op .comma ∧ (∀ c ∈ same ++ others, c.kind = .comment) ∧
    x.span.stop ≤ comma.pos ∧ y.name = ⟨n.lexeme, n.span⟩ ∧
    SameLine (some (lineAt source comma.pos)) ((same ++ others).map (·.placed source))
      (same.map (·.placed source))

/-- The tokens of a source stand in their order. -/
theorem Input.Scanned.pos_le {i : Input} (hi : i.Scanned) {before after : List Token} {t : Token}
    (h : i.raw = before ++ t :: after) :
    (∀ s ∈ before, s.pos ≤ t.pos) ∧ ∀ s ∈ after, t.pos ≤ s.pos := by
  obtain ⟨rest, hscans, -⟩ := hi.scans
  have hordered := hscans.ordered.imp_of_mem (S := fun s u => s.pos ≤ u.pos) fun hs _ hle =>
    Nat.le_trans (Nat.le_of_lt (hscans.start_lt_stop hs)) hle
  rw [h, List.pairwise_append, List.pairwise_cons] at hordered
  obtain ⟨-, ⟨hafter, -⟩, hbefore⟩ := hordered
  exact ⟨fun s hs => hbefore s hs t (by simp), hafter⟩

/-- No two tokens are the same comment. -/
theorem Input.Scanned.ofToken_inj {i : Input} (hi : i.Scanned) {c e : Token} (hc : c ∈ i.raw)
    (he : e ∈ i.raw) (h : Comment.ofToken c = .ofToken e) : c = e :=
  List.inj_on_of_nodup_map hi.nodup_starts hc he (congrArg Comment.start h)

theorem Field.stop_name_le (f : Field) : f.name.span.stop ≤ f.span.stop := by
  have hmerge (s : Span) (t? : Option Span) : s.stop ≤ (s.merge? t?).stop := by
    cases t? with
    | none => exact Nat.le_refl _
    | some t => exact Nat.le_max_left _ _
  exact Nat.le_trans (hmerge _ _) (hmerge _ _)

section
variable {file : String} {text : List Char} {l : FieldList} (hsize : text.utf8Encode.size ≤ maxOffset)
include hsize

/-- What stands behind a field does not document it. -/
theorem FieldList.ReadFrom.not_documents (h : l.ReadFrom (Input.ofText file text)) {x : Field}
    (hx : x ∈ l.fields) {c : Token} (hc : x.span.stop ≤ c.pos) : ¬ c.Documents x := by
  rintro ⟨g, hg, hmem⟩
  have hi := Input.commented_ofText file hsize
  obtain ⟨d, hd, hname, hdoc⟩ := h.fieldDoc hi.eof_kind x hx
  obtain ⟨before, after, hsplit⟩ := List.append_of_mem hd
  obtain ⟨front, run, between, back, hraw, hcomments, -⟩ :=
    hi.leads hsplit (DocToken.mem_fieldDoc (hdoc ▸ hg))
  rw [hcomments] at hmem
  obtain ⟨e, he, hsame⟩ := List.mem_map.1 hmem
  have hstart : e.pos = c.pos := congrArg Comment.start hsame
  have hle : e.pos ≤ d.span.start := (hi.pos_le hraw).1 e (by simp [he])
  have hlt : d.span.start < d.span.stop := hi.start_lt_stop hd
  have hstop : d.span.stop ≤ x.span.stop := by simpa [hname] using x.stop_name_le
  omega

/-- Fields that are next to each other are joined by a comma, and the doc of the second one
    are the comments on its line, if they are passed on, and else others or none. -/
theorem FieldList.ReadFrom.joined (h : l.ReadFrom (Input.ofText file text))
    (hfault : (Input.ofText file text).fault? = none) {fs ys : List Field} {x y : Field}
    (hfields : l.fields = fs ++ x :: y :: ys) :
    ∃ same others n, Joined text.utf8Encode (Input.ofText file text).raw x y same others n ∧
      let passed := PassedOn (same.map (·.placed text.utf8Encode))
        (others.map (·.placed text.utf8Encode)) (lineAt text.utf8Encode n.pos)
      (passed → y.doc.map (·.comments) = if same ≠ [] then some (same.map .ofToken) else none) ∧
        (¬ passed → ∀ g ∈ y.doc, ∃ run ⊆ others, g.comments = run.map .ofToken) := by
  have hi := Input.commented_ofText file hsize
  obtain ⟨before, after, comma, p, q, htokens, hcomma, hp, hq⟩ := h.adjacent hi.eof_kind hfields
  obtain ⟨first, -, hy⟩ := hq.field
  have hstop : x.span.stop ≤ comma.span.start := by
    refine (hp.stop_le fun d hd => ?_).2
    have hle := Parser.stop_le_current hi.toScanned hfault htokens.symm (s := d) (by simp [hd])
    have hlt := hi.start_lt_stop (d := d) (by simp [htokens, hd])
    exact ⟨Nat.le_trans (Nat.le_of_lt hlt) hle, hle⟩
  have hname : (Input.ofText file text).tokens =
      (before ++ p.tokens ++ [comma]) ++ q.name :: after := by simp [htokens]
  obtain ⟨same, others, hskipped, hsame, hdoc⟩ := Input.fieldDoc_ofText file text hname
  rw [List.getLast?_concat, Option.map_some, hskipped] at hsame
  have hcomments := hi.comments q.name (by simp [hname])
  rw [hskipped] at hcomments
  have hraw := Input.Scanned.raw_eq_pair htokens
  rw [hskipped] at hraw
  refine ⟨same, others, q.name.token, ⟨_, comma.token, _, hraw, hcomma, hcomments, hstop,
    congrArg Field.name hy, hsame⟩, ?_⟩
  rw [show y.doc = q.name.fieldDoc from congrArg Field.doc hy]
  exact hdoc

end

namespace Joined

variable {i : Input} {source : ByteArray} {raw : List Token} {x y : Field}
  {same others : List Token} {n c : Token}

theorem subset_raw (h : Joined source raw x y same others n) : same ++ others ⊆ raw := by
  obtain ⟨before, comma, after, rfl, -⟩ := h
  exact fun c hc =>
    List.mem_append_left _ (List.mem_append_right _ (List.mem_cons_of_mem _ hc))

/-- A comment that trails the first field is on the line of the comma. -/
theorem mem_same (hi : i.Scanned) (h : Joined source i.raw x y same others n)
    (hc : c ∈ same ++ others) (htrails : c.Trails source x) : c ∈ same := by
  have hmem := h.subset_raw
  obtain ⟨before, comma, after, hraw, -, -, hstop, -, hsame⟩ := h
  obtain ⟨front, back, hsplit⟩ := List.append_of_mem hc
  rw [hsplit] at hsame
  -- what stands between the comma and the comment is on the line of both
  have hline : ∀ b ∈ front ++ [c], lineAt source b.pos = lineAt source comma.pos := by
    intro b hb
    have hcomma : comma.pos ≤ b.pos := by
      have hraw' : i.raw = before ++ comma :: (front ++ c :: back ++ n :: after) := by
        simp [hraw, hsplit]
      refine (hi.pos_le hraw').2 b ?_
      simp only [List.mem_append, List.mem_cons] at hb ⊢
      tauto
    have hle : b.pos ≤ c.pos := by
      have hraw' : i.raw = (before ++ comma :: front) ++ c :: (back ++ n :: after) := by
        simp [hraw, hsplit]
      rcases List.mem_append.1 hb with hb | hb
      · exact (hi.pos_le hraw').1 b (by simp [hb])
      · rw [List.mem_singleton.1 hb]
    exact (lineAt_eq_of_le (Nat.le_trans hstop hcomma) hle htrails.line).trans
      (lineAt_eq_of_le hstop (Nat.le_trans hcomma hle) htrails.line).symm
  obtain ⟨e, he, hplaced⟩ := List.mem_map.1 (hsame.mem_of_line hline)
  have heq : e = c := hi.ofToken_inj (hmem (List.mem_append_left _ he)) (hmem hc)
    (congrArg PlacedComment.comment hplaced)
  exact heq ▸ he

theorem not_mem_others (hi : i.Scanned) (h : Joined source i.raw x y same others n)
    (hc : c ∈ same) : c ∉ others := by
  obtain ⟨before, comma, after, hraw, -⟩ := h
  have hnodup := List.Nodup.of_map _ hi.nodup_starts
  rw [hraw, List.nodup_append, List.nodup_append, List.nodup_cons, List.nodup_append] at hnodup
  obtain ⟨⟨-, ⟨-, -, -, hne⟩, -⟩, -⟩ := hnodup
  exact fun hother => hne c hc c hother rfl

end Joined

section
variable {file : String} {text : List Char} {l : FieldList} (hsize : text.utf8Encode.size ≤ maxOffset)
include hsize

/-- The comments that trail a field document the next one if they are passed on. -/
theorem FieldList.ReadFrom.documents_iff (h : l.ReadFrom (Input.ofText file text))
    (hfault : (Input.ofText file text).fault? = none) {fs ys : List Field} {x y : Field}
    (hfields : l.fields = fs ++ x :: y :: ys) :
    ∃ same others n, Joined text.utf8Encode (Input.ofText file text).raw x y same others n ∧
      ∀ c ∈ (Input.ofText file text).raw, c.Trails text.utf8Encode x →
        (c.Documents y ↔ c ∈ same ∧ PassedOn (same.map (·.placed text.utf8Encode))
          (others.map (·.placed text.utf8Encode)) (lineAt text.utf8Encode n.pos)) := by
  have hi := Input.scanned_ofText file text
  obtain ⟨same, others, n, hjoined, hpassed, hother⟩ := h.joined hsize hfault hfields
  refine ⟨same, others, n, hjoined, fun c hc htrails => ?_⟩
  constructor
  · rintro ⟨g, hg, hmem⟩
    have hfrom {run : List Token} (hrun : run ⊆ same ++ others)
        (hcomments : g.comments = run.map .ofToken) : c ∈ run := by
      rw [hcomments] at hmem
      obtain ⟨e, he, heq⟩ := List.mem_map.1 hmem
      exact hi.ofToken_inj (hjoined.subset_raw (hrun he)) hc heq ▸ he
    by_cases hpass : PassedOn (same.map (·.placed text.utf8Encode))
        (others.map (·.placed text.utf8Encode)) (lineAt text.utf8Encode n.pos)
    · have hcomments := hpassed hpass
      rw [Option.mem_def.1 hg] at hcomments
      split at hcomments
      · exact ⟨hfrom (List.subset_append_left _ _) (Option.some.inj hcomments), hpass⟩
      · cases hcomments
    · -- the comments above the name are not on the line of the comma
      obtain ⟨run, hrun, hcomments⟩ := hother hpass g hg
      have hbehind : c ∈ others :=
        hrun (hfrom (fun e he => List.mem_append_right _ (hrun he)) hcomments)
      have hsame := hjoined.mem_same hi (List.mem_append_right _ hbehind) htrails
      exact absurd hbehind (hjoined.not_mem_others hi hsame)
  · rintro ⟨hsame, hpass⟩
    have hcomments := hpassed hpass
    rw [if_pos (List.ne_nil_of_mem hsame)] at hcomments
    obtain ⟨g, hg, hcomments⟩ := Option.map_eq_some_iff.1 hcomments
    exact ⟨g, hg, hcomments ▸ List.mem_map_of_mem hsame⟩

end

/-- **Comments behind fields.**  In a file that is parsed, a comment behind a field of a
    list, on the line where the field ends, does not document that field.  It documents
    the next field if and only if it is behind the comma, no other comments lead the next
    field, and nothing stands behind the comments of the line where they end. -/
theorem parse_trailing_comments {file : String} {source : ByteArray} {f : SourceFile}
    (h : (parse file source).result = .ok f) :
    ∃ raw, tokens? source = some raw ∧ ∀ p ∈ f.packages, ∀ item ∈ p.items, ∀ l ∈ item.list?,
      (∀ x ∈ l.fields, ∀ c ∈ raw, c.Trails source x → ¬ c.Documents x) ∧
      ∀ fs x y ys, l.fields = fs ++ x :: y :: ys → ∃ same others n,
        Joined source raw x y same others n ∧ ∀ c ∈ raw, c.Trails source x →
          (c.Documents y ↔ c ∈ same ∧ PassedOn (same.map (·.placed source))
            (others.map (·.placed source)) (lineAt source n.pos)) := by
  obtain ⟨text, rfl, hsize, hfault, hreturns⟩ := text_of_parse h
  have hi := Input.small_ofText file hsize
  refine ⟨_, hi.tokens?_source hfault, fun p hp item hitem l hl => ?_⟩
  obtain ⟨d, -, -, -, hlist⟩ := Input.takes_of_packages hsize hfault hreturns p hp item hitem
  exact ⟨fun x hx c _ htrails => (hlist l hl).not_documents hsize hx htrails.behind,
    fun fs x y ys hfields => (hlist l hl).documents_iff hsize hfault hfields⟩

/-- A procedure with a comment behind its first parameter. -/
def trailingSource : ByteArray :=
  "create package p is\nprocedure x(a number, -- about a\n  b number);\nend p;".toUTF8

/-- The parameters of the procedure. -/
def trailingParams : FieldList :=
  ⟨31, [.ofParameter none ⟨"a", 32, 33⟩ .unstated ⟨"number", 34, 40⟩ none,
    .ofParameter (CommentGroup.ofList? [⟨"-- about a", 42⟩]) ⟨"b", 55, 56⟩ .unstated
      ⟨"number", 57, 63⟩ none], 63⟩

/-- The package with the procedure. -/
def trailingPackage : Package :=
  .ofItems none ⟨"p", 15, 16⟩ 0 71
    [.routine ⟨none, ⟨"x", 30, 31⟩, some trailingParams, .procedure, none, false, false, false⟩]

theorem parse_trailingSource :
    (parse "x.pks" trailingSource).result = .ok ⟨"x.pks", [trailingPackage]⟩ := by
  decide +kernel

/-- The doc of the second parameter is what stands behind the first one. -/
theorem parse_trailing_comments_params :
    (parse "x.pks" trailingSource).result = .ok ⟨"x.pks", [trailingPackage]⟩ ∧
      trailingParams.fields.map (fun x => docText x.doc) = ["", "about a\n"] ∧
      ∃ raw, tokens? trailingSource = some raw ∧ ∀ p ∈ [trailingPackage], ∀ item ∈ p.items,
        ∀ l ∈ item.list?,
        (∀ x ∈ l.fields, ∀ c ∈ raw, c.Trails trailingSource x → ¬ c.Documents x) ∧
        ∀ fs x y ys, l.fields = fs ++ x :: y :: ys → ∃ same others n,
          Joined trailingSource raw x y same others n ∧ ∀ c ∈ raw, c.Trails trailingSource x →
            (c.Documents y ↔ c ∈ same ∧ PassedOn (same.map (·.placed trailingSource))
              (others.map (·.placed trailingSource)) (lineAt trailingSource n.pos)) :=
  ⟨parse_trailingSource, by decide +kernel, parse_trailing_comments parse_trailingSource⟩

/-- A comment behind a parameter, on the line where it ends, that is not its doc but the
    doc of the next one. -/
theorem trailing_comment_passed_on :
    ∃ f raw, (parse "x.pks" trailingSource).result = .ok f ∧ tokens? trailingSource = some raw ∧
      ∃ p ∈ f.packages, ∃ item ∈ p.items, ∃ l ∈ item.list?, ∃ fs x y ys,
        l.fields = fs ++ x :: y :: ys ∧ ∃ c ∈ raw, c.Trails trailingSource x ∧
          c.Documents y ∧ ¬ c.Documents x := by
  have htokens : (tokens? trailingSource).map (·[10]?) =
      some (some ⟨.comment, "-- about a", 42, 52⟩) := by
    decide +kernel
  have hline : lineAt trailingSource 42 = lineAt trailingSource 40 := by decide +kernel
  obtain ⟨raw, hraw, hcomment⟩ := Option.map_eq_some_iff.1 htokens
  refine ⟨_, raw, parse_trailingSource, hraw, _, List.mem_singleton_self _, _,
    List.mem_singleton_self _, trailingParams, rfl, [], _, _, [], rfl,
    ⟨.comment, "-- about a", 42, 52⟩, List.mem_of_getElem? hcomment, ⟨rfl, by decide, hline⟩, ?_, ?_⟩
  · exact ⟨⟨[⟨"-- about a", 42⟩], by simp⟩, rfl, by simp [Comment.ofToken, Token.pos]⟩
  · rintro ⟨g, hg, -⟩
    cases hg

end PackageDoc
