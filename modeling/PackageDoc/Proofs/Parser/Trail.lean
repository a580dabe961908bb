/-
  The tokens that a parser reads.

  A parser logs each token when it moves there, with the comments before it.  What
  it has logged and what is still unread (`Input.unread`) make up what was unread
  before: this law (`Trail`) holds of every production, be it one that stops with
  an error on the way.  So the tokens of a source are read once and in their order,
  and all of them if the source is parsed.

  Main statement: `parse_trail`.
-/
import PackageDoc.Proofs.Parser.Blame
import PackageDoc.Proofs.Parser.Spans

namespace PackageDoc

open Text

/-! ## Tokens in a log -/

/-- The token that an event tells of, unless that is the end of the input. -/
def Event.readToken? : Event → Option Token
  | .token t _ => if t.kind = .eof then none else some t
  | _ => none

/-- The tokens that were read, in their order. -/
def readTokens (events : List Event) : List Token := events.filterMap Event.readToken?

@[simp]
theorem readTokens_append (events more : List Event) :
    readTokens (events ++ more) = readTokens events ++ readTokens more :=
  List.filterMap_append

theorem readTokens_of_level {e : Event} (h : e.level ≠ .trace) : readTokens [e] = [] := by
  cases e with
  | token t place => exact absurd rfl h
  | _ => rfl

namespace Input

variable {i : Input}

theorem readTokens_map {ts : List Token} (h : ∀ t ∈ ts, t.kind ≠ .eof) :
    readTokens (ts.map i.tokenEvent) = ts := by
  induction ts with
  | nil => rfl
  | cons t ts ih =>
    have ht : (i.tokenEvent t).readToken? = some t := if_neg (h t (by simp))
    have hmore := ih fun u hu => h u (by simp [hu])
    rw [List.map_cons, readTokens, List.filterMap_cons_some ht]
    exact congrArg (t :: ·) hmore

/-- What was scanned and is still to be read where `ts` are left: everything behind
    the first of them. -/
def unread (i : Input) : List DocToken → List Token
  | [] => []
  | _ :: ts => ts.flatMap DocToken.raw ++ i.eof.skipped

namespace Scanned

variable (hi : i.Scanned)

include hi

theorem raw_kind {t : Token} (ht : t ∈ i.raw) : t.kind ≠ .eof := by
  obtain ⟨rest, hscans, -⟩ := hi.scans
  obtain ⟨m, lexeme, piece, mid, -, hread, -⟩ := hscans.reads_of_mem ht
  exact hread.kind_ne_eof

theorem readTokens_arrival {d : DocToken} (hd : d ∈ i.tokens) :
    readTokens (i.arrival d) = d.raw := by
  refine readTokens_map fun t ht => hi.raw_kind ?_
  exact List.mem_append_left _ (List.mem_flatMap.2 ⟨d, hd, ht⟩)

theorem readTokens_arrivals {ds : List DocToken} (hds : ∀ d ∈ ds, d ∈ i.tokens) :
    readTokens (ds.flatMap i.arrival) = ds.flatMap DocToken.raw := by
  induction ds with
  | nil => rfl
  | cons d ds ih =>
    rw [List.flatMap_cons, readTokens_append, hi.readTokens_arrival (hds d (by simp)),
      ih fun u hu => hds u (by simp [hu]), List.flatMap_cons]

theorem readTokens_eof : readTokens [i.tokenEvent i.eof.token] = [] := by
  have heof : (i.tokenEvent i.eof.token).readToken? = none := if_pos hi.eof_kind
  rw [readTokens, List.filterMap_cons_none heof, List.filterMap_nil]

theorem readTokens_endArrival : readTokens i.endArrival = i.eof.skipped := by
  have hskipped : readTokens (i.eof.skipped.map i.tokenEvent) = i.eof.skipped :=
    readTokens_map fun t ht => hi.raw_kind (List.mem_append_right _ ht)
  unfold endArrival
  split
  · exact hskipped
  · rw [arrival, List.map_append, readTokens_append, hskipped, List.map_singleton,
      hi.readTokens_eof, List.append_nil]

end Scanned

end Input

/-! ## The law of the log -/

namespace Parser

variable {α : Type} {i : Input} {ts mid : List DocToken}

/-- A run where `ts` were left has read what it leaves no more to be read; it may
    stop on the way. -/
def Trail (i : Input) (ts : List DocToken) (r : Run α) : Prop :=
  match r.outcome with
  | .ok (_, rest) => readTokens r.events ++ i.unread rest = i.unread ts
  | .error _ => readTokens r.events <+: i.unread ts

/-- Every run of the parser on tokens of the input reads what it passes. -/
def Trails (i : Input) (p : Parser α) : Prop := ∀ ts, ts <:+ i.tokens → Trail i ts (p.run i ts)

theorem Trail.here (i : Input) (ts : List DocToken) (a : α) : Trail i ts ⟨[], .ok (a, ts)⟩ := rfl

theorem Trail.isPrefix {r : Run α} (h : Trail i ts r) : readTokens r.events <+: i.unread ts := by
  unfold Trail at h
  split at h
  · exact ⟨_, h⟩
  · exact h

theorem Trail.eq_unread {r : Run α} {a : α} (h : Trail i ts r) (hr : r.outcome = .ok (a, [])) :
    readTokens r.events = i.unread ts := by
  unfold Trail at h
  rw [hr] at h
  simpa [Input.unread] using h

theorem Trail.bind {β : Type} {p : Parser α} {f : α → Parser β} (hp : Trail i ts (p.run i ts))
    (hf : ∀ a mid, Returns p i ts a mid → Trail i mid ((f a).run i mid)) :
    Trail i ts ((p >>= f).run i ts) := by
  show Trail i ts ((Parser.bind p f).run i ts)
  have hmore := fun a mid (h : (p.run i ts).outcome = .ok (a, mid)) => hf a mid h
  simp only [Parser.bind]
  generalize p.run i ts = r at hp hmore
  obtain ⟨events, e | ⟨a, mid⟩⟩ := r
  · exact hp
  · have hnext := hmore a mid rfl
    simp only [Trail] at hp hnext ⊢
    cases houtcome : ((f a).run i mid).outcome with
    | error e =>
      rw [houtcome] at hnext
      obtain ⟨more, hmore⟩ := hnext
      exact ⟨more, by rw [readTokens_append, List.append_assoc, hmore, hp]⟩
    | ok x =>
      rw [houtcome] at hnext
      show readTokens (events ++ _) ++ i.unread x.2 = i.unread ts
      rw [readTokens_append, List.append_assoc, hnext, hp]

theorem Trails.bind {β : Type} {p : Parser α} {f : α → Parser β} (hp : Trails i p)
    (hf : ∀ a, Trails i (f a)) : Trails i (p >>= f) :=
  fun ts hts => (hp ts hts).bind fun a mid hfirst => hf a mid (hfirst.suffix.trans hts)

theorem Trails.ite {c : Prop} [Decidable c] {p q : Parser α} (hp : Trails i p)
    (hq : Trails i q) : Trails i (if c then p else q) := by
  split
  · exact hp
  · exact hq

theorem Trails.fail (fault : ParseFault) : Trails (α := α) i (Parser.fail fault) :=
  fun _ _ => List.nil_prefix

section
variable (hi : i.Scanned)

include hi

/-- A move reads the tokens behind the current one up to where it ends. -/
theorem trail_arrive {passed rest : List DocToken} (hts : passed ++ rest <:+ i.tokens) :
    Trail i (passed ++ rest) (arrive i passed rest) := by
  cases passed with
  | nil =>
    cases rest with
    | nil => rfl
    | cons t rest => rfl
  | cons t passed =>
    have hpassed : ∀ d ∈ passed, d ∈ i.tokens := fun d hd => hts.subset (by simp [hd])
    cases rest with
    | nil =>
      -- the whole rest of the source is read, be there a fault behind it or not
      have hread : readTokens (passed.flatMap i.arrival ++ i.endArrival) =
          i.unread (t :: passed ++ []) := by
        rw [readTokens_append, hi.readTokens_arrivals hpassed, hi.readTokens_endArrival,
          List.append_nil]
        rfl
      simp only [arrive, List.head?_nil, Option.toList_none, List.append_nil, List.drop_one,
        List.tail_cons, List.isEmpty_nil, List.isEmpty_cons, Bool.not_false,
        Bool.and_self, if_true]
      cases i.fault? with
      | none => simpa [Trail, Input.unread] using hread
      | some e => exact ⟨[], by simpa using hread⟩
    | cons u rest =>
      have hread : ∀ d ∈ passed ++ [u], d ∈ i.tokens := fun d hd =>
        hts.subset (by simp at hd ⊢; tauto)
      show readTokens ((passed ++ [u]).flatMap i.arrival) ++ i.unread (u :: rest) = _
      rw [hi.readTokens_arrivals hread]
      simp [Input.unread]

theorem trails_advance : Trails i advance := by
  intro ts hts
  cases ts with
  | nil =>
    show readTokens [i.tokenEvent i.eof.token] ++ [] = []
    rw [hi.readTokens_eof, List.append_nil]
  | cons t ts =>
    have harrive : Trail i ([t] ++ ts) (arrive i [t] ts) := trail_arrive hi hts
    simp only [advance]
    generalize arrive i [t] ts = r at harrive ⊢
    obtain ⟨events, e | ⟨passed, rest⟩⟩ := r
    · exact harrive
    · exact harrive

/-- A loop reads what its rounds read.  The induction is on the number of tokens
    that are left. -/
theorem Trails.iterate {σ : Type} {step : σ → Parser (σ ⊕ α)} {finish : σ → α}
    (h : ∀ s, Trails i (step s)) (s : σ) : Trails i (Parser.iterate step finish s) := by
  intro ts hts
  generalize hn : ts.length = n
  induction n using Nat.strongRecOn generalizing s ts with
  | _ n ih =>
    cases ts with
    | nil =>
      have hnil : (Parser.iterate step finish s).run i [] = ⟨[], .ok (finish s, [])⟩ := by
        simp only [Parser.iterate, iterateRun]
      rw [hnil]
      exact .here i [] _
    | cons t ts =>
      rw [run_iterate_cons]
      refine (trails_advance hi _ hts).bind fun _ mid hfirst => ?_
      have hmid := hfirst.suffix.trans hts
      refine (h s mid hmid).bind fun x mid' hround => ?_
      cases x with
      | inr a => exact .here i mid' a
      | inl s' =>
        obtain ⟨rfl, -⟩ := returns_advance.1 hfirst
        have hlength := hround.suffix.length_le
        simp only [List.length_cons] at hlength hn
        exact ih mid'.length (by omega) s' mid' (hround.suffix.trans hmid) rfl

/-- Every production reads the tokens that it passes, once and in their order. -/
theorem law_trails : Law fun {_} p => Trails i p where
  pure a ts _ := .here i ts a
  bind := Trails.bind
  iterate := Trails.iterate hi
  current ts _ := .here i ts _
  atEnd ts _ := .here i ts _
  input ts _ := .here i ts _
  log e he ts _ := by
    show readTokens [e] ++ i.unread ts = i.unread ts
    rw [readTokens_of_level he, List.nil_append]
  advance := trails_advance hi
  passTo f hf ts hts := by
    have harrive : Trail i ((f ts).1 ++ (f ts).2) (arrive i (f ts).1 (f ts).2) :=
      trail_arrive hi (by rwa [hf])
    rwa [hf] at harrive
  require kind := .bind (fun ts _ => .here i ts _) fun _ => .ite (fun ts _ => .here i ts _) (.fail _)
  packageEnd x := by
    refine .bind (fun ts _ => .here i ts _) fun _ => (trails_advance hi).bind fun _ => ?_
    refine .bind (fun ts _ => .here i ts _) fun _ => .ite ?_ fun ts _ => .here i ts _
    exact .ite (fun ts _ => .here i ts _) (.fail _)

end

end Parser

/-! ## Sources -/

/-- The tokens of an input are read from its first one on; all of them if it is
    parsed. -/
theorem Input.Scanned.readTokens_parse {i : Input} (hi : i.Scanned) :
    readTokens i.parse.events <+: i.raw ∧
      ∀ f, i.parse.result = .ok f → readTokens i.parse.events = i.raw := by
  have hlaw := (Parser.law_trails hi).packages i.tokens (List.suffix_refl _)
  have hfront := hlaw.isPrefix
  cases hts : i.tokens with
  | nil =>
    have hread : readTokens i.parse.events = i.raw := by
      have hraw : i.raw = i.eof.skipped := by simp [Input.raw, hts]
      rw [hts] at hfront
      cases hfault : i.fault? with
      | some e => simp only [Input.parse, hts, hfault, hi.readTokens_endArrival, hraw]
      | none =>
        simp only [Input.parse, hts, hfault, readTokens_append, hi.readTokens_endArrival, hraw,
          List.prefix_nil.1 hfront, List.append_nil]
    exact ⟨hread ▸ List.prefix_refl _, fun _ _ => hread⟩
  | cons t ts =>
    have hraw : i.raw = t.raw ++ i.unread i.tokens := by simp [Input.raw, hts, Input.unread]
    have hread : readTokens i.parse.events =
        t.raw ++ readTokens (Parser.packages.run i i.tokens).events := by
      simp only [Input.parse, hts, readTokens_append]
      rw [hi.readTokens_arrival (by simp [hts])]
    rw [hread, hraw, List.prefix_append_right_inj]
    refine ⟨hfront, fun f hf => ?_⟩
    obtain ⟨-, -, rest, hreturns⟩ := Input.parse_eq_ok.1 hf
    rw [Parser.eq_nil_of_packages hreturns] at hreturns
    rw [hlaw.eq_unread hreturns]

theorem pos_lt_of_ending {text : List Char} {e : ScanError} (h : (scanText text).ending = .error e)
    {t : Token} (ht : t ∈ (scanText text).tokens) : t.pos < e.pos := by
  obtain ⟨used, rest, passed, -, hscans, hstops⟩ := scans_of_scanText text
  rw [h] at hstops
  have hused : Scans 0 used _ [] := Scans.cut hscans
  have hstart := hused.start_lt_stop ht
  have hstop := hused.stop_le ht
  cases hstops
  simp only [Token.pos] at hstart ⊢
  omega

/-- What a source that has a fault is refused for: the fault, or a token in front of
    it. -/
theorem error_of_scanText {file : String} {text : List Char} {e : ScanError}
    (hsize : text.utf8Encode.size ≤ maxOffset) (h : (scanText text).ending = .error e) :
    ∃ err, (Input.ofText file text).parse.result = .error err ∧
      (err = ⟨file, lineAt text.utf8Encode e.pos, .lexical e.fault⟩ ∨
        ∃ t ∈ (scanText text).tokens, t.kind ≠ .comment ∧ t.pos < e.pos ∧
          ∃ fault, err = ⟨file, lineAt text.utf8Encode t.pos, fault⟩ ∧ fault.Concerns t) := by
  cases hresult : (Input.ofText file text).parse.result with
  | ok f =>
    have hfault := (Input.small_ofText file hsize).fault?_of_parse hresult
    obtain ⟨t, ht⟩ := Input.ending_of_fault? file hfault
    rw [h] at ht
    cases ht
  | error err =>
    refine ⟨err, rfl, ?_⟩
    rcases error_ofText hresult with ⟨s, hs, rfl⟩ | ⟨t, fault, ht, rfl, hconcerns⟩
    · rw [h] at hs
      cases hs
      exact .inl rfl
    · rw [h] at ht
      obtain ⟨hmem, hcomment⟩ := ht.resolve_right nofun
      exact .inr ⟨t, hmem, hcomment, pos_lt_of_ending h hmem, fault, rfl, hconcerns⟩

/-- **Every token is read once.**  The tokens that the parser reads are those of the
    source, in their order and from the first one on, and all of them if the source
    is parsed.  A source with a fault is not parsed: the error is the fault, or it is
    about a token in front of it. -/
theorem parse_trail {file : String} (hfile : file ≠ "") (source : ByteArray) :
    readTokens (parse file source).events <+: scannedTokens source ∧
      (∀ f, (parse file source).result = .ok f →
        tokens? source = some (readTokens (parse file source).events)) ∧
      ∀ e, scanSource source = .error e → ∃ err, (parse file source).result = .error err ∧
        (err = ⟨file, lineAt source e.pos, .lexical e.fault⟩ ∨
          ∃ t ∈ scannedTokens source, t.kind ≠ .comment ∧ t.pos < e.pos ∧
            ∃ fault, err = ⟨file, lineAt source t.pos, fault⟩ ∧ fault.Concerns t) := by
  cases hread : readSource source with
  | error s =>
    rw [parse_of_error hfile hread]
    refine ⟨List.nil_prefix, nofun, fun e he => ⟨_, rfl, .inl ?_⟩⟩
    rw [scanSource, hread] at he
    cases he
    rfl
  | ok text =>
    rw [parse_of_ok hfile hread]
    obtain ⟨hsize, rfl⟩ := readSource_eq_ok_iff.1 hread
    have hi := Input.small_ofText file hsize
    obtain ⟨hfront, hall⟩ := hi.readTokens_parse
    rw [Input.raw_ofText] at hfront hall
    rw [scannedTokens_utf8Encode (by rwa [size_utf8Encode] at hsize)]
    refine ⟨hfront, fun f hf => ?_, fun e he => ?_⟩
    · rw [hall f hf, ← Input.raw_ofText file text]
      exact hi.tokens?_source (hi.fault?_of_parse hf)
    · refine error_of_scanText hsize ?_
      rw [scanSource, hread] at he
      cases hending : (scanText text).ending with
      | ok t => simp [hending] at he
      | error s => simpa [hending] using he

/-- A source with a wrong name in front of a single bar. -/
def barSource : ByteArray := "-- d\ncreate package p is end q; /* c */ x |".toUTF8

theorem parse_trail_bar :
    (readTokens (parse "x.pks" barSource).events).map Token.lexeme =
        ["-- d", "create", "package", "p", "is", "end", "q"] ∧
      readTokens (parse "x.pks" barSource).events <+: scannedTokens barSource ∧
      ∃ e err, scanSource barSource = .error e ∧ (parse "x.pks" barSource).result = .error err ∧
        (err = ⟨"x.pks", lineAt barSource e.pos, .lexical e.fault⟩ ∨
          ∃ t ∈ scannedTokens barSource, t.kind ≠ .comment ∧ t.pos < e.pos ∧
            ∃ fault, err = ⟨"x.pks", lineAt barSource t.pos, fault⟩ ∧ fault.Concerns t) := by
  obtain ⟨hfront, -, hfault⟩ := parse_trail (show "x.pks" ≠ "" by decide) barSource
  refine ⟨by decide +kernel, hfront, ?_⟩
  cases hscan : scanSource barSource with
  | ok x =>
    have hnone : (tokens? barSource).isNone = true := by decide +kernel
    simp [tokens?, hscan, Except.toOption] at hnone
  | error e =>
    obtain ⟨err, hresult, herr⟩ := hfault e hscan
    exact ⟨e, err, rfl, hresult, herr⟩

end PackageDoc
