/-
  Line ends of two characters.

  A line may end with a carriage return and a line feed.  `withReturns` puts the
  return before every line feed of a text, and `bytesWithReturns` does so with the
  bytes of a source: both come to the same (`utf8Encode_withReturns`).  Bytes that
  hold no return are a text if they are one with returns, and where they are not,
  they are ill-formed on the same line (`decode_bytesWithReturns`).

  `withoutReturns` takes the returns away again, and with them any others.
-/
import PackageDoc.Proofs.Text.Encoding

namespace PackageDoc.Text

/-! ## Texts -/

/-- A text with a carriage return before each line feed. -/
def withReturns (cs : List Char) : List Char :=
  cs.flatMap fun c => if c = '\n' then ['\r', '\n'] else [c]

/-- A text without carriage returns. -/
def withoutReturns (s : String) : String := String.ofList (s.toList.filter (· ≠ '\r'))

@[simp]
theorem withReturns_nil : withReturns [] = [] := rfl

@[simp]
theorem withReturns_newline (cs : List Char) :
    withReturns ('\n' :: cs) = '\r' :: '\n' :: withReturns cs := rfl

@[simp]
theorem withReturns_append (cs ds : List Char) :
    withReturns (cs ++ ds) = withReturns cs ++ withReturns ds :=
  List.flatMap_append

theorem withReturns_cons {c : Char} (hc : c ≠ '\n') (cs : List Char) :
    withReturns (c :: cs) = c :: withReturns cs := by
  simp [withReturns, hc]

theorem withReturns_eq_self {cs : List Char} (h : ∀ c ∈ cs, c ≠ '\n') : withReturns cs = cs := by
  induction cs with
  | nil => rfl
  | cons c cs ih =>
    obtain ⟨hc, hcs⟩ := List.forall_mem_cons.1 h
    rw [withReturns_cons hc, ih hcs]

/-- Characters of a class without the line feed stay as they are. -/
theorem withReturns_of_class {p : Char → Bool} (hp : p '\n' = false) {cs : List Char}
    (h : ∀ c ∈ cs, p c = true) : withReturns cs = cs :=
  withReturns_eq_self fun c hc => ne_of_apply_ne p (by simp [h c hc, hp])

theorem newlines_withReturns (cs : List Char) : newlines (withReturns cs) = newlines cs := by
  induction cs with
  | nil => rfl
  | cons c cs ih =>
    unfold newlines at ih ⊢
    by_cases hc : c = '\n'
    · simp [hc, ih]
    · simp [withReturns_cons hc, ih, hc]

theorem filter_withReturns (cs : List Char) :
    (withReturns cs).filter (· ≠ '\r') = cs.filter (· ≠ '\r') := by
  induction cs with
  | nil => rfl
  | cons c cs ih =>
    by_cases hc : c = '\n'
    · simpa [hc] using ih
    · rw [withReturns_cons hc, List.filter_cons, List.filter_cons, ih]

theorem withoutReturns_withReturns (cs : List Char) :
    withoutReturns (String.ofList (withReturns cs)) = withoutReturns (String.ofList cs) := by
  simp only [withoutReturns, String.toList_ofList, filter_withReturns]

theorem withoutReturns_append (s t : String) :
    withoutReturns (s ++ t) = withoutReturns s ++ withoutReturns t := by
  simp only [withoutReturns, String.toList_append, List.filter_append, String.ofList_append]

/-- Whatever holds of the first character of a text and of a carriage return holds
    of the first character with returns. -/
theorem head?_withReturns {P : Char → Prop} {cs : List Char} (h : ∀ d ∈ cs.head?, P d)
    (hreturn : P '\r') : ∀ d ∈ (withReturns cs).head?, P d := by
  cases cs with
  | nil => exact h
  | cons c cs =>
    by_cases hc : c = '\n'
    · simpa [hc] using hreturn
    · simpa [withReturns_cons hc] using h

/-- A slice with returns, between the places where its ends are with returns. -/
theorem slice_withReturns {front front' back back' text : List Char}
    (h : text = front ++ back) (h' : text = front' ++ back') :
    slice (withReturns text) (byteLength (withReturns front)) (byteLength (withReturns front')) =
      withReturns (slice text (byteLength front) (byteLength front')) := by
  rcases List.append_eq_append_iff.1 (h.symm.trans h') with ⟨body, rfl, rfl⟩ | ⟨body, rfl, rfl⟩
  · have hcut := slice_append front body back'
    have hcut' := slice_append (withReturns front) (withReturns body) (withReturns back')
    rw [h', byteLength_append, hcut, ← hcut']
    simp
  · have hempty : ∀ (cs : List Char) (m n : Nat), slice cs (m + n) m = [] := by
      intro cs m n
      rw [← slice_self cs (m + n), slice, slice, show m - (m + n) = m + n - (m + n) by omega]
    rw [withReturns_append, byteLength_append, byteLength_append, hempty, hempty]
    rfl

/-! ## Bytes -/

/-- Bytes with a carriage return before each line feed. -/
def returnBytes (bs : List UInt8) : List UInt8 :=
  bs.flatMap fun b => if b = 10 then [13, 10] else [b]

/-- A source with a carriage return before each line feed. -/
def bytesWithReturns (source : ByteArray) : ByteArray := (returnBytes source.toList).toByteArray

theorem returnBytes_cons {b : UInt8} (hb : b ≠ 10) (bs : List UInt8) :
    returnBytes (b :: bs) = b :: returnBytes bs := by
  simp [returnBytes, hb]

theorem length_le_returnBytes (bs : List UInt8) : bs.length ≤ (returnBytes bs).length := by
  induction bs with
  | nil => exact Nat.le_refl 0
  | cons b bs ih =>
    by_cases hb : b = 10
    · subst hb
      exact Nat.le_succ_of_le (Nat.succ_le_succ ih)
    · rw [returnBytes_cons hb]
      exact Nat.succ_le_succ ih

theorem size_le_bytesWithReturns (source : ByteArray) :
    source.size ≤ (bytesWithReturns source).size := by
  rw [← length_toList source, bytesWithReturns, List.size_toByteArray]
  exact length_le_returnBytes _

theorem returnBytes_eq_nil {bs : List UInt8} (h : returnBytes bs = []) : bs = [] := by
  cases bs with
  | nil => rfl
  | cons b bs =>
    by_cases hb : b = 10
    · rw [hb] at h
      cases h
    · rw [returnBytes_cons hb] at h
      cases h

theorem returnBytes_eq_self {bs : List UInt8} (h : 10 ∉ bs) : returnBytes bs = bs := by
  induction bs with
  | nil => rfl
  | cons b bs ih =>
    rw [List.mem_cons, not_or] at h
    rw [returnBytes_cons fun hb => h.1 hb.symm, ih h.2]

theorem returnBytes_append (bs cs : List UInt8) :
    returnBytes (bs ++ cs) = returnBytes bs ++ returnBytes cs :=
  List.flatMap_append

theorem returnBytes_utf8EncodeChar {c : Char} (hc : c ≠ '\n') :
    returnBytes (String.utf8EncodeChar c) = String.utf8EncodeChar c := by
  refine returnBytes_eq_self (List.count_eq_zero.1 ?_)
  rw [count_utf8EncodeChar, if_neg hc]

theorem toList_withReturns (text : List Char) :
    (withReturns text).utf8Encode.toList = returnBytes text.utf8Encode.toList := by
  induction text with
  | nil => simp [toList_eq, returnBytes]
  | cons c text ih =>
    by_cases hc : c = '\n'
    · subst hc
      rw [withReturns_newline, toList_utf8Encode_cons, toList_utf8Encode_cons,
        toList_utf8Encode_cons, ih, returnBytes_append]
      rfl
    · rw [withReturns_cons hc, toList_utf8Encode_cons, toList_utf8Encode_cons, ih,
        returnBytes_append, returnBytes_utf8EncodeChar hc]

theorem utf8Encode_withReturns (text : List Char) :
    (withReturns text).utf8Encode = bytesWithReturns text.utf8Encode := by
  rw [bytesWithReturns, ← toList_withReturns, toByteArray_toList]

theorem bytesWithReturns_append (text : List Char) (more : ByteArray) :
    bytesWithReturns (text.utf8Encode ++ more) =
      (withReturns text).utf8Encode ++ bytesWithReturns more := by
  rw [utf8Encode_withReturns]
  simp only [bytesWithReturns, toList_append, returnBytes_append, List.toByteArray_append]

theorem return_not_mem {text : List Char} (h : 13 ∉ text.utf8Encode.toList) : '\r' ∉ text := by
  intro hmem
  obtain ⟨front, back, rfl⟩ := List.append_of_mem hmem
  refine h ?_
  rw [List.utf8Encode_append, toList_append, toList_utf8Encode_cons]
  exact List.mem_append_right _ (List.mem_append_left _ (List.mem_singleton.2 rfl))

/-! ## Ill-formed bytes -/

/-- Bytes that hold neither returns nor line feeds stand in front as they did without
    the returns. -/
theorem eq_append_of_returnBytes {bs cs more : List UInt8} (hcs : 10 ∉ cs ∧ 13 ∉ cs)
    (h : returnBytes bs = cs ++ more) : ∃ more', bs = cs ++ more' := by
  induction cs generalizing bs with
  | nil => exact ⟨bs, rfl⟩
  | cons c cs ih =>
    simp only [List.mem_cons, not_or] at hcs
    cases bs with
    | nil => cases h
    | cons b bs =>
      by_cases hb : b = 10
      · rw [hb] at h
        exact absurd (List.cons.inj h).1 hcs.2.1
      · rw [returnBytes_cons hb, List.cons_append, List.cons.injEq] at h
        obtain ⟨more', rfl⟩ := ih ⟨hcs.1.2, hcs.2.2⟩ h.2
        exact ⟨more', by rw [h.1, List.cons_append]⟩

/-- Bytes that start with a character when they have returns start with one without
    them. -/
theorem starts_of_returnBytes {bs more : List UInt8} {c : Char} (hbs : 13 ∉ bs)
    (h : returnBytes bs = String.utf8EncodeChar c ++ more) :
    ∃ d more', bs = String.utf8EncodeChar d ++ more' := by
  have hchar : ∀ {d : Char} {b : UInt8}, b.toNat < 128 → b ∈ String.utf8EncodeChar c →
      d.val.toNat = b.toNat → c = d := by
    intro d b hb hmem hd
    exact Char.val_inj.1 (UInt32.toNat_inj.1 ((eq_of_mem_utf8EncodeChar hb hmem).trans hd.symm))
  cases bs with
  | nil =>
    have hnil := congrArg List.length h
    have := c.utf8Size_pos
    simp only [returnBytes, List.flatMap_nil, List.length_nil, List.length_append,
      String.length_utf8EncodeChar] at hnil
    omega
  | cons b bs =>
    by_cases hb : b = 10
    · exact ⟨'\n', bs, by rw [hb]; rfl⟩
    · -- neither a line feed nor a return is in front, so the character is as it was
      have hfeed : 10 ∉ String.utf8EncodeChar c := by
        intro hmem
        obtain rfl := hchar (d := '\n') (by decide) hmem rfl
        rw [returnBytes_cons hb] at h
        exact hb (List.cons.inj h).1
      have hreturn : 13 ∉ String.utf8EncodeChar c := by
        intro hmem
        obtain rfl := hchar (d := '\r') (by decide) hmem rfl
        rw [returnBytes_cons hb] at h
        exact hbs (List.mem_cons.2 (.inl (List.cons.inj h).1.symm))
      exact ⟨c, eq_append_of_returnBytes ⟨hfeed, hreturn⟩ h⟩

theorem decode_bytesWithReturns_zero {bytes : ByteArray} (hreturn : 13 ∉ bytes.toList)
    (h : decode bytes = .error 0) : decode (bytesWithReturns bytes) = .error 0 := by
  have hstart : ∀ c more, returnBytes bytes.toList ≠ String.utf8EncodeChar c ++ more := by
    intro c more hbytes
    obtain ⟨d, more', hd⟩ := starts_of_returnBytes hreturn hbytes
    refine decode_cons_ne_error d more' ?_
    rw [← hd, toByteArray_toList, h]
  have htext : ∀ text more, returnBytes bytes.toList = text.utf8Encode.toList ++ more → text = [] := by
    intro text more hbytes
    cases text with
    | nil => rfl
    | cons c text =>
      rw [toList_utf8Encode_cons, List.append_assoc] at hbytes
      exact absurd hbytes (hstart c _)
  have htoList : (bytesWithReturns bytes).toList = returnBytes bytes.toList := by
    rw [bytesWithReturns, toList_eq, List.data_toByteArray, List.toList_toArray]
  cases hdecode : decode (bytesWithReturns bytes) with
  | ok text =>
    have hbytes := decode_eq_ok_iff.1 hdecode
    obtain rfl := htext text [] (by rw [← htoList, hbytes, List.append_nil])
    -- nothing is left with returns, so nothing was there
    have hnil : bytes.toList = [] := by
      refine returnBytes_eq_nil ?_
      rw [← htoList, hbytes, toList_eq, List.utf8Encode_nil]
      rfl
    rw [← toByteArray_toList bytes, hnil, show [].toByteArray = [].utf8Encode from rfl,
      decode_utf8Encode] at h
    cases h
  | error pos =>
    obtain ⟨text, more, hbytes, rfl, -⟩ := split_of_decode_error hdecode
    rw [htext text more.toList (by rw [← htoList, hbytes, toList_append])]
    rfl

/-- **Bytes are a text if and only if they are one with returns**, and where they are
    not, they are ill-formed on the same line. -/
theorem decode_bytesWithReturns {bytes : ByteArray} (hreturn : 13 ∉ bytes.toList) :
    (∃ text, bytes = text.utf8Encode ∧ '\r' ∉ text ∧
      bytesWithReturns bytes = (withReturns text).utf8Encode) ∨
    ∃ pos pos', decode bytes = .error pos ∧ decode (bytesWithReturns bytes) = .error pos' ∧
      ((bytesWithReturns bytes).toList.take pos').count 10 = (bytes.toList.take pos).count 10 := by
  cases hdecode : decode bytes with
  | ok text =>
    obtain rfl := decode_eq_ok_iff.1 hdecode
    exact .inl ⟨text, rfl, return_not_mem hreturn, (utf8Encode_withReturns text).symm⟩
  | error pos =>
    obtain ⟨text, more, rfl, rfl, hmore⟩ := split_of_decode_error hdecode
    rw [toList_append, List.mem_append, not_or] at hreturn
    have hzero := decode_append_error (withReturns text)
      (decode_bytesWithReturns_zero hreturn.2 hmore)
    rw [size_utf8Encode, Nat.add_zero, ← bytesWithReturns_append] at hzero
    refine .inr ⟨_, _, rfl, hzero, ?_⟩
    rw [bytesWithReturns_append, count_take_utf8Encode, count_take_utf8Encode,
      newlines_withReturns]

end PackageDoc.Text
