/-
  Texts and their bytes.

  `decode` reads bytes as the text that they encode, and nothing else:
  `decode_eq_ok_iff` says that it gives a text exactly if the bytes are the UTF-8
  form of that text.  So a statement about a source is one about its text, and
  the pieces of a text stand at the byte offsets that `byteLength` measures
  (`extract_utf8Encode`).  Its line feeds can be counted in the bytes
  (`count_utf8Encode`).  Where `decode` stops the bytes are ill-formed
  (`illFormedAt_of_decode`), behind the text that they hold up to there
  (`split_of_decode_error`).
-/
import PackageDoc.Text.Lines
import PackageDoc.Text.Utf8

namespace PackageDoc.Text

theorem size_utf8Encode (cs : List Char) : cs.utf8Encode.size = byteLength cs := by
  induction cs with
  | nil => rfl
  | cons c cs ih =>
    rw [List.utf8Encode_cons, ByteArray.size_append, List.utf8Encode_singleton,
      List.size_toByteArray, String.length_utf8EncodeChar, ih, byteLength_cons]

/-- What is decoded behind some bytes does not depend on them. -/
theorem utf8DecodeChar?_append (bytes more : ByteArray) (i : Nat) :
    (bytes ++ more).utf8DecodeChar? (bytes.size + i) = more.utf8DecodeChar? i := by
  rw [ByteArray.utf8DecodeChar?_eq_utf8DecodeChar?_extract, ByteArray.size_append,
    ByteArray.extract_append_size_add, ← ByteArray.utf8DecodeChar?_eq_utf8DecodeChar?_extract]

/-- Decoding reads an encoded piece and goes on behind it. -/
theorem decodeFrom_append (bytes more : ByteArray) (cs done : List Char) :
    decodeFrom (bytes ++ (cs.utf8Encode ++ more)) bytes.size done =
      decodeFrom (bytes ++ (cs.utf8Encode ++ more)) (bytes.size + byteLength cs)
        (cs.reverse ++ done) := by
  induction cs generalizing bytes done with
  | nil => simp
  | cons c cs ih =>
    have hc : (bytes ++ ((c :: cs).utf8Encode ++ more)).utf8DecodeChar? bytes.size = some c := by
      rw [← Nat.add_zero bytes.size, utf8DecodeChar?_append, List.utf8Encode_cons,
        ByteArray.append_assoc]
      exact List.utf8DecodeChar?_utf8Encode_singleton_append
    have hlt : bytes.size < (bytes ++ ((c :: cs).utf8Encode ++ more)).size := by
      have := c.utf8Size_pos
      simp only [ByteArray.size_append, size_utf8Encode, byteLength_cons]
      omega
    have hjoin : bytes ++ [c].utf8Encode ++ (cs.utf8Encode ++ more) =
        bytes ++ ((c :: cs).utf8Encode ++ more) := by
      rw [List.utf8Encode_cons (l := cs), ByteArray.append_assoc, ByteArray.append_assoc]
    have hstep := ih (bytes ++ [c].utf8Encode) (c :: done)
    rw [hjoin, ByteArray.size_append, size_utf8Encode, byteLength_cons, byteLength_nil] at hstep
    rw [decodeFrom, if_pos hlt, hc]
    simpa [Nat.add_assoc] using hstep

/-- What is decoded is what the bytes encode. -/
theorem utf8Encode_of_decodeFrom {bytes : ByteArray} {i : Nat} {done text : List Char}
    (h : decodeFrom bytes i done = .ok text) :
    ∃ cs, text = done.reverse ++ cs ∧ bytes.extract i bytes.size = cs.utf8Encode := by
  fun_induction decodeFrom bytes i done with
  | case1 i done hlt c hc ih =>
    obtain ⟨cs, htext, hcs⟩ := ih h
    refine ⟨c :: cs, by simp [htext], ?_⟩
    have hle := ByteArray.le_size_of_utf8DecodeChar?_eq_some hc
    rw [ByteArray.utf8DecodeChar?_eq_utf8DecodeChar?_extract] at hc
    rw [ByteArray.eq_of_utf8DecodeChar?_eq_some hc, List.utf8Encode_cons, ← hcs,
      List.utf8Encode_singleton]
    congr 1
    simp [ByteArray.extract_extract]
    congr 1
    omega
  | case2 => simp at h
  | case3 i done hge =>
    cases h
    refine ⟨[], by simp, ?_⟩
    rw [List.utf8Encode_nil, ByteArray.extract_eq_empty_iff]
    omega

/-- **Decoding is the inverse of encoding**: bytes are read as a text exactly if
    they are its UTF-8 form. -/
theorem decode_eq_ok_iff {bytes : ByteArray} {text : List Char} :
    decode bytes = .ok text ↔ bytes = text.utf8Encode := by
  constructor
  · intro h
    obtain ⟨cs, rfl, hcs⟩ := utf8Encode_of_decodeFrom h
    simpa using hcs
  · rintro rfl
    have h := decodeFrom_append ByteArray.empty ByteArray.empty text []
    simp only [ByteArray.append_empty, ByteArray.empty_append] at h
    rw [decode, ← ByteArray.size_empty, h]
    unfold decodeFrom
    simp [size_utf8Encode]

@[simp] theorem decode_utf8Encode (text : List Char) : decode text.utf8Encode = .ok text :=
  decode_eq_ok_iff.2 rfl

theorem decodeFrom_error (bytes : ByteArray) {more : ByteArray} {i pos : Nat} {done done' : List Char}
    (h : decodeFrom more i done = .error pos) :
    decodeFrom (bytes ++ more) (bytes.size + i) done' = .error (bytes.size + pos) := by
  fun_induction decodeFrom more i done generalizing done' with
  | case1 i done hlt c hc ih =>
    unfold decodeFrom
    rw [if_pos (by rw [ByteArray.size_append]; omega), utf8DecodeChar?_append, hc]
    simpa only [Nat.add_assoc] using ih h
  | case2 i done hlt hc =>
    obtain rfl := Except.error.inj h
    unfold decodeFrom
    rw [if_pos (by rw [ByteArray.size_append]; omega), utf8DecodeChar?_append, hc]
  | case3 => cases h

/-- Behind a text, bytes are ill-formed where they are so by themselves. -/
theorem decode_append_error (text : List Char) {more : ByteArray} {pos : Nat}
    (h : decode more = .error pos) :
    decode (text.utf8Encode ++ more) = .error (text.utf8Encode.size + pos) := by
  have hread := decodeFrom_append ByteArray.empty more text []
  simp only [ByteArray.empty_append] at hread
  rw [decode, ← ByteArray.size_empty, hread]
  simpa [size_utf8Encode] using decodeFrom_error text.utf8Encode h

/-! ## Bytes -/

theorem toList_loop (bytes : ByteArray) (i : Nat) (done : List UInt8) :
    ByteArray.toList.loop bytes i done = done.reverse ++ bytes.data.toList.drop i := by
  fun_induction ByteArray.toList.loop bytes i done with
  | case1 i done hlt ih =>
    have hlt' : i < bytes.data.toList.length := by simpa using hlt
    rw [ih, List.drop_eq_getElem_cons hlt']
    simp [ByteArray.get!, hlt]
  | case2 i done hge =>
    rw [List.drop_eq_nil_of_le (by simpa using hge), List.append_nil]

theorem toList_eq (bytes : ByteArray) : bytes.toList = bytes.data.toList := by
  simp [ByteArray.toList, toList_loop]

theorem toList_append (bytes more : ByteArray) :
    (bytes ++ more).toList = bytes.toList ++ more.toList := by
  simp [toList_eq, ByteArray.data_append]

theorem toByteArray_toList (bytes : ByteArray) : bytes.toList.toByteArray = bytes := by
  apply ByteArray.ext
  rw [List.data_toByteArray, toList_eq, Array.toArray_toList]

theorem length_toList (bytes : ByteArray) : bytes.toList.length = bytes.size := by
  simp [toList_eq]

/-- In UTF-8 a byte below 128 stands for the character with its number, and for
    nothing else. -/
theorem eq_of_mem_utf8EncodeChar {c : Char} {b : UInt8} (hb : b.toNat < 128)
    (h : b ∈ String.utf8EncodeChar c) : c.val.toNat = b.toNat := by
  have hbyte : ∀ n, n < 256 → b = UInt8.ofNat n → n = b.toNat := by
    rintro n hn rfl
    rw [UInt8.toNat_ofNat', Nat.mod_eq_of_lt hn]
  -- the bytes of a longer form have their high bit set
  have hhigh : ∀ n m, 128 ≤ m → n + m < 256 → b ≠ UInt8.ofNat (n + m) := by
    intro n m hm hlt h
    have := hbyte _ hlt h
    omega
  simp only [String.utf8EncodeChar] at h
  split at h
  · rename_i hle
    exact hbyte _ (by omega) (List.mem_singleton.1 h)
  · exfalso
    split at h
    · simp only [List.mem_cons, List.not_mem_nil, or_false] at h
      rcases h with h | h
      · exact hhigh _ _ (by omega) (by omega) h
      · exact hhigh _ _ (by omega) (by omega) h
    · split at h
      · simp only [List.mem_cons, List.not_mem_nil, or_false] at h
        rcases h with h | h | h
        all_goals exact hhigh _ _ (by omega) (by omega) h
      · simp only [List.mem_cons, List.not_mem_nil, or_false] at h
        rcases h with h | h | h | h
        all_goals exact hhigh _ _ (by omega) (by omega) h

/-- In UTF-8 a byte 10 stands for a line feed, and for nothing else. -/
theorem count_utf8EncodeChar (c : Char) :
    (String.utf8EncodeChar c).count 10 = if c = '\n' then 1 else 0 := by
  split
  · rename_i hc
    subst hc
    rfl
  · rename_i hc
    rw [List.count_eq_zero]
    intro h
    exact hc (Char.val_inj.1 (UInt32.toNat_inj.1 (eq_of_mem_utf8EncodeChar (by decide) h)))
theorem toList_utf8Encode_cons (c : Char) (cs : List Char) :
    (c :: cs).utf8Encode.toList = String.utf8EncodeChar c ++ cs.utf8Encode.toList := by
  rw [List.utf8Encode_cons, toList_append, toList_eq, List.utf8Encode_singleton,
    List.data_toByteArray, List.toList_toArray]

/-- The line feeds of a text are its bytes 10. -/
theorem count_utf8Encode (text : List Char) : text.utf8Encode.toList.count 10 = newlines text := by
  induction text with
  | nil => simp [toList_eq, newlines]
  | cons c text ih =>
    rw [toList_utf8Encode_cons, List.count_append, ih, count_utf8EncodeChar]
    by_cases hc : c = '\n' <;> simp [newlines, hc, Nat.add_comm]

theorem count_take_utf8Encode (text : List Char) (more : ByteArray) :
    ((text.utf8Encode ++ more).toList.take (byteLength text)).count 10 = newlines text := by
  rw [toList_append, List.take_left' (by rw [length_toList, size_utf8Encode]), count_utf8Encode]

/-- The bytes of a piece of a text. -/
theorem extract_utf8Encode (as bs cs : List Char) :
    (as ++ bs ++ cs).utf8Encode.extract (byteLength as) (byteLength as + byteLength bs) =
      bs.utf8Encode := by
  have h := ByteArray.extract_append_size_add (a := as.utf8Encode)
    (b := bs.utf8Encode ++ cs.utf8Encode) (i := 0) (j := bs.utf8Encode.size)
  rw [List.utf8Encode_append, List.utf8Encode_append, ← size_utf8Encode, ← size_utf8Encode,
    ByteArray.append_assoc]
  simpa [ByteArray.extract_append_eq_left] using h

theorem byteLength_pos {cs : List Char} (h : cs ≠ []) : 0 < byteLength cs := by
  cases cs with
  | nil => exact absurd rfl h
  | cons c cs =>
    have := c.utf8Size_pos
    rw [byteLength_cons]
    omega

theorem byteLength_le_of_sublist {cs ds : List Char} (h : cs.Sublist ds) :
    byteLength cs ≤ byteLength ds := by
  induction h with
  | slnil => exact Nat.le_refl _
  | cons c _ ih =>
    rw [byteLength_cons]
    omega
  | cons_cons c _ ih =>
    rw [byteLength_cons, byteLength_cons]
    omega

theorem slice_self (cs : List Char) (n : Nat) : slice cs n n = [] := by
  unfold slice
  rw [Nat.sub_self]
  cases dropBytes n cs with
  | nil => rfl
  | cons c cs =>
    have := c.utf8Size_pos
    simp only [takeBytes]
    rw [if_neg (by omega)]

/-- Dropping a leading piece and more leaves what is left of the rest. -/
theorem dropBytes_append_add (cs ds : List Char) (n : Nat) :
    dropBytes (byteLength cs + n) (cs ++ ds) = dropBytes n ds := by
  induction cs with
  | nil => simp
  | cons c cs ih =>
    have := c.utf8Size_pos
    rw [List.cons_append, dropBytes, if_neg (by rw [byteLength_cons]; omega), byteLength_cons,
      show c.utf8Size + byteLength cs + n - c.utf8Size = byteLength cs + n by omega, ih]

/-- A slice behind a leading piece is one of the rest. -/
theorem slice_append_add (cs ds : List Char) (m n : Nat) :
    slice (cs ++ ds) (byteLength cs + m) (byteLength cs + n) = slice ds m n := by
  rw [slice, slice, dropBytes_append_add, Nat.add_sub_add_left]

/-! ## Ill-formed bytes -/

/-- Bytes are ill-formed at an offset: up to there they are UTF-8, and no further. -/
structure IllFormedAt (bytes : ByteArray) (pos : Nat) : Prop where
  lt : pos < bytes.size
  before : (bytes.extract 0 pos).IsValidUTF8
  longest : ∀ n, pos < n → n ≤ bytes.size → ¬ (bytes.extract 0 n).IsValidUTF8

/-- Well-formed bytes that go on behind a text go on with a character. -/
theorem decodeChar_of_valid {bytes : ByteArray} {i n : Nat} {text : List Char}
    (htext : bytes.extract 0 i = text.utf8Encode) (hi : i < n) (hn : n ≤ bytes.size)
    (hvalid : (bytes.extract 0 n).IsValidUTF8) : ∃ c, bytes.utf8DecodeChar? i = some c := by
  obtain ⟨m, hm⟩ := hvalid
  have hsplit : text.utf8Encode ++ bytes.extract i n = m.utf8Encode := by
    rw [← htext, ← hm, ByteArray.extract_append_extract, Nat.min_eq_left (by omega),
      Nat.max_eq_right (by omega)]
  obtain ⟨more, rfl⟩ := List.isPrefix_of_utf8Encode_append_eq_utf8Encode _ hsplit
  rw [List.utf8Encode_append, ByteArray.append_right_inj] at hsplit
  cases more with
  | nil =>
    have hsize := congrArg ByteArray.size hsplit
    simp only [ByteArray.size_extract, List.utf8Encode_nil, ByteArray.size_empty] at hsize
    omega
  | cons c more =>
    refine ⟨c, ?_⟩
    rw [ByteArray.utf8DecodeChar?_eq_utf8DecodeChar?_extract,
      ByteArray.extract_eq_extract_append_extract n (by omega) hn, hsplit, List.utf8Encode_cons,
      ByteArray.append_assoc]
    exact List.utf8DecodeChar?_utf8Encode_singleton_append

theorem illFormedAt_of_decodeFrom {bytes : ByteArray} {i pos : Nat} {done : List Char}
    (h : decodeFrom bytes i done = .error pos)
    (hdone : bytes.extract 0 i = done.reverse.utf8Encode) : IllFormedAt bytes pos := by
  fun_induction decodeFrom bytes i done with
  | case1 i done hlt c hc ih =>
    refine ih h ?_
    have hle := ByteArray.le_size_of_utf8DecodeChar?_eq_some hc
    rw [ByteArray.utf8DecodeChar?_eq_utf8DecodeChar?_extract] at hc
    have hchar : bytes.extract i (i + c.utf8Size) = [c].utf8Encode := by
      have hbytes := congrArg (·.extract 0 c.utf8Size) (ByteArray.eq_of_utf8DecodeChar?_eq_some hc)
      simp only [ByteArray.extract_extract, Nat.add_zero, Nat.min_eq_left hle] at hbytes
      rw [hbytes, List.utf8Encode_singleton, ByteArray.extract_append_eq_left]
      rw [List.size_toByteArray, String.length_utf8EncodeChar]
    rw [ByteArray.extract_eq_extract_append_extract i (by omega) (by omega), hdone, hchar,
      List.reverse_cons, List.utf8Encode_append]
  | case2 i done hlt hnone =>
    cases h
    refine ⟨hlt, ⟨_, hdone⟩, fun n hi hn hvalid => ?_⟩
    obtain ⟨c, hc⟩ := decodeChar_of_valid hdone hi hn hvalid
    rw [hnone] at hc
    cases hc
  | case3 => cases h

/-- Decoding stops where the bytes are ill-formed. -/
theorem illFormedAt_of_decode {bytes : ByteArray} {pos : Nat} (h : decode bytes = .error pos) :
    IllFormedAt bytes pos :=
  illFormedAt_of_decodeFrom h (by simp)

/-- Bytes that are not a text, up to where they are ill-formed and from there on. -/
theorem split_of_decode_error {bytes : ByteArray} {pos : Nat} (h : decode bytes = .error pos) :
    ∃ text more, bytes = text.utf8Encode ++ more ∧ pos = byteLength text ∧
      decode more = .error 0 := by
  obtain ⟨hlt, ⟨text, htext⟩, -⟩ := illFormedAt_of_decode h
  have hbytes : bytes = text.utf8Encode ++ bytes.extract pos bytes.size := by
    rw [← htext, ByteArray.extract_append_extract, Nat.min_eq_left (by omega),
      Nat.max_eq_right (by omega), ByteArray.extract_zero_size]
  have hpos : pos = byteLength text := by
    rw [← size_utf8Encode, ← htext, ByteArray.size_extract]
    omega
  refine ⟨text, _, hbytes, hpos, ?_⟩
  cases hmore : decode (bytes.extract pos bytes.size) with
  | ok more =>
    rw [decode_eq_ok_iff.1 hmore, ← List.utf8Encode_append] at hbytes
    rw [hbytes, decode_utf8Encode] at h
    cases h
  | error pos' =>
    rw [hbytes, decode_append_error text hmore, size_utf8Encode] at h
    have := Except.error.inj h
    rw [show pos' = 0 by omega]

theorem decode_cons_ne_error (c : Char) (bs : List UInt8) :
    decode (String.utf8EncodeChar c ++ bs).toByteArray ≠ .error 0 := by
  have hsplit : (String.utf8EncodeChar c ++ bs).toByteArray = [c].utf8Encode ++ bs.toByteArray := by
    rw [List.utf8Encode_singleton, List.toByteArray_append]
  intro h
  rw [hsplit] at h
  cases hmore : decode bs.toByteArray with
  | ok text =>
    rw [decode_eq_ok_iff.1 hmore, ← List.utf8Encode_append, decode_utf8Encode] at h
    cases h
  | error pos =>
    rw [decode_append_error [c] hmore] at h
    have hzero := Except.error.inj h
    have := c.utf8Size_pos
    simp only [size_utf8Encode, byteLength_cons] at hzero
    omega

end PackageDoc.Text
