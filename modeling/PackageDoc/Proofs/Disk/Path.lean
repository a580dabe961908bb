/-
  The order of paths, and the paths of entries.

  A path is ordered by its key: the list of the keys of its components, each a
  list of bytes.  Keys are compared as lists are, so paths are compared component
  by component and names byte by byte (`le_iff_key_le`), and two paths with one
  key are the same (`key_inj`).  A name in a directory adds one component to the
  components of the directory (`components_join`).
-/
import PackageDoc.Disk.Path
import PackageDoc.Proofs.Text.Encoding
import Mathlib.Data.List.Lex
import Mathlib.Data.Nat.Basic
import Mathlib.Order.Lattice

namespace PackageDoc

/-! ## Texts as bytes -/

/-- The bytes of a text in UTF-8, as numbers. -/
def utf8Bytes (s : String) : List Nat := s.toUTF8.toList.map UInt8.toNat

/-- The bytes of a character in UTF-8, as numbers. -/
def charBytes (c : Char) : List Nat := (String.utf8EncodeChar c).map UInt8.toNat

theorem utf8Bytes_eq (s : String) : utf8Bytes s = s.toList.flatMap charBytes := by
  have hbytes : s.toUTF8 = s.toList.utf8Encode := String.utf8Encode_toList.symm
  rw [utf8Bytes, hbytes]
  induction s.toList with
  | nil => simp [Text.toList_eq]
  | cons c cs ih =>
    rw [Text.toList_utf8Encode_cons, List.map_append, ih, List.flatMap_cons]
    rfl

theorem charBytes_ne_nil (c : Char) : charBytes c ≠ [] := by
  intro h
  have := String.length_utf8EncodeChar c
  rw [List.map_eq_nil_iff.1 h] at this
  have := c.utf8Size_pos
  simp_all

theorem div_lt_or_mod_lt {m n : Nat} (k : Nat) (h : m < n) :
    m / k < n / k ∨ m / k = n / k ∧ m % k < n % k := by
  rcases (Nat.div_le_div_right h.le : m / k ≤ n / k).lt_or_eq with hlt | heq
  · exact .inl hlt
  · refine .inr ⟨heq, ?_⟩
    have hm := Nat.div_add_mod m k
    have hn := Nat.div_add_mod n k
    rw [heq] at hm
    omega

/-- The bytes of two characters tell which of them is less, whatever follows. -/
theorem charBytes_append_lt {c d : Char} (h : c < d) (xs ys : List Nat) :
    charBytes c ++ xs < charBytes d ++ ys := by
  have hlt : c.val.toNat < d.val.toNat := UInt32.lt_iff_toNat_lt.1 h
  have hmax : d.val.toNat < 0x110000 := by
    have := d.valid
    simp only [UInt32.isValidChar, Nat.isValidChar] at this
    omega
  have hone := div_lt_or_mod_lt 64 hlt
  have htwo := div_lt_or_mod_lt (m := c.val.toNat / 64) (n := d.val.toNat / 64) 64
  have hthree := div_lt_or_mod_lt (m := c.val.toNat / 4096) (n := d.val.toNat / 4096) 64
  rw [Nat.div_div_eq_div_mul, Nat.div_div_eq_div_mul] at htwo hthree
  simp only [charBytes, String.utf8EncodeChar]
  -- one case for each pair of lengths; a longer form has the greater first byte
  split_ifs <;>
    simp (disch := omega) only [List.map_cons, List.map_nil, List.cons_append, List.nil_append,
      List.cons_lt_cons_iff, UInt8.toNat_ofNat', Nat.mod_eq_of_lt]
  all_goals omega

/-- Texts are ordered by their bytes as by their characters. -/
theorem flatMap_charBytes_lt {cs ds : List Char} (h : cs < ds) :
    cs.flatMap charBytes < ds.flatMap charBytes := by
  induction h with
  | @nil d ds =>
    obtain ⟨b, bs, hb⟩ := List.exists_cons_of_ne_nil (charBytes_ne_nil d)
    simp [hb]
  | cons _ ih => exact List.append_left_lt ih
  | rel h => exact charBytes_append_lt h _ _

theorem utf8Bytes_lt {s t : String} (h : s < t) : utf8Bytes s < utf8Bytes t := by
  rw [utf8Bytes_eq, utf8Bytes_eq]
  exact flatMap_charBytes_lt (String.lt_iff.1 h)

theorem utf8Bytes_le_iff (s t : String) : utf8Bytes s ≤ utf8Bytes t ↔ s ≤ t := by
  constructor
  · intro h
    exact String.not_lt.1 fun hlt => absurd (utf8Bytes_lt hlt) (not_lt.2 h)
  · intro h
    by_cases heq : s = t
    · rw [heq]
    · by_contra hlt
      exact heq (String.le_antisymm h (String.not_lt.1 fun hst => hlt (utf8Bytes_lt hst).le))

theorem utf8Bytes_injective {s t : String} (h : utf8Bytes s = utf8Bytes t) : s = t :=
  String.le_antisymm ((utf8Bytes_le_iff s t).1 h.le) ((utf8Bytes_le_iff t s).1 h.ge)

namespace Path

/-! ## Keys -/

theorem cons_le_cons_iff {α : Type} [LinearOrder α] {a b : α} {as bs : List α} :
    a :: as ≤ b :: bs ↔ a < b ∨ a = b ∧ as ≤ bs := by
  rw [← not_lt, List.cons_lt_cons_iff, ← not_lt]
  rcases lt_trichotomy a b with h | h | h
  · simp [h, h.not_gt, h.ne']
  · simp [h]
  · simp [h, h.not_gt, h.ne']

theorem nil_le {α : Type} [LinearOrder α] (as : List α) : [] ≤ as :=
  not_lt.1 (List.not_lt_nil as)

/-- The key of a component: its rank among the kinds of component, and then the
    bytes of a name. -/
def Component.key : Component → List Nat
  | root => [0]
  | here => [1]
  | up => [2]
  | name s => 3 :: utf8Bytes s

/-- The key that a path is ordered by. -/
def key (p : Path) : List (List Nat) := p.components.map Component.key

theorem Component.key_inj {c d : Component} : c.key = d.key ↔ c = d := by
  refine ⟨fun h => ?_, congrArg _⟩
  cases c <;> cases d <;> simp_all only [Component.key, List.cons.injEq, reduceCtorEq, true_and]
  all_goals first | exact congrArg _ (utf8Bytes_injective h) | omega

theorem Component.le_iff_key_le (c d : Component) : c.le d = true ↔ c.key ≤ d.key := by
  cases c <;> cases d <;>
    simp [Component.le, Component.key, cons_le_cons_iff, utf8Bytes_le_iff, nil_le]

theorem componentsLe_iff (cs ds : List Component) :
    componentsLe cs ds = true ↔ cs.map Component.key ≤ ds.map Component.key := by
  induction cs generalizing ds with
  | nil => simp [componentsLe, nil_le]
  | cons c cs ih =>
    cases ds with
    | nil => simp [componentsLe]
    | cons d ds =>
      by_cases h : c = d
      · subst h
        simp [componentsLe, ih, cons_le_cons_iff]
      · have hkey : c.key ≠ d.key := fun hk => h (Component.key_inj.1 hk)
        simp only [componentsLe, h, if_false, Component.le_iff_key_le, List.map_cons,
          cons_le_cons_iff, hkey, false_and, or_false]
        exact ⟨fun hle => lt_of_le_of_ne hle hkey, le_of_lt⟩

/-- Paths are ordered as their keys are. -/
theorem le_iff_key_le (p q : Path) : p.le q = true ↔ p.key ≤ q.key :=
  componentsLe_iff p.components q.components

theorem key_inj {p q : Path} : p.key = q.key ↔ p.components = q.components := by
  constructor
  · exact fun h => List.map_injective_iff.2 (fun c d => Component.key_inj.1) h
  · exact congrArg _

theorem same_iff_key {p q : Path} : p.same q = true ↔ p.key = q.key := by
  rw [key_inj, same, decide_eq_true_iff]

/-! ## Entries -/

/-- A text that an entry of a directory can have as its name. -/
def IsEntryName (name : String) : Prop := name ∉ ["", ".", ".."] ∧ '/' ∉ name.toList

instance (name : String) : Decidable (IsEntryName name) :=
  inferInstanceAs (Decidable (_ ∧ _))

theorem IsEntryName.innerComponent? {name : String} (h : IsEntryName name) :
    Path.innerComponent? name.toList = some (.name name) := by
  have hne : ∀ s ∈ ["", ".", ".."], name.toList ≠ s.toList := fun s hs heq =>
    h.1 (String.toList_inj.1 heq ▸ hs)
  have h0 : name.toList ≠ [] := hne "" (by simp)
  have h1 : name.toList ≠ ['.'] := hne "." (by simp)
  have h2 : name.toList ≠ ['.', '.'] := hne ".." (by simp)
  simp [Path.innerComponent?, h0, h1, h2]

/-- The components of a path of which the first piece stands before another. -/
def leadComponents : List (List Char) → List Component
  | [] => []
  | [] :: pieces => .root :: pieces.filterMap innerComponent?
  | ['.'] :: pieces => .here :: pieces.filterMap innerComponent?
  | piece :: pieces => (piece :: pieces).filterMap innerComponent?

theorem components_eq {p : Path} (h : p.text ≠ "") :
    p.components = leadComponents (p.text.toList.splitOn '/') := by
  have hsplit : p.text.toList.splitOn '/' ≠ [[]] := by
    intro heq
    have hjoin : ['/'].intercalate (p.text.toList.splitOn '/') = p.text.toList :=
      List.intercalate_splitOn '/'
    rw [heq] at hjoin
    exact h (String.toList_inj.1 hjoin.symm)
  rw [components, leadComponents.eq_def]
  split
  · exact absurd ‹_› (List.splitOn_ne_nil _ _)
  · exact absurd ‹_› hsplit
  all_goals simp_all

theorem leadComponents_append {pieces : List (List Char)} (h : pieces ≠ []) (piece : List Char) :
    leadComponents (pieces ++ [piece]) =
      leadComponents pieces ++ (innerComponent? piece).toList := by
  have hmap : ∀ ps : List (List Char), (ps ++ [piece]).filterMap innerComponent? =
      ps.filterMap innerComponent? ++ (innerComponent? piece).toList := by
    intro ps
    cases hp : innerComponent? piece <;> simp [List.filterMap_append, hp]
  cases pieces with
  | nil => exact absurd rfl h
  | cons first ps =>
    rw [List.cons_append]
    by_cases h0 : first = []
    · simp [leadComponents, h0, hmap]
    · by_cases h1 : first = ['.']
      · simp [leadComponents, h1, hmap]
      · rw [leadComponents.eq_4 _ _ h0 h1, leadComponents.eq_4 _ _ h0 h1]
        exact hmap (first :: ps)

/-- The pieces of the path of an entry are those of the directory and its name; of a
    slash at the end of the directory the empty piece behind it is lost. -/
theorem splitOn_join {p : Path} (hp : p.text ≠ "") {name : String} (hname : IsEntryName name) :
    ∃ front, front ≠ [] ∧ (p.join name).text.toList.splitOn '/' = front ++ [name.toList] ∧
      (p.text.toList.splitOn '/' = front ∨ p.text.toList.splitOn '/' = front ++ [[]]) := by
  have hsplit : name.toList.splitOn '/' = [name.toList] := List.splitOn_eq_singleton hname.2
  by_cases hlast : p.text.toList.getLast? = some '/'
  · obtain ⟨front, hfront⟩ := List.getLast?_eq_some_iff.1 hlast
    have hjoin : (p.join name).text.toList = front ++ '/' :: name.toList := by
      simp [join, hfront]
    refine ⟨front.splitOn '/', List.splitOn_ne_nil _ _, ?_, .inr ?_⟩
    · rw [hjoin, List.splitOn_append_cons_self, hsplit]
    · rw [hfront, List.splitOn_append_cons_self, List.splitOn_nil]
  · have hjoin : (p.join name).text.toList = p.text.toList ++ '/' :: name.toList := by
      simp [join, hlast, hp]
    refine ⟨p.text.toList.splitOn '/', List.splitOn_ne_nil _ _, ?_, .inl rfl⟩
    rw [hjoin, List.splitOn_append_cons_self, hsplit]

theorem join_ne_empty {p : Path} (hp : p.text ≠ "") (name : String) : (p.join name).text ≠ "" := by
  rw [join]
  split <;> simp [hp]

/-- A name in a directory stands behind the components of the directory. -/
theorem components_join {p : Path} (hp : p.text ≠ "") {name : String} (hname : IsEntryName name) :
    (p.join name).components = p.components ++ [.name name] := by
  obtain ⟨front, hfront, hjoin, hdir⟩ := splitOn_join hp hname
  have hlead : p.components = leadComponents front := by
    rw [components_eq hp]
    rcases hdir with hdir | hdir
    · rw [hdir]
    · rw [hdir, leadComponents_append hfront]
      simp [Path.innerComponent?]
  rw [components_eq (join_ne_empty hp name), hjoin, leadComponents_append hfront, hlead,
    hname.innerComponent?, Option.toList_some]

/-- The path of what lies in a directory behind some names. -/
def joinAll (dir : Path) (names : List String) : Path := names.foldl join dir

@[simp] theorem joinAll_nil (p : Path) : p.joinAll [] = p := rfl

@[simp] theorem joinAll_cons (p : Path) (name : String) (names : List String) :
    p.joinAll (name :: names) = (p.join name).joinAll names := rfl

/-- Names behind a directory stand behind its components. -/
theorem components_joinAll {p : Path} (hp : p.text ≠ "") {names : List String}
    (hnames : ∀ name ∈ names, IsEntryName name) :
    (p.joinAll names).components = p.components ++ names.map .name := by
  induction names generalizing p with
  | nil => simp
  | cons name names ih =>
    rw [joinAll_cons, ih (join_ne_empty hp name) fun n hn => hnames n (List.mem_cons_of_mem _ hn),
      components_join hp (hnames name List.mem_cons_self)]
    simp

/-- The name of a path behind a directory is the last of the names. -/
theorem fileName?_joinAll {p : Path} (hp : p.text ≠ "") {names : List String}
    (hnames : ∀ name ∈ names, IsEntryName name) (hne : names ≠ []) :
    (p.joinAll names).fileName? = names.getLast? := by
  obtain ⟨front, last, rfl⟩ := (List.eq_nil_or_concat' names).resolve_left hne
  simp [fileName?, components_joinAll hp hnames]

end Path

end PackageDoc
