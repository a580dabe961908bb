/-
  What is found on a page.

  The elements of nodes, in the order of their start tags, and those among them that a
  check picks (`find`).  The check sees a tag and its attributes only, so it picks the
  same elements from the nodes of a page and from what the page is read as
  (`find_singlesAll`).  For each part of a page it is said what is found there.
-/
import PackageDoc.Proofs.Html.Anchors
import PackageDoc.Proofs.Html.Page

namespace PackageDoc.Html

/-! ## Elements -/

/-- The start tag of an element. -/
structure Tag where
  name : String
  attributes : List Attribute
  deriving DecidableEq, Repr

/-- The value of an attribute. -/
def Tag.value? (t : Tag) (name : String) : Option String :=
  (t.attributes.find? (·.1 = name)).map (·.2)

/-- An element: its start tag and what is in it. -/
structure Element extends Tag where
  children : List Node

/-- The HTML between the tags of an element. -/
def Element.html (e : Element) : String := renderAll e.children

mutual

/-- The elements of a node in order, each of them before those inside it. -/
def Node.elements : Node → List Element
  | .text _ | .newline | .doctype => []
  | .element tag attributes children => ⟨⟨tag, attributes⟩, children⟩ :: elementsAll children
  | .void tag attributes => [⟨⟨tag, attributes⟩, []⟩]

def elementsAll : List Node → List Element
  | [] => []
  | n :: ns => n.elements ++ elementsAll ns

end

/-- The elements with such a start tag. -/
def find (q : Tag → Bool) (ns : List Node) : List Element := (elementsAll ns).filter (q ·.toTag)

variable {q : Tag → Bool}

theorem elementsAll_append (ms ns : List Node) :
    elementsAll (ms ++ ns) = elementsAll ms ++ elementsAll ns := by
  induction ms with
  | nil => rfl
  | cons m ms ih => simp [elementsAll, ih]

@[simp] theorem find_nil : find q [] = [] := rfl

@[simp] theorem find_append (ms ns : List Node) : find q (ms ++ ns) = find q ms ++ find q ns := by
  simp [find, elementsAll_append]

@[simp] theorem find_text (s : String) (ns : List Node) : find q (.text s :: ns) = find q ns := rfl

@[simp] theorem find_newline (ns : List Node) : find q (.newline :: ns) = find q ns := rfl

@[simp] theorem find_doctype (ns : List Node) : find q (.doctype :: ns) = find q ns := rfl

@[simp] theorem find_void (tag : String) (as : List Attribute) (ns : List Node) :
    find q (.void tag as :: ns) = (if q ⟨tag, as⟩ then [⟨⟨tag, as⟩, []⟩] else []) ++ find q ns := by
  by_cases h : q ⟨tag, as⟩ <;> simp [find, elementsAll, Node.elements, h]

@[simp] theorem find_element (tag : String) (as : List Attribute) (children ns : List Node) :
    find q (.element tag as children :: ns) =
      (if q ⟨tag, as⟩ then [⟨⟨tag, as⟩, children⟩] else []) ++ find q children ++ find q ns := by
  by_cases h : q ⟨tag, as⟩ <;> simp [find, elementsAll, Node.elements, h]

@[simp] theorem find_flatMap {α : Type} (f : α → List Node) (xs : List α) :
    find q (xs.flatMap f) = xs.flatMap fun x => find q (f x) := by
  induction xs with
  | nil => rfl
  | cons x xs ih => simp [ih]

theorem flatMap_none {α β : Type} (xs : List α) : xs.flatMap (fun _ => ([] : List β)) = [] :=
  List.flatMap_eq_nil_iff.2 fun _ _ => rfl

@[simp] theorem find_onLine (n : Node) : find q (onLine n) = find q [n] := by
  rw [onLine, show [n, Node.newline] = [n] ++ [.newline] from rfl, find_append]
  simp

@[simp] theorem find_block (tag : String) (as : List Attribute) (children : List Node) :
    find q (block tag as children) =
      (if q ⟨tag, as⟩ then [⟨⟨tag, as⟩, .newline :: children⟩] else []) ++ find q children := by
  simp [block]

/-! ## Elements of what is read -/

/-- The element as it is read, one node for each character. -/
def Element.singles (e : Element) : Element := ⟨e.toTag, singlesAll e.children⟩

theorem Element.html_singles (e : Element) : e.singles.html = e.html :=
  renderAll_singlesAll e.children

mutual

theorem Node.elements_singles : ∀ n : Node, elementsAll n.singles = n.elements.map Element.singles
  | .text s => by
    rw [Node.singles]
    induction s.toList with
    | nil => rfl
    | cons c cs ih => simpa [elementsAll, Node.elements] using ih
  | .newline => by simp [Node.singles, Node.elements, elementsAll]
  | .doctype => rfl
  | .element tag as children => by
    simp [Node.singles, Node.elements, elementsAll, Element.singles,
      elementsAll_singlesAll children]
  | .void tag as => rfl

theorem elementsAll_singlesAll :
    ∀ ns : List Node, elementsAll (singlesAll ns) = (elementsAll ns).map Element.singles
  | [] => rfl
  | n :: ns => by
    rw [singlesAll, elementsAll_append, n.elements_singles, elementsAll_singlesAll ns, elementsAll,
      List.map_append]

end

theorem find_singlesAll (ns : List Node) :
    find q (singlesAll ns) = (find q ns).map Element.singles := by
  rw [find, elementsAll_singlesAll, List.filter_map]
  rfl

/-- What is said about elements by their tags and their HTML holds of those read. -/
theorem map_find_singlesAll {α : Type} {f : Element → α} (hf : ∀ e : Element, f e.singles = f e)
    (ns : List Node) : (find q (singlesAll ns)).map f = (find q ns).map f := by
  rw [find_singlesAll, List.map_map]
  exact List.map_congr_left fun e _ => hf e

/-! ## The parts of a page -/

/-- The check picks no tag that a doc has. -/
def SkipsDocs (q : Tag → Bool) : Prop :=
  ∀ t ∈ [⟨"p", []⟩, ⟨"pre", []⟩, ⟨"div", [("class", "doc")]⟩], q t = false

theorem find_intersperse (ns : List Node) :
    find q (ns.intersperse .newline) = ns.flatMap fun n => find q [n] := by
  induction ns with
  | nil => rfl
  | cons n ns ih =>
    cases ns with
    | nil => simp
    | cons m ms =>
      rw [List.intersperse_cons_cons, List.flatMap_cons, ← ih]
      exact find_append [n] (.newline :: _)

theorem find_lineNodes (ls : List (List Char)) : find q (lineNodes ls) = [] := by
  rw [lineNodes, find_intersperse, List.flatMap_map]
  exact List.flatMap_eq_nil_iff.2 fun l _ => by simp

theorem find_docBlock (h : SkipsDocs q) (doc : Option CommentGroup) :
    find q (docBlock doc) = [] := by
  have hp : q ⟨"p", []⟩ = false := h _ (by simp)
  have hpre : q ⟨"pre", []⟩ = false := h _ (by simp)
  have hdiv : q ⟨"div", [("class", "doc")]⟩ = false := h _ (by simp)
  have hnodes : find q (docNodes (docText doc)) = [] := by
    rw [docNodes, find_intersperse, List.flatMap_map]
    refine List.flatMap_eq_nil_iff.2 fun b _ => ?_
    cases b <;> simp [Block.node, find_lineNodes, hp, hpre]
  unfold docBlock
  split
  · rfl
  · simp [hnodes, hdiv]

end PackageDoc.Html
