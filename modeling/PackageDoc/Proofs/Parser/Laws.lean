/-
  Laws of parsers.

  The productions are put together from a few primitives by sequences and loops.
  A `Law` is a property that the primitives have and that sequences and loops
  keep; then every production has it, and so has the parser of a whole file
  (`Law.packages`).
-/
import PackageDoc.Parser.Package

namespace PackageDoc.Parser

/-- A property of parsers that the primitives have and that sequences and loops
    keep.  The primitives that may fail are `require` and `packageEnd`, and none
    of them logs a token but those that move. -/
structure Law (P : {α : Type} → Parser α → Prop) : Prop where
  pure : ∀ {α : Type} (a : α), P (Pure.pure a : Parser α)
  bind : ∀ {α β : Type} {p : Parser α} {f : α → Parser β}, P p → (∀ a, P (f a)) → P (p >>= f)
  iterate : ∀ {σ α : Type} {step : σ → Parser (σ ⊕ α)} {finish : σ → α},
    (∀ s, P (step s)) → ∀ s, P (Parser.iterate step finish s)
  current : P Parser.current
  atEnd : P Parser.atEnd
  input : P Parser.input
  log : ∀ e : Event, e.level ≠ .trace → P (Parser.log e)
  advance : P Parser.advance
  passTo : ∀ (f : List DocToken → List DocToken × List DocToken)
    (hf : ∀ ts, (f ts).1 ++ (f ts).2 = ts), P (Parser.passTo f hf)
  require : ∀ kind : TokenKind, P (Parser.require kind)
  packageEnd : ∀ x : Ident, P (Parser.packageEnd x)

namespace Law

variable {P : {α : Type} → Parser α → Prop} (h : Law P)

include h

/-! ## Branches and moves -/

omit h in
theorem ite {α : Type} {c : Prop} [Decidable c] {p q : Parser α} (hp : P p) (hq : P q) :
    P (if c then p else q) := by
  split
  · exact hp
  · exact hq

theorem when {α : Type} {c : Prop} [Decidable c] {p : Parser Unit} {f : Unit → Parser α}
    (hp : P p) (hf : P (f ())) : P (if c then p >>= f else f ()) :=
  ite (h.bind hp fun _ => hf) hf

theorem takeTo (stop : DocToken → Bool) : P (Parser.takeTo stop) := h.passTo _ _

theorem skipTo (kind : TokenKind) : P (Parser.skipTo kind) :=
  h.bind (h.takeTo _) fun _ => h.pure _

theorem takeNested (stop : TokenKind → Bool) : P (Parser.takeNested stop) := h.passTo _ _

theorem isAt (kind : TokenKind) : P (Parser.isAt kind) := h.bind h.current fun _ => h.pure _

theorem name : P Parser.name :=
  h.bind (h.require _) fun _ => h.bind h.current fun _ => h.pure _

theorem nextName : P Parser.nextName := h.bind h.advance fun _ => h.name

/-! ## Fields -/

theorem variableField : P Parser.variableField := by
  refine h.bind h.current fun _ => h.bind h.name fun _ => h.bind h.advance fun _ => ?_
  refine h.bind (h.isAt _) fun _ => ite (h.pure _) (h.bind (h.isAt _) fun _ => h.when h.advance ?_)
  exact h.bind h.current fun _ => h.bind (h.takeTo _) fun _ => h.pure _

theorem passMode : P Parser.passMode := by
  refine h.bind (h.isAt _) fun _ => ite (h.bind h.advance fun _ => h.pure _) ?_
  refine h.bind (h.isAt _) fun _ => ite (h.bind h.advance fun _ => ?_) (h.pure _)
  exact h.bind (h.isAt _) fun _ => ite (h.bind h.advance fun _ => h.pure _) (h.pure _)

theorem paramDefault : P Parser.paramDefault := by
  refine h.bind h.current fun _ => ite ?_ (h.pure _)
  refine h.bind h.advance fun _ => h.bind (h.takeNested _) fun _ => h.bind h.atEnd fun _ => ?_
  exact h.when h.advance (h.pure _)

theorem param : P Parser.param := by
  refine h.bind h.current fun _ => h.bind h.advance fun _ => h.bind h.passMode fun _ => ?_
  refine h.bind h.current fun _ => h.when h.advance (h.bind h.current fun _ => ?_)
  refine h.when (h.require _) (h.bind (h.takeNested _) fun _ => ?_)
  exact h.bind h.paramDefault fun _ => h.pure _

theorem fieldStep (opening : Nat) (done : List Field) : P (Parser.fieldStep opening done) := by
  refine h.bind h.param fun _ => h.bind h.current fun _ => ite (h.pure _) ?_
  exact h.bind (h.require _) fun _ => h.pure _

theorem fieldList : P Parser.fieldList := by
  refine h.bind h.current fun _ => h.bind (h.iterate (h.fieldStep _) _) fun _ => ?_
  exact h.bind h.advance fun _ => h.pure _

theorem fieldList? : P Parser.fieldList? :=
  h.bind (h.isAt _) fun _ => ite (h.bind h.fieldList fun _ => h.pure _) (h.pure _)

theorem group : P Parser.group := by
  refine h.bind h.current fun _ => h.bind h.advance fun _ => h.bind (h.takeNested _) fun _ => ?_
  exact h.bind h.atEnd fun _ => ite (h.pure _) (h.bind h.current fun _ => h.pure _)

/-! ## Routines, cursors and types -/

theorem typeTail : P Parser.typeTail :=
  h.bind h.advance fun _ => h.bind h.current fun _ => h.bind (h.takeTo _) fun _ => h.pure _

theorem functionResult : P Parser.functionResult := by
  refine h.bind (h.require _) fun _ => h.bind h.advance fun _ => h.bind h.current fun _ => ?_
  exact h.bind (h.takeTo _) fun _ => h.pure _

theorem routine : P Parser.routine := by
  refine h.bind h.current fun _ => h.bind h.nextName fun _ => h.bind h.advance fun _ => ?_
  refine h.bind h.fieldList? fun _ => ite (h.bind (h.skipTo _) fun _ => h.pure _) ?_
  exact h.bind h.functionResult fun _ => h.bind (h.takeTo _) fun _ => h.pure _

theorem cursorResult? : P Parser.cursorResult? := by
  refine h.bind (h.isAt _) fun _ => ite (h.bind h.advance fun _ => ?_) (h.pure _)
  exact h.bind h.current fun _ => h.bind (h.takeTo _) fun _ => h.pure _

theorem cursorQuery : P Parser.cursorQuery := by
  refine h.bind h.current fun _ => ite (h.pure _) (h.bind (h.skipTo _) fun _ => ?_)
  refine h.bind h.advance fun _ => h.bind h.current fun _ => h.bind (h.skipTo _) fun _ => ?_
  exact h.bind h.current fun _ => h.bind h.input fun _ => h.pure _

theorem cursor : P Parser.cursor := by
  refine h.bind h.current fun _ => h.bind h.nextName fun _ => h.bind h.advance fun _ => ?_
  refine h.bind h.fieldList? fun _ => h.bind h.cursorResult? fun _ => ?_
  exact h.bind h.cursorQuery fun _ => h.pure _

theorem arrayBound? : P Parser.arrayBound? := by
  refine h.bind h.current fun _ => ite (h.bind h.group fun _ => ?_) (h.pure _)
  exact h.bind h.current fun _ => h.pure _

theorem tableType : P Parser.tableType :=
  h.bind h.advance fun _ => h.bind (h.skipTo _) fun _ => h.bind h.typeTail fun _ => h.pure _

theorem arrayType : P Parser.arrayType := by
  refine h.bind h.advance fun _ => h.bind h.arrayBound? fun _ => h.bind (h.skipTo _) fun _ => ?_
  exact h.bind h.typeTail fun _ => h.pure _

theorem recordType : P Parser.recordType :=
  h.bind h.advance fun _ => h.bind (h.require _) fun _ => h.bind h.fieldList fun _ => h.pure _

theorem refCursorType : P Parser.refCursorType := by
  refine h.bind h.advance fun _ => h.bind (h.require _) fun _ => h.bind h.advance fun _ => ?_
  refine h.bind (h.isAt _) fun _ => ite (h.pure _) (h.bind (h.require _) fun _ => ?_)
  exact h.bind h.typeTail fun _ => h.pure _

theorem typeBody? (x : Ident) : P (Parser.typeBody? x) := by
  refine h.bind h.current fun _ => ?_
  split
  · exact h.bind h.tableType fun _ => h.pure _
  · exact h.bind h.arrayType fun _ => h.pure _
  · exact h.bind h.recordType fun _ => h.pure _
  · exact h.bind h.refCursorType fun _ => h.pure _
  · exact h.bind (h.log _ nofun) fun _ => h.bind (h.skipTo _) fun _ => h.pure _

theorem typeDecl? : P Parser.typeDecl? := by
  refine h.bind h.current fun _ => h.bind h.nextName fun _ => h.bind h.advance fun _ => ?_
  refine h.bind (h.require _) fun _ => h.bind h.advance fun _ => ?_
  exact h.bind (h.typeBody? _) fun _ => h.pure _

theorem subtype : P Parser.subtype := by
  refine h.bind h.current fun _ => h.bind h.nextName fun _ => h.bind h.advance fun _ => ?_
  exact h.bind (h.require _) fun _ => h.bind h.typeTail fun _ => h.pure _

/-! ## Packages -/

theorem skipDirective (closes : DocToken → Bool) : P (Parser.skipDirective closes) :=
  h.bind (h.passTo _ _) fun _ => h.pure _

theorem directive : P Parser.directive := by
  refine h.bind h.advance fun _ => h.bind (h.isAt _) fun _ => h.when h.advance ?_
  refine h.bind h.current fun _ => ite (h.skipDirective _) ?_
  exact ite (h.skipDirective _) (h.pure _)

theorem packageBody : P Parser.packageBody := by
  refine h.bind h.current fun _ => h.bind h.advance fun _ => h.bind (h.passTo _ _) fun _ => ?_
  exact h.bind h.current fun _ => h.log _ nofun

theorem item? : P Parser.item? := by
  refine h.bind h.current fun _ => ?_
  split
  · exact h.bind h.directive fun _ => h.pure _
  · exact h.bind h.variableField fun _ => h.pure _
  · exact h.bind h.cursor fun _ => h.pure _
  · exact h.bind h.routine fun _ => h.pure _
  · exact h.bind h.routine fun _ => h.pure _
  · exact h.bind (h.skipTo _) fun _ => h.pure _
  · exact h.bind h.typeDecl? fun _ => h.pure _
  · exact h.bind h.subtype fun _ => h.pure _
  · exact h.pure _
  · exact h.pure _
  · exact h.bind (h.log _ nofun) fun _ => h.bind (h.skipTo _) fun _ => h.pure _

theorem itemStep (x : Ident) (found : Found) : P (Parser.itemStep x found) := by
  refine h.bind h.current fun _ => ite (h.bind (h.packageEnd x) fun _ => h.pure _) ?_
  exact h.bind h.item? fun _ => h.pure _

theorem items (x : Ident) : P (Parser.items x) :=
  h.bind h.current fun _ => h.bind (h.iterate (h.itemStep x) _) fun _ => h.pure _

theorem packageName : P Parser.packageName := by
  refine h.bind h.name fun _ => h.bind h.advance fun _ => h.bind (h.isAt _) fun _ => ite ?_ ?_
  · refine h.bind h.nextName fun _ => h.bind h.advance fun _ => ?_
    exact h.bind (h.takeTo _) fun _ => h.pure _
  · exact h.bind (h.takeTo _) fun _ => h.pure _

theorem package? (create : DocToken) : P (Parser.package? create) := by
  refine h.bind (h.isAt _) fun _ => ite (h.bind h.packageBody fun _ => h.pure _) ?_
  refine h.bind h.packageName fun x => h.bind (h.items x) fun _ => ?_
  exact h.bind (h.log _ nofun) fun _ => h.pure _

theorem nextCreate? : P Parser.nextCreate? :=
  h.bind (h.passTo _ _) fun _ => h.bind h.atEnd fun _ => h.pure _

theorem packageStep (s : Search) : P (Parser.packageStep s) := by
  refine h.bind (h.package? _) fun _ => h.bind h.nextCreate? fun create? => ?_
  cases create? with
  | some create => exact h.pure _
  | none => exact h.pure _

/-- **A law holds of the parser of a whole file.** -/
theorem packages : P Parser.packages := by
  refine h.bind h.nextCreate? fun create? => ?_
  cases create? with
  | some create => exact h.iterate h.packageStep _
  | none => exact h.pure _

end Law

end PackageDoc.Parser
