/-
  Making directories.

  A directory is made with all that it lies in.  Whether that succeeds or not, all
  that stood in the tree before still stands there, and what is new are directories
  that the path names, or the paths of its first components
  (`grown_makeDirectories`).
-/
import PackageDoc.Disk.Basic
import PackageDoc.Proofs.Disk.Tree

namespace PackageDoc

namespace FileTree

variable {α : Type} {P Q : Path → Prop} {t t' t'' : FileTree α}

/-! ## Trees with more directories -/

/-- The second tree is the first one with new directories, which paths of the given
    kind name. -/
def Grown (P : Path → Prop) (t t' : FileTree α) : Prop :=
  ∀ place, t'.view place = t.view place ∨
    t.view place = none ∧ t'.view place = some none ∧ ∃ p, P p ∧ t'.locate p = .ok place

namespace Grown

theorem refl (P : Path → Prop) (t : FileTree α) : Grown P t t := fun _ => .inl rfl

theorem within (h : Grown P t t') : Within t t' where
  directory place hd := by
    rcases h place with heq | ⟨hnone, -⟩
    · rw [heq, hd]
    · rw [hnone] at hd; cases hd
  file place content hf := by
    rcases h place with heq | ⟨hnone, -⟩
    · exact ⟨content, by rw [heq, hf]⟩
    · rw [hnone] at hf; cases hf

theorem mono (h : Grown P t t') (hPQ : ∀ p, P p → Q p) : Grown Q t t' := fun place =>
  (h place).imp_right fun ⟨hnone, hdir, p, hp, hplace⟩ => ⟨hnone, hdir, p, hPQ p hp, hplace⟩

theorem trans (h : Grown P t t') (h' : Grown P t' t'') : Grown P t t'' := by
  intro place
  rcases h place with heq | ⟨hnone, hdir, p, hp, hplace⟩
  · rcases h' place with heq' | ⟨hnone, hdir, hp⟩
    · exact .inl (heq'.trans heq)
    · exact .inr ⟨heq ▸ hnone, hdir, hp⟩
  · exact .inr ⟨hnone, h'.within.directory place hdir, p, hp, h'.within.locate hplace⟩

end Grown

/-- A directory that is made is new, and its path names it. -/
theorem grown_makeDirectory {p : Path} (h : t.makeDirectory p = .ok t') : Grown (· = p) t t' := by
  obtain ⟨place, hplace, hnone, hview⟩ := view_of_makeDirectory h
  intro other
  by_cases heq : other = place
  · subst heq
    exact .inr ⟨hnone, by rw [hview, if_pos rfl], p, rfl, hplace⟩
  · exact .inl (by rw [hview, if_neg heq])

end FileTree

open FileTree

/-! ## Making directories on a tree -/

section
variable {t : FileTree ByteArray}

/-- A change leaves the state as it is where it fails. -/
theorem run_tryModify {σ ε : Type} (f : σ → Except ε σ) (s : σ) :
    (tryModify f).run s =
      match f s with
      | .ok s' => (.ok (), s')
      | .error e => (.error e, s) := by
  show tryModify f s = _
  unfold tryModify
  cases f s <;> rfl

theorem run_bind_of_run {σ α β : Type} {x : StateM σ α} {f : α → StateM σ β} {s s' : σ} {a : α}
    (h : x.run s = (a, s')) : (x >>= f).run s = (f a).run s' := by
  rw [StateT.run_bind, h]
  rfl

theorem run_ensureDirectory (p : Path) :
    (FileTree.disk.ensureDirectory p).run t =
      match t.makeDirectory p with
      | .ok t' => (.ok (), t')
      | .error e => (if t.hasDirectory p then .ok () else .error e, t) := by
  have hmake : (FileTree.disk.makeDirectory p).run t = (tryModify (·.makeDirectory p)).run t := rfl
  rw [run_tryModify] at hmake
  cases h : t.makeDirectory p with
  | ok t' =>
    rw [h] at hmake
    exact run_bind_of_run hmake
  | error e =>
    rw [h] at hmake
    refine (run_bind_of_run hmake).trans ?_
    show StateT.run (if t.hasDirectory p = true then pure (.ok ()) else pure (.error e) :
      StateM (FileTree ByteArray) (Except DiskError Unit)) t = _
    cases t.hasDirectory p <;> rfl

theorem run_ensureWith (parents : StateM (FileTree ByteArray) (Except DiskError Unit)) (p : Path) :
    (FileTree.disk.ensureWith parents p).run t =
      match (FileTree.disk.ensureDirectory p).run t with
      | (.error .noSuchEntry, t') =>
        match parents.run t' with
        | (.ok (), t'') => (FileTree.disk.ensureDirectory p).run t''
        | (.error e, t'') => (.error e, t'')
      | result => result := by
  rcases hfirst : (FileTree.disk.ensureDirectory p).run t with ⟨e | _, t'⟩
  · cases e with
    | noSuchEntry =>
      refine (run_bind_of_run hfirst).trans ?_
      dsimp only
      rcases hparents : parents.run t' with ⟨_ | _, t''⟩
      · exact run_bind_of_run hparents
      · exact run_bind_of_run hparents
    | _ => exact run_bind_of_run hfirst
  · exact run_bind_of_run hfirst

theorem grown_ensureDirectory (p : Path) :
    Grown (· = p) t ((FileTree.disk.ensureDirectory p).run t).2 := by
  rw [run_ensureDirectory]
  cases h : t.makeDirectory p with
  | ok t' => exact grown_makeDirectory h
  | error e => exact .refl _ t

theorem grown_ensureWith {P : Path → Prop}
    {parents : StateM (FileTree ByteArray) (Except DiskError Unit)} {p : Path} (hp : P p)
    (hparents : ∀ t, Grown P t (parents.run t).2) :
    Grown P t ((FileTree.disk.ensureWith parents p).run t).2 := by
  have hensure : ∀ t, Grown P t ((FileTree.disk.ensureDirectory p).run t).2 := fun t =>
    (grown_ensureDirectory p).mono fun q hq => hq ▸ hp
  have hfirst := hensure t
  rw [run_ensureWith]
  generalize (FileTree.disk.ensureDirectory p).run t = first at hfirst
  split
  · rename_i t'
    have hmore := hparents t'
    generalize parents.run t' = second at hmore
    split
    · exact hfirst.trans (hmore.trans (hensure _))
    · exact hfirst.trans hmore
  · exact hfirst

/-- What a path lies in, and the path itself. -/
def LeadsTo (p q : Path) : Prop := q = p ∨ ∃ front, front <+: p.components ∧ q = .ofComponents front

theorem grown_makeParents (cs : List Path.Component) (t : FileTree ByteArray) :
    Grown (fun q => ∃ front, front <+: cs.reverse ∧ q = .ofComponents front) t
      ((FileTree.disk.makeParents cs).run t).2 := by
  induction cs generalizing t with
  | nil => exact .refl _ t
  | cons c cs ih =>
    refine grown_ensureWith ⟨(c :: cs).reverse, List.prefix_refl _, rfl⟩ fun t => ?_
    refine (ih t).mono ?_
    rintro q ⟨front, hfront, rfl⟩
    refine ⟨front, hfront.trans ?_, rfl⟩
    rw [List.reverse_cons]
    exact List.prefix_append _ _

/-- What is new when a directory has been made are directories on the way to it. -/
theorem grown_makeDirectories (p : Path) (t : FileTree ByteArray) :
    Grown (LeadsTo p) t ((FileTree.disk.makeDirectories p).run t).2 := by
  rw [Disk.makeDirectories]
  split
  · exact .refl _ t
  · refine grown_ensureWith (.inl rfl) fun t => (grown_makeParents _ t).mono ?_
    rintro q ⟨front, hfront, rfl⟩
    rw [List.reverse_reverse] at hfront
    exact .inr ⟨front, hfront.trans (List.dropLast_prefix _), rfl⟩

end

end PackageDoc
