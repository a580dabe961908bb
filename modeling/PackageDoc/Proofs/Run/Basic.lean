/-
  Steps of a run on a tree.

  On a tree, a step of a run is a function of the events so far and of the tree:
  `RunM.on` gives its result with the events and the tree that it leaves behind.
  A step that only reads (`Reads`) leaves the tree as it is, and its result is a
  function of the tree; steps that only read do so one after another
  (`Reads.bind`) and over a list (`Reads.mapM`).
-/
import PackageDoc.Run

namespace PackageDoc

/-- Steps of a run on a tree. -/
abbrev TreeM := RunM (StateM (FileTree ByteArray))

namespace RunM

variable {α β : Type} {s s' : List Event} {t t' : FileTree ByteArray}

/-- What a step does: its result, and the events and the tree after it. -/
def on (x : TreeM α) (s : List Event) (t : FileTree ByteArray) :
    (Except RunError α × List Event) × FileTree ByteArray := (x.run.run s).run t

@[simp] theorem on_pure (a : α) : (pure a : TreeM α).on s t = ((.ok a, s), t) := rfl

@[simp] theorem on_log (events : List Event) :
    (log events : TreeM Unit).on s t = ((.ok (), s ++ events), t) := rfl

@[simp] theorem on_throw (e : RunError) : (throw e : TreeM α).on s t = ((.error e, s), t) := rfl

theorem on_bind (x : TreeM α) (f : α → TreeM β) :
    (x >>= f).on s t =
      match x.on s t with
      | ((.ok a, s'), t') => (f a).on s' t'
      | ((.error e, s'), t') => ((.error e, s'), t') := by
  simp only [on, ExceptT.run_bind, StateT.run_bind]
  obtain ⟨⟨_ | _, _⟩, _⟩ := (x.run.run s).run t <;> rfl

/-- Steps have a result if they have one each. -/
theorem on_bind_eq_ok {x : TreeM α} {f : α → TreeM β} {b : β} :
    (x >>= f).on s t = ((.ok b, s'), t') ↔
      ∃ a s₁ t₁, x.on s t = ((.ok a, s₁), t₁) ∧ (f a).on s₁ t₁ = ((.ok b, s'), t') := by
  rw [on_bind]
  constructor
  · intro h
    rcases hx : x.on s t with ⟨⟨_ | a, s₁⟩, t₁⟩
    · rw [hx] at h
      cases h
    · rw [hx] at h
      exact ⟨a, s₁, t₁, rfl, h⟩
  · rintro ⟨a, s₁, t₁, hx, hf⟩
    rw [hx]
    exact hf

theorem on_disk (f : DiskError → RunError)
    (x : StateM (FileTree ByteArray) (Except DiskError α)) :
    (disk f x : TreeM α).on s t = (((x.run t).1.mapError f, s), (x.run t).2) := by
  have hlift : (liftM x : TreeM _).on s t = ((.ok (x.run t).1, s), (x.run t).2) := rfl
  rw [disk, on_bind, hlift]
  cases (x.run t).1 <;> rfl

theorem on_disk_eq_ok {f : DiskError → RunError}
    {x : StateM (FileTree ByteArray) (Except DiskError α)} {a : α} :
    (disk f x : TreeM α).on s t = ((.ok a, s'), t') ↔ x.run t = (.ok a, t') ∧ s' = s := by
  rw [on_disk]
  constructor
  · intro h
    rcases hx : x.run t with ⟨_ | b, t₁⟩
    · rw [hx] at h
      cases h
    · rw [hx] at h
      cases h
      exact ⟨rfl, rfl⟩
  · rintro ⟨hx, rfl⟩
    rw [hx]
    rfl

/-- What a run gives is what its steps give that start without events. -/
theorem logged_run (x : TreeM α) :
    x.logged.run t = (⟨(x.on [] t).1.2, (x.on [] t).1.1⟩, (x.on [] t).2) := rfl

/-! ## Steps that only read -/

/-- The step leaves the tree as it is, and gives what `g` says of the tree. -/
def Reads (x : TreeM α) (g : FileTree ByteArray → Except RunError α) : Prop :=
  ∀ s t, ∃ s', x.on s t = ((g t, s'), t)

theorem Reads.pure (a : α) : Reads (pure a) fun _ => .ok a := fun s _ => ⟨s, rfl⟩

theorem Reads.throw (e : RunError) : Reads (throw e : TreeM α) fun _ => .error e :=
  fun s _ => ⟨s, rfl⟩

theorem Reads.log (events : List Event) : Reads (log events) fun _ => .ok () :=
  fun s _ => ⟨s ++ events, rfl⟩

theorem Reads.disk (f : DiskError → RunError) {x : StateM (FileTree ByteArray) (Except DiskError α)}
    {g : FileTree ByteArray → Except DiskError α} (hx : ∀ t, x.run t = (g t, t)) :
    Reads (disk f x) fun t => (g t).mapError f := by
  intro s t
  exact ⟨s, by rw [on_disk, hx]⟩

theorem Reads.bind {x : TreeM α} {f : α → TreeM β} {g : FileTree ByteArray → Except RunError α}
    {h : α → FileTree ByteArray → Except RunError β} (hx : Reads x g) (hf : ∀ a, Reads (f a) (h a)) :
    Reads (x >>= f) fun t => (g t).bind fun a => h a t := by
  intro s t
  obtain ⟨s₁, h₁⟩ := hx s t
  rw [on_bind, h₁]
  cases hg : g t with
  | error e => exact ⟨s₁, by simp only [hg]; rfl⟩
  | ok a =>
    obtain ⟨s₂, h₂⟩ := hf a s₁ t
    exact ⟨s₂, by simp only [hg]; exact h₂⟩

theorem Reads.mapM {f : α → TreeM β} {g : α → FileTree ByteArray → Except RunError β}
    (hf : ∀ a, Reads (f a) (g a)) (as : List α) :
    Reads (as.mapM f) fun t => as.mapM fun a => g a t := by
  induction as with
  | nil => exact .pure []
  | cons a as ih =>
    simp only [List.mapM_cons]
    exact (hf a).bind fun b => ih.bind fun bs => .pure (b :: bs)

/-- A step after one that only reads starts on the same tree, if there is a result
    to go on with. -/
theorem Reads.on_bind {x : TreeM α} {f : α → TreeM β} {g : FileTree ByteArray → Except RunError α}
    (hx : Reads x g) (s : List Event) (t : FileTree ByteArray) :
    ∃ s', (x >>= f).on s t =
      match g t with
      | .ok a => (f a).on s' t
      | .error e => ((.error e, s'), t) := by
  obtain ⟨s', h⟩ := hx s t
  refine ⟨s', ?_⟩
  rw [RunM.on_bind, h]
  cases g t <;> rfl

end RunM

end PackageDoc
