/-
  SandboxFetch.Proofs.Steps — computations whose state outlives a failure, opened step by step.

  `RepositoryM` and `SiteM` are both `ExceptT ε (StateM σ)`. A chain that succeeded splits into its
  parts, each begun in the state that the one before left (`bind_eq_ok`), and a list is mapped
  element by element, up to the first that fails (`Takes`, `Breaks`). What a computation leaves
  alone is told by `Keeps`: a part of the state is the same afterwards, whether it failed or not,
  and a chain keeps what all its parts keep (`Keeps.bind`). A computation that only asks about a part
  of the state answers the same wherever that part is the same (`Asks`).
-/

import SandboxFetch.Site

namespace SandboxFetch

variable {ε ε' σ τ α β : Type}

/-! ## Basics -/

theorem bind_apply (x : ExceptT ε (StateM σ) α) (f : α → ExceptT ε (StateM σ) β) (s : σ) :
    (x >>= f) s = match x s with
      | (.ok a, mid) => f a mid
      | (.error e, mid) => (.error e, mid) := by
  show ExceptT.bindCont f (x s).1 (x s).2 = _
  rcases x s with ⟨_ | _, _⟩ <;> rfl

@[simp] theorem get_apply (s : σ) : (get : ExceptT ε (StateM σ) σ) s = (.ok s, s) := rfl

@[simp] theorem set_apply (t s : σ) : (set t : ExceptT ε (StateM σ) PUnit) s = (.ok ⟨⟩, t) := rfl

@[simp] theorem modify_apply (f : σ → σ) (s : σ) :
    (modify f : ExceptT ε (StateM σ) PUnit) s = (.ok ⟨⟩, f s) := rfl

@[simp] theorem adapt_apply (f : ε → ε') (x : ExceptT ε (StateM σ) α) (s : σ) :
    (x.adapt f) s = ((x s).1.mapError f, (x s).2) := rfl

@[simp] theorem lift_apply (result : Except ε α) (s : σ) :
    (liftM result : ExceptT ε (StateM σ) α) s = (result, s) := by
  cases result <;> rfl

theorem map_apply (f : α → β) (x : ExceptT ε (StateM σ) α) (s : σ) :
    (f <$> x) s = ((x s).1.map f, (x s).2) := by
  rw [map_eq_pure_bind, bind_apply]
  rcases x s with ⟨_ | _, _⟩ <;> rfl

theorem get_bind_apply (f : σ → ExceptT ε (StateM σ) β) (s : σ) : ((get : ExceptT ε (StateM σ) σ) >>= f) s = f s s :=
  rfl

theorem lift_ok_bind (a : α) (f : α → ExceptT ε (StateM σ) β) : (liftM (Except.ok a : Except ε α) >>= f) = f a := by
  funext s
  rw [bind_apply, lift_apply]

theorem lift_error_bind (e : ε) (f : α → ExceptT ε (StateM σ) β) :
    (liftM (Except.error e : Except ε α) >>= f) = liftM (Except.error e : Except ε β) := by
  funext s
  rw [bind_apply, lift_apply, lift_apply]

/-- A chain succeeds when both parts do, the second from the state that the first left. -/
theorem bind_eq_ok {x : ExceptT ε (StateM σ) α} {f : α → ExceptT ε (StateM σ) β} {s s' : σ} {b : β} :
    (x >>= f) s = (.ok b, s') ↔ ∃ a mid, x s = (.ok a, mid) ∧ f a mid = (.ok b, s') := by
  rw [bind_apply]
  constructor
  · intro h
    rcases hx : x s with ⟨_ | a, mid⟩
    · rw [hx] at h
      cases h
    · rw [hx] at h
      exact ⟨a, mid, rfl, h⟩
  · rintro ⟨a, mid, hx, hf⟩
    rw [hx]
    exact hf

theorem bind_of_ok {x : ExceptT ε (StateM σ) α} {s mid : σ} {a : α} (h : x s = (.ok a, mid))
    (f : α → ExceptT ε (StateM σ) β) : (x >>= f) s = f a mid := by
  rw [bind_apply, h]

theorem bind_of_error {x : ExceptT ε (StateM σ) α} {s s' : σ} {e : ε} (h : x s = (.error e, s'))
    (f : α → ExceptT ε (StateM σ) β) : (x >>= f) s = (.error e, s') := by
  rw [bind_apply, h]

/-- A chain fails when its first part does, or the second one after it. -/
theorem bind_eq_error {x : ExceptT ε (StateM σ) α} {f : α → ExceptT ε (StateM σ) β} {s s' : σ} {e : ε} :
    (x >>= f) s = (.error e, s') ↔
      x s = (.error e, s') ∨ ∃ a mid, x s = (.ok a, mid) ∧ f a mid = (.error e, s') := by
  rw [bind_apply]
  rcases x s with ⟨_ | a, mid⟩
  · constructor
    · intro h
      cases h
      exact .inl rfl
    · rintro (h | ⟨_, _, h, -⟩) <;> cases h
      rfl
  · constructor
    · intro h
      exact .inr ⟨a, mid, rfl, h⟩
    · rintro (h | ⟨_, _, h, hf⟩) <;> cases h
      exact hf

theorem adapt_eq_ok {f : ε → ε'} {x : ExceptT ε (StateM σ) α} {s s' : σ} {a : α} :
    (x.adapt f) s = (.ok a, s') ↔ x s = (.ok a, s') := by
  rw [adapt_apply]
  rcases x s with ⟨_ | b, mid⟩
  · constructor <;> intro h <;> cases h
  · constructor <;> intro h <;> cases h <;> rfl

theorem adapt_eq_error {f : ε → ε'} {x : ExceptT ε (StateM σ) α} {s s' : σ} {e : ε'} :
    (x.adapt f) s = (.error e, s') ↔ ∃ fault, x s = (.error fault, s') ∧ f fault = e := by
  rw [adapt_apply]
  rcases x s with ⟨fault | a, mid⟩
  · constructor
    · intro h
      cases h
      exact ⟨fault, rfl, rfl⟩
    · rintro ⟨_, h, rfl⟩
      cases h
      rfl
  · constructor
    · intro h
      cases h
    · rintro ⟨_, h, -⟩
      cases h

theorem map_eq_ok {f : α → β} {x : ExceptT ε (StateM σ) α} {s s' : σ} {b : β} :
    (f <$> x) s = (.ok b, s') ↔ ∃ a, x s = (.ok a, s') ∧ f a = b := by
  rw [map_apply]
  rcases x s with ⟨_ | a, mid⟩
  · constructor
    · intro h
      cases h
    · rintro ⟨_, h, -⟩
      cases h
  · constructor
    · intro h
      cases h
      exact ⟨a, rfl, rfl⟩
    · rintro ⟨_, h, rfl⟩
      cases h
      rfl

theorem map_eq_error {f : α → β} {x : ExceptT ε (StateM σ) α} {s s' : σ} {e : ε} :
    (f <$> x) s = (.error e, s') ↔ x s = (.error e, s') := by
  rw [map_apply]
  rcases x s with ⟨_ | a, mid⟩
  · constructor <;> intro h <;> cases h <;> rfl
  · constructor <;> intro h <;> cases h

/-! ## Lists -/

inductive Takes (f : α → ExceptT ε (StateM σ) β) : σ → List α → List β → σ → Prop
  | nil (s : σ) : Takes f s [] [] s
  | cons {s mid s' : σ} {a : α} {b : β} {l : List α} {bs : List β} (first : f a s = (.ok b, mid))
      (others : Takes f mid l bs s') : Takes f s (a :: l) (b :: bs) s'

/-- The elements of a list are taken up to the first that fails. -/
inductive Breaks (f : α → ExceptT ε (StateM σ) β) : σ → List α → ε → σ → Prop
  | here {s s' : σ} {a : α} {e : ε} (rest : List α) (fails : f a s = (.error e, s')) : Breaks f s (a :: rest) e s'
  | later {s mid s' : σ} {a : α} {b : β} {l : List α} {e : ε} (first : f a s = (.ok b, mid))
      (others : Breaks f mid l e s') : Breaks f s (a :: l) e s'

section Lists

variable {f : α → ExceptT ε (StateM σ) β} {l : List α}

theorem mapM_iff_takes {s s' : σ} {bs : List β} : l.mapM f s = (.ok bs, s') ↔ Takes f s l bs s' := by
  induction l generalizing s bs with
  | nil =>
    constructor
    · intro h
      cases h
      exact .nil _
    · intro h
      cases h
      rfl
  | cons a rest ih =>
    rw [List.mapM_cons]
    constructor
    · intro h
      obtain ⟨b, mid, first, h⟩ := bind_eq_ok.1 h
      obtain ⟨bs, last, others, h⟩ := bind_eq_ok.1 h
      cases h
      exact .cons first (ih.1 others)
    · rintro (_ | ⟨first, others⟩)
      rw [bind_of_ok first, bind_of_ok (ih.2 others)]
      rfl

theorem mapM_iff_breaks {s s' : σ} {e : ε} : l.mapM f s = (.error e, s') ↔ Breaks f s l e s' := by
  induction l generalizing s with
  | nil =>
    constructor
    · intro h
      cases h
    · intro h
      cases h
  | cons a rest ih =>
    rw [List.mapM_cons]
    constructor
    · intro h
      rcases bind_eq_error.1 h with fails | ⟨b, mid, first, h⟩
      · exact .here rest fails
      · rcases bind_eq_error.1 h with others | ⟨bs, last, -, h⟩
        · exact .later first (ih.1 others)
        · cases h
    · rintro (⟨_, fails⟩ | ⟨first, others⟩)
      · exact bind_of_error fails _
      · rw [bind_of_ok first, bind_of_error (ih.2 others)]

/-- Either all elements of a list are taken or one fails. -/
theorem takes_or_breaks (f : α → ExceptT ε (StateM σ) β) (s : σ) (l : List α) :
    (∃ bs s', Takes f s l bs s') ∨ ∃ e s', Breaks f s l e s' := by
  rcases h : l.mapM f s with ⟨e | bs, s'⟩
  · exact .inr ⟨e, s', mapM_iff_breaks.1 h⟩
  · exact .inl ⟨bs, s', mapM_iff_takes.1 h⟩

theorem Takes.length_eq {s s' : σ} {bs : List β} (h : Takes f s l bs s') : bs.length = l.length := by
  induction h with
  | nil => rfl
  | cons _ _ ih => rw [List.length_cons, List.length_cons, ih]

theorem Takes.single {s s' : σ} {b : β} (h : Takes f s l [b] s') : ∃ a, l = [a] ∧ f a s = (.ok b, s') := by
  cases h with
  | cons first others =>
    cases others
    exact ⟨_, rfl, first⟩

end Lists

/-! ## What is kept -/

/-- A part of the state is after a computation what it was before, also after a failure. -/
def Keeps (part : σ → τ) (x : ExceptT ε (StateM σ) α) : Prop := ∀ s, part (x s).2 = part s

namespace Keeps

variable {part : σ → τ} {x : ExceptT ε (StateM σ) α}

theorem of_eq {s s' : σ} {r : Except ε α} (h : Keeps part x) (hx : x s = (r, s')) : part s' = part s := by
  have := h s
  rwa [hx] at this

theorem through {υ : Type} (g : τ → υ) (h : Keeps part x) : Keeps (fun s => g (part s)) x := fun s => congrArg g (h s)

theorem pure (a : α) : Keeps part (Pure.pure a : ExceptT ε (StateM σ) α) := fun _ => rfl

theorem throw (e : ε) : Keeps part (throw e : ExceptT ε (StateM σ) α) := fun _ => rfl

theorem lift (result : Except ε α) : Keeps part (liftM result : ExceptT ε (StateM σ) α) := by
  intro s
  rw [lift_apply]

theorem get : Keeps part (get : ExceptT ε (StateM σ) σ) := fun _ => rfl

theorem modify {f : σ → σ} (h : ∀ s, part (f s) = part s) :
    Keeps part (modify f : ExceptT ε (StateM σ) PUnit) := h

theorem adapt (f : ε → ε') (h : Keeps part x) : Keeps part (x.adapt f) := h

theorem bind {f : α → ExceptT ε (StateM σ) β} (hx : Keeps part x) (hf : ∀ a, Keeps part (f a)) :
    Keeps part (x >>= f) := by
  intro s
  have first := hx s
  rw [bind_apply]
  rcases h : x s with ⟨_ | a, mid⟩
  · simpa [h] using first
  · have second := hf a mid
    rw [h] at first
    exact second.trans first

theorem map (f : α → β) (h : Keeps part x) : Keeps part (f <$> x) := by
  intro s
  rw [map_apply]
  exact h s

theorem mapM {f : α → ExceptT ε (StateM σ) β} (h : ∀ a, Keeps part (f a)) (l : List α) :
    Keeps part (l.mapM f) := by
  induction l with
  | nil => exact pure _
  | cons a rest ih =>
    rw [List.mapM_cons]
    exact bind (h a) fun b => bind ih fun bs => pure _

end Keeps

/-! ## What is asked -/

/-- A part of the state is left alone, and nothing else of the state bears on the answer. -/
structure Asks (part : σ → τ) (x : ExceptT ε (StateM σ) α) : Prop where
  keeps : Keeps part x
  answer : ∀ s s', part s = part s' → (x s).1 = (x s').1

namespace Asks

variable {part : σ → τ} {x : ExceptT ε (StateM σ) α}

theorem pure (a : α) : Asks part (Pure.pure a : ExceptT ε (StateM σ) α) := ⟨.pure a, fun _ _ _ => rfl⟩

theorem throw (e : ε) : Asks part (throw e : ExceptT ε (StateM σ) α) := ⟨.throw e, fun _ _ _ => rfl⟩

theorem adapt (f : ε → ε') (h : Asks part x) : Asks part (x.adapt f) := by
  refine ⟨h.keeps.adapt f, fun s s' same => ?_⟩
  rw [adapt_apply, adapt_apply, h.answer s s' same]

theorem bind {f : α → ExceptT ε (StateM σ) β} (hx : Asks part x) (hf : ∀ a, Asks part (f a)) :
    Asks part (x >>= f) := by
  refine ⟨hx.keeps.bind fun a => (hf a).keeps, fun s s' same => ?_⟩
  have first := hx.answer s s' same
  have kept := hx.keeps s
  have kept' := hx.keeps s'
  rw [bind_apply, bind_apply]
  rcases h : x s with ⟨_ | a, mid⟩ <;> rcases h' : x s' with ⟨_ | a', mid'⟩ <;> rw [h, h'] at first <;> cases first
  · rfl
  · rw [h] at kept
    rw [h'] at kept'
    exact (hf a).answer mid mid' ((kept.trans same).trans kept'.symm)

theorem mapM {f : α → ExceptT ε (StateM σ) β} (h : ∀ a, Asks part (f a)) (l : List α) : Asks part (l.mapM f) := by
  induction l with
  | nil => exact pure _
  | cons a rest ih =>
    rw [List.mapM_cons]
    exact bind (h a) fun b => bind ih fun bs => pure _

end Asks

/-! ## Parts of a site -/

namespace Site

theorem onServer_eq {act : RepositoryM α} {site site' : Site} {result : Except RepositoryError α} :
    onServer act site = (result, site') ↔
      ∃ server, act site.server = (result, server) ∧ site' = { site with server } := by
  unfold onServer
  show ((act site.server).1, { site with server := (act site.server).2 }) = _ ↔ _
  rcases act site.server with ⟨answer, server⟩
  constructor
  · intro h
    cases h
    exact ⟨server, rfl, rfl⟩
  · rintro ⟨_, h, rfl⟩
    cases h
    rfl

theorem onDisk_eq {act : Disk → Except ε Unit × Disk} {site site' : Site} {result : Except ε Unit} :
    onDisk act site = (result, site') ↔ ∃ disk, act site.disk = (result, disk) ∧ site' = { site with disk } := by
  unfold onDisk
  show ((act site.disk).1, { site with disk := (act site.disk).2 }) = _ ↔ _
  rcases act site.disk with ⟨answer, disk⟩
  constructor
  · intro h
    cases h
    exact ⟨disk, rfl, rfl⟩
  · rintro ⟨_, h, rfl⟩
    cases h
    rfl

theorem keeps_onServer {part : Repository → τ} {act : RepositoryM α} (h : Keeps part act) :
    Keeps (fun site => part site.server) (onServer act) := fun site => h site.server

theorem onDisk_keeps_server (act : Disk → Except ε Unit × Disk) : Keeps (·.server) (onDisk act) :=
  fun _ => rfl

end Site

end SandboxFetch
