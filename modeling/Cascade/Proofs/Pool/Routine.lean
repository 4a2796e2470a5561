import Cascade.Pool.Routine

/-!
# Laws of routines

There are four groups.

* The monad laws, and what running and lifting do to a composition.
* Seeing.  Other routines may move between two steps of a routine, so what
  it does depends on the states that its steps see.  `Routine.after` is what
  is left of a routine when its steps have seen given states, and
  `Routine.along` its answer when it comes to its end on them.
* Guarantees.  `Routine.Obeys` says what every step of a routine guarantees
  and what it answers, as long as something can be relied upon before each
  of its steps.
* Marks.  `Routine.Marks` says of a routine that may do one thing besides
  what it guarantees, when it has done it.
-/

namespace Cascade.Routine

variable {σ τ α β γ : Type}

/-! ## The monad laws -/

@[simp]
theorem done_bind (a : α) (f : α → Routine σ β) : (done a).bind f = f a := rfl

@[simp]
theorem step_bind (update : σ → σ) (rest : σ → Routine σ α) (f : α → Routine σ β) :
    (step update rest).bind f = step update fun s => (rest s).bind f := rfl

theorem bind_eq (r : Routine σ α) (f : α → Routine σ β) : r >>= f = r.bind f := rfl

@[simp]
theorem bind_done (r : Routine σ α) : r.bind done = r := by
  induction r with
  | done a => rfl
  | step update rest ih =>
    rw [step_bind]
    congr
    funext s
    exact ih s

theorem bind_assoc (r : Routine σ α) (f : α → Routine σ β) (g : β → Routine σ γ) :
    (r.bind f).bind g = r.bind fun a => (f a).bind g := by
  induction r with
  | done a => rfl
  | step update rest ih =>
    simp only [step_bind]
    congr
    funext s
    exact ih s

instance : LawfulMonad (Routine σ) :=
  LawfulMonad.mk' (Routine σ) bind_done (fun _ _ => rfl) bind_assoc

/-- Running a composition runs its parts one after the other. -/
theorem run_bind (r : Routine σ α) (f : α → Routine σ β) (s : σ) :
    (r.bind f).run s = (f (r.run s).1).run (r.run s).2 := by
  induction r generalizing s with
  | done a => rfl
  | step update rest ih => exact ih s (update s)

/-! ## What a routine sees -/

/-- What is left of a routine when its steps have seen the given states in
turn; `none` if it ended before. -/
def after : Routine σ α → List σ → Option (Routine σ α)
  | r, [] => some r
  | done _, _ :: _ => none
  | step _ rest, s :: seen => (rest s).after seen

/-- The answer of a routine whose steps see the given states in turn, and
the states that it left over; `none` if they are too few. -/
def along : Routine σ α → List σ → Option (α × List σ)
  | done a, seen => some (a, seen)
  | step _ _, [] => none
  | step _ rest, s :: seen => (rest s).along seen

@[simp]
theorem after_nil (r : Routine σ α) : r.after [] = some r := by
  cases r <;> rfl

/-- One more step. -/
theorem after_concat {r : Routine σ α} {seen : List σ} {update : σ → σ}
    {rest : σ → Routine σ α} (h : r.after seen = some (step update rest)) (s : σ) :
    r.after (seen ++ [s]) = some (rest s) := by
  induction seen generalizing r with
  | nil =>
    rw [after_nil, Option.some.injEq] at h
    subst h
    exact after_nil (rest s)
  | cons s' seen ih =>
    cases r with
    | done a => cases h
    | step update' rest' => exact ih h

/-- Nothing is left of a routine that has seen all states of a run. -/
theorem along_eq_of_after {r : Routine σ α} {seen : List σ} {a : α}
    (h : r.after seen = some (done a)) : r.along seen = some (a, []) := by
  induction seen generalizing r with
  | nil =>
    rw [after_nil, Option.some.injEq] at h
    subst h
    rfl
  | cons s seen ih =>
    cases r with
    | done a' => cases h
    | step update rest => exact ih h

/-- What a routine has left over is the end of what there was to see. -/
theorem suffix_of_along {r : Routine σ α} {seen left : List σ} {a : α}
    (h : r.along seen = some (a, left)) : left <:+ seen := by
  induction seen generalizing r with
  | nil =>
    cases r with
    | done a' =>
      cases h
      exact List.suffix_refl []
    | step update rest => cases h
  | cons s seen ih =>
    cases r with
    | done a' =>
      cases h
      exact List.suffix_refl _
    | step update rest => exact (ih h).trans (List.suffix_cons s seen)

/-- A composition sees what its parts see one after the other. -/
theorem along_bind (r : Routine σ α) (f : α → Routine σ β) (seen : List σ) :
    (r.bind f).along seen = (r.along seen).bind fun (a, left) => (f a).along left := by
  induction r generalizing seen with
  | done a => rfl
  | step update rest ih =>
    cases seen with
    | nil => rfl
    | cons s seen => exact ih s seen

/-! ## What a routine guarantees -/

/-- As long as `I` holds before each step, each step is in `R` and the
answer in `P`. -/
def Obeys (I : σ → Prop) (R : σ → σ → Prop) (P : α → Prop) : Routine σ α → Prop
  | done a => P a
  | step update rest => ∀ s, I s → R s (update s) ∧ (rest s).Obeys I R P

variable {I : σ → Prop} {R R' : σ → σ → Prop} {P P' : α → Prop} {Q : β → Prop}

theorem obeys_pure {a : α} (h : P a) : (pure a : Routine σ α).Obeys I R P := h

theorem obeys_atomic {f : σ → α × σ} (h : ∀ s, I s → R s (f s).2 ∧ P (f s).1) :
    (atomic f).Obeys I R P :=
  h

/-- Nothing is asked of any step. -/
theorem obeys_trivial (r : Routine σ α) : r.Obeys I (fun _ _ => True) fun _ => True := by
  induction r with
  | done a => trivial
  | step update rest ih => exact fun s _ => ⟨trivial, ih s⟩

theorem Obeys.bind {r : Routine σ α} {f : α → Routine σ β} (hr : r.Obeys I R P)
    (hf : ∀ a, P a → (f a).Obeys I R Q) : (r.bind f).Obeys I R Q := by
  induction r with
  | done a => exact hf a hr
  | step update rest ih =>
    intro s hs
    obtain ⟨hstep, hrest⟩ := hr s hs
    exact ⟨hstep, ih s hrest⟩

theorem Obeys.mono {r : Routine σ α} {I' : σ → Prop} (hr : r.Obeys I R P)
    (hI : ∀ s, I' s → I s) (hR : ∀ s s', I' s → R s s' → R' s s') (hP : ∀ a, P a → P' a) :
    r.Obeys I' R' P' := by
  induction r with
  | done a => exact hP a hr
  | step update rest ih =>
    intro s hs
    obtain ⟨hstep, hrest⟩ := hr s (hI s hs)
    exact ⟨hR _ _ hs hstep, ih s hrest⟩

/-- What a routine guarantees it also guarantees after some steps. -/
theorem Obeys.after {r r' : Routine σ α} {seen : List σ} (hr : r.Obeys I R P)
    (hseen : ∀ s ∈ seen, I s) (h : r.after seen = some r') : r'.Obeys I R P := by
  induction seen generalizing r with
  | nil =>
    rw [after_nil, Option.some.injEq] at h
    exact h ▸ hr
  | cons s seen ih =>
    cases r with
    | done a => cases h
    | step update rest =>
      exact ih (hr s (hseen s (by simp))).2 (fun s' hs' => hseen s' (by simp [hs'])) h

/-- An answer is as it should be when every step could rely on what it has
to. -/
theorem Obeys.along {r : Routine σ α} {seen left : List σ} {a : α} (hr : r.Obeys I R P)
    (hseen : ∀ s ∈ seen, I s) (h : r.along seen = some (a, left)) : P a := by
  induction seen generalizing r with
  | nil =>
    cases r with
    | done a' =>
      cases h
      exact hr
    | step update rest => cases h
  | cons s seen ih =>
    cases r with
    | done a' =>
      cases h
      exact hr
    | step update rest =>
      exact ih (hr s (hseen s (by simp))).2 (fun s' hs' => hseen s' (by simp [hs'])) h

/-- Run to the end, a routine that keeps what it relies upon leaves it, and
every relation that its steps compose to. -/
theorem Obeys.run {r : Routine σ α} (hr : r.Obeys I R P) (hkeep : ∀ s s', I s → R s s' → I s')
    (hrefl : ∀ s, I s → R s s) (htrans : ∀ s₁ s₂ s₃, R s₁ s₂ → R s₂ s₃ → R s₁ s₃) {s : σ}
    (hs : I s) :
    I (r.run s).2 ∧ R s (r.run s).2 ∧ P (r.run s).1 := by
  induction r generalizing s with
  | done a => exact ⟨hs, hrefl s hs, hr⟩
  | step update rest ih =>
    obtain ⟨hstep, hrest⟩ := hr s hs
    obtain ⟨hI, hR, hP⟩ := ih s hrest (hkeep _ _ hs hstep)
    exact ⟨hI, htrans _ _ _ hstep hR, hP⟩

/-! ## What a routine leaves a mark of

A routine may do one thing that counts.  `mark` says from the states that were
seen whether it has been done, and what it was. -/

/-- As long as `I` holds before each step, each step is in `R` and leaves the
mark as it is, or it does what the mark then says. -/
def Marks {μ : Type} (I : σ → Prop) (R : σ → σ → Prop) (S : μ → σ → σ → Prop) :
    Routine σ α → (List σ → Option μ) → Prop
  | done _, _ => True
  | step update rest, mark => ∀ s, I s →
    ((R s (update s) ∧ mark [s] = mark []) ∨
      ∃ m, mark [] = none ∧ mark [s] = some m ∧ S m s (update s)) ∧
    (rest s).Marks I R S fun seen => mark (s :: seen)

variable {μ : Type} {S : μ → σ → σ → Prop}

/-- A routine all of whose steps are in `R` leaves any mark as it is. -/
theorem Obeys.marks {r : Routine σ α} (hr : r.Obeys I R P) (m : Option μ) :
    r.Marks I R S fun _ => m := by
  induction r with
  | done a => trivial
  | step update rest ih =>
    intro s hs
    obtain ⟨hstep, hrest⟩ := hr s hs
    exact ⟨Or.inl ⟨hstep, rfl⟩, ih s hrest⟩

/-- What a routine that leaves a mark guarantees in any case. -/
theorem Marks.obeys {r : Routine σ α} {mark : List σ → Option μ} (hr : r.Marks I R S mark)
    (hR : ∀ s s', R s s' → R' s s') (hS : ∀ m s s', S m s s' → R' s s') :
    r.Obeys I R' fun _ => True := by
  induction r generalizing mark with
  | done a => trivial
  | step update rest ih =>
    intro s hs
    obtain ⟨hstep, hrest⟩ := hr s hs
    refine ⟨?_, ih s hrest⟩
    rcases hstep with ⟨hstep, _⟩ | ⟨m, _, _, hstep⟩
    · exact hR _ _ hstep
    · exact hS _ _ _ hstep

/-- When only the second part of a composition does what counts, the mark is
the one that this part leaves in what the first part has not seen. -/
theorem Obeys.bind_marks {r : Routine σ α} {f : α → Routine σ β} (hr : r.Obeys I R P)
    (mark : α → List σ → Option μ)
    (hf : ∀ a, P a → (f a).Marks I R S (mark a)) (hnone : ∀ a, mark a [] = none) :
    (r.bind f).Marks I R S fun seen => (r.along seen).bind fun (a, left) => mark a left := by
  induction r with
  | done a => exact hf a hr
  | step update rest ih =>
    intro s hs
    obtain ⟨hstep, hrest⟩ := hr s hs
    refine ⟨Or.inl ⟨hstep, ?_⟩, ih s hrest⟩
    -- one step may end the first part, but the second part has seen nothing then
    change ((rest s).along []).bind _ = none
    cases rest s with
    | done a => exact hnone a
    | step _ _ => rfl

end Cascade.Routine
