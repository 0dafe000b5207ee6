import Mathlib.Data.List.Infix

/-- A guarded machine: an action is impossible, or gives the next state and what is observed. -/
structure Machine (σ α ε : Type*) where
  step : σ → α → Option (σ × List ε)

namespace Machine

variable {σ α ε : Type*} (M : Machine σ α ε) {s s' : σ} {as : List α} {es : List ε}

/-- The final state and the observations of a list of actions, oldest first. -/
def run (s : σ) : List α → Option (σ × List ε)
  | [] => some (s, [])
  | a :: as => (M.step s a).bind fun p => (run p.1 as).map fun q => (q.1, p.2 ++ q.2)

@[simp] theorem run_nil : M.run s [] = some (s, []) := rfl

theorem run_cons {a : α} :
    M.run s (a :: as) = some (s', es) ↔ ∃ s₁ e es₁, M.step s a = some (s₁, e) ∧
      M.run s₁ as = some (s', es₁) ∧ es = e ++ es₁ := by
  simp only [run, Option.bind_eq_some_iff, Option.map_eq_some_iff, Prod.mk.injEq, Prod.exists]
  constructor
  · rintro ⟨s₁, e, hs, s₂, es₁, hr, rfl, rfl⟩
    exact ⟨s₁, e, es₁, hs, hr, rfl⟩
  · rintro ⟨s₁, e, es₁, hs, hr, rfl⟩
    exact ⟨s₁, e, hs, s', es₁, hr, rfl, rfl⟩

theorem run_append {bs : List α} :
    M.run s (as ++ bs) = some (s', es) ↔ ∃ s₁ e₁ e₂, M.run s as = some (s₁, e₁) ∧
      M.run s₁ bs = some (s', e₂) ∧ es = e₁ ++ e₂ := by
  induction as generalizing s es with
  | nil => simp
  | cons a as ih =>
    simp only [List.cons_append, run_cons, ih]
    constructor
    · rintro ⟨s₁, e, _, hs, ⟨s₂, e₁, e₂, h₁, h₂, rfl⟩, rfl⟩
      exact ⟨s₂, e ++ e₁, e₂, ⟨s₁, e, e₁, hs, h₁, rfl⟩, h₂, by simp⟩
    · rintro ⟨s₂, _, e₂, ⟨s₁, e, e₁, hs, h₁, rfl⟩, h₂, rfl⟩
      exact ⟨s₁, e, e₁ ++ e₂, hs, ⟨s₂, e₁, e₂, h₁, h₂, rfl⟩, by simp⟩

theorem run_concat {a : α} :
    M.run s (as ++ [a]) = some (s', es) ↔ ∃ s₁ e₁ e₂, M.run s as = some (s₁, e₁) ∧
      M.step s₁ a = some (s', e₂) ∧ es = e₁ ++ e₂ := by
  simp [run_append, run_cons]

/-- What holds at the start and is kept by every step holds at the end of every run. -/
theorem run_induction {P : List α → List ε → σ → Prop} (h0 : P [] [] s)
    (hstep : ∀ as es s₁ a s₂ e, M.run s as = some (s₁, es) → P as es s₁ →
      M.step s₁ a = some (s₂, e) → P (as ++ [a]) (es ++ e) s₂) :
    M.run s as = some (s', es) → P as es s' := by
  -- a run is extended at its end, so the list is taken apart there
  induction as using List.reverseRecOn generalizing s' es with
  | nil =>
    intro h
    obtain ⟨rfl, rfl⟩ : s = s' ∧ [] = es := by simpa using h
    exact h0
  | append_singleton as a ih =>
    intro h
    obtain ⟨s₁, e₁, e₂, h₁, hs, rfl⟩ := (M.run_concat).mp h
    exact hstep as e₁ s₁ a s' e₂ h₁ (ih h₁) hs

/-- `P` holds at every moment of the run of `as` from `s`. -/
def Along (s : σ) (as : List α) (P : List ε → σ → Prop) : Prop :=
  ∀ as' es' s', as' <+: as → M.run s as' = some (s', es') → P es' s'

/-- Every step of the run of `as` from `s` is taken in a state where `C` allows it. -/
def Steps (s : σ) (as : List α) (C : σ → α → Prop) : Prop :=
  ∀ as' a es' s', as' ++ [a] <+: as → M.run s as' = some (s', es') → C s' a

/-- The same steps, with something else observed of them. -/
def observing {ε' : Type*} (note : σ → α → List ε') : Machine σ α ε' where
  step s a := (M.step s a).map fun p => (p.1, note s a)

variable {M}

theorem observing_step {ε' : Type*} {note : σ → α → List ε'} {a : α} {out : List ε'} :
    (M.observing note).step s a = some (s', out) ↔
      (∃ e, M.step s a = some (s', e)) ∧ out = note s a := by
  simp only [observing, Option.map_eq_some_iff, Prod.mk.injEq, Prod.exists]
  constructor
  · rintro ⟨s₁, e, hs, rfl, rfl⟩
    exact ⟨⟨e, hs⟩, rfl⟩
  · rintro ⟨⟨e, hs⟩, rfl⟩
    exact ⟨s', e, hs, rfl, rfl⟩

theorem run_of_observing {ε' : Type*} {note : σ → α → List ε'} {fs : List ε'}
    (h : (M.observing note).run s as = some (s', fs)) : ∃ es, M.run s as = some (s', es) := by
  induction as generalizing s fs with
  | nil =>
    obtain ⟨rfl, -⟩ : s = s' ∧ [] = fs := by simpa using h
    exact ⟨[], rfl⟩
  | cons a as ih =>
    obtain ⟨s₁, out, fs₁, hs, hr, -⟩ := (run_cons _).mp h
    obtain ⟨⟨e, hs⟩, -⟩ := observing_step.mp hs
    obtain ⟨es, hr⟩ := ih hr
    exact ⟨e ++ es, M.run_cons.mpr ⟨s₁, e, es, hs, hr, rfl⟩⟩

theorem Along.last {P : List ε → σ → Prop} (h : M.Along s as P)
    (hr : M.run s as = some (s', es)) : P es s' := h as es s' List.prefix_rfl hr

theorem Along.take {P : List ε → σ → Prop} {as' : List α} (h : M.Along s as P)
    (hp : as' <+: as) : M.Along s as' P :=
  fun bs es' s' hb hr => h bs es' s' (hb.trans hp) hr

/-- An invariant of the steps that `C` allows holds all along a run of such steps. -/
theorem Steps.along {C : σ → α → Prop} {P : List ε → σ → Prop} (h : M.Steps s as C)
    (h0 : P [] s) (hstep : ∀ es s₁ a s₂ e, P es s₁ → C s₁ a →
      M.step s₁ a = some (s₂, e) → P (es ++ e) s₂) : M.Along s as P := by
  intro as' es' s' hp hr
  refine M.run_induction (P := fun bs es₁ s₁ => bs <+: as' → P es₁ s₁) (fun _ => h0) ?_ hr
    List.prefix_rfl
  intro bs es₁ s₁ a s₂ e hr' ih hs hb
  have hbs : bs <+: as' := (List.prefix_append bs [a]).trans hb
  exact hstep es₁ s₁ a s₂ e (ih hbs) (h bs a es₁ s₁ (hb.trans hp) hr') hs

/-- A finite run can be looked at moment by moment. -/
theorem along_of_inits {P : List ε → σ → Prop} [∀ es s, Decidable (P es s)]
    (h : ∀ bs ∈ as.inits, ((M.run s bs).all fun r => decide (P r.2 r.1)) = true) :
    M.Along s as P := by
  intro bs es' s' hp hr
  have hbs := h bs ((List.mem_inits _ _).mpr hp)
  rw [hr] at hbs
  simpa using hbs

/-- `C` allows every step of a finite run, computed. -/
def checks (M : Machine σ α ε) (C : σ → α → Prop) [∀ s a, Decidable (C s a)] (s : σ) :
    List α → Bool
  | [] => true
  | a :: as => decide (C s a) && (M.step s a).all fun p => checks M C p.1 as

theorem steps_of_checks {C : σ → α → Prop} [∀ s a, Decidable (C s a)]
    (h : M.checks C s as = true) : M.Steps s as C := by
  induction as generalizing s with
  | nil =>
    intro bs a es' s' hp
    exact absurd hp (by simp)
  | cons b as ih =>
    simp only [checks, Bool.and_eq_true, decide_eq_true_eq] at h
    rintro bs a es' s' hp hr
    cases bs with
    | nil =>
      obtain ⟨rfl, -⟩ : a = b ∧ _ := List.cons_prefix_cons.mp hp
      obtain ⟨rfl, -⟩ : s = s' ∧ [] = es' := by simpa using hr
      exact h.1
    | cons c bs =>
      obtain ⟨rfl, hp'⟩ := List.cons_prefix_cons.mp hp
      obtain ⟨s₁, e, es₁, hs, hr', -⟩ := (M.run_cons).mp hr
      have hrest := h.2
      rw [hs] at hrest
      exact ih hrest bs a es₁ s' hp' hr'

theorem along_of_step {P : List ε → σ → Prop} (h0 : P [] s)
    (hstep : ∀ es s₁ a s₂ e, P es s₁ → M.step s₁ a = some (s₂, e) → P (es ++ e) s₂) :
    M.Along s as P :=
  Steps.along (C := fun _ _ => True) (fun _ _ _ _ _ _ => trivial) h0
    fun es s₁ a s₂ e hP _ hs => hstep es s₁ a s₂ e hP hs

/-- If, as long as `P` holds, a step keeps it exactly when `C` allows the step, then `P` holds all
along a run exactly when `C` allows every step. -/
theorem along_iff_steps {P J : List ε → σ → Prop} {C : σ → α → Prop} (h0 : J [] s ∧ P [] s)
    (hstep : ∀ bs es' s₁ a s₂ e, bs ++ [a] <+: as → M.run s bs = some (s₁, es') → J es' s₁ →
      P es' s₁ → M.step s₁ a = some (s₂, e) → J (es' ++ e) s₂ ∧ (P (es' ++ e) s₂ ↔ C s₁ a))
    (hstuck : ∀ s₁ a, M.step s₁ a = none → C s₁ a) : M.Along s as P ↔ M.Steps s as C := by
  constructor
  · intro hal as' a es' s' hp hr
    have hpre : as' <+: as := (List.prefix_append as' [a]).trans hp
    have hJ : J es' s' := by
      refine M.run_induction (P := fun bs es s => bs <+: as → J es s) (fun _ => h0.1) ?_ hr hpre
      intro bs es₁ s₁ b s₂ e hrun ih hs hb
      have hbs : bs <+: as := (List.prefix_append bs [b]).trans hb
      exact (hstep bs es₁ s₁ b s₂ e hb hrun (ih hbs) (hal _ _ _ hbs hrun) hs).1
    cases hs : M.step s' a with
    | none => exact hstuck s' a hs
    | some p =>
      -- the state after the step is reached too
      have hrun := M.run_concat.mpr ⟨s', es', p.2, hr, hs, rfl⟩
      exact (hstep as' es' s' a p.1 p.2 hp hr hJ (hal _ _ _ hpre hr) hs).2.mp (hal _ _ _ hp hrun)
  · intro hC as' es' s' hp hr
    refine (M.run_induction (P := fun bs es s => bs <+: as → J es s ∧ P es s) (fun _ => h0) ?_ hr
      hp).2
    intro bs es₁ s₁ b s₂ e hrun ih hs hb
    obtain ⟨hJ, hP⟩ := ih ((List.prefix_append bs [b]).trans hb)
    obtain ⟨hJ', hiff⟩ := hstep bs es₁ s₁ b s₂ e hb hrun hJ hP hs
    exact ⟨hJ', hiff.mpr (hC bs b es₁ s₁ hb hrun)⟩

theorem Steps.tail {C : σ → α → Prop} {a : α} (h : M.Steps s (a :: as) C)
    (hs : M.step s a = some (s', es)) : M.Steps s' as C := by
  intro as' b es' t hp hr
  exact h (a :: as') b (es ++ es') t (List.cons_prefix_cons.mpr ⟨rfl, hp⟩)
    (M.run_cons.mpr ⟨s', es, es', hs, hr, rfl⟩)

/-- Both fail, or they give related states and the same observations. -/
def Matches {τ : Type*} (R : σ → τ → Prop) :
    Option (σ × List ε) → Option (τ × List ε) → Prop :=
  Option.Rel fun p q => R p.1 q.1 ∧ p.2 = q.2

theorem run_matches {τ : Type*} {N : Machine τ α ε} {R : σ → τ → Prop} {C : τ → α → Prop} {t : τ}
    (hstep : ∀ s t a, R s t → C t a → Matches R (M.step s a) (N.step t a)) (h : R s t)
    (hC : N.Steps t as C) : Matches R (M.run s as) (N.run t as) := by
  induction as generalizing s t with
  | nil => exact .some ⟨h, rfl⟩
  | cons a as ih =>
    have hfirst := hstep s t a h (hC [] a [] t (List.prefix_append [a] as) rfl)
    unfold run
    cases hs : M.step s a with
    | none =>
      cases ht : N.step t a with
      | none => exact .none
      | some q =>
        rw [hs, ht] at hfirst
        cases hfirst
    | some p =>
      cases ht : N.step t a with
      | none =>
        rw [hs, ht] at hfirst
        cases hfirst
      | some q =>
        rw [hs, ht] at hfirst
        cases hfirst with
        | some hpq =>
          have hrest := ih hpq.1 (hC.tail ht)
          rw [Option.bind_some, Option.bind_some]
          generalize M.run p.1 as = x at hrest ⊢
          generalize N.run q.1 as = y at hrest ⊢
          cases hrest with
          | none => exact .none
          | some hr => exact .some ⟨hr.1, congrArg₂ (· ++ ·) hpq.2 hr.2⟩

end Machine
