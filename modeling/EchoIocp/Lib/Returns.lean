import Mathlib.Tactic.SplitIfs

universe u

/-- The call does not fail, and `Q` holds of what it returns and leaves. -/
def Returns {σ α : Type u} (x : StateT σ Option α) (s : σ) (Q : α → σ → Prop) : Prop :=
  ∃ a s', x s = some (a, s') ∧ Q a s'

namespace Returns

variable {σ α β : Type u} {s : σ} {a : α} {Q : α → σ → Prop} {R : β → σ → Prop}

theorem pure (h : Q a s) : Returns (pure a) s Q := ⟨a, s, rfl, h⟩

theorem mono {x : StateT σ Option α} {Q' : α → σ → Prop} (h : Returns x s Q)
    (hq : ∀ a s', Q a s' → Q' a s') : Returns x s Q' := by
  obtain ⟨a, s', hx, h⟩ := h
  exact ⟨a, s', hx, hq a s' h⟩

theorem bind {x : StateT σ Option α} {f : α → StateT σ Option β} (h : Returns x s Q)
    (hf : ∀ a s', Q a s' → Returns (f a) s' R) : Returns (x >>= f) s R := by
  obtain ⟨a, s', hx, h⟩ := h
  obtain ⟨b, t, hb, hr⟩ := hf a s' h
  refine ⟨b, t, ?_, hr⟩
  change (x s).bind (fun p => f p.1 p.2) = some (b, t)
  rw [hx]
  exact hb

theorem get_bind {f : σ → StateT σ Option β} (h : Returns (f s) s R) :
    Returns (get >>= f) s R := h

theorem modify {f : σ → σ} {Q : PUnit → σ → Prop} (h : Q ⟨⟩ (f s)) :
    Returns (modify f : StateT σ Option PUnit) s Q := ⟨⟨⟩, f s, rfl, h⟩

/-- A list of calls, each of which keeps `I` and moves on by one element. -/
theorem forM {f : β → StateT σ Option PUnit} (I : List β → σ → Prop) :
    ∀ {l : List β} {s : σ}, I l s →
      (∀ b l s, I (b :: l) s → Returns (f b) s fun _ s' => I l s') →
      Returns (l.forM f) s fun _ s' => I [] s'
  | [], _, h, _ => pure h
  | b :: l, _, h, hf => bind (hf b l _ h) fun _ _ h => forM I h hf

theorem lift {o : Option α} {Q : α → σ → Prop} (h : o = some a) (hq : Q a s) :
    Returns (StateT.lift o : StateT σ Option α) s Q := by
  refine ⟨a, s, ?_, hq⟩
  rw [h]
  rfl

end Returns

/-- The check does not fail to be made; it succeeds when `P` holds, and then leaves `t`. -/
def Decides {σ : Type} (x : StateT σ Option Bool) (s : σ) (P : Prop) (t : σ) : Prop :=
  Returns x s fun ok s' => (ok = true ↔ P) ∧ (ok = true → s' = t)

namespace Decides

variable {σ α : Type} {s t r : σ} {a : α} {P Q : Prop} {x y : StateT σ Option Bool}

theorem pure {b : Bool} (h : b = true ↔ P) : Decides (pure b) s P s :=
  Returns.pure ⟨h, fun _ => rfl⟩

theorem congr (h : Decides x s P t) (hpq : P ↔ Q) : Decides x s Q t :=
  Returns.mono h fun _ _ h => ⟨h.1.trans hpq, h.2⟩

theorem fails (h : ¬P) : Decides (Pure.pure false) s P t :=
  Returns.pure ⟨⟨fun ht => Bool.noConfusion ht, fun hp => absurd hp h⟩,
    fun ht => Bool.noConfusion ht⟩

/-- The second check is made only when the first succeeds. -/
theorem and (hx : Decides x s P t) (hy : P → Decides y t Q r) :
    Decides (x <&&> y) s (P ∧ Q) r := by
  refine Returns.bind hx fun ok s' h => ?_
  cases ok with
  | false =>
    have hp : ¬P := fun hp => Bool.noConfusion (h.1.mpr hp)
    exact fails fun hpq => hp hpq.1
  | true =>
    have hp := h.1.mp rfl
    obtain rfl := h.2 rfl
    exact Decides.congr (hy hp) ⟨fun hq => ⟨hp, hq⟩, fun hpq => hpq.2⟩

theorem lift_bind {o : Option α} {f : α → StateT σ Option Bool} (ho : o = some a)
    (h : Decides (f a) s P t) : Decides (StateT.lift o >>= f) s P t :=
  Returns.bind (Returns.lift (Q := fun b s' => b = a ∧ s' = s) ho ⟨rfl, rfl⟩) (by
    rintro b s' ⟨rfl, rfl⟩
    exact h)

theorem ite {c : Prop} [Decidable c] (hc : c → Decides x s P t) (hn : ¬c → ¬P) :
    Decides (if c then x else Pure.pure false) s P t := by
  split_ifs with h
  · exact hc h
  · exact fails (hn h)

end Decides
