import Mathlib.Data.List.Nodup
import Mathlib.Data.List.Perm.Subperm
import Mathlib.Logic.Function.Basic

structure Blocks (α : Type*) where
  cells : ℕ → List α
  live : ℕ → Bool
  allocated : ℕ
  released : List ℕ

namespace Blocks

variable {α ι : Type*} (h : Blocks α) {b : ℕ} {p : Option ℕ} {l : List α}

def empty : Blocks α := ⟨fun _ => [], fun _ => false, 0, []⟩

def alloc (l : List α) : Blocks α := { h with
  cells := Function.update h.cells h.allocated l
  live := Function.update h.live h.allocated true
  allocated := h.allocated + 1 }

def free : Option ℕ → Blocks α
  | none => h
  | some b => { h with
    live := Function.update h.live b false
    released := h.released ++ [b] }

def write (b : ℕ) (l : List α) : Blocks α :=
  { h with cells := Function.update h.cells b (l ++ (h.cells b).drop l.length) }

/-- Names run up to `allocated`, and a released block is not live. -/
structure Ledger : Prop where
  live_lt : ∀ b, h.live b = true → b < h.allocated
  released_lt : ∀ b ∈ h.released, b < h.allocated ∧ h.live b = false

/-- Every owner has a live block of the size it gives, and no two owners the same block. -/
structure Owned (own : ι → Option (ℕ × ℕ)) : Prop where
  live : ∀ i b n, own i = some (b, n) → h.live b = true ∧ (h.cells b).length = n
  alone : ∀ i j b n m, own i = some (b, n) → own j = some (b, m) → i = j

/-- Every live block has an owner. -/
def Accounted (own : ι → Option (ℕ × ℕ)) : Prop :=
  ∀ b, h.live b = true → ∃ i n, own i = some (b, n)

variable {h} {own : ι → Option (ℕ × ℕ)} {i : ι}

@[simp] theorem free_cells (p : Option ℕ) : (h.free p).cells = h.cells := by cases p <;> rfl

@[simp] theorem free_allocated (p : Option ℕ) : (h.free p).allocated = h.allocated := by
  cases p <;> rfl

theorem alloc_cells_self (l : List α) : (h.alloc l).cells h.allocated = l :=
  Function.update_self _ _ _

theorem alloc_cells_ne (l : List α) (hb : b ≠ h.allocated) : (h.alloc l).cells b = h.cells b :=
  Function.update_of_ne hb _ _

theorem alloc_live_self (l : List α) : (h.alloc l).live h.allocated = true :=
  Function.update_self _ _ _

theorem alloc_live_ne (l : List α) (hb : b ≠ h.allocated) : (h.alloc l).live b = h.live b :=
  Function.update_of_ne hb _ _

theorem write_cells_self (b : ℕ) (l : List α) :
    (h.write b l).cells b = l ++ (h.cells b).drop l.length := Function.update_self _ _ _

theorem write_cells_ne {k : ℕ} (l : List α) (hk : k ≠ b) : (h.write b l).cells k = h.cells k :=
  Function.update_of_ne hk _ _

theorem ledger_empty : (empty : Blocks α).Ledger := ⟨by simp [empty], by simp [empty]⟩

theorem Ledger.alloc (hl : h.Ledger) (l : List α) : (h.alloc l).Ledger := by
  constructor
  · intro b hb
    by_cases he : b = h.allocated
    · exact he ▸ Nat.lt_succ_self _
    · rw [alloc_live_ne l he] at hb
      exact Nat.lt_succ_of_lt (hl.live_lt b hb)
  · intro b hb
    obtain ⟨hlt, hdead⟩ := hl.released_lt b hb
    rw [alloc_live_ne l (Nat.ne_of_lt hlt)]
    exact ⟨Nat.lt_succ_of_lt hlt, hdead⟩

theorem free_live_ne {k : ℕ} (hk : k ≠ b) : (h.free (some b)).live k = h.live k :=
  Function.update_of_ne hk _ _

theorem free_live_self (b : ℕ) : (h.free (some b)).live b = false := Function.update_self _ _ _

theorem Ledger.free (hl : h.Ledger) (hp : ∀ b ∈ p, h.live b = true) : (h.free p).Ledger := by
  cases p with
  | none => exact hl
  | some b =>
    constructor
    · intro k hk
      by_cases he : k = b
      · rw [he, free_live_self] at hk
        exact Bool.noConfusion hk
      · rw [free_live_ne he] at hk
        exact hl.live_lt k hk
    · intro k hk
      by_cases he : k = b
      · rw [he]
        exact ⟨hl.live_lt b (hp b rfl), free_live_self b⟩
      · have hmem : k ∈ h.released := by
          rcases List.mem_append.mp hk with hk | hk
          · exact hk
          · exact absurd (List.mem_singleton.mp hk) he
        rw [free_live_ne he]
        exact hl.released_lt k hmem

theorem Ledger.write (hl : h.Ledger) : (h.write b l).Ledger := ⟨hl.live_lt, hl.released_lt⟩

theorem Ledger.nodup_free (hl : h.Ledger) (hn : h.released.Nodup) (hp : ∀ b ∈ p, h.live b = true) :
    (h.free p).released.Nodup := by
  cases p with
  | none => exact hn
  | some b =>
    apply List.Nodup.append hn (List.nodup_singleton b)
    intro k hk hb
    obtain rfl := List.mem_singleton.mp hb
    have hdead := (hl.released_lt k hk).2
    rw [hp k rfl] at hdead
    exact Bool.noConfusion hdead

theorem Owned.live_of (ho : h.Owned own) (hp : p = (own i).map Prod.fst) :
    ∀ b ∈ p, h.live b = true := by
  intro b hb
  rw [hp] at hb
  obtain ⟨⟨_, n⟩, hi, rfl⟩ := Option.map_eq_some_iff.mp hb
  exact (ho.live i _ n hi).1

variable [DecidableEq ι]

/-- An owner may release its block and keep none. -/
theorem Owned.free (ho : h.Owned own) (hp : p = (own i).map Prod.fst) :
    (h.free p).Owned (Function.update own i none) := by
  have hkept {j : ι} {x : ℕ × ℕ} (hj : Function.update own i none j = some x) :
      j ≠ i ∧ own j = some x := by
    by_cases hji : j = i
    · rw [hji, Function.update_self] at hj
      cases hj
    · rw [Function.update_of_ne hji] at hj
      exact ⟨hji, hj⟩
  constructor
  · intro j b n hj
    obtain ⟨hji, hj⟩ := hkept hj
    obtain ⟨hlive, hlen⟩ := ho.live j b n hj
    rw [free_cells]
    refine ⟨?_, hlen⟩
    cases p with
    | none => exact hlive
    | some k =>
      obtain ⟨⟨_, m⟩, hi, rfl⟩ := Option.map_eq_some_iff.mp hp.symm
      rw [free_live_ne]
      · exact hlive
      · rintro rfl
        exact hji (ho.alone j i _ n m hj hi)
  · intro j k b n m hj hk
    exact ho.alone j k b n m (hkept hj).2 (hkept hk).2

theorem Owned.alloc (ho : h.Owned own) (hl : h.Ledger) (l : List α) :
    (h.alloc l).Owned (Function.update own i (some (h.allocated, l.length))) := by
  -- a fresh block is nobody else's
  have hold {j : ι} {b n : ℕ} (hj : own j = some (b, n)) : b ≠ h.allocated :=
    Nat.ne_of_lt (hl.live_lt b (ho.live j b n hj).1)
  have hself {b n : ℕ} (hi : Function.update own i (some (h.allocated, l.length)) i =
      some (b, n)) : b = h.allocated ∧ n = l.length := by
    rw [Function.update_self, Option.some.injEq, Prod.mk.injEq] at hi
    exact ⟨hi.1.symm, hi.2.symm⟩
  constructor
  · intro j b n hj
    by_cases hji : j = i
    · subst hji
      obtain ⟨rfl, rfl⟩ := hself hj
      rw [alloc_cells_self]
      exact ⟨alloc_live_self l, rfl⟩
    · rw [Function.update_of_ne hji] at hj
      rw [alloc_live_ne l (hold hj), alloc_cells_ne l (hold hj)]
      exact ho.live j b n hj
  · intro j k b n m hj hk
    by_cases hji : j = i <;> by_cases hki : k = i
    · rw [hji, hki]
    · subst hji
      rw [Function.update_of_ne hki] at hk
      exact absurd (hself hj).1 (hold hk)
    · subst hki
      rw [Function.update_of_ne hji] at hj
      exact absurd (hself hk).1 (hold hj)
    · rw [Function.update_of_ne hji] at hj
      rw [Function.update_of_ne hki] at hk
      exact ho.alone j k b n m hj hk

omit [DecidableEq ι] in
/-- Overwriting a block changes no size. -/
theorem Owned.write (ho : h.Owned own) (hlen : l.length ≤ (h.cells b).length) :
    (h.write b l).Owned own := by
  refine ⟨fun i k n hi => ?_, ho.alone⟩
  obtain ⟨hlive, hk⟩ := ho.live i k n hi
  refine ⟨hlive, ?_⟩
  by_cases he : k = b
  · subst he
    rw [← hk, write_cells_self, List.length_append, List.length_drop]
    omega
  · rw [← hk, write_cells_ne l he]

theorem Accounted.free (ha : h.Accounted own) (hp : p = (own i).map Prod.fst) :
    (h.free p).Accounted (Function.update own i none) := by
  intro b hb
  have hlive : h.live b = true ∧ p ≠ some b := by
    cases p with
    | none => exact ⟨hb, nofun⟩
    | some k =>
      by_cases hk : b = k
      · subst hk
        rw [free_live_self] at hb
        cases hb
      · rw [free_live_ne hk] at hb
        exact ⟨hb, fun he => hk (Option.some.inj he).symm⟩
  obtain ⟨j, n, hj⟩ := ha b hlive.1
  refine ⟨j, n, ?_⟩
  rw [Function.update_of_ne, hj]
  rintro rfl
  apply hlive.2
  rw [hp, hj]
  rfl

theorem Accounted.alloc (ha : h.Accounted own) (hi : own i = none) (l : List α) :
    (h.alloc l).Accounted (Function.update own i (some (h.allocated, l.length))) := by
  intro b hb
  by_cases he : b = h.allocated
  · exact ⟨i, l.length, by rw [Function.update_self, he]⟩
  · rw [alloc_live_ne l he] at hb
    obtain ⟨j, n, hj⟩ := ha b hb
    refine ⟨j, n, ?_⟩
    rw [Function.update_of_ne, hj]
    rintro rfl
    rw [hi] at hj
    cases hj

omit [DecidableEq ι] in
theorem Accounted.write (ha : h.Accounted own) : (h.write b l).Accounted own := ha

/-- There are no more live blocks than owners. -/
theorem Accounted.countP_le {own : ℕ → Option (ℕ × ℕ)} (ha : h.Accounted own) {k : ℕ}
    {there : ℕ → Bool} (hk : ∀ i, own i ≠ none → i < k ∧ there i = true) :
    (List.range h.allocated).countP h.live ≤ (List.range k).countP there := by
  let owned := ((List.range k).filter there).filterMap fun i => (own i).map Prod.fst
  have hsub : (List.range h.allocated).filter h.live ⊆ owned := by
    intro b hb
    obtain ⟨i, n, hi⟩ := ha b (List.mem_filter.mp hb).2
    obtain ⟨hlt, hthere⟩ := hk i (by rw [hi]; nofun)
    apply List.mem_filterMap.mpr
    exact ⟨i, List.mem_filter.mpr ⟨List.mem_range.mpr hlt, hthere⟩, by rw [hi]; rfl⟩
  have hnodup := List.Nodup.filter h.live (List.nodup_range (n := h.allocated))
  have hle := (List.Nodup.subperm hnodup hsub).length_le
  have howned : owned.length ≤ ((List.range k).filter there).length := List.length_filterMap_le _ _
  rw [List.countP_eq_length_filter, List.countP_eq_length_filter]
  omega

end Blocks
