import Mathlib.Data.List.Range
import Mathlib.Data.Nat.ModEq
import Mathlib.Logic.Function.Basic
import Mathlib.Tactic.SplitIfs

namespace Circular

variable {T : Type*} {N i out inp : ℕ}

/-- The number of slots from `out` up to `inp`, going round at `N`. -/
def occupied (N inp out : ℕ) : ℕ := if out ≤ inp then inp - out else N - out + inp

/-- The `n` slots from `out` on, oldest first. -/
def window (N : ℕ) (buf : ℕ → T) (out n : ℕ) : List T :=
  (List.range n).map fun k => buf ((out + k) % N)

theorem succ_mod (h : i < N) : (i + 1) % N = if i + 1 = N then 0 else i + 1 := by
  split_ifs with he
  · rw [he, Nat.mod_self]
  · exact Nat.mod_eq_of_lt (by omega)

theorem occupied_lt (hi : inp < N) (ho : out < N) : occupied N inp out < N := by
  unfold occupied
  split_ifs <;> omega

theorem occupied_self : occupied N out out = 0 := by simp [occupied]

theorem occupied_eq_zero (ho : out < N) : occupied N inp out = 0 ↔ out = inp := by
  unfold occupied
  split_ifs <;> omega

theorem add_occupied (hi : inp < N) (ho : out < N) : (out + occupied N inp out) % N = inp := by
  unfold occupied
  split_ifs with h
  · rw [Nat.add_sub_cancel' h, Nat.mod_eq_of_lt hi]
  · rw [show out + (N - out + inp) = N + inp by omega, Nat.add_mod_left, Nat.mod_eq_of_lt hi]

/-- One slot is always left free, so full and empty are told apart. -/
theorem full_iff (hi : inp < N) (ho : out < N) :
    (inp + 1) % N = out ↔ occupied N inp out + 1 = N := by
  rw [succ_mod hi]
  unfold occupied
  split_ifs <;> omega

theorem occupied_push (hi : inp < N) (ho : out < N) (hf : (inp + 1) % N ≠ out) :
    occupied N ((inp + 1) % N) out = occupied N inp out + 1 := by
  rw [succ_mod hi] at hf ⊢
  unfold occupied
  split_ifs at hf ⊢ <;> omega

theorem occupied_pop (hi : inp < N) (ho : out < N) (he : out ≠ inp) :
    occupied N inp ((out + 1) % N) + 1 = occupied N inp out := by
  rw [succ_mod ho]
  unfold occupied
  split_ifs <;> omega

variable {buf : ℕ → T} {n : ℕ}

@[simp] theorem window_length : (window N buf out n).length = n := by simp [window]

@[simp] theorem window_zero : window N buf out 0 = [] := rfl

theorem window_succ : window N buf out (n + 1) = window N buf out n ++ [buf ((out + n) % N)] := by
  simp [window, List.range_succ]

theorem window_cons (ho : out < N) :
    window N buf out (n + 1) = buf out :: window N buf ((out + 1) % N) n := by
  simp only [window, List.range_succ_eq_map, List.map_cons, List.map_map, Nat.add_zero,
    Nat.mod_eq_of_lt ho, List.cons.injEq, true_and]
  refine List.map_congr_left fun k _ => ?_
  simp only [Function.comp_apply, Nat.mod_add_mod]
  congr 2
  omega

theorem slot_ne {k : ℕ} (hn : n < N) (hk : k < n) : (out + k) % N ≠ (out + n) % N := by
  intro h
  have hmod : k ≡ n [MOD N] := Nat.ModEq.add_left_cancel' out h
  have hkn : k = n := hmod.eq_of_lt_of_lt (hk.trans hn) hn
  omega

theorem window_update_behind {k : ℕ} (buf : ℕ → T) (out : ℕ) (v : T) (hn : n ≤ k) (hk : k < N) :
    window N (Function.update buf ((out + k) % N) v) out n = window N buf out n := by
  -- writing a slot behind the window leaves the window alone
  refine List.map_congr_left fun j hj => ?_
  rw [Function.update_of_ne (slot_ne hk ((List.mem_range.mp hj).trans_le hn))]

theorem window_update (buf : ℕ → T) (out : ℕ) (v : T) (hn : n < N) :
    window N (Function.update buf ((out + n) % N) v) out n = window N buf out n :=
  window_update_behind buf out v le_rfl hn

end Circular
