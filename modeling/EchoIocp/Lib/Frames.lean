import Mathlib.Data.List.Basic
import Mathlib.Tactic.Ring

namespace Frames

variable {α : Type*} {n : ℕ} {l m : List α}

def count (n : ℕ) (l : List α) : ℕ := (l.length - 1) / n

/-- The frames cut off, in order. -/
def cut (n : ℕ) (l : List α) : List (List α) :=
  (List.range (count n l)).map fun k => (l.drop (k * n)).take n

/-- What is left of the list. -/
def rest (n : ℕ) (l : List α) : List α := l.drop (count n l * n)

@[simp] theorem cut_length : (cut n l).length = count n l := by simp [cut]

theorem count_of_le (hl : l.length ≤ n) : count n l = 0 := by
  unfold count
  rcases Nat.eq_zero_or_pos l.length with h | h
  · simp [h]
  · apply Nat.div_eq_of_lt
    omega

theorem count_of_lt (hn : 0 < n) (hl : n < l.length) : count n l = count n (l.drop n) + 1 := by
  unfold count
  rw [List.length_drop, show l.length - 1 = (l.length - n - 1) + n by omega,
    Nat.add_div_right _ hn]

theorem cut_of_le (hl : l.length ≤ n) : cut n l = [] := by
  unfold cut
  rw [count_of_le hl]
  rfl

theorem rest_of_le (hl : l.length ≤ n) : rest n l = l := by
  unfold rest
  rw [count_of_le hl, Nat.zero_mul, List.drop_zero]

theorem cut_of_lt (hn : 0 < n) (hl : n < l.length) : cut n l = l.take n :: cut n (l.drop n) := by
  unfold cut
  rw [count_of_lt hn hl, List.range_succ_eq_map, List.map_cons, List.map_map, Nat.zero_mul,
    List.drop_zero]
  congr 1
  apply List.map_congr_left
  intro k _
  rw [Function.comp_apply, List.drop_drop]
  congr 2
  rw [Nat.succ_eq_add_one]
  ring

theorem rest_of_lt (hn : 0 < n) (hl : n < l.length) : rest n l = rest n (l.drop n) := by
  unfold rest
  rw [count_of_lt hn hl, List.drop_drop]
  congr 1
  ring

/-- What holds of short lists and is kept by one frame more holds of every list. -/
theorem frame_induction {P : List α → Prop} (hn : 0 < n) (short : ∀ l, l.length ≤ n → P l)
    (long : ∀ l, n < l.length → P (l.drop n) → P l) (l : List α) : P l := by
  induction hk : l.length using Nat.strong_induction_on generalizing l with
  | _ k ih =>
    by_cases hl : l.length ≤ n
    · exact short l hl
    · apply long l (by omega)
      apply ih (l.drop n).length _ _ rfl
      rw [List.length_drop]
      omega

theorem cut_flatten_rest (hn : 0 < n) (l : List α) : (cut n l).flatten ++ rest n l = l := by
  induction l using frame_induction hn with
  | short l hl =>
    rw [cut_of_le hl, rest_of_le hl]
    rfl
  | long l hl ih =>
    rw [cut_of_lt hn hl, rest_of_lt hn hl, List.flatten_cons, List.append_assoc, ih,
      List.take_append_drop]

theorem length_of_mem_cut (hn : 0 < n) (l : List α) : ∀ frame ∈ cut n l, frame.length = n := by
  induction l using frame_induction hn with
  | short l hl => simp [cut_of_le hl]
  | long l hl ih =>
    rw [cut_of_lt hn hl]
    intro frame hframe
    rcases List.mem_cons.mp hframe with rfl | hframe
    · rw [List.length_take]
      omega
    · exact ih frame hframe

theorem rest_length_le (hn : 0 < n) (l : List α) : (rest n l).length ≤ n := by
  induction l using frame_induction hn with
  | short l hl =>
    rw [rest_of_le hl]
    exact hl
  | long l hl ih =>
    rw [rest_of_lt hn hl]
    exact ih

/-- Cutting the first part at once changes neither the frames nor what is left. -/
theorem cut_append (hn : 0 < n) (l m : List α) : cut n (l ++ m) = cut n l ++ cut n (rest n l ++ m) ∧
    rest n (l ++ m) = rest n (rest n l ++ m) := by
  induction l using frame_induction hn with
  | short l hl =>
    rw [cut_of_le hl, rest_of_le hl]
    exact ⟨rfl, rfl⟩
  | long l hl ih =>
    have hlm : n < (l ++ m).length := by
      rw [List.length_append]
      omega
    have hdrop : (l ++ m).drop n = l.drop n ++ m := List.drop_append_of_le_length (by omega)
    have htake : (l ++ m).take n = l.take n := List.take_append_of_le_length (by omega)
    rw [cut_of_lt hn hlm, rest_of_lt hn hlm, cut_of_lt hn hl, rest_of_lt hn hl, hdrop, htake, ih.1,
      ih.2]
    exact ⟨rfl, rfl⟩

theorem length_eq (n : ℕ) (l : List α) : l.length = count n l * n + (rest n l).length := by
  unfold rest count
  rw [List.length_drop]
  have := Nat.div_mul_le_self (l.length - 1) n
  omega

/-- A whole frame is left exactly when the length is a multiple of `n`. -/
theorem rest_length_lt_iff (hn : 0 < n) (hl : l ≠ []) :
    (rest n l).length < n ↔ l.length % n ≠ 0 := by
  have hle := rest_length_le hn l
  have hlen := length_eq n l
  have hpos : 0 < (rest n l).length := by
    unfold rest count
    rw [List.length_drop]
    have := Nat.div_mul_le_self (l.length - 1) n
    have := List.length_pos_iff.mpr hl
    omega
  rw [hlen, Nat.mul_add_mod_self_right]
  constructor
  · intro hlt
    rw [Nat.mod_eq_of_lt hlt]
    omega
  · intro hmod
    apply lt_of_le_of_ne hle
    intro he
    rw [he, Nat.mod_self] at hmod
    exact hmod rfl

theorem count_eq_div (hn : 0 < n) (h : (rest n l).length < n) : count n l = l.length / n := by
  rw [length_eq n l, Nat.add_comm, Nat.add_mul_div_right _ _ hn, Nat.div_eq_of_lt h, Nat.zero_add]

end Frames
