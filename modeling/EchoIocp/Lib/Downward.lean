import Mathlib.Data.List.DropRight

namespace List

variable {α : Type*} {l xs ys : List α} {o i k n : ℕ}

/-- `xs` stands in `l` from `o` places before the end on. -/
def Holds (l : List α) (o : ℕ) (xs : List α) : Prop := o ≤ l.length ∧ xs <+: l.rtake o

/-- `xs` in place of what stands in `l` from `i` on. -/
def overwrite (l : List α) (i : ℕ) (xs : List α) : List α :=
  l.take i ++ xs ++ l.drop (i + xs.length)

theorem length_rtake (h : o ≤ l.length) : (l.rtake o).length = o := by
  unfold rtake
  rw [length_drop]
  omega

theorem rtake_append_of_le (xs : List α) (h : o ≤ l.length) : (xs ++ l).rtake o = l.rtake o := by
  unfold rtake
  have hn : (xs ++ l).length - o = xs.length + (l.length - o) := by
    rw [length_append]
    omega
  rw [hn, drop_append, drop_of_length_le (by omega), nil_append]
  congr 1
  omega

theorem rtake_drop (h : k + o ≤ l.length) : (l.drop k).rtake o = l.rtake o := by
  unfold rtake
  rw [drop_drop, length_drop]
  congr 1
  omega

theorem Holds.append (h : l.Holds o xs) (ys : List α) : (ys ++ l).Holds o xs := by
  refine ⟨?_, ?_⟩
  · rw [length_append]
    exact Nat.le_add_left_of_le h.1
  · rw [rtake_append_of_le ys h.1]
    exact h.2

theorem Holds.suffix {m : List α} (h : l.Holds o xs) (hs : l <:+ m) : m.Holds o xs := by
  obtain ⟨ys, rfl⟩ := hs
  exact h.append ys

theorem Holds.drop (h : l.Holds o xs) (hk : k + o ≤ l.length) : (l.drop k).Holds o xs := by
  refine ⟨?_, ?_⟩
  · rw [length_drop]
    omega
  · rw [rtake_drop hk]
    exact h.2

theorem Holds.length_le (h : l.Holds o xs) : xs.length ≤ o := by
  have hle := h.2.length_le
  rwa [length_rtake h.1] at hle

theorem holds_front (xs l : List α) : (xs ++ l).Holds (xs.length + l.length) xs := by
  refine ⟨(length_append).ge, ?_⟩
  unfold rtake
  rw [length_append, Nat.sub_self, drop_zero]
  exact prefix_append xs l

theorem Holds.left (h : l.Holds o (xs ++ ys)) : l.Holds o xs :=
  ⟨h.1, (prefix_append xs ys).trans h.2⟩

theorem Holds.take_drop (h : l.Holds o xs) : (l.drop (l.length - o)).take xs.length = xs :=
  (prefix_iff_eq_take.mp h.2).symm

theorem Holds.unique (h : l.Holds o xs) (h' : l.Holds o ys) (hlen : xs.length = ys.length) :
    xs = ys := by
  rw [← h.take_drop, ← h'.take_drop, hlen]

theorem holds_of_take_drop (ho : o ≤ l.length) (h : (l.drop (l.length - o)).take xs.length = xs) :
    l.Holds o xs := ⟨ho, prefix_iff_eq_take.mpr h.symm⟩

theorem length_overwrite (h : i + xs.length ≤ l.length) : (l.overwrite i xs).length = l.length := by
  unfold overwrite
  rw [length_append, length_append, length_take, length_drop]
  omega

theorem getElem?_overwrite (h : i + xs.length ≤ l.length) (k : ℕ) :
    (l.overwrite i xs)[k]? = if i ≤ k ∧ k < i + xs.length then xs[k - i]? else l[k]? := by
  have hi : (l.take i).length = i := length_take_of_le (by omega)
  unfold overwrite
  rw [append_assoc]
  split_ifs with hk
  · rw [getElem?_append_right (by omega), hi, getElem?_append_left (by omega)]
  · rcases Nat.lt_or_ge k i with hki | hki
    · rw [getElem?_append_left (by omega), getElem?_take_of_lt hki]
    · rw [getElem?_append_right (by omega), hi, getElem?_append_right (by omega), getElem?_drop]
      congr 1
      omega

theorem overwrite_zero (l xs : List α) : l.overwrite 0 xs = xs ++ l.drop xs.length := by
  unfold overwrite
  rw [take_zero, nil_append, Nat.zero_add]

theorem take_overwrite_of_le (xs : List α) (h : k ≤ i) (hi : i ≤ l.length) :
    (l.overwrite i xs).take k = l.take k := by
  unfold overwrite
  rw [append_assoc, take_append_of_le_length, take_take, Nat.min_eq_left h]
  rwa [length_take_of_le hi]

theorem drop_overwrite_of_le (h : i + xs.length ≤ k) (hi : i + xs.length ≤ l.length) :
    (l.overwrite i xs).drop k = l.drop k := by
  have hlen : (l.take i ++ xs).length = i + xs.length := by
    rw [length_append, length_take_of_le (by omega)]
  obtain ⟨m, rfl⟩ := Nat.exists_eq_add_of_le h
  unfold overwrite
  rw [← hlen, drop_length_add_append, drop_drop]

theorem drop_overwrite_of_ge (xs : List α) (h : k ≤ i) (hi : i ≤ l.length) :
    (l.overwrite i xs).drop k = (l.drop k).overwrite (i - k) xs := by
  unfold overwrite
  rw [append_assoc, drop_append_of_le_length (by rwa [length_take_of_le hi]), drop_take, drop_drop,
    append_assoc]
  congr 3
  omega

theorem drop_overwrite_self (h : i + xs.length = l.length) : (l.overwrite i xs).drop i = xs := by
  rw [drop_overwrite_of_ge xs le_rfl (by omega), Nat.sub_self, overwrite_zero, drop_drop, h,
    drop_length, append_nil]

theorem overwrite_append_left (ys : List α) (h : i + xs.length ≤ l.length) :
    (l ++ ys).overwrite i xs = l.overwrite i xs ++ ys := by
  unfold overwrite
  rw [take_append_of_le_length (by omega), drop_append_of_le_length h, append_assoc, append_assoc,
    append_assoc]

theorem take_drop_overwrite_self (h : i + xs.length ≤ l.length) :
    ((l.overwrite i xs).drop i).take xs.length = xs := by
  rw [drop_overwrite_of_ge xs le_rfl (by omega), Nat.sub_self, overwrite_zero, take_left]

theorem take_drop_overwrite (h : i + xs.length ≤ l.length)
    (hd : k + n ≤ i ∨ i + xs.length ≤ k) :
    ((l.overwrite i xs).drop k).take n = (l.drop k).take n := by
  refine ext_getElem? fun m => ?_
  rcases Nat.lt_or_ge m n with hm | hm
  · rw [getElem?_take_of_lt hm, getElem?_take_of_lt hm, getElem?_drop, getElem?_drop,
      getElem?_overwrite h, if_neg (by omega)]
  · rw [getElem?_take_eq_none hm, getElem?_take_eq_none hm]

end List
