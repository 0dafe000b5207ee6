import Mathlib.Data.Nat.Digits.Defs

namespace LittleEndian

def encode : ℕ → ℕ → List UInt8
  | 0, _ => []
  | width + 1, n => UInt8.ofNat n :: encode width (n / 256)

def decode (l : List UInt8) : ℕ := Nat.ofDigits 256 (l.map UInt8.toNat)

variable {width n m : ℕ}

@[simp] theorem decode_nil : decode [] = 0 := rfl

theorem decode_cons (b : UInt8) (l : List UInt8) : decode (b :: l) = b.toNat + 256 * decode l := by
  unfold decode
  rw [List.map_cons, Nat.ofDigits_cons]

@[simp] theorem length_encode (width n : ℕ) : (encode width n).length = width := by
  induction width generalizing n with
  | zero => rfl
  | succ width ih => exact congrArg Nat.succ (ih (n / 256))

theorem decode_encode_mod (width n : ℕ) : decode (encode width n) = n % 256 ^ width := by
  induction width generalizing n with
  | zero => exact (Nat.mod_one n).symm
  | succ width ih =>
    have hb : (UInt8.ofNat n).toNat = n % 256 := rfl
    unfold encode
    rw [decode_cons, ih, hb, Nat.pow_succ', Nat.mod_mul]

theorem decode_encode (h : n < 256 ^ width) : decode (encode width n) = n := by
  rw [decode_encode_mod, Nat.mod_eq_of_lt h]

theorem decode_lt (l : List UInt8) : decode l < 256 ^ l.length := by
  have h := Nat.ofDigits_lt_base_pow_length (b := 256) (l := l.map UInt8.toNat) (by decide) (by
    intro x hx
    obtain ⟨b, -, rfl⟩ := List.mem_map.mp hx
    exact b.toNat_lt)
  rwa [List.length_map] at h

theorem encode_injOn (hn : n < 256 ^ width) (hm : m < 256 ^ width)
    (h : encode width n = encode width m) : n = m := by
  rw [← decode_encode hn, h, decode_encode hm]

end LittleEndian
