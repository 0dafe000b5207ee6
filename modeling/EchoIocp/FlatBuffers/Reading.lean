import EchoIocp.FlatBuffers.Accepted
import EchoIocp.FlatBuffers.Serialize

namespace EchoIocp

open LittleEndian Verifier

namespace Packet

/-- The packet carries a buffer whose objects are held by `rest`. -/
structure Carries (p : Packet) (bytes rest : List UInt8) : Prop where
  buffer : p.buffer = some bytes
  size : p.dataSize = bytes.length
  suffix : rest <:+ bytes
  front : rest.length + 4 ≤ bytes.length
  aligned : bytes.length % 4 = 0
  lt : bytes.length < maxSize

variable {p : Packet} {bytes rest xs vt str : List UInt8} {o use k w e field target : ℕ}
  {fields : List (ℕ × Stored)} {s : Stored}

theorem Carries.buffer_ne (h : p.Carries bytes rest) : p.buffer ≠ none := by
  rw [h.buffer]
  exact Option.some_ne_none bytes

theorem Carries.le (h : p.Carries bytes rest) (hx : rest.Holds o xs) :
    o + 4 ≤ p.dataSize ∧ xs.length ≤ o := by
  have ho := hx.1
  have hfront := h.front
  have hsize := h.size
  exact ⟨by omega, hx.length_le⟩

theorem Carries.fits (h : p.Carries bytes rest) (hx : rest.Holds o xs) (hk : k + w ≤ xs.length) :
    p.Fits (p.dataSize - o + k) w := by
  obtain ⟨ho, hlen⟩ := h.le hx
  exact ⟨by omega, by omega⟩

theorem Carries.take_drop (h : p.Carries bytes rest) (hx : rest.Holds o xs)
    (hk : k + w ≤ xs.length) :
    (bytes.drop (p.dataSize - o + k)).take w = (xs.drop k).take w := by
  have hholds := (hx.suffix h.suffix).take_drop
  rw [h.size, ← List.drop_drop, ← hholds, List.drop_take, List.take_take, Nat.min_eq_left]
  omega

theorem Carries.scalar (h : p.Carries bytes rest) (hx : rest.Holds o xs) (hk : k + w ≤ xs.length) :
    p.scalar (p.dataSize - o + k : ℕ) w = decode ((xs.drop k).take w) := by
  unfold Packet.scalar
  rw [h.buffer, Option.getD_some, Int.toNat_natCast, h.take_drop hx hk]
  rfl

theorem Carries.scalar_encode (h : p.Carries bytes rest) (hx : rest.Holds o (encode w e))
    (he : e < 256 ^ w) : p.scalar (p.dataSize - o : ℕ) w = e := by
  have hlen : (encode w e).length = w := length_encode w e
  have hread := h.scalar hx (show 0 + w ≤ (encode w e).length by omega)
  rwa [Nat.add_zero, List.drop_zero, List.take_of_length_le hlen.le, decode_encode he] at hread

theorem toSigned_of_lt {n : ℕ} (hn : n < 2 ^ 32) :
    toSigned 4 n = if n < 2 ^ 31 then (n : ℤ) else n - 2 ^ 32 := by
  have hnat : (BitVec.ofNat (8 * 4) n).toNat = n := Nat.mod_eq_of_lt hn
  unfold toSigned
  rw [BitVec.toInt_eq_toNat_cond, hnat]
  split_ifs <;> omega

/-- The distance between two places is kept modulo 2 ^ 32 and read with its sign. -/
theorem toSigned_sub (huse : use < 2 ^ 31) (ho : o < 2 ^ 31) :
    toSigned 4 ((use + 2 ^ 32 - o) % 2 ^ 32) = use - o := by
  rw [toSigned_of_lt (Nat.mod_lt _ (by omega))]
  split_ifs <;> omega

theorem Carries.vtablePos (h : p.Carries bytes rest) (ht : TableAt rest o use vt fields) :
    p.vtablePos (p.dataSize - o) = (p.dataSize - use : ℕ) := by
  have ho := (h.le ht.link).1
  have huse := (h.le ht.stands).1
  have hlt := h.lt
  have hsize := h.size
  unfold maxSize at hlt
  have hread := h.scalar_encode ht.link (show (use + 2 ^ 32 - o) % 2 ^ 32 < 256 ^ 4 by omega)
  unfold Packet.vtablePos
  rw [hread, toSigned_sub (by omega) (by omega)]
  omega

theorem decode_entry (h : entry vt k = encode 2 e) (he : e < 2 ^ 16) :
    decode ((vt.drop k).take 2) = e := by
  unfold entry at h
  rw [h, decode_encode he]

theorem Carries.vtableSize (h : p.Carries bytes rest) (ht : TableAt rest o use vt fields) :
    p.vtableSize (p.dataSize - o) = vt.length := by
  obtain ⟨h4, h16, -⟩ := ht.size
  have hread := h.scalar ht.stands (show 0 + 2 ≤ vt.length by omega)
  unfold Packet.vtableSize
  rwa [h.vtablePos ht, ← Nat.add_zero (p.dataSize - use), ← decode_entry ht.head h16]

theorem Carries.tableInside (h : p.Carries bytes rest) (ht : TableAt rest o use vt fields) :
    p.TableInside (p.dataSize - o) := by
  have hpos := h.vtablePos ht
  have hsize := h.vtableSize ht
  obtain ⟨h4, h16, heven⟩ := ht.size
  obtain ⟨ho, hlen⟩ := h.le ht.link
  have haligned := h.aligned
  have hn := h.size
  have ho4 := ht.aligned
  have huse := ht.useAligned
  have hfits (w : ℕ) (hw : w ≤ vt.length) : p.Fits (p.vtablePos (p.dataSize - o)).toNat w := by
    rw [hpos, Int.toNat_natCast]
    exact h.fits ht.stands (show 0 + w ≤ vt.length by omega)
  refine ⟨by omega, ?_, by omega, by omega, hfits 2 (by omega), by rwa [hsize], ?_⟩
  · exact h.fits ht.link (show 0 + 4 ≤ _ by rw [length_encode])
  · rw [hsize]
    exact hfits _ le_rfl

theorem Carries.fieldOffset_none (h : p.Carries bytes rest) (ht : TableAt rest o use vt fields)
    (heven : field % 2 = 0) (hge : 4 ≤ field) (hlook : fields.lookup field = none) :
    p.fieldOffset (p.dataSize - o) field = 0 := by
  have hfield := ht.fields field heven hge
  rw [hlook] at hfield
  have hlen := ht.size.2.2
  unfold Packet.fieldOffset
  rw [h.vtableSize ht]
  split_ifs with hlt
  · rw [h.vtablePos ht, ← Nat.cast_add, h.scalar ht.stands (by omega)]
    exact decode_entry (hfield hlt) (by decide)
  · rfl

theorem Carries.fieldOffset_some (h : p.Carries bytes rest) (ht : TableAt rest o use vt fields)
    (heven : field % 2 = 0) (hge : 4 ≤ field) (hlook : fields.lookup field = some s) :
    ∃ off, off % s.width = 0 ∧ s.Fits off ∧ rest.Holds off (s.bytes off) ∧
      p.fieldOffset (p.dataSize - o) field ≠ 0 ∧
      p.dataSize - o + p.fieldOffset (p.dataSize - o) field = p.dataSize - off := by
  have hfield := ht.fields field heven hge
  rw [hlook] at hfield
  obtain ⟨off, hlt, hobj, hle, hentry, haligned, hfits, hholds⟩ := hfield
  have ho := (h.le ht.link).1
  have hoffset : p.fieldOffset (p.dataSize - o) field = o - off := by
    unfold Packet.fieldOffset
    rw [h.vtableSize ht, if_pos (by omega), h.vtablePos ht, ← Nat.cast_add, h.scalar ht.stands hle]
    exact decode_entry hentry (by omega)
  exact ⟨off, haligned, hfits, hholds, by omega, by omega⟩

/-- A scalar of a table, its default included, reads back. -/
theorem Carries.scalarField (h : p.Carries bytes rest) (ht : TableAt rest o use vt fields)
    (heven : field % 2 = 0) (hge : 4 ≤ field)
    (hlook : fields.lookup field = none ∧ e = 0 ∨ fields.lookup field = some (.scalar w e)) :
    p.FieldInside (p.dataSize - o) (.scalar field w) ∧
      (if p.fieldOffset (p.dataSize - o) field = 0 then 0
        else p.scalar (p.dataSize - o + p.fieldOffset (p.dataSize - o) field : ℕ) w) = e := by
  rcases hlook with ⟨hlook, rfl⟩ | hlook
  · have h0 := h.fieldOffset_none ht heven hge hlook
    exact ⟨fun hne => absurd h0 hne, if_pos h0⟩
  · obtain ⟨off, haligned, ⟨hw, he⟩, hholds, hne, hpos⟩ := h.fieldOffset_some ht heven hge hlook
    have hn := h.aligned
    have hsize := h.size
    have hoff := (h.le hholds).1
    have hlen : (Stored.bytes off (.scalar w e)).length = w := length_encode w e
    have hfits := h.fits hholds (show 0 + w ≤ _ by omega)
    refine ⟨fun _ => ⟨?_, ?_⟩, ?_⟩
    · change off % w = 0 at haligned
      rw [hpos]
      rcases hw with rfl | rfl <;> omega
    · rwa [hpos]
    · rw [if_neg hne, hpos]
      exact h.scalar_encode hholds he

theorem Carries.offsetField (h : p.Carries bytes rest) (ht : TableAt rest o use vt fields)
    (heven : field % 2 = 0) (hge : 4 ≤ field) (hpos : 0 < target)
    (hlook : fields.lookup field = some (.offset target)) :
    p.fieldOffset (p.dataSize - o) field ≠ 0 ∧
      p.OffsetInside (p.dataSize - o + p.fieldOffset (p.dataSize - o) field) ∧
      p.target (p.dataSize - o) field = p.dataSize - target := by
  obtain ⟨off, haligned, hfits, hholds, hne, hat⟩ := h.fieldOffset_some ht heven hge hlook
  have hlt : target < off := hfits
  have hoff := (h.le hholds).1
  have hn := h.aligned
  have hsize := h.size
  have hmax := h.lt
  unfold maxSize at hmax
  change off % 4 = 0 at haligned
  have hread : p.scalar (p.dataSize - off : ℕ) 4 = off - target :=
    h.scalar_encode hholds (by omega)
  have hfit : p.Fits (p.dataSize - off) 4 :=
    h.fits hholds (show 0 + 4 ≤ _ by rw [Stored.length_bytes]; exact le_rfl)
  refine ⟨hne, ?_, ?_⟩
  · rw [hat]
    refine ⟨by omega, hfit, by omega, by omega, ?_⟩
    rw [hread]
    exact ⟨by omega, by omega⟩
  · unfold Packet.target
    rw [hat, hread]
    omega

theorem Carries.string (h : p.Carries bytes rest) (hs : StringAt rest o str) :
    p.StringInside (p.dataSize - o) ∧ p.stringAt (p.dataSize - o) = str := by
  obtain ⟨ho4, hholds⟩ := hs
  obtain ⟨ho, hlen⟩ := h.le hholds
  have hn := h.aligned
  have hsize := h.size
  have hmax := h.lt
  unfold maxSize at hmax
  have htotal : (encode 4 str.length ++ (str ++ [0])).length = 4 + (str.length + 1) := by
    rw [List.length_append, List.length_append, length_encode, List.length_singleton]
  have hread : p.scalar (p.dataSize - o : ℕ) 4 = str.length :=
    h.scalar_encode hholds.left (by omega)
  have hfits (k w : ℕ) (hk : k + w ≤ 4 + (str.length + 1)) : p.Fits (p.dataSize - o + k) w :=
    h.fits hholds (by omega)
  have hzero : p.scalar (p.dataSize - o + (4 + str.length) : ℕ) 1 = 0 := by
    rw [h.scalar hholds (by omega), ← List.append_assoc]
    have hl : (encode 4 str.length ++ str).length = 4 + str.length := by
      rw [List.length_append, length_encode]
    rw [← hl, List.drop_left]
    rfl
  refine ⟨⟨by omega, hfits 0 4 (by omega), ?_, ?_, ?_, ?_⟩, ?_⟩
  · rw [hread]
    unfold maxSize
    omega
  · rw [hread]
    exact hfits 0 _ (by omega)
  · rw [hread]
    exact hfits _ 1 (by omega)
  · rw [hread]
    exact hzero
  · unfold stringAt
    rw [hread, h.buffer, Option.getD_some, h.take_drop hholds (by omega),
      List.drop_append_of_le_length (length_encode _ _).ge,
      List.drop_of_length_le (length_encode _ _).le, List.nil_append, List.take_left]

end Packet

end EchoIocp
