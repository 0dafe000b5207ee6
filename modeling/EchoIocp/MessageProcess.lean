import EchoIocp.CustomOverlapped
import Mathlib.Data.Nat.Digits.Defs

namespace EchoIocp

/-- A pointer into the buffer of a packet by its distance from the start, or null. -/
abbrev Ptr := Option ℤ

abbrev vtMessageType : ℕ := 4

/-- The two's complement value of `width` bytes. -/
def toSigned (width n : ℕ) : ℤ := (BitVec.ofNat (8 * width) n).toInt

namespace Packet

variable (p : Packet)

def scalar (pos : ℤ) (width : ℕ) : ℕ :=
  Nat.ofDigits 256 ((((p.buffer.getD []).drop pos.toNat).take width).map UInt8.toNat)

/-- `ReadScalar` of an unsigned type; all its bytes have to lie in the buffer. -/
def readScalar (ptr : Ptr) (width : ℕ) : Option ℕ :=
  match p.buffer, ptr with
  | some _, some pos => if 0 ≤ pos ∧ pos + width ≤ p.dataSize then some (p.scalar pos width) else none
  | _, _ => none

def getRoot : Option Ptr :=
  match p.buffer with
  | none => some none
  | some _ => (p.readScalar (some 0) 4).map fun o : ℕ => some (o : ℤ)

def getVTable (data : Ptr) : Option Ptr :=
  (p.readScalar data 4).map fun s => data.map fun pos => pos - toSigned 4 s

def getOptionalFieldOffset (data : Ptr) (field : ℕ) : Option ℕ :=
  (p.getVTable data).bind fun vtable =>
    (p.readScalar vtable 2).bind fun vtsize =>
      if field < vtsize then p.readScalar (vtable.map fun pos => pos + field) 2 else some 0

/-- `GetField` of a signed type. -/
def getField (data : Ptr) (field width : ℕ) (defaultval : ℤ) : Option ℤ :=
  (p.getOptionalFieldOffset data field).bind fun fieldOffset =>
    if fieldOffset ≠ 0 then
      (p.readScalar (data.map fun pos => pos + fieldOffset) width).map (toSigned width)
    else some defaultval

def messageType (messageWrapper : Ptr) : Option ℤ := p.getField messageWrapper vtMessageType 4 0

/-- The verifier is constructed and never asked; no case of the `switch` does anything. -/
def messageProcess : Option ℤ := p.getRoot.bind p.messageType

def rootOffset : ℤ := p.scalar 0 4

def vtableOffset : ℤ := p.rootOffset - toSigned 4 (p.scalar p.rootOffset 4)

def messageTypeOffset : ℕ :=
  if vtMessageType < p.scalar p.vtableOffset 2 then p.scalar (p.vtableOffset + vtMessageType) 2
  else 0

/-- The offsets found in the packet lead from the root to `message_type` without leaving it. -/
structure Inside : Prop where
  buffer : p.buffer ≠ none
  root : 4 ≤ p.dataSize
  table : p.rootOffset + 4 ≤ p.dataSize
  vtable : 0 ≤ p.vtableOffset ∧ p.vtableOffset + 2 ≤ p.dataSize
  slot : vtMessageType < p.scalar p.vtableOffset 2 →
    p.vtableOffset + vtMessageType + 2 ≤ p.dataSize
  field : p.messageTypeOffset ≠ 0 → p.rootOffset + p.messageTypeOffset + 4 ≤ p.dataSize

variable {p} {pos : ℤ} {width n : ℕ}

theorem readScalar_of_inside (hb : p.buffer ≠ none) (h0 : 0 ≤ pos) (hn : pos + width ≤ p.dataSize) :
    p.readScalar (some pos) width = some (p.scalar pos width) := by
  obtain ⟨bytes, hb⟩ := Option.ne_none_iff_exists'.mp hb
  unfold readScalar
  rw [hb]
  exact if_pos ⟨h0, hn⟩

theorem readScalar_eq_some {ptr : Ptr} (h : p.readScalar ptr width = some n) :
    ∃ pos, ptr = some pos ∧ p.buffer ≠ none ∧ 0 ≤ pos ∧ pos + width ≤ p.dataSize ∧
      n = p.scalar pos width := by
  unfold readScalar at h
  split at h
  · rename_i bytes pos hb
    split_ifs at h with hin
    exact ⟨pos, rfl, by simp [hb], hin.1, hin.2, (Option.some.inj h).symm⟩
  · cases h

theorem getRoot_of_inside (hb : p.buffer ≠ none) (hn : 4 ≤ p.dataSize) :
    p.getRoot = some (some p.rootOffset) := by
  have hread : p.readScalar (some 0) 4 = some (p.scalar 0 4) :=
    readScalar_of_inside hb le_rfl (by omega)
  obtain ⟨bytes, hb⟩ := Option.ne_none_iff_exists'.mp hb
  unfold getRoot
  rw [hb]
  simp only [hread]
  rfl

theorem getRoot_eq_some (h : p.getRoot = some (some pos)) :
    p.buffer ≠ none ∧ 4 ≤ p.dataSize ∧ pos = p.rootOffset := by
  -- a table that can be read at was found through a root offset inside the packet
  unfold getRoot at h
  split at h
  · cases h
  · obtain ⟨o, hread, ho⟩ := Option.map_eq_some_iff.mp h
    obtain ⟨_, hz, hb, -, hn, rfl⟩ := readScalar_eq_some hread
    obtain rfl := Option.some.inj hz
    exact ⟨hb, by omega, (Option.some.inj ho).symm⟩

theorem getOptionalFieldOffset_of_inside (hb : p.buffer ≠ none)
    (htable : p.rootOffset + 4 ≤ p.dataSize)
    (hvtable : 0 ≤ p.vtableOffset ∧ p.vtableOffset + 2 ≤ p.dataSize)
    (hslot : vtMessageType < p.scalar p.vtableOffset 2 →
      p.vtableOffset + vtMessageType + 2 ≤ p.dataSize) :
    p.getOptionalFieldOffset (some p.rootOffset) vtMessageType = some p.messageTypeOffset := by
  have hread : p.readScalar (some p.rootOffset) 4 = some (p.scalar p.rootOffset 4) :=
    readScalar_of_inside hb (Int.natCast_nonneg _) htable
  have hvread : p.readScalar (some p.vtableOffset) 2 = some (p.scalar p.vtableOffset 2) :=
    readScalar_of_inside hb hvtable.1 hvtable.2
  unfold getOptionalFieldOffset getVTable
  rw [hread, Option.map_some, Option.map_some, Option.bind_some, ← vtableOffset, hvread,
    Option.bind_some]
  unfold messageTypeOffset
  split_ifs with hlt
  · have hpos : 0 ≤ p.vtableOffset + vtMessageType := by omega
    exact readScalar_of_inside hb hpos (hslot hlt)
  · rfl

theorem messageProcess_of_inside (h : p.Inside) : p.messageProcess.isSome = true := by
  have hroot : 0 ≤ p.rootOffset := Int.natCast_nonneg _
  unfold messageProcess messageType getField
  rw [getRoot_of_inside h.buffer h.root, Option.bind_some,
    getOptionalFieldOffset_of_inside h.buffer h.table h.vtable h.slot, Option.bind_some]
  split_ifs with hoff
  · have hpos : 0 ≤ p.rootOffset + p.messageTypeOffset := by omega
    rw [Option.map_some, readScalar_of_inside h.buffer hpos (h.field hoff)]
    rfl
  · rfl

theorem inside_of_messageProcess (h : p.messageProcess.isSome = true) : p.Inside := by
  obtain ⟨v, hv⟩ := Option.isSome_iff_exists.mp h
  obtain ⟨table, hroot, hmsg⟩ := Option.bind_eq_some_iff.mp hv
  obtain ⟨off, hoff, hfield⟩ := Option.bind_eq_some_iff.mp hmsg
  obtain ⟨vtable, hvt, hrest⟩ := Option.bind_eq_some_iff.mp hoff
  obtain ⟨vtsize, hsize, hslot⟩ := Option.bind_eq_some_iff.mp hrest
  obtain ⟨soffset, hs, rfl⟩ := Option.map_eq_some_iff.mp hvt
  obtain ⟨pos, rfl, -, -, htable, rfl⟩ := readScalar_eq_some hs
  obtain ⟨hb, hn, rfl⟩ := getRoot_eq_some hroot
  obtain ⟨vpos, hpos, -, hv0, hvn, rfl⟩ := readScalar_eq_some hsize
  obtain rfl : p.vtableOffset = vpos := Option.some.inj hpos
  have hfound : (vtMessageType < p.scalar p.vtableOffset 2 →
      p.vtableOffset + vtMessageType + 2 ≤ p.dataSize) ∧ off = p.messageTypeOffset := by
    unfold messageTypeOffset
    split_ifs at hslot ⊢ with hlt
    · obtain ⟨spos, he, -, -, hin, rfl⟩ := readScalar_eq_some hslot
      obtain rfl := Option.some.inj he
      exact ⟨fun _ => hin, rfl⟩
    · exact ⟨fun h => absurd h hlt, (Option.some.inj hslot).symm⟩
  obtain ⟨hslot', rfl⟩ := hfound
  refine ⟨hb, hn, htable, ⟨hv0, hvn⟩, hslot', fun hne => ?_⟩
  rw [if_pos hne] at hfield
  obtain ⟨n, hread, -⟩ := Option.map_eq_some_iff.mp hfield
  obtain ⟨fpos, he, -, -, hin, -⟩ := readScalar_eq_some hread
  obtain rfl := Option.some.inj he
  exact hin

/-- Every read made for `message_type` lies in the packet exactly when its offsets lead nowhere
else. -/
theorem messageProcess_iff (p : Packet) : p.messageProcess.isSome = true ↔ p.Inside :=
  ⟨inside_of_messageProcess, messageProcess_of_inside⟩

/-- A packet without a buffer, and one whose root offset points past its end. -/
theorem reads_outside :
    (⟨0, none, 0⟩ : Packet).messageProcess = none ∧
      (⟨0, some [16, 0, 0, 0], 4⟩ : Packet).messageProcess = none := ⟨rfl, rfl⟩

end Packet

end EchoIocp
