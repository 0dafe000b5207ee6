import EchoIocp.FlatBuffers.WellFormed
import EchoIocp.FlatBuffers.MessageWrapper

namespace EchoIocp

open Verifier

/-- Where the offset of the root stands. -/
def startOf (sizePrefix : Bool) : ℕ := if sizePrefix then 4 else 0

namespace Packet

variable (p : Packet)

def verifyMessage (sizePrefix : Bool) : Check :=
  if sizePrefix then p.verifySizePrefixedMessageWrapperBuffer else p.verifyMessageWrapperBuffer

/-- The `content_type` of the root, 0 if there is none. -/
def contentTypeAt (tableo : ℕ) : ℕ :=
  if p.fieldOffset tableo MessageWrapper.vtContentType = 0 then 0
  else p.scalar (tableo + p.fieldOffset tableo MessageWrapper.vtContentType : ℕ) 1

/-- The root can be read, and so can its content if its type is one of the union. -/
structure WrapperInside (tableo : ℕ) : Prop where
  table : p.TableInside tableo
  messageType : p.FieldInside tableo (.scalar vtMessageType 4)
  contentType : p.FieldInside tableo (.scalar MessageWrapper.vtContentType 1)
  offset : p.fieldOffset tableo MessageWrapper.vtContent ≠ 0 →
    p.OffsetInside (tableo + p.fieldOffset tableo MessageWrapper.vtContent)
  content : ∀ fields, contentFields (p.contentTypeAt tableo) = some fields →
    p.fieldOffset tableo MessageWrapper.vtContent ≠ 0 →
      p.TableWith fields (p.target tableo MessageWrapper.vtContent)

/-- A buffer that starts at `start` has room for a table, and all its offsets lie inside. -/
structure WellFormed (start : ℕ) : Prop where
  size : minBufferSize ≤ p.dataSize
  offset : p.OffsetInside start
  root : p.WrapperInside (p.rootAt start)

variable {p} {tableo field depth numTables start type : ℕ} {v : Verifier} {fields : List TableField}

theorem TableInside.getUint8 (h : p.TableInside tableo) (hb : p.buffer ≠ none)
    (heven : field % 2 = 0) (hf : p.FieldInside tableo (.scalar field 1)) :
    p.getUint8 (some tableo) field = some (if p.fieldOffset tableo field = 0 then 0
      else p.scalar (tableo + p.fieldOffset tableo field : ℕ) 1) := by
  unfold Packet.getUint8
  rw [h.getOptionalFieldOffset hb heven, Option.bind_some]
  by_cases h0 : p.fieldOffset tableo field = 0
  · rw [if_pos h0, if_neg (not_not.mpr h0)]
  · have hread := readScalar_of_fits hb (hf h0).2
    rw [Nat.cast_add] at hread
    rw [if_neg h0, if_pos h0, Option.map_some, hread, Nat.cast_add]

theorem ofInt_toSigned (n : ℕ) : BitVec.ofInt 32 (toSigned 4 n) = BitVec.ofNat 32 n :=
  BitVec.ofInt_toInt

theorem TableInside.getField (h : p.TableInside tableo) (hb : p.buffer ≠ none)
    (heven : field % 2 = 0) (hf : p.FieldInside tableo (.scalar field 4)) :
    p.getField (some tableo) field 4 0 = some (if p.fieldOffset tableo field = 0 then 0
      else toSigned 4 (p.scalar (tableo + p.fieldOffset tableo field : ℕ) 4)) := by
  unfold Packet.getField
  rw [h.getOptionalFieldOffset hb heven, Option.bind_some]
  by_cases h0 : p.fieldOffset tableo field = 0
  · rw [if_pos h0, if_neg (not_not.mpr h0)]
  · have hread := readScalar_of_fits hb (hf h0).2
    rw [Nat.cast_add] at hread
    rw [if_neg h0, if_pos h0, Option.map_some, hread, Option.map_some, Nat.cast_add]

theorem TableInside.getInt32 (h : p.TableInside tableo) (hb : p.buffer ≠ none)
    (heven : field % 2 = 0) (hf : p.FieldInside tableo (.scalar field 4)) :
    p.getInt32 (some tableo) field = some (if p.fieldOffset tableo field = 0 then 0
      else BitVec.ofNat 32 (p.scalar (tableo + p.fieldOffset tableo field : ℕ) 4)) := by
  unfold Packet.getInt32
  rw [h.getField hb heven hf, Option.map_some, apply_ite (BitVec.ofInt 32), ofInt_toSigned]
  rfl

/-- The bytes of a string in a packet. -/
def stringAt (p : Packet) (str : ℕ) : List UInt8 :=
  ((p.buffer.getD []).drop (str + 4)).take (p.scalar str 4)

theorem StringInside.str {str : ℕ} (h : p.StringInside str) (hb : p.buffer ≠ none) :
    p.str (some (str : ℤ)) = some (some (p.stringAt str)) := by
  obtain ⟨bytes, hbytes⟩ := Option.ne_none_iff_exists'.mp hb
  have hread := readScalar_of_fits hb h.fits
  have hle := h.bytes.2
  have hin : 0 ≤ (str : ℤ) + 4 ∧ (str : ℤ) + 4 + p.scalar str 4 ≤ p.dataSize := by omega
  have hnat : ((str : ℤ) + 4).toNat = str + 4 := by omega
  have hdata : p.readBytes (str + 4) (p.scalar str 4) = some (p.stringAt str) := by
    unfold readBytes stringAt
    rw [hbytes]
    dsimp only [Option.getD_some]
    rw [if_pos hin, hnat]
  unfold Packet.str
  dsimp only
  rw [hread, Option.bind_some, hdata, Option.map_some]

theorem TableInside.getString (h : p.TableInside tableo) (hb : p.buffer ≠ none)
    (heven : field % 2 = 0) (hf : p.FieldInside tableo (.string field)) :
    p.getString (some tableo) field = some (if p.fieldOffset tableo field = 0 then none
      else some (p.stringAt (p.target tableo field))) := by
  unfold Packet.getString
  rw [h.getPointer hb heven fun hne => (hf hne).1.fits, Option.bind_some]
  by_cases h0 : p.fieldOffset tableo field = 0
  · rw [if_pos h0, if_pos h0]
    rfl
  · rw [if_neg h0, if_neg h0]
    exact (hf h0).2.str hb

/-- The accessor of a field stays inside the packet. -/
def Readable (p : Packet) (t : Ptr) : TableField → Prop
  | .scalar field 4 => (p.getInt32 t field).isSome
  | .scalar field _ => (p.getBool t field).isSome
  | .string field => (p.getString t field).isSome

theorem contentFields_regular (h : contentFields type = some fields) : ∀ f ∈ fields, f.Regular := by
  unfold contentFields at h
  split at h <;> first
    | obtain rfl := Option.some.inj h
      decide
    | cases h

theorem TableWith.readable (h : p.TableWith fields tableo) (hb : p.buffer ≠ none)
    (hf : ∀ f ∈ fields, f.Regular) : ∀ f ∈ fields, p.Readable (some tableo) f := by
  intro f hmem
  have hreg := hf f hmem
  have hin := h.2 f hmem
  cases f with
  | scalar field width =>
    obtain ⟨heven, rfl | rfl⟩ := hreg
    · change (p.getBool (some tableo) field).isSome
      unfold Packet.getBool
      rw [h.1.getUint8 hb heven hin]
      rfl
    · change (p.getInt32 (some tableo) field).isSome
      rw [h.1.getInt32 hb heven hin]
      rfl
  | string field =>
    change (p.getString (some tableo) field).isSome
    rw [h.1.getString hb hreg hin]
    rfl

section

variable {α β γ δ : Type} {x : Option α} {y : Option β} {z : Option γ}

theorem isSome_read₁ (f : α → δ) (hx : x.isSome) : (do return f (← x)).isSome := by
  obtain ⟨a, rfl⟩ := Option.isSome_iff_exists.mp hx
  rfl

theorem isSome_read₂ (f : α → β → δ) (hx : x.isSome) (hy : y.isSome) :
    (do return f (← x) (← y)).isSome := by
  obtain ⟨a, rfl⟩ := Option.isSome_iff_exists.mp hx
  obtain ⟨b, rfl⟩ := Option.isSome_iff_exists.mp hy
  rfl

theorem isSome_read₃ (f : α → β → γ → δ) (hx : x.isSome) (hy : y.isSome) (hz : z.isSome) :
    (do return f (← x) (← y) (← z)).isSome := by
  obtain ⟨a, rfl⟩ := Option.isSome_iff_exists.mp hx
  obtain ⟨b, rfl⟩ := Option.isSome_iff_exists.mp hy
  obtain ⟨c, rfl⟩ := Option.isSome_iff_exists.mp hz
  rfl

end

theorem isSome_readContent {pos : ℤ} (h : contentFields type = some fields)
    (hr : ∀ f ∈ fields, p.Readable (some pos) f) :
    (p.readContent type (some pos)).isSome := by
  unfold contentFields at h
  split at h
  case h_12 | h_14 | h_15 | h_16 =>
    obtain rfl := Option.some.inj h
    exact isSome_read₁ _ (hr _ (.head _))
  case h_5 | h_7 =>
    obtain rfl := Option.some.inj h
    exact isSome_read₃ _ (hr _ (.head _)) (hr _ (.tail _ (.head _)))
      (hr _ (.tail _ (.tail _ (.head _))))
  case h_17 => cases h
  all_goals
    obtain rfl := Option.some.inj h
    exact isSome_read₂ _ (hr _ (.head _)) (hr _ (.tail _ (.head _)))

theorem readContent_of_unknown {content : Ptr} (h : contentFields type = none) :
    p.readContent type content = some .none := by
  unfold contentFields at h
  split at h
  case h_17 =>
    unfold readContent
    split <;> simp_all
  all_goals cases h

theorem WrapperInside.contentType_eq (h : p.WrapperInside tableo) (hb : p.buffer ≠ none) :
    MessageWrapper.contentType p (some tableo) = some (p.contentTypeAt tableo) :=
  h.table.getUint8 hb rfl h.contentType

theorem WrapperInside.content_eq (h : p.WrapperInside tableo) (hb : p.buffer ≠ none) :
    MessageWrapper.content p (some tableo) =
      some (if p.fieldOffset tableo MessageWrapper.vtContent = 0 then none
        else some (p.target tableo MessageWrapper.vtContent : ℤ)) :=
  h.table.getPointer hb rfl fun hne => (h.offset hne).fits

def tablesAfter (p : Packet) (tableo numTables : ℕ) : ℕ :=
  if (contentFields (p.contentTypeAt tableo)).isSome = true ∧
      p.fieldOffset tableo MessageWrapper.vtContent ≠ 0 then numTables + 1
  else numTables

theorem decides_content (hb : p.buffer ≠ none) (hsize : p.dataSize < maxSize)
    (ht : p.TableInside tableo)
    (hc : p.FieldInside tableo (.scalar MessageWrapper.vtContentType 1))
    (ho : p.fieldOffset tableo MessageWrapper.vtContent ≠ 0 →
      p.OffsetInside (tableo + p.fieldOffset tableo MessageWrapper.vtContent))
    (hd : depth < maxDepth) (hn : numTables < maxTables) :
    Decides (p.verifyContent tableo) ⟨depth, numTables⟩
      (∀ fields, contentFields (p.contentTypeAt tableo) = some fields →
        p.fieldOffset tableo MessageWrapper.vtContent ≠ 0 →
          p.TableWith fields (p.target tableo MessageWrapper.vtContent))
      ⟨depth, p.tablesAfter tableo numTables⟩ := by
  have hobj : MessageWrapper.content p (some tableo) = _ :=
    ht.getPointer hb rfl fun hne => (ho hne).fits
  have htype : MessageWrapper.contentType p (some tableo) = some (p.contentTypeAt tableo) :=
    ht.getUint8 hb rfl hc
  refine Decides.lift_bind hobj (Decides.lift_bind htype ?_)
  unfold verifyMessageContent tablesAfter
  cases hf : contentFields (p.contentTypeAt tableo) with
  | none =>
    have hno : ¬((none : Option (List TableField)).isSome = true ∧
        p.fieldOffset tableo MessageWrapper.vtContent ≠ 0) := fun h => Bool.noConfusion h.1
    rw [if_neg hno]
    exact Decides.pure ⟨fun _ _ h => (nomatch h), fun _ => rfl⟩
  | some fields =>
    by_cases h0 : p.fieldOffset tableo MessageWrapper.vtContent = 0
    · rw [if_pos h0, if_neg fun h => h.2 h0]
      exact Decides.pure ⟨fun _ _ _ hne => absurd h0 hne, fun _ => rfl⟩
    · have hle : p.target tableo MessageWrapper.vtContent ≤ p.dataSize := by
        have htarget := (ho h0).target.2
        unfold target
        omega
      rw [if_neg h0, if_pos ⟨rfl, h0⟩]
      refine Decides.congr (decides_tablePtr hb hsize (contentFields_regular hf) hd hn hle) ?_
      exact ⟨fun h _ he _ => Option.some.inj he ▸ h, fun h => h fields rfl h0⟩

theorem decides_wrapper (hb : p.buffer ≠ none) (hsize : p.dataSize < maxSize) (tableo : ℕ) :
    Decides (p.verifyWrapper tableo) .new (p.WrapperInside tableo)
      ⟨(0 + 1 + 2 ^ 32 - 1) % 2 ^ 32, p.tablesAfter tableo 1⟩ := by
  have hone : 1 < maxDepth ∧ 1 < maxTables := by decide
  refine Decides.congr ((decides_tableStart hb hsize (by decide) (by decide) tableo).and
    fun ht => (decides_field hb ht rfl (.inr (.inr rfl))).and fun _ =>
      (decides_field hb ht rfl (.inl rfl)).and fun hc => (decides_offsetField hb ht rfl).and
        fun ho => (decides_content hb hsize ht hc ho hone.1 hone.2).and
          fun _ => decides_endTable) ?_
  exact ⟨fun h => ⟨h.1, h.2.1, h.2.2.1, h.2.2.2.1, h.2.2.2.2.1⟩,
    fun h => ⟨h.table, h.messageType, h.contentType, h.offset, h.content, trivial⟩⟩

theorem buffer_of_size (hb : p.buffer = none → p.dataSize = 0) {n : ℕ} (hn : 0 < n)
    (hsize : n ≤ p.dataSize) : p.buffer ≠ none := fun h => by
  have := hb h
  omega

theorem verifyMessageWrapperBuffer_iff (p : Packet) (hb : p.buffer = none → p.dataSize = 0)
    (hsize : p.dataSize < maxSize) :
    ∃ ok v, p.verifyMessageWrapperBuffer .new = some (ok, v) ∧
      (ok = true ↔ p.WellFormed 0) := by
  by_cases hmin : minBufferSize ≤ p.dataSize
  · have hb' : p.buffer ≠ none := buffer_of_size hb (by decide) hmin
    obtain ⟨ok, v, hrun, hiff, -⟩ := decides_bufferFromStart hb'
      fun _ : p.OffsetInside 0 => decides_wrapper hb' hsize _
    refine ⟨ok, v, hrun, hiff.trans ?_⟩
    exact ⟨fun h => ⟨h.1, h.2.1, h.2.2⟩, fun h => ⟨h.size, h.offset, h.root⟩⟩
  · refine ⟨false, .new, ?_, fun h => Bool.noConfusion h, fun h => absurd h.size hmin⟩
    unfold verifyMessageWrapperBuffer verifyBuffer verifyBufferFromStart
    rw [if_neg hmin]
    rfl

theorem verifySizePrefixedMessageWrapperBuffer_iff (p : Packet)
    (hb : p.buffer = none → p.dataSize = 0) (hsize : p.dataSize < maxSize) :
    ∃ ok v, p.verifySizePrefixedMessageWrapperBuffer .new = some (ok, v) ∧
      (ok = true ↔ p.scalar 0 4 + 4 ≤ p.dataSize ∧ p.WellFormed 4) := by
  by_cases hfits : p.Fits 0 4
  · have hb' : p.buffer ≠ none := buffer_of_size hb (by decide) hfits.2
    obtain ⟨ok, v, hrun, hiff, -⟩ := (decides_size hb').and fun _ =>
      decides_bufferFromStart hb' fun _ : p.OffsetInside 4 => decides_wrapper hb' hsize _
    refine ⟨ok, v, hrun, hiff.trans ?_⟩
    exact ⟨fun h => ⟨h.1.2, h.2.1, h.2.2.1, h.2.2.2⟩,
      fun h => ⟨⟨hfits, h.1⟩, h.2.size, h.2.offset, h.2.root⟩⟩
  · have hno : Decides p.verifySize .new False .new :=
      Decides.ite (fun h => absurd ((verifyScalar_iff (.inr (.inr rfl))).mp h).2 hfits)
        fun _ h => h
    obtain ⟨ok, v, hrun, hiff, -⟩ := hno.and (y := p.verifyBufferFromStart p.verifyWrapper 4)
      (Q := False) (r := .new) fun h => h.elim
    refine ⟨ok, v, hrun, hiff.trans ⟨fun h => h.1.elim, fun h => absurd ?_ hfits⟩⟩
    have hmin := h.2.size
    unfold minBufferSize at hmin
    exact ⟨by omega, by omega⟩

theorem WellFormed.getMessageWrapper (h : p.WellFormed start) (hb : p.buffer ≠ none) :
    p.getMessageWrapper start = some (some (p.rootAt start : ℤ)) := by
  have hread := readScalar_of_fits hb h.offset.fits
  obtain ⟨bytes, hbytes⟩ := Option.ne_none_iff_exists'.mp hb
  unfold Packet.getMessageWrapper
  rw [hbytes]
  dsimp only
  rw [hread, Option.map_some]
  unfold rootAt
  rw [Nat.cast_add]

theorem WellFormed.read (h : p.WellFormed start) (hb : p.buffer ≠ none) :
    ∃ m, (p.getMessageWrapper start).bind (MessageWrapper.read p) = some m ∧
      p.getInt32 (some (p.rootAt start : ℤ)) vtMessageType = some m.messageType := by
  have hroot := h.root
  have hcontent : (p.readContent (p.contentTypeAt (p.rootAt start))
      (if p.fieldOffset (p.rootAt start) MessageWrapper.vtContent = 0 then none
        else some (p.target (p.rootAt start) MessageWrapper.vtContent : ℤ))).isSome := by
    by_cases h0 : p.fieldOffset (p.rootAt start) MessageWrapper.vtContent = 0
    · rw [if_pos h0]
      rfl
    · rw [if_neg h0]
      cases hf : contentFields (p.contentTypeAt (p.rootAt start)) with
      | none =>
        rw [readContent_of_unknown hf]
        rfl
      | some fields =>
        have htable := hroot.content fields hf h0
        exact isSome_readContent hf (htable.readable hb (contentFields_regular hf))
  obtain ⟨c, hc⟩ := Option.isSome_iff_exists.mp hcontent
  obtain ⟨t, ht⟩ : ∃ t, p.getInt32 (some (p.rootAt start : ℤ)) vtMessageType = some t :=
    ⟨_, hroot.table.getInt32 hb rfl hroot.messageType⟩
  refine ⟨⟨t, p.contentTypeAt (p.rootAt start), c⟩, ?_, ht⟩
  rw [h.getMessageWrapper hb, Option.bind_some]
  unfold MessageWrapper.read
  rw [ht, hroot.contentType_eq hb, hroot.content_eq hb]
  simp only [Option.bind_eq_bind, Option.bind_some, hc]
  rfl

/-- The verifier reads nothing outside a packet, and accepts exactly those whose offsets lead
nowhere else, behind a size that fits if there is one; these can be read to the end of their
content. -/
theorem verifyMessage_iff (p : Packet) (hb : p.buffer = none → p.dataSize = 0)
    (hsize : p.dataSize < maxSize) (sizePrefix : Bool) :
    ∃ ok v, p.verifyMessage sizePrefix .new = some (ok, v) ∧
      (ok = true ↔ (sizePrefix = true → p.scalar 0 4 + 4 ≤ p.dataSize) ∧
        p.WellFormed (startOf sizePrefix)) ∧
      (ok = true → ((p.getMessageWrapper (startOf sizePrefix)).bind
        (MessageWrapper.read p)).isSome = true) := by
  obtain ⟨ok, v, hrun, hiff⟩ : ∃ ok v, p.verifyMessage sizePrefix .new = some (ok, v) ∧
      (ok = true ↔ (sizePrefix = true → p.scalar 0 4 + 4 ≤ p.dataSize) ∧
        p.WellFormed (startOf sizePrefix)) := by
    cases sizePrefix with
    | false =>
      obtain ⟨ok, v, hrun, hiff⟩ := verifyMessageWrapperBuffer_iff p hb hsize
      exact ⟨ok, v, hrun, hiff.trans ⟨fun h => ⟨fun hf => Bool.noConfusion hf, h⟩, fun h => h.2⟩⟩
    | true =>
      obtain ⟨ok, v, hrun, hiff⟩ := verifySizePrefixedMessageWrapperBuffer_iff p hb hsize
      exact ⟨ok, v, hrun, hiff.trans ⟨fun h => ⟨fun _ => h.1, h.2⟩, fun h => ⟨h.1 rfl, h.2⟩⟩⟩
  refine ⟨ok, v, hrun, hiff, fun hok => ?_⟩
  obtain ⟨-, hwf⟩ := hiff.mp hok
  obtain ⟨m, hread, -⟩ := hwf.read (buffer_of_size hb (by decide) hwf.size)
  rw [hread]
  rfl

/-- The smallest message: a root without any field. -/
def smallest : Packet := ⟨0, some [8, 0, 0, 0, 4, 0, 4, 0, 4, 0, 0, 0], 12⟩

theorem verifyMessage_iff_smallest : ∃ ok v, smallest.verifyMessage false .new = some (ok, v) ∧
    (ok = true ↔ (false = true → smallest.scalar 0 4 + 4 ≤ smallest.dataSize) ∧
      smallest.WellFormed (startOf false)) ∧
    (ok = true → ((smallest.getMessageWrapper (startOf false)).bind
      (MessageWrapper.read smallest)).isSome = true) :=
  verifyMessage_iff smallest (fun h => nomatch h) (by decide) false

theorem WellFormed.messageProcess (h : p.WellFormed 0) (hb : p.buffer ≠ none) {t : BitVec 32}
    (ht : p.getInt32 (some (p.rootAt 0 : ℤ)) vtMessageType = some t) :
    p.messageProcess = some t.toInt := by
  have hroot := h.root
  have hget : p.getRoot = some (some (p.rootAt 0 : ℤ)) := by
    rw [getRoot_of_inside hb (by have := h.offset.fits.2; omega)]
    unfold rootOffset rootAt
    rw [Nat.zero_add]
    rfl
  rw [hroot.table.getInt32 hb rfl hroot.messageType] at ht
  unfold Packet.messageProcess Packet.messageType
  rw [hget, Option.bind_some, hroot.table.getField hb rfl hroot.messageType, ← Option.some.inj ht]
  split_ifs <;> rfl

/-- A packet that the verifier accepts can be read to the end of its content, and
`MessageProcess` finds its type in it. -/
theorem accepted_reads (hb : p.buffer = none → p.dataSize = 0) (hsize : p.dataSize < maxSize)
    (h : p.verifyMessageWrapperBuffer .new = some (true, v)) :
    ∃ m, (p.getMessageWrapper 0).bind (MessageWrapper.read p) = some m ∧
      p.messageProcess = some m.messageType.toInt := by
  obtain ⟨ok, w, hrun, hiff⟩ := verifyMessageWrapperBuffer_iff p hb hsize
  obtain ⟨rfl, -⟩ := Prod.mk.inj (Option.some.inj (hrun.symm.trans h))
  have hwf := hiff.mp rfl
  have hb' : p.buffer ≠ none := buffer_of_size hb (by decide) hwf.size
  obtain ⟨m, hread, ht⟩ := hwf.read hb'
  exact ⟨m, hread, hwf.messageProcess hb' ht⟩

theorem accepted_reads_smallest :
    ∃ m, (smallest.getMessageWrapper 0).bind (MessageWrapper.read smallest) = some m ∧
      smallest.messageProcess = some m.messageType.toInt :=
  accepted_reads (v := ⟨0, 1⟩) (fun h => nomatch h) (by decide) rfl

end Packet

end EchoIocp
