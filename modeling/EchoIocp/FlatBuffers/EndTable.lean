import EchoIocp.FlatBuffers.Draft

namespace EchoIocp

open LittleEndian VectorDownward

namespace FlatBufferBuilder

open Build Draft

variable {b : FlatBufferBuilder} {d : Draft} {data pad pre rest vt t : List UInt8}
  {loc start i w n it : ℕ} {locs : List FieldLoc}

theorem returns_look {α : Type} {f : VectorDownward → Option α} {a : α} (h : f b.buf = some a) :
    Returns (look f) b fun r b' => b' = b ∧ r = a := by
  refine ⟨a, b, ?_, rfl, rfl⟩
  unfold look
  rw [h]
  rfl

theorem returns_readScalar_data (h : b.buf.Shows data pad) (hi : i + w ≤ data.length) :
    Returns (readScalar (b.buf.cur + i) w) b fun n b' =>
      b' = b ∧ n = decode ((data.drop i).take w) :=
  returns_look (congrArg (Option.map decode) (read_data h hi))

theorem returns_readScalar_pad (h : b.buf.Shows data pad) (hi : i + w ≤ pad.length) :
    Returns (readScalar i w) b fun n b' => b' = b ∧ n = decode ((pad.drop i).take w) :=
  returns_look (congrArg (Option.map decode) (read_pad h hi))

theorem returns_data : Returns FlatBufferBuilder.data b fun pos b' => b' = b ∧ pos = b.buf.cur :=
  ⟨_, b, rfl, rfl, rfl⟩

theorem returns_writeScalar (h : b.Represents d) (hi : i + w ≤ d.data.length) (n : ℕ) :
    Returns (writeScalar (b.buf.cur + i) w n) b fun _ b' =>
      b'.Represents { d with data := d.data.overwrite i (encode w n) } ∧ b'.buf.cur = b.buf.cur := by
  have hlen : i + (encode w n).length ≤ d.data.length := by rwa [length_encode]
  obtain ⟨v, hv, hs, hcur⟩ := write_shows h.shows hlen rfl
  refine (returns_change_buf (f := fun v => v.write _ _) hv).mono fun _ b₁ hb => ?_
  obtain rfl := hb
  exact ⟨⟨hs, h.numFieldLoc, h.maxVoffset, h.minalign, h.nested, h.finished, h.forceDefaults,
    h.dedupVtables⟩, hcur⟩

theorem decode_off {fl : FieldLoc} (rest : List UInt8) (h : fl.off < 2 ^ 32) :
    decode (((pre ++ (fl.bytes ++ rest)).drop pre.length).take 4) = fl.off := by
  have htake : (fl.bytes ++ rest).take 4 = encode 4 fl.off := by
    unfold FieldLoc.bytes
    rw [List.append_assoc, List.append_assoc, List.take_append_of_le_length (length_encode _ _).ge,
      List.take_of_length_le (length_encode _ _).le]
  rw [List.drop_left, htake, decode_encode h]

theorem decode_id {fl : FieldLoc} (rest : List UInt8) (h : fl.id < 2 ^ 16) :
    decode (((pre ++ (fl.bytes ++ rest)).drop (pre.length + 4)).take 2) = fl.id := by
  have hdrop : (fl.bytes ++ rest).drop 4 = encode 2 fl.id ++ ([0, 0] ++ rest) := by
    unfold FieldLoc.bytes
    rw [List.append_assoc, List.append_assoc, List.drop_append_of_le_length (length_encode _ _).ge,
      List.drop_of_length_le (length_encode _ _).le, List.nil_append]
  rw [List.drop_length_add_append, hdrop, List.take_append_of_le_length (length_encode _ _).ge,
    List.take_of_length_le (length_encode _ _).le, decode_encode h]

theorem entry_append (h : i + 2 ≤ vt.length) : entry (vt ++ t) i = entry vt i := by
  unfold entry
  rw [List.drop_append_of_le_length (by omega), List.take_append_of_le_length]
  rw [List.length_drop]
  omega

theorem returns_writeFieldLocs (hloc : loc < 2 ^ 32) (hvt : vt.length < 2 ^ 16)
    (h : b.Represents { d with data := vt ++ t }) (hE : Enterable vt.length locs)
    (hpad : d.pad = pre ++ locs.flatMap FieldLoc.bytes)
    (hzero : ∀ fl ∈ locs, entry vt fl.id = encode 2 0)
    (hoff : ∀ fl ∈ locs, fl.off ≤ loc ∧ loc < fl.off + 2 ^ 16) :
    Returns (writeFieldLocs loc locs.length pre.length) b fun _ b' =>
      b'.Represents { d with data := enter loc vt locs ++ t } := by
  induction locs generalizing b vt pre with
  | nil => exact Returns.pure h
  | cons fl locs ih =>
    have hle := hE.le fl List.mem_cons_self
    obtain ⟨hoff1, hoff2⟩ := hoff fl List.mem_cons_self
    have hpad' : d.pad = pre ++ (fl.bytes ++ locs.flatMap FieldLoc.bytes) := by
      rw [hpad, List.flatMap_cons]
    have hsize : pre.length + 8 ≤ d.pad.length := by
      rw [hpad', List.length_append, List.length_append, length_fieldLocBytes]
      omega
    have hreadOff : Returns (readScalar pre.length 4) b fun n b' => b' = b ∧ n = fl.off := by
      rw [← decode_off (locs.flatMap FieldLoc.bytes) (show fl.off < 2 ^ 32 by omega), ← hpad']
      exact returns_readScalar_pad h.shows (by omega)
    have hreadId : Returns (readScalar (pre.length + 4) 2) b fun n b' => b' = b ∧ n = fl.id := by
      rw [← decode_id (locs.flatMap FieldLoc.bytes) (show fl.id < 2 ^ 16 by omega), ← hpad']
      exact returns_readScalar_pad h.shows (by omega)
    have hin : fl.id + 2 ≤ (vt ++ t).length := by
      rw [List.length_append]
      omega
    refine hreadOff.bind fun off b₁ hb => ?_
    obtain ⟨rfl, rfl⟩ := hb
    refine hreadId.bind fun id b₂ hb => ?_
    obtain ⟨rfl, rfl⟩ := hb
    refine returns_data.bind fun vtable b₃ hb => ?_
    obtain ⟨rfl, rfl⟩ := hb
    refine (returns_readScalar_data h.shows hin).bind fun present b₄ hb => ?_
    obtain ⟨rfl, rfl⟩ := hb
    have hpresent : decode (((vt ++ t).drop fl.id).take 2) = 0 := by
      rw [← entry, entry_append hle, hzero fl List.mem_cons_self]
      rfl
    refine (returns_assert hpresent).bind fun _ b₅ hb => ?_
    obtain rfl := hb
    have hpos : (loc + 2 ^ 32 - fl.off) % 2 ^ 32 % 2 ^ 16 = loc - fl.off := by omega
    rw [hpos]
    refine (returns_writeScalar h hin _).bind fun _ b₆ hb => ?_
    have hlen : (vt.overwrite fl.id (encode 2 (loc - fl.off))).length = vt.length := by
      rw [List.length_overwrite]
      rwa [length_encode]
    have hpre : pre.length + 8 = (pre ++ fl.bytes).length := by
      rw [List.length_append, length_fieldLocBytes]
    have hdata : (vt ++ t).overwrite fl.id (encode 2 (loc - fl.off)) =
        vt.overwrite fl.id (encode 2 (loc - fl.off)) ++ t :=
      List.overwrite_append_left t (by rwa [length_encode])
    rw [hpre]
    refine ih (hlen ▸ hvt) (hdata ▸ hb.1) (hlen ▸ hE.tail) ?_ (fun x hx => ?_)
      fun x hx => hoff x (List.mem_cons_of_mem _ hx)
    · rw [hpad', List.append_assoc]
    · have hne := (List.pairwise_cons.mp hE.apart).1 x hx
      have h1 := hE.even fl List.mem_cons_self
      have h2 := hE.even x (List.mem_cons_of_mem _ hx)
      rw [← hzero x (List.mem_cons_of_mem _ hx)]
      unfold entry
      rw [List.take_drop_overwrite]
      · rwa [length_encode]
      · rw [length_encode]
        omega

/-- A vtable stands `o` bytes before the end. -/
def VtableAt (data : List UInt8) (o : ℕ) : Prop :=
  ∃ bytes, data.Holds o bytes ∧ 4 ≤ bytes.length ∧ bytes.length < 2 ^ 16 ∧
    entry bytes 0 = encode 2 bytes.length

theorem not_shared {bytes : List UInt8} (h : t.Holds i bytes) (hlen : bytes.length < 2 ^ 16)
    (h2 : 2 ≤ bytes.length) (hsize : entry bytes 0 = encode 2 bytes.length)
    (hvt : entry vt 0 = encode 2 vt.length) (hvt2 : 2 ≤ vt.length) (hvtLen : vt.length < 2 ^ 16)
    (hne : vt.length ≠ bytes.length) : ¬Shared t vt i := by
  intro hs
  have hfirst : ((t.drop (t.length - i)).take vt.length).take 2 =
      ((t.drop (t.length - i)).take bytes.length).take 2 := by
    rw [List.take_take, List.take_take, Nat.min_eq_left hvt2, Nat.min_eq_left h2]
  unfold Shared at hs
  unfold entry at hsize hvt
  rw [hs, h.take_drop] at hfirst
  rw [List.drop_zero] at hsize hvt
  rw [hvt, hsize] at hfirst
  exact hne (encode_injOn hvtLen hlen hfirst)

theorem returns_findVtable {os : List ℕ} (h : b.buf.Shows (vt ++ t) pad)
    (hpad : pad = pre ++ os.flatMap (encode 4)) (hos : ∀ o ∈ os, VtableAt t o)
    (ht : t.length < 2 ^ 32) (hvt : entry vt 0 = encode 2 vt.length) (hvt2 : 2 ≤ vt.length)
    (hvtLen : vt.length < 2 ^ 16) :
    Returns (findVtable b.buf.cur vt.length os.length pre.length) b fun r b' =>
      b' = b ∧ r = os.find? fun o => Shared t vt o := by
  induction os generalizing pre with
  | nil => exact Returns.pure ⟨rfl, rfl⟩
  | cons o os ih =>
    obtain ⟨bytes, hbytes, h4, hlen, hsize⟩ := hos o List.mem_cons_self
    have ho := hbytes.1
    have hN : (vt ++ t).length - o + bytes.length ≤ (vt ++ t).length := by
      have hle := hbytes.length_le
      rw [List.length_append]
      omega
    have hpadlen : pre.length + 4 ≤ pad.length := by
      rw [hpad, List.flatMap_cons, List.length_append, List.length_append, length_encode]
      omega
    have hreadO : Returns (readScalar pre.length 4) b fun n b' => b' = b ∧ n = o := by
      have hdec : decode ((pad.drop pre.length).take 4) = o := by
        rw [hpad, List.flatMap_cons, List.drop_left,
          List.take_append_of_le_length (length_encode _ _).ge,
          List.take_of_length_le (length_encode _ _).le, decode_encode (by omega)]
      have hread := returns_readScalar_pad h hpadlen
      rwa [hdec] at hread
    have htail : (vt ++ t).drop ((vt ++ t).length - o) = t.drop (t.length - o) :=
      List.rtake_append_of_le vt ho
    have hreadSize : Returns (readScalar (b.buf.cur + ((vt ++ t).length - o)) 2) b fun n b' =>
        b' = b ∧ n = bytes.length := by
      have hdec : decode (((vt ++ t).drop ((vt ++ t).length - o)).take 2) = bytes.length := by
        have hfirst : ((t.drop (t.length - o)).take bytes.length).take 2 =
            (t.drop (t.length - o)).take 2 := by
          rw [List.take_take, Nat.min_eq_left (by omega)]
        rw [hbytes.take_drop] at hfirst
        unfold entry at hsize
        rw [List.drop_zero] at hsize
        rw [htail, ← hfirst, hsize, decode_encode hlen]
      have hread := returns_readScalar_data h
        (show (vt ++ t).length - o + 2 ≤ (vt ++ t).length by omega)
      rwa [hdec] at hread
    have hnext : Returns (findVtable b.buf.cur vt.length os.length (pre.length + 4)) b fun r b' =>
        b' = b ∧ r = os.find? fun o => Shared t vt o := by
      have hpre : pre.length + 4 = (pre ++ encode 4 o).length := by
        rw [List.length_append, length_encode]
      rw [hpre]
      refine ih ?_ fun x hx => hos x (List.mem_cons_of_mem _ hx)
      rw [hpad, List.flatMap_cons, List.append_assoc]
    refine hreadO.bind fun n b₁ hb => ?_
    obtain ⟨rfl, rfl⟩ := hb
    refine (returns_look (f := fun v => v.dataAt _) (dataAt_shows h ?_)).bind fun pos b₂ hb => ?_
    · rw [List.length_append]
      omega
    obtain ⟨rfl, rfl⟩ := hb
    refine hreadSize.bind fun n' b₃ hb => ?_
    obtain ⟨rfl, rfl⟩ := hb
    rw [List.find?_cons]
    split_ifs with hne
    · rw [decide_eq_false (not_shared hbytes hlen (by omega) hsize hvt hvt2 hvtLen hne)]
      exact hnext
    · have hread1 : b₃.buf.read b₃.buf.cur vt.length = some vt := by
        have hread := read_data h (show 0 + vt.length ≤ (vt ++ t).length by simp)
        rwa [List.drop_zero, List.take_left] at hread
      have hread2 : b₃.buf.read (b₃.buf.cur + ((vt ++ t).length - n)) vt.length =
          some ((t.drop (t.length - n)).take vt.length) := by
        have hread := read_data h (show (vt ++ t).length - n + vt.length ≤ _ by omega)
        rwa [htail] at hread
      refine (returns_look (f := fun v => v.read b₃.buf.cur vt.length) hread1).bind fun e1 b₄ hb => ?_
      obtain ⟨rfl, rfl⟩ := hb
      refine (returns_look (f := fun v => v.read _ _) hread2).bind fun e2 b₅ hb => ?_
      obtain ⟨rfl, rfl⟩ := hb
      split_ifs with hne'
      · have hns : ¬Shared t e1 n := hne'
        rw [decide_eq_false hns]
        exact hnext
      · have hs : Shared t e1 n := not_not.mp hne'
        rw [decide_eq_true hs]
        exact Returns.pure ⟨rfl, rfl⟩

/-- What holds of a draft while a table that started at `start` is under construction. -/
structure Open (d : Draft) (start : ℕ) : Prop where
  nested : d.nested = true
  start_le : start ≤ d.data.length
  enterable : Enterable d.vtableSize d.fieldLocs
  off : ∀ fl ∈ d.fieldLocs, start < fl.off ∧ fl.off ≤ d.data.length
  vtables : ∀ o ∈ d.vtables, VtableAt d.data o
  /-- A vtable is larger than its entry in the scratch pad. -/
  few : 4 * d.vtables.length ≤ d.data.length

theorem VtableAt.append (h : VtableAt t i) (xs : List UInt8) : VtableAt (xs ++ t) i := by
  obtain ⟨bytes, hb, h⟩ := h
  exact ⟨bytes, hb.append xs, h⟩

theorem VtableAt.suffix (h : VtableAt t i) (hs : t <:+ data) : VtableAt data i := by
  obtain ⟨xs, rfl⟩ := hs
  exact h.append xs

theorem length_pushElement (d : Draft) (w n : ℕ) :
    (d.pushElement w n).data.length = d.data.length + padding d.data.length w + w := by
  unfold Draft.pushElement padTo prepend Draft.trackMinAlign
  simp only [List.length_append, List.length_replicate, length_encode, Nat.add_zero]
  omega

theorem length_newVtable (hE : Enterable d.vtableSize d.fieldLocs) (start loc : ℕ) :
    (d.newVtable start loc).length = d.vtableSize := by
  have hblank : (blankVtable d.vtableSize (loc - start)).length = d.vtableSize :=
    length_blankVtable (le_max_right _ _) _
  unfold newVtable
  rw [length_enter (by rwa [hblank]), hblank]

theorem entry_newVtable_zero (hE : Enterable d.vtableSize d.fieldLocs) (start loc : ℕ) :
    entry (d.newVtable start loc) 0 = encode 2 (d.newVtable start loc).length := by
  have hblank : (blankVtable d.vtableSize (loc - start)).length = d.vtableSize :=
    length_blankVtable (le_max_right _ _) _
  rw [length_newVtable hE]
  unfold newVtable
  rw [entry_enter_of_ne (by rwa [hblank]), entry_blankVtable_zero]
  intro fl hfl
  have hge := hE.ge fl hfl
  omega

theorem returns_clearOffsets (h : b.Represents d) :
    Returns clearOffsets b fun _ b' => b'.Represents { d with fieldLocs := [], maxVoffset := 0 } := by
  have hlocs : (d.fieldLocs.flatMap FieldLoc.bytes).length = b.numFieldLoc * sizeofFieldLoc := by
    rw [flatMap_length _ _ _ length_fieldLocBytes, h.numFieldLoc]
  have hpad : d.pad.take (d.pad.length - b.numFieldLoc * sizeofFieldLoc) =
      ({ d with fieldLocs := [], maxVoffset := 0 } : Draft).pad := by
    unfold pad
    rw [List.length_append, hlocs, Nat.add_sub_cancel, List.take_left, List.flatMap_nil,
      List.append_nil]
  obtain ⟨v, hv, hs⟩ := scratchPop_shows h.shows (k := b.numFieldLoc * sizeofFieldLoc) (by
    unfold pad
    rw [List.length_append, hlocs]
    exact Nat.le_add_left _ _)
  refine Returns.get_bind ?_
  refine (returns_change_buf (f := fun v => v.scratchPop _) hv).bind fun _ b₁ hb => ?_
  obtain rfl := hb
  exact Returns.modify ⟨hpad ▸ hs, rfl, rfl, h.minalign, h.nested, h.finished, h.forceDefaults,
    h.dedupVtables⟩

theorem returns_writeVtable (h : b.Represents d) (hE : Enterable d.vtableSize d.fieldLocs)
    (hmax : d.maxVoffset + 2 < 2 ^ 16) (hloc : loc = d.data.length) (hstart : start ≤ loc)
    (hobj : loc < start + 2 ^ 16) (hoff : ∀ fl ∈ d.fieldLocs, start < fl.off ∧ fl.off ≤ loc)
    (hn : d.data.length < maxBufferSize) :
    Returns (writeVtable start loc) b fun _ b' => b'.Represents { d with
      data := d.newVtable start loc ++ d.data, fieldLocs := [], maxVoffset := 0 } := by
  have hlt := hn.trans maxBufferSize_lt
  have hsize : max ((b.maxVoffset + 2) % 2 ^ 16) (fieldIndexToOffset 0) = d.vtableSize := by
    rw [h.maxVoffset, Nat.mod_eq_of_lt hmax]
    rfl
  have hge : 4 ≤ d.vtableSize := le_max_right _ _
  have hlt16 : d.vtableSize < 2 ^ 16 := by
    unfold vtableSize
    omega
  have hobjeq : (loc + 2 ^ 32 - start) % 2 ^ 32 = loc - start := by omega
  let d₁ : Draft := { d with maxVoffset := d.vtableSize }
  refine Returns.bind (Q := fun _ b' => b'.Represents d₁) (Returns.modify ⟨h.shows, h.numFieldLoc,
    hsize, h.minalign, h.nested, h.finished, h.forceDefaults, h.dedupVtables⟩) fun _ b₁ h₁ => ?_
  refine Returns.get_bind ?_
  rw [hobjeq, h₁.maxVoffset]
  refine (returns_push h₁ hn (List.replicate d.vtableSize 0)).bind fun _ b₂ h₂ => ?_
  refine (returns_assert (show loc - start < 0x10000 by omega)).bind fun _ b₃ hb => ?_
  obtain rfl := hb
  refine returns_data.bind fun vtable b₄ hb => ?_
  obtain ⟨rfl, rfl⟩ := hb
  have hlen : (d₁.prepend (List.replicate d.vtableSize 0)).data.length =
      d.vtableSize + d.data.length := by
    unfold prepend
    rw [List.length_append, List.length_replicate]
  refine (returns_writeScalar h₂ (show 2 + 2 ≤ _ by rw [hlen]; omega) _).bind fun _ b₅ hb => ?_
  obtain ⟨h₅, hcur⟩ := hb
  have hlen₅ : 0 + 2 ≤ ((d₁.prepend (List.replicate d.vtableSize 0)).data.overwrite 2
      (encode 2 (loc - start))).length := by
    rw [List.length_overwrite (by rw [hlen, length_encode]; omega), hlen]
    omega
  rw [← hcur]
  refine (returns_writeScalar h₅ hlen₅ d₁.maxVoffset).bind fun _ b₆ hb => ?_
  have hblank : ((d₁.prepend (List.replicate d.vtableSize 0)).data.overwrite 2
      (encode 2 (loc - start))).overwrite 0 (encode 2 d₁.maxVoffset) =
      blankVtable d.vtableSize (loc - start) ++ d.data := by
    have hin : 2 + (encode 2 (loc - start)).length ≤
        (List.replicate d.vtableSize (0 : UInt8)).length := by
      rw [length_encode, List.length_replicate]
      omega
    unfold prepend blankVtable
    rw [List.overwrite_append_left d₁.data hin, List.overwrite_append_left]
    rw [List.length_overwrite hin, length_encode, List.length_replicate]
    omega
  have hblankLen := length_blankVtable hge (loc - start)
  have h₆ : b₆.Represents
      { d₁ with data := blankVtable d.vtableSize (loc - start) ++ d.data } := hblank ▸ hb.1
  refine Returns.get_bind ?_
  -- the fields lie at the end of the scratch pad, after the vtables
  have hit : b₆.buf.scratch - b₆.numFieldLoc * sizeofFieldLoc =
      (d.vtables.flatMap (encode 4)).length := by
    have hlocs : (d.fieldLocs.flatMap FieldLoc.bytes).length = d.fieldLocs.length * 8 :=
      flatMap_length _ _ _ length_fieldLocBytes
    rw [h₆.shows.scratch, h₆.numFieldLoc]
    unfold pad
    rw [List.length_append, hlocs, Nat.add_sub_cancel]
  rw [hit, h₆.numFieldLoc]
  have hE₆ : Enterable (blankVtable d.vtableSize (loc - start)).length d₁.fieldLocs := by
    rwa [hblankLen]
  refine (returns_writeFieldLocs (d := d₁) (by omega) (by omega) h₆ hE₆ rfl
    (fun fl hfl => entry_blankVtable (hE.ge fl hfl) (hE.le fl hfl) _)
    (fun fl hfl => ?_)).bind fun _ b₇ h₇ => ?_
  · have := hoff fl hfl
    omega
  · exact returns_clearOffsets h₇

/-- The vtable on top of the table is dropped when there is an equal one. -/
theorem returns_useVtable {vt : List UInt8} (h : b.Represents { d with data := vt ++ d.data })
    (hlocs : d.fieldLocs = []) (hloc : loc = d.data.length)
    (hvtables : ∀ o ∈ d.vtables, VtableAt d.data o ∧ o < loc)
    (hvt : entry vt 0 = encode 2 vt.length) (hvt2 : 2 ≤ vt.length) (hvtLen : vt.length < 2 ^ 16)
    (hn : (vt ++ d.data).length < maxBufferSize) (hp : d.padSize + 4 < 2 ^ 32) :
    Returns (useVtable loc) b fun vtUse b' => match d.sharedVtable d.data vt with
      | some o => vtUse = o ∧ b'.Represents d
      | none => vtUse = loc + vt.length ∧ b'.Represents { d with
          data := vt ++ d.data, vtables := d.vtables ++ [loc + vt.length] } := by
  have hlt := hn.trans maxBufferSize_lt
  have hlen : (vt ++ d.data).length = loc + vt.length := by
    rw [List.length_append, hloc, Nat.add_comm]
  have hpad : d.pad = d.vtables.flatMap (encode 4) := by
    unfold pad
    rw [hlocs, List.flatMap_nil, List.append_nil]
  have hreadSize : Returns (readScalar b.buf.cur 2) b fun n b' => b' = b ∧ n = vt.length := by
    have hdec : decode (((vt ++ d.data).drop 0).take 2) = vt.length := by
      rw [← entry, entry_append (by omega), hvt, decode_encode hvtLen]
    have hread := returns_readScalar_data h.shows (show 0 + 2 ≤ (vt ++ d.data).length by omega)
    rwa [hdec] at hread
  refine returns_data.bind fun vt1 b₁ hb => ?_
  obtain ⟨rfl, rfl⟩ := hb
  refine hreadSize.bind fun vt1Size b₂ hb => ?_
  obtain ⟨rfl, rfl⟩ := hb
  refine (returns_getSize h hn).bind fun size b₃ hb => ?_
  obtain ⟨rfl, rfl⟩ := hb
  have hcount : (b₃.buf.scratch + 3) / 4 = d.vtables.length := by
    have hscratch := h.shows.scratch
    change _ = d.pad.length at hscratch
    rw [hscratch, hpad, flatMap_length _ _ _ (length_encode 4)]
    omega
  have hfind : Returns (FlatBufferBuilder.sharedVtable b₃.buf.cur vt.length) b₃ fun found b' =>
      b' = b₃ ∧ found = d.sharedVtable d.data vt := by
    refine Returns.get_bind ?_
    unfold Draft.sharedVtable
    rw [h.dedupVtables, hcount]
    split_ifs
    · have hpre : d.pad = [] ++ d.vtables.flatMap (encode 4) := hpad
      have hlt : d.data.length < 2 ^ 32 := by omega
      have hall (o : ℕ) (ho : o ∈ d.vtables) : VtableAt d.data o := (hvtables o ho).1
      exact returns_findVtable h.shows hpre hall hlt hvt hvt2 hvtLen
    · exact Returns.pure ⟨rfl, rfl⟩
  refine hfind.bind fun found b₄ hb => ?_
  obtain ⟨rfl, rfl⟩ := hb
  cases hshared : d.sharedVtable d.data vt with
  | none =>
    have hsize : (none : Option ℕ).getD (vt ++ d.data).length = loc + vt.length := hlen
    have hpad' : d.pad ++ encode 4 (loc + vt.length) =
        ({ d with vtables := d.vtables ++ [loc + vt.length] } : Draft).pad := by
      unfold pad
      rw [hlocs, List.flatMap_append, List.flatMap_singleton, List.flatMap_nil, List.append_nil,
        List.append_nil]
    refine (returns_change_buf rfl).bind fun _ b₅ hb => ?_
    obtain rfl := hb
    refine (returns_getSize h hn).bind fun size b₆ hb => ?_
    obtain ⟨rfl, rfl⟩ := hb
    rw [hsize]
    have hroom : d.pad.length + (encode 4 (loc + vt.length)).length < 2 ^ 32 := by
      rwa [length_pad, length_encode]
    obtain ⟨v, hv, hs⟩ := scratchPush_shows h.shows hn hroom
    refine (returns_change_buf ((if_pos hlen.symm).trans hv)).bind fun _ b₇ hb => ?_
    obtain rfl := hb
    exact Returns.pure ⟨rfl, hpad' ▸ hs, h.numFieldLoc, h.maxVoffset, h.minalign, h.nested,
      h.finished, h.forceDefaults, h.dedupVtables⟩
  | some o =>
    have hmem : o ∈ d.vtables := by
      unfold Draft.sharedVtable at hshared
      split_ifs at hshared
      exact List.mem_of_find?_eq_some hshared
    have hdrop : (vt ++ d.data).drop ((vt ++ d.data).length - loc) = d.data := by
      rw [hlen, Nat.add_sub_cancel_left, List.drop_left]
    have hpop : ∃ v, b₄.buf.pop ((vt ++ d.data).length - loc) = some v ∧
        v.Shows d.data d.pad := by
      have := pop_shows h.shows (Nat.sub_le (vt ++ d.data).length loc)
      rwa [hdrop] at this
    refine (returns_change h hpop).bind fun _ b₅ h₅ => ?_
    refine (returns_getSize h₅ (show d.data.length < _ by omega)).bind fun size b₆ hb => ?_
    obtain ⟨rfl, rfl⟩ := hb
    have hne : (some o).getD (vt ++ d.data).length ≠ d.data.length := by
      have hlt := (hvtables o hmem).2
      exact hloc ▸ hlt.ne
    refine (returns_change_buf (if_neg hne)).bind fun _ b₇ hb => ?_
    obtain rfl := hb
    exact Returns.pure ⟨rfl, h₅⟩

theorem returns_link (h : b.Represents d) (h4 : 4 ≤ loc) (hloc : loc ≤ d.data.length)
    (vtUse : ℕ) :
    Returns (do
      let table ← look fun v => v.dataAt loc
      writeScalar table 4 ((vtUse + 2 ^ 32 - loc) % 2 ^ 32)
      modify fun b => { b with nested := false }
      return loc) b fun r b' => r = loc ∧
        b'.Represents { d with data := link d.data loc vtUse, nested := false } := by
  refine (returns_look (f := fun v => v.dataAt loc) (dataAt_shows h.shows hloc)).bind
    fun table b₁ hb => ?_
  obtain ⟨rfl, rfl⟩ := hb
  refine (returns_writeScalar h (show d.data.length - loc + 4 ≤ d.data.length by omega) _).bind
    fun _ b₂ hb => ?_
  obtain ⟨h₂, -⟩ := hb
  exact Returns.bind (Q := fun _ b' => b'.Represents
    { d with data := link d.data loc vtUse, nested := false }) (Returns.modify ⟨h₂.shows,
      h₂.numFieldLoc, h₂.maxVoffset, h₂.minalign, rfl, h₂.finished, h₂.forceDefaults,
      h₂.dedupVtables⟩) fun _ b₃ h₃ => Returns.pure ⟨rfl, h₃⟩

theorem returns_endTable (h : b.Represents d) (ho : Open d start)
    (hmax : d.maxVoffset + 2 < 2 ^ 16) (hobj : (d.pushElement 4 0).data.length < start + 2 ^ 16)
    (hn : (d.pushElement 4 0).data.length + d.vtableSize < maxBufferSize) :
    Returns (endTable start) b fun loc b' => loc = (d.pushElement 4 0).data.length ∧
      b'.Represents (d.endTable start) := by
  have hpush : (d.pushElement 4 0).data.length = d.data.length + padding d.data.length 4 + 4 :=
    length_pushElement d 4 0
  have h4 : 4 ≤ (d.pushElement 4 0).data.length := by omega
  have hvtLen := length_newVtable ho.enterable start (d.pushElement 4 0).data.length
  have hsize : 4 ≤ d.vtableSize := le_max_right _ _
  have hsize16 : d.vtableSize < 2 ^ 16 := by
    unfold vtableSize
    omega
  have hstart := ho.start_le
  refine Returns.get_bind ?_
  refine (returns_assert (h.nested.trans ho.nested)).bind fun _ b₀ hb => ?_
  obtain rfl := hb
  refine (returns_pushElement h (.inr rfl) (by omega)).bind fun loc b₁ hb => ?_
  obtain ⟨h₁, rfl⟩ := hb
  refine (returns_writeVtable h₁ ho.enterable hmax rfl (by omega) hobj (fun fl hfl => ?_)
    (by omega)).bind fun _ b₂ h₂ => ?_
  · have := ho.off fl hfl
    omega
  let t : Draft := { d.pushElement 4 0 with fieldLocs := [], maxVoffset := 0 }
  have hvtables : ∀ o ∈ t.vtables, VtableAt t.data o ∧ o < (d.pushElement 4 0).data.length := by
    intro o hmem
    have hat := ho.vtables o hmem
    refine ⟨hat.suffix (d.suffix_pushElement 4 0), ?_⟩
    obtain ⟨_, hholds, -⟩ := hat
    have := hholds.1
    omega
  have h₂' : b₂.Represents
      { t with data := d.newVtable start (d.pushElement 4 0).data.length ++ t.data } := h₂
  have hp : t.padSize + 4 < 2 ^ 32 := by
    have hfew := ho.few
    have hcap : maxBufferSize = 2 ^ 31 - 1 := rfl
    change 4 * d.vtables.length + 8 * 0 + 4 < _
    omega
  refine (returns_useVtable (d := t) h₂' rfl rfl hvtables (entry_newVtable_zero ho.enterable _ _)
    (by omega) (by omega) ?_ hp).bind fun vtUse b₃ hb => ?_
  · rw [List.length_append]
    change _ + (d.pushElement 4 0).data.length < _
    omega
  have hcase : t.sharedVtable t.data (d.newVtable start (d.pushElement 4 0).data.length) =
      d.sharedVtable (d.pushElement 4 0).data
        (d.newVtable start (d.pushElement 4 0).data.length) := rfl
  unfold Draft.endTable
  dsimp only
  rw [← hcase]
  cases hshared : t.sharedVtable t.data (d.newVtable start (d.pushElement 4 0).data.length) with
  | none =>
    rw [hshared] at hb
    obtain ⟨rfl, h₃⟩ := hb
    refine returns_link h₃ h4 ?_ _
    rw [List.length_append]
    exact Nat.le_add_left _ _
  | some o =>
    rw [hshared] at hb
    obtain ⟨rfl, h₃⟩ := hb
    exact returns_link h₃ h4 le_rfl _

theorem represents_construct (allocator : Allocator) (initialSize : ℕ) :
    (construct allocator initialSize).Represents (Draft.empty false true) :=
  ⟨construct_shows allocator initialSize 8 (by decide), rfl, rfl, rfl, rfl, rfl, rfl, rfl⟩

theorem returns_clear (h : b.Represents d) :
    Returns clear b fun _ b' => b'.Represents (Draft.empty d.forceDefaults d.dedupVtables) := by
  refine (returns_clearOffsets h).bind fun _ b₁ h₁ => ?_
  refine (returns_change_buf (f := fun v => some v.clear) rfl).bind fun _ b₂ hb => ?_
  obtain rfl := hb
  exact Returns.modify ⟨clear_shows h₁.shows, h₁.numFieldLoc, h₁.maxVoffset, rfl, rfl, rfl,
    h₁.forceDefaults, h₁.dedupVtables⟩

theorem returns_reset (h : b.Represents d) :
    Returns reset b fun _ b' => b'.Represents (Draft.empty d.forceDefaults d.dedupVtables) := by
  refine (returns_clear h).bind fun _ b₁ h₁ => ?_
  refine (returns_change_buf (f := fun v => some v.reset) rfl).mono fun _ b₂ hb => ?_
  obtain rfl := hb
  exact ⟨reset_shows h₁.shows, h₁.numFieldLoc, h₁.maxVoffset, h₁.minalign, h₁.nested, h₁.finished,
    h₁.forceDefaults, h₁.dedupVtables⟩

theorem returns_bufferBytes (h : b.Represents d) (hfin : d.finished = true)
    (hn : d.data.length < maxBufferSize) :
    Returns bufferBytes b fun bytes b' => b' = b ∧ bytes = d.data := by
  refine Returns.bind (Q := fun pos b' => b' = b ∧ pos = b.buf.cur) ?_ fun pos b₁ hb => ?_
  · refine Returns.get_bind ?_
    refine (returns_assert (h.finished.trans hfin)).bind fun _ b₀ hb => ?_
    obtain rfl := hb
    exact returns_data
  obtain ⟨rfl, rfl⟩ := hb
  refine (returns_getSize h hn).bind fun size b₂ hb => ?_
  obtain ⟨rfl, rfl⟩ := hb
  have hread := read_data h.shows (show 0 + d.data.length ≤ d.data.length by omega)
  rw [List.drop_zero, List.take_length] at hread
  exact returns_look (f := fun v => v.read _ _) hread

theorem returns_createStringOrNull {str : Option (List UInt8)} (h : b.Represents d)
    (hnest : d.nested = false) (hlocs : d.fieldLocs = [])
    (hn : (d.createStringOrNull str).data.length < maxBufferSize) :
    Returns (createStringOrNull str) b fun off b' => b'.Represents (d.createStringOrNull str) ∧
      off = d.stringOffset str := by
  cases str with
  | none => exact Returns.pure ⟨h, rfl⟩
  | some str => exact returns_createString h hnest hlocs hn

theorem returns_finish {root : ℕ} {sizePrefix : Bool} (h : b.Represents d)
    (hfin : d.finished = false) (hnest : d.nested = false) (hlocs : d.fieldLocs = [])
    (hmin : d.minalign = 1 ∨ d.minalign = 4) (h0 : root ≠ 0) (hroot : root ≤ d.data.length)
    (hn : (d.finish root sizePrefix).data.length < maxBufferSize) :
    Returns (finish root sizePrefix) b fun _ b' => b'.Represents (d.finish root sizePrefix) := by
  let prefixSize := if sizePrefix then 4 else 0
  let d₁ : Draft := { d.trackMinAlign prefixSize with vtables := [], fieldLocs := [] }
  let d₂ := d₁.padTo (prefixSize + 4) d₁.minalign
  let d₃ := (d₂.padTo 0 4).pushElement 4 (d₂.reference root)
  have hmin₁ : d₁.minalign = 1 ∨ d₁.minalign = 4 := by
    change max d.minalign (if sizePrefix then 4 else 0) = 1 ∨
      max d.minalign (if sizePrefix then 4 else 0) = 4
    split_ifs <;> omega
  have hle₂ : d.data.length ≤ d₂.data.length := (d₁.suffix_padTo _ _).length_le
  have hle₃ : (d₂.padTo 0 4).data.length ≤ d₃.data.length :=
    (Draft.suffix_pushElement _ _ _).length_le
  have hle₂' : d₂.data.length ≤ (d₂.padTo 0 4).data.length := (d₂.suffix_padTo _ _).length_le
  have hlast : d₃.data.length ≤ (d.finish root sizePrefix).data.length := by
    change _ ≤ (if sizePrefix then d₃.pushElement 4 d₃.data.length else d₃).data.length
    split_ifs
    · exact (d₃.suffix_pushElement _ _).length_le
    · exact le_rfl
  have hn₃ : d₃.data.length < maxBufferSize := hlast.trans_lt hn
  have hn₂ : (d₂.padTo 0 4).data.length < maxBufferSize := hle₃.trans_lt hn₃
  have hn₁ : d₁.data.length < maxBufferSize := (hle₂.trans hle₂').trans_lt hn₂
  refine Returns.get_bind ?_
  refine (returns_assert (h.finished.trans hfin)).bind fun _ b₀ hb => ?_
  obtain rfl := hb
  refine (returns_notNested h hnest hlocs).bind fun _ b₁ hb => ?_
  obtain rfl := hb
  refine (returns_change_buf (f := fun v => some v.clearScratch) rfl).bind fun _ b₂ hb => ?_
  obtain rfl := hb
  have hclear : FlatBufferBuilder.Represents { b₁ with buf := b₁.buf.clearScratch }
      { d with vtables := [], fieldLocs := [] } :=
    ⟨clearScratch_shows h.shows, by rw [h.numFieldLoc, hlocs], h.maxVoffset, h.minalign, h.nested,
      h.finished, h.forceDefaults, h.dedupVtables⟩
  refine (returns_trackMinAlign hclear prefixSize).bind fun _ b₃ h₃ => ?_
  refine Returns.get_bind ?_
  rw [h₃.minalign]
  refine (returns_preAlign (d := d₁) h₃ hn₁ hmin₁ (Nat.succ_ne_zero _)).bind
    fun _ b₄ h₄ => ?_
  refine (returns_referTo (d := d₂) h₄ h0 (hroot.trans hle₂) hn₂).bind fun e b₅ hb => ?_
  obtain ⟨h₅, rfl⟩ := hb
  refine (returns_pushElement h₅ (.inr rfl) hn₃).bind fun _ b₆ hb => ?_
  obtain ⟨h₆, -⟩ := hb
  have hsize : Returns (pushSize sizePrefix) b₆ fun _ b' =>
      b'.Represents (if sizePrefix then d₃.pushElement 4 d₃.data.length else d₃) := by
    change (if sizePrefix then d₃.pushElement 4 d₃.data.length else d₃).data.length < _ at hn
    unfold pushSize
    split_ifs at hn ⊢
    · refine (returns_getSize h₆ hn₃).bind fun size b₇ hb => ?_
      obtain ⟨rfl, rfl⟩ := hb
      refine (returns_pushElement h₆ (.inr rfl) hn).bind fun _ b₈ hb => ?_
      exact Returns.pure hb.1
    · exact Returns.pure h₆
  refine hsize.bind fun _ b₇ h₇ => ?_
  exact Returns.modify ⟨h₇.shows, h₇.numFieldLoc, h₇.maxVoffset, h₇.minalign, h₇.nested, rfl,
    h₇.forceDefaults, h₇.dedupVtables⟩

end FlatBufferBuilder

end EchoIocp
