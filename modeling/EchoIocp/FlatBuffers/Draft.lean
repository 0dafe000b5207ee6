import EchoIocp.FlatBuffers.FlatBufferBuilder
import Mathlib.Tactic.SplitIfs

namespace EchoIocp

open LittleEndian VectorDownward

structure Draft where
  data : List UInt8
  /-- The vtables by their distance from the end of the data, the oldest first. -/
  vtables : List ℕ
  fieldLocs : List FieldLoc
  maxVoffset : ℕ
  minalign : ℕ
  nested : Bool
  finished : Bool
  forceDefaults : Bool
  dedupVtables : Bool

def padding (n w : ℕ) : ℕ := (w - n % w) % w

namespace Draft

variable (d : Draft)

def empty (forceDefaults dedupVtables : Bool) : Draft where
  data := []
  vtables := []
  fieldLocs := []
  maxVoffset := 0
  minalign := 1
  nested := false
  finished := false
  forceDefaults := forceDefaults
  dedupVtables := dedupVtables

def prepend (bytes : List UInt8) : Draft := { d with data := bytes ++ d.data }

def trackMinAlign (w : ℕ) : Draft := { d with minalign := max d.minalign w }

/-- Zeros, so that the data reach a multiple of `w` once `len` more bytes are put down. -/
def padTo (len w : ℕ) : Draft :=
  (d.trackMinAlign w).prepend (List.replicate (padding (d.data.length + len) w) 0)

def pushElement (width n : ℕ) : Draft := (d.padTo 0 width).prepend (encode width n)

def trackField (field off : ℕ) : Draft := { d with
  fieldLocs := d.fieldLocs ++ [⟨off, field⟩]
  maxVoffset := max d.maxVoffset field }

def addElement (field width e default : ℕ) : Draft :=
  if e = default ∧ d.forceDefaults = false then d
  else (d.pushElement width e).trackField field (d.pushElement width e).data.length

/-- An offset from the next aligned place to what stands `off` bytes before the end. -/
def reference (off : ℕ) : ℕ := (d.padTo 0 4).data.length - off + 4

def addOffset (field off : ℕ) : Draft :=
  if off = 0 then d else (d.padTo 0 4).addElement field 4 (d.reference off) 0

def startTable : Draft := { d with nested := true }

def blankVtable (size objectSize : ℕ) : List UInt8 :=
  ((List.replicate size 0).overwrite 2 (encode 2 objectSize)).overwrite 0 (encode 2 size)

/-- The entries of a vtable for the fields of a table at `loc`. -/
def enter (loc : ℕ) (vtable : List UInt8) (fieldLocs : List FieldLoc) : List UInt8 :=
  fieldLocs.foldl (fun t fl => t.overwrite fl.id (encode 2 (loc - fl.off))) vtable

/-- The bytes at `o` are those of the vtable. -/
def Shared (data vtable : List UInt8) (o : ℕ) : Prop :=
  (data.drop (data.length - o)).take vtable.length = vtable

instance (data vtable : List UInt8) (o : ℕ) : Decidable (Shared data vtable o) :=
  inferInstanceAs (Decidable (_ = _))

def vtableSize : ℕ := max (d.maxVoffset + 2) 4

/-- The vtable of the table under construction, which starts at `loc`. -/
def newVtable (start loc : ℕ) : List UInt8 :=
  enter loc (blankVtable d.vtableSize (loc - start)) d.fieldLocs

/-- The bytes with the distance from the table at `loc` to its vtable at `use` put in. -/
def link (data : List UInt8) (loc use : ℕ) : List UInt8 :=
  data.overwrite (data.length - loc) (encode 4 ((use + 2 ^ 32 - loc) % 2 ^ 32))

def sharedVtable (data vtable : List UInt8) : Option ℕ :=
  if d.dedupVtables then d.vtables.find? fun o => Shared data vtable o else none

def endTable (start : ℕ) : Draft :=
  let t := d.pushElement 4 0
  let loc := t.data.length
  let vt := d.newVtable start loc
  let t := { t with fieldLocs := [], maxVoffset := 0, nested := false }
  match d.sharedVtable t.data vt with
  | some use => { t with data := link t.data loc use }
  | none =>
    let use := loc + vt.length
    { t with data := link (vt ++ t.data) loc use, vtables := t.vtables ++ [use] }

def createString (str : List UInt8) : Draft :=
  (((d.padTo (str.length + 1) 4).prepend [0]).prepend str).pushElement 4 str.length

def createStringOrNull (str : Option (List UInt8)) : Draft :=
  match str with
  | none => d
  | some str => d.createString (cString str)

def stringOffset (str : Option (List UInt8)) : ℕ :=
  match str with
  | none => 0
  | some str => (d.createString (cString str)).data.length

def finish (root : ℕ) (sizePrefix : Bool) : Draft :=
  let prefixSize := if sizePrefix then 4 else 0
  let t := { d.trackMinAlign prefixSize with vtables := [], fieldLocs := [] }
  let t := t.padTo (prefixSize + 4) t.minalign
  let t := (t.padTo 0 4).pushElement 4 (t.reference root)
  let t := if sizePrefix then t.pushElement 4 t.data.length else t
  { t with finished := true }

theorem suffix_padTo (d : Draft) (len w : ℕ) : d.data <:+ (d.padTo len w).data :=
  List.suffix_append _ _

theorem suffix_pushElement (d : Draft) (w n : ℕ) : d.data <:+ (d.pushElement w n).data :=
  (d.suffix_padTo 0 w).trans (List.suffix_append _ _)

theorem suffix_addElement (d : Draft) (field w e default : ℕ) :
    d.data <:+ (d.addElement field w e default).data := by
  unfold addElement
  split_ifs
  · exact List.suffix_rfl
  · exact d.suffix_pushElement w e

def pad : List UInt8 := d.vtables.flatMap (encode 4) ++ d.fieldLocs.flatMap FieldLoc.bytes

def padSize : ℕ := 4 * d.vtables.length + 8 * d.fieldLocs.length

theorem length_fieldLocBytes (fl : FieldLoc) : fl.bytes.length = 8 := by
  unfold FieldLoc.bytes
  simp

theorem flatMap_length {α : Type} (l : List α) (f : α → List UInt8) (n : ℕ)
    (h : ∀ a, (f a).length = n) : (l.flatMap f).length = l.length * n := by
  induction l with
  | nil => exact (Nat.zero_mul n).symm
  | cons a l ih => rw [List.flatMap_cons, List.length_append, h, ih, List.length_cons, Nat.succ_mul,
      Nat.add_comm]

theorem length_pad (d : Draft) : d.pad.length = d.padSize := by
  unfold pad padSize
  rw [List.length_append, flatMap_length _ _ _ (length_encode 4),
    flatMap_length _ _ _ length_fieldLocBytes]
  omega

end Draft

/-- The builder holds what the draft says. -/
structure FlatBufferBuilder.Represents (b : FlatBufferBuilder) (d : Draft) : Prop where
  shows : b.buf.Shows d.data d.pad
  numFieldLoc : b.numFieldLoc = d.fieldLocs.length
  maxVoffset : b.maxVoffset = d.maxVoffset
  minalign : b.minalign = d.minalign
  nested : b.nested = d.nested
  finished : b.finished = d.finished
  forceDefaults : b.forceDefaults = d.forceDefaults
  dedupVtables : b.dedupVtables = d.dedupVtables

namespace FlatBufferBuilder

open Build Draft

variable {b : FlatBufferBuilder} {d : Draft} {w n k off field len : ℕ} {bytes : List UInt8}

theorem paddingBytes_eq (h : w = 1 ∨ w = 4) : paddingBytes n w = padding n w := by
  unfold paddingBytes padding
  rcases h with rfl | rfl
  · rw [Nat.sub_self, Nat.and_zero]
    omega
  · rw [Nat.and_two_pow_sub_one_eq_mod _ 2]
    omega

theorem padding_lt (n : ℕ) (hw : 0 < w) : padding n w < w := Nat.mod_lt _ hw

theorem returns_assert {c : Prop} [Decidable c] (h : c) :
    Returns (Build.assert c) b fun _ b' => b' = b := by
  refine ⟨(), b, ?_, rfl⟩
  unfold Build.assert
  exact if_pos h

theorem returns_getSize (h : b.Represents d) (hn : d.data.length < maxBufferSize) :
    Returns getSize b fun size b' => b' = b ∧ size = d.data.length :=
  ⟨_, b, rfl, rfl, h.shows.size (hn.trans maxBufferSize_lt)⟩

theorem returns_change_buf {f : VectorDownward → Option VectorDownward} {v : VectorDownward}
    (hv : f b.buf = some v) : Returns (change f) b fun _ b' => b' = { b with buf := v } := by
  refine ⟨(), _, ?_, rfl⟩
  unfold change
  rw [hv]
  rfl

theorem returns_change (h : b.Represents d) {f : VectorDownward → Option VectorDownward}
    {data : List UInt8} (hf : ∃ v, f b.buf = some v ∧ v.Shows data d.pad) :
    Returns (change f) b fun _ b' => b'.Represents { d with data := data } := by
  obtain ⟨v, hv, hs⟩ := hf
  refine (returns_change_buf hv).mono fun _ b₁ hb => ?_
  obtain rfl := hb
  exact ⟨hs, h.numFieldLoc, h.maxVoffset, h.minalign, h.nested, h.finished, h.forceDefaults,
    h.dedupVtables⟩

theorem returns_push (h : b.Represents d) (hn : d.data.length < maxBufferSize)
    (bytes : List UInt8) :
    Returns (change fun v => v.push bytes) b fun _ b' => b'.Represents (d.prepend bytes) :=
  returns_change h (push_shows h.shows hn bytes)

theorem returns_trackMinAlign (h : b.Represents d) (w : ℕ) :
    Returns (FlatBufferBuilder.trackMinAlign w) b fun _ b' => b'.Represents (d.trackMinAlign w) := by
  refine Returns.modify ⟨h.shows, h.numFieldLoc, h.maxVoffset, ?_, h.nested, h.finished,
    h.forceDefaults, h.dedupVtables⟩
  change (if b.minalign < w then w else b.minalign) = max d.minalign w
  rw [h.minalign]
  split_ifs <;> omega

theorem returns_preAlign (h : b.Represents d) (hn : d.data.length < maxBufferSize)
    (hw : w = 1 ∨ w = 4) (hlen : len ≠ 0) :
    Returns (preAlign len w) b fun _ b' => b'.Represents (d.padTo len w) := by
  unfold preAlign
  rw [if_neg hlen]
  refine (returns_trackMinAlign h w).bind fun _ b₁ h₁ => ?_
  refine (returns_getSize h₁ hn).bind fun size b₂ hb => ?_
  obtain ⟨rfl, rfl⟩ := hb
  rw [paddingBytes_eq hw]
  exact returns_push h₁ hn _

theorem returns_align (h : b.Represents d) (hn : d.data.length < maxBufferSize)
    (hw : w = 1 ∨ w = 4) :
    Returns (align w) b fun _ b' => b'.Represents (d.padTo 0 w) := by
  refine (returns_trackMinAlign h w).bind fun _ b₁ h₁ => ?_
  refine (returns_getSize h₁ hn).bind fun size b₂ hb => ?_
  obtain ⟨rfl, rfl⟩ := hb
  rw [paddingBytes_eq hw]
  exact returns_push h₁ hn _

theorem returns_pushElement (h : b.Represents d) (hw : w = 1 ∨ w = 4)
    (hn : (d.pushElement w n).data.length < maxBufferSize) :
    Returns (pushElement w n) b fun off b' => b'.Represents (d.pushElement w n) ∧
      off = (d.pushElement w n).data.length := by
  have hle : (d.padTo 0 w).data.length ≤ (d.pushElement w n).data.length :=
    (List.sublist_append_right _ _).length_le
  have hle' : d.data.length ≤ (d.padTo 0 w).data.length :=
    (List.sublist_append_right _ _).length_le
  refine (returns_align h (by omega) hw).bind fun _ b₁ h₁ => ?_
  refine (returns_push h₁ (by omega) _).bind fun _ b₂ h₂ => ?_
  refine (returns_getSize h₂ hn).mono fun size b₃ hb => ?_
  obtain ⟨rfl, rfl⟩ := hb
  exact ⟨h₂, rfl⟩

theorem returns_trackField (h : b.Represents d) (hn : d.data.length < maxBufferSize)
    (hp : d.padSize + 8 < 2 ^ 32) (field off : ℕ) :
    Returns (trackField field off) b fun _ b' => b'.Represents (d.trackField field off) := by
  have hroom : d.pad.length + (FieldLoc.bytes ⟨off, field⟩).length < 2 ^ 32 := by
    rwa [length_pad, length_fieldLocBytes]
  obtain ⟨v, hv, hs⟩ := scratchPush_shows h.shows hn hroom
  have hpad : d.pad ++ FieldLoc.bytes ⟨off, field⟩ = (d.trackField field off).pad := by
    unfold pad Draft.trackField
    rw [List.flatMap_append, List.flatMap_singleton, List.append_assoc]
  have hmax : (if b.maxVoffset < field then field else b.maxVoffset) = max d.maxVoffset field := by
    rw [h.maxVoffset]
    split_ifs <;> omega
  have hnum : b.numFieldLoc + 1 = (d.trackField field off).fieldLocs.length := by
    unfold Draft.trackField
    rw [h.numFieldLoc, List.length_append]
    rfl
  refine (returns_change_buf (f := fun v => v.scratchPush _) hv).bind fun _ b₁ hb => ?_
  obtain rfl := hb
  exact Returns.modify ⟨hpad ▸ hs, hnum, hmax, h.minalign, h.nested, h.finished, h.forceDefaults,
    h.dedupVtables⟩

theorem returns_addElement {e default : ℕ} (h : b.Represents d) (hw : w = 1 ∨ w = 4)
    (hp : d.padSize + 8 < 2 ^ 32)
    (hn : (d.addElement field w e default).data.length < maxBufferSize) :
    Returns (addElement field w e default) b fun _ b' =>
      b'.Represents (d.addElement field w e default) := by
  refine Returns.get_bind ?_
  unfold Draft.addElement at hn ⊢
  rw [h.forceDefaults]
  split_ifs with hskip
  · exact Returns.pure h
  · rw [if_neg hskip] at hn
    refine (returns_pushElement h hw hn).bind fun off b₁ h₁ => ?_
    obtain ⟨h₁, rfl⟩ := h₁
    exact returns_trackField h₁ hn hp _ _

theorem returns_referTo (h : b.Represents d) (h0 : off ≠ 0) (hoff : off ≤ d.data.length)
    (hn : (d.padTo 0 4).data.length < maxBufferSize) :
    Returns (referTo off) b fun e b' => b'.Represents (d.padTo 0 4) ∧ e = d.reference off := by
  have hle : d.data.length ≤ (d.padTo 0 4).data.length :=
    (List.sublist_append_right _ _).length_le
  refine (returns_align h (by omega) (.inr rfl)).bind fun _ b₁ h₁ => ?_
  refine (returns_getSize h₁ hn).bind fun size b₂ hb => ?_
  obtain ⟨rfl, rfl⟩ := hb
  refine (returns_assert ⟨h0, hoff.trans hle⟩).bind fun _ b₃ hb => ?_
  obtain rfl := hb
  exact Returns.pure ⟨h₁, rfl⟩

theorem returns_addOffset (h : b.Represents d) (hoff : off ≤ d.data.length)
    (hp : d.padSize + 8 < 2 ^ 32)
    (hn : (d.addOffset field off).data.length < maxBufferSize) :
    Returns (addOffset field off) b fun _ b' => b'.Represents (d.addOffset field off) := by
  unfold FlatBufferBuilder.addOffset
  unfold Draft.addOffset at hn ⊢
  split_ifs with h0
  · exact Returns.pure h
  · rw [if_neg h0] at hn
    have hle : (d.padTo 0 4).data.length ≤
        ((d.padTo 0 4).addElement field 4 (d.reference off) 0).data.length :=
      (Draft.suffix_addElement _ _ _ _ _).length_le
    refine (returns_referTo h h0 hoff (by omega)).bind fun e b₁ h₁ => ?_
    obtain ⟨h₁, rfl⟩ := h₁
    exact returns_addElement h₁ (.inr rfl) hp hn

theorem returns_notNested (h : b.Represents d) (hnest : d.nested = false)
    (hlocs : d.fieldLocs = []) : Returns notNested b fun _ b' => b' = b := by
  refine Returns.get_bind ?_
  refine (returns_assert (h.nested.trans hnest)).bind fun _ b₁ hb => ?_
  obtain rfl := hb
  refine returns_assert ?_
  rw [h.numFieldLoc, hlocs]
  rfl

theorem returns_startTable (h : b.Represents d) (hnest : d.nested = false)
    (hlocs : d.fieldLocs = []) (hn : d.data.length < maxBufferSize) :
    Returns startTable b fun start b' => b'.Represents d.startTable ∧ start = d.data.length := by
  refine (returns_notNested h hnest hlocs).bind fun _ b₁ hb => ?_
  obtain rfl := hb
  refine Returns.bind (Q := fun _ b' => b'.Represents d.startTable) (Returns.modify
    ⟨h.shows, h.numFieldLoc, h.maxVoffset, h.minalign, rfl, h.finished, h.forceDefaults,
      h.dedupVtables⟩) ?_
  intro _ b₁ h₁
  refine (returns_getSize h₁ hn).mono fun size b₂ hb => ?_
  obtain ⟨rfl, rfl⟩ := hb
  exact ⟨h₁, rfl⟩

theorem returns_createString {str : List UInt8} (h : b.Represents d) (hnest : d.nested = false)
    (hlocs : d.fieldLocs = []) (hn : (d.createString str).data.length < maxBufferSize) :
    Returns (createString str) b fun off b' => b'.Represents (d.createString str) ∧
      off = (d.createString str).data.length := by
  let d₁ := d.padTo (str.length + 1) 4
  have h1 : d.data.length ≤ d₁.data.length := (List.sublist_append_right _ _).length_le
  have h2 : d₁.data.length ≤ (d₁.prepend [0]).data.length :=
    (List.sublist_append_right _ _).length_le
  have h3 : (d₁.prepend [0]).data.length ≤ ((d₁.prepend [0]).prepend str).data.length :=
    (List.sublist_append_right _ _).length_le
  have h4 : ((d₁.prepend [0]).prepend str).data.length ≤ (d.createString str).data.length :=
    (Draft.suffix_pushElement _ _ _).length_le
  refine (returns_notNested h hnest hlocs).bind fun _ b₀ hb => ?_
  obtain rfl := hb
  refine (returns_preAlign h (by omega) (.inr rfl) (Nat.succ_ne_zero _)).bind fun _ b₁ h₁ => ?_
  refine (returns_push (d := d₁) h₁ (by omega) [0]).bind fun _ b₂ h₂ => ?_
  refine (returns_push (d := d₁.prepend [0]) h₂ (by omega) str).bind fun _ b₃ h₃ => ?_
  exact returns_pushElement h₃ (.inr rfl) hn

end FlatBufferBuilder

/-- The two bytes of a vtable at `k`. -/
def entry (vtable : List UInt8) (k : ℕ) : List UInt8 := (vtable.drop k).take 2

namespace Draft

variable {d : Draft} {vt : List UInt8} {loc size objectSize start k : ℕ} {locs : List FieldLoc}
  {fl : FieldLoc}

/-- The fields can be entered in a vtable of `size` bytes, each in an entry of its own. -/
structure Enterable (size : ℕ) (locs : List FieldLoc) : Prop where
  even : ∀ fl ∈ locs, fl.id % 2 = 0
  ge : ∀ fl ∈ locs, 4 ≤ fl.id
  le : ∀ fl ∈ locs, fl.id + 2 ≤ size
  apart : locs.Pairwise fun a b => a.id ≠ b.id

theorem Enterable.tail (h : Enterable size (fl :: locs)) : Enterable size locs :=
  ⟨fun x hx => h.even x (List.mem_cons_of_mem _ hx), fun x hx => h.ge x (List.mem_cons_of_mem _ hx),
    fun x hx => h.le x (List.mem_cons_of_mem _ hx), (List.pairwise_cons.mp h.apart).2⟩

theorem length_blankVtable (h : 4 ≤ size) (objectSize : ℕ) :
    (blankVtable size objectSize).length = size := by
  have hlen : ((List.replicate size 0).overwrite 2 (encode 2 objectSize)).length = size := by
    rw [List.length_overwrite (by rw [length_encode, List.length_replicate]; omega),
      List.length_replicate]
  unfold blankVtable
  rw [List.length_overwrite, hlen]
  rw [hlen, length_encode]
  omega

theorem length_enter (h : Enterable vt.length locs) : (enter loc vt locs).length = vt.length := by
  induction locs generalizing vt with
  | nil => rfl
  | cons fl locs ih =>
    have hlen : (vt.overwrite fl.id (encode 2 (loc - fl.off))).length = vt.length := by
      rw [List.length_overwrite]
      rw [length_encode]
      exact h.le fl List.mem_cons_self
    have htail := h.tail
    rw [← hlen] at htail
    exact (ih htail).trans hlen

theorem entry_enter_of_ne (h : Enterable vt.length locs)
    (hk : ∀ fl ∈ locs, fl.id + 2 ≤ k ∨ k + 2 ≤ fl.id) :
    entry (enter loc vt locs) k = entry vt k := by
  induction locs generalizing vt with
  | nil => rfl
  | cons fl locs ih =>
    have hle := h.le fl List.mem_cons_self
    have hlen : (vt.overwrite fl.id (encode 2 (loc - fl.off))).length = vt.length := by
      rw [List.length_overwrite]
      rwa [length_encode]
    have htail := h.tail
    rw [← hlen] at htail
    refine (ih htail fun x hx => hk x (List.mem_cons_of_mem _ hx)).trans ?_
    unfold entry
    rw [List.take_drop_overwrite]
    · rwa [length_encode]
    · rw [length_encode]
      exact (hk fl List.mem_cons_self).symm

theorem entry_enter (h : Enterable vt.length locs) (hfl : fl ∈ locs) :
    entry (enter loc vt locs) fl.id = encode 2 (loc - fl.off) := by
  induction locs generalizing vt with
  | nil => cases hfl
  | cons x locs ih =>
    have hle := h.le x List.mem_cons_self
    have hlen : (vt.overwrite x.id (encode 2 (loc - x.off))).length = vt.length := by
      rw [List.length_overwrite]
      rwa [length_encode]
    have htail := h.tail
    rw [← hlen] at htail
    rcases List.mem_cons.mp hfl with rfl | hmem
    · refine (entry_enter_of_ne htail fun y hy => ?_).trans ?_
      · have hne := (List.pairwise_cons.mp h.apart).1 y hy
        have hex := h.even fl List.mem_cons_self
        have hey := h.even y (List.mem_cons_of_mem _ hy)
        omega
      · have hin : fl.id + (encode 2 (loc - fl.off)).length ≤ vt.length := by rwa [length_encode]
        have hself := List.take_drop_overwrite_self hin
        rwa [length_encode] at hself
    · exact ih htail hmem

theorem entry_blankVtable_zero (size objectSize : ℕ) :
    entry (blankVtable size objectSize) 0 = encode 2 size := by
  unfold entry blankVtable
  rw [List.overwrite_zero, List.drop_zero, List.take_append_of_le_length, List.take_of_length_le] <;>
    rw [length_encode]

theorem entry_blankVtable (hk : 4 ≤ k) (hsize : k + 2 ≤ size) (objectSize : ℕ) :
    entry (blankVtable size objectSize) k = encode 2 0 := by
  have hlen : ((List.replicate size 0).overwrite 2 (encode 2 objectSize)).length = size := by
    rw [List.length_overwrite (by rw [length_encode, List.length_replicate]; omega),
      List.length_replicate]
  unfold entry blankVtable
  rw [List.take_drop_overwrite, List.take_drop_overwrite, List.drop_replicate, List.take_replicate,
    Nat.min_eq_left (by omega)]
  · rfl
  · simp
    omega
  · rw [length_encode]
    omega
  · rw [length_encode, hlen]
    omega
  · rw [length_encode]
    omega

end Draft

end EchoIocp
