import EchoIocp.FlatBuffers.VectorDownward
import EchoIocp.Lib.Returns

namespace EchoIocp

open LittleEndian

/-- Where a field of the table under construction was put. -/
structure FieldLoc where
  off : ℕ
  id : ℕ
  deriving DecidableEq

/-- The struct as it lies in the scratch pad, with its padding. -/
def FieldLoc.bytes (fl : FieldLoc) : List UInt8 := encode 4 fl.off ++ encode 2 fl.id ++ [0, 0]

abbrev sizeofFieldLoc : ℕ := 8

/-- The 32-bit builder, without the pool of shared strings. -/
structure FlatBufferBuilder where
  buf : VectorDownward
  numFieldLoc : ℕ
  maxVoffset : ℕ
  nested : Bool
  finished : Bool
  minalign : ℕ
  forceDefaults : Bool
  dedupVtables : Bool

/-- A call on a builder; `none` is a failed assertion or an access outside the block. -/
abbrev Build (α : Type) : Type := StateT FlatBufferBuilder Option α

/-- `FLATBUFFERS_ASSERT`. -/
def Build.assert (c : Prop) [Decidable c] : Build Unit := fun b => if c then some ((), b) else none

/-- `PaddingBytes`, on a 64-bit `size_t`. -/
def paddingBytes (bufSize scalarSize : ℕ) : ℕ :=
  (2 ^ 64 - 1 - bufSize % 2 ^ 64 + 1) % 2 ^ 64 &&& (scalarSize - 1)

def fieldIndexToOffset (fieldId : ℕ) : ℕ := 2 * 2 + fieldId * 2

/-- The bytes up to the terminator of a C string. -/
def cString (str : List UInt8) : List UInt8 := str.takeWhile (· ≠ 0)

namespace FlatBufferBuilder

open Build

/-- `FlatBufferBuilder(initial_size, allocator)`. -/
def construct (allocator : Allocator) (initialSize : ℕ) : FlatBufferBuilder where
  buf := VectorDownward.construct allocator initialSize VectorDownward.maxBufferSize 8 (by decide)
  numFieldLoc := 0
  maxVoffset := 0
  nested := false
  finished := false
  minalign := 1
  forceDefaults := false
  dedupVtables := true

def change (f : VectorDownward → Option VectorDownward) : Build Unit := fun b =>
  (f b.buf).map fun v => ((), { b with buf := v })

def look {α : Type} (f : VectorDownward → Option α) : Build α := fun b =>
  (f b.buf).map fun a => (a, b)

def readScalar (pos width : ℕ) : Build ℕ := look fun v => (v.read pos width).map decode

def writeScalar (pos width n : ℕ) : Build Unit := change fun v => v.write pos (encode width n)

def data : Build ℕ := look fun v => some v.cur

def getSize : Build ℕ := look fun v => some v.size

def trackMinAlign (elemSize : ℕ) : Build Unit :=
  modify fun b => { b with minalign := if b.minalign < elemSize then elemSize else b.minalign }

def align (elemSize : ℕ) : Build Unit := do
  trackMinAlign elemSize
  let size ← getSize
  change fun v => v.fill (paddingBytes size elemSize)

def preAlign (len alignment : ℕ) : Build Unit :=
  if len = 0 then pure () else do
    trackMinAlign alignment
    let size ← getSize
    change fun v => v.fill (paddingBytes (size + len) alignment)

def pushElement (width element : ℕ) : Build ℕ := do
  align width
  change fun v => v.push (encode width element)
  getSize

def trackField (field off : ℕ) : Build Unit := do
  change fun v => v.scratchPush (FieldLoc.bytes ⟨off, field⟩)
  modify fun b => { b with
    numFieldLoc := b.numFieldLoc + 1
    maxVoffset := if b.maxVoffset < field then field else b.maxVoffset }

def addElement (field width e default : ℕ) : Build Unit := do
  let b ← get
  if e = default ∧ b.forceDefaults = false then pure ()
  else
    let off ← pushElement width e
    trackField field off

def referTo (off : ℕ) : Build ℕ := do
  align 4
  let size ← getSize
  assert (off ≠ 0 ∧ off ≤ size)
  return size - off + 4

def addOffset (field off : ℕ) : Build Unit :=
  if off = 0 then pure () else do
    let e ← referTo off
    addElement field 4 e 0

def notNested : Build Unit := do
  let b ← get
  assert (b.nested = false)
  assert (b.numFieldLoc = 0)

def startTable : Build ℕ := do
  notNested
  modify fun b => { b with nested := true }
  getSize

/-- The entries of the vtable at `data()`, one for each `FieldLoc` from `it` on. -/
def writeFieldLocs (vtableOffsetLoc : ℕ) : ℕ → ℕ → Build Unit
  | 0, _ => pure ()
  | count + 1, it => do
    let off ← readScalar it 4
    let id ← readScalar (it + 4) 2
    let pos := (vtableOffsetLoc + 2 ^ 32 - off) % 2 ^ 32 % 2 ^ 16
    let vtable ← data
    let present ← readScalar (vtable + id) 2
    assert (present = 0)
    writeScalar (vtable + id) 2 pos
    writeFieldLocs vtableOffsetLoc count (it + sizeofFieldLoc)

def clearOffsets : Build Unit := do
  let b ← get
  change fun v => v.scratchPop (b.numFieldLoc * sizeofFieldLoc)
  modify fun b => { b with numFieldLoc := 0, maxVoffset := 0 }

/-- The first vtable among those the scratch pad names from `it` on that equals the one at
`vt1`. -/
def findVtable (vt1 vt1Size : ℕ) : ℕ → ℕ → Build (Option ℕ)
  | 0, _ => pure none
  | count + 1, it => do
    let vtOffset ← readScalar it 4
    let vt2 ← look fun v => v.dataAt vtOffset
    let vt2Size ← readScalar vt2 2
    if vt1Size ≠ vt2Size then findVtable vt1 vt1Size count (it + 4)
    else
      let entries1 ← look fun v => v.read vt1 vt1Size
      let entries2 ← look fun v => v.read vt2 vt1Size
      if entries2 ≠ entries1 then findVtable vt1 vt1Size count (it + 4)
      else return some vtOffset

/-- The part of `EndTable` that writes the vtable of the table at `vtableOffsetLoc`. -/
def writeVtable (start vtableOffsetLoc : ℕ) : Build Unit := do
  modify fun b => { b with
    maxVoffset := max ((b.maxVoffset + 2) % 2 ^ 16) (fieldIndexToOffset 0) }
  let b ← get
  change fun v => v.fill b.maxVoffset
  let tableObjectSize := (vtableOffsetLoc + 2 ^ 32 - start) % 2 ^ 32
  assert (tableObjectSize < 0x10000)
  let vtable ← data
  writeScalar (vtable + 2) 2 tableObjectSize
  writeScalar vtable 2 b.maxVoffset
  let b ← get
  writeFieldLocs vtableOffsetLoc b.numFieldLoc (b.buf.scratch - b.numFieldLoc * sizeofFieldLoc)
  clearOffsets

/-- The vtables lie at the start of the scratch pad. -/
def sharedVtable (vt1 vt1Size : ℕ) : Build (Option ℕ) := do
  let b ← get
  if b.dedupVtables then findVtable vt1 vt1Size ((b.buf.scratch + 3) / 4) 0 else pure none

/-- The part of `EndTable` that looks for an equal vtable, and drops the new one if there is
one. -/
def useVtable (vtableOffsetLoc : ℕ) : Build ℕ := do
  let vt1 ← data
  let vt1Size ← readScalar vt1 2
  let size ← getSize
  let found ← sharedVtable vt1 vt1Size
  change fun v => if found.isSome then v.pop (size - vtableOffsetLoc) else some v
  let vtUse := found.getD size
  let size ← getSize
  change fun v => if vtUse = size then v.scratchPush (encode 4 vtUse) else some v
  return vtUse

def endTable (start : ℕ) : Build ℕ := do
  let b ← get
  assert (b.nested = true)
  let vtableOffsetLoc ← pushElement 4 0
  writeVtable start vtableOffsetLoc
  let vtUse ← useVtable vtableOffsetLoc
  let table ← look fun v => v.dataAt vtableOffsetLoc
  writeScalar table 4 ((vtUse + 2 ^ 32 - vtableOffsetLoc) % 2 ^ 32)
  modify fun b => { b with nested := false }
  return vtableOffsetLoc

/-- `CreateString(str, len)`. -/
def createString (str : List UInt8) : Build ℕ := do
  notNested
  preAlign (str.length + 1) 4
  change fun v => v.fill 1
  change fun v => v.push str
  pushElement 4 str.length

/-- `str ? CreateString(str) : 0`. -/
def createStringOrNull (str : Option (List UInt8)) : Build ℕ :=
  match str with
  | none => pure 0
  | some str => createString (cString str)

/-- The size of the buffer in front of it. -/
def pushSize (sizePrefix : Bool) : Build Unit :=
  if sizePrefix then do
    let size ← getSize
    let _ ← pushElement 4 size
  else pure ()

/-- `Finish` without a file identifier. -/
def finish (root : ℕ) (sizePrefix : Bool) : Build Unit := do
  let b ← get
  assert (b.finished = false)
  notNested
  change fun v => some v.clearScratch
  let prefixSize := if sizePrefix then 4 else 0
  trackMinAlign prefixSize
  let b ← get
  preAlign (prefixSize + 4) b.minalign
  let e ← referTo root
  let _ ← pushElement 4 e
  pushSize sizePrefix
  modify fun b => { b with finished := true }

def clear : Build Unit := do
  clearOffsets
  change fun v => some v.clear
  modify fun b => { b with nested := false, finished := false, minalign := 1 }

def reset : Build Unit := do
  clear
  change fun v => some v.reset

/-- `ForceDefaults(fd)`. -/
def setForceDefaults (fd : Bool) : Build Unit := modify fun b => { b with forceDefaults := fd }

/-- `DedupVtables(dedup)`. -/
def setDedupVtables (dedup : Bool) : Build Unit := modify fun b => { b with dedupVtables := dedup }

def getBufferPointer : Build ℕ := do
  let b ← get
  assert (b.finished = true)
  data

/-- The `GetSize()` bytes at `GetBufferPointer()`. -/
def bufferBytes : Build (List UInt8) := do
  let pos ← getBufferPointer
  let size ← getSize
  look fun v => v.read pos size

end FlatBufferBuilder

end EchoIocp
