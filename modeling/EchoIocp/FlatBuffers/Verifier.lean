import EchoIocp.MessageProcess
import EchoIocp.Lib.Returns

namespace EchoIocp

/-- The counters of the `Verifier`; its options have their defaults. -/
structure Verifier where
  depth : ℕ
  numTables : ℕ
  deriving DecidableEq

abbrev Check : Type := StateT Verifier Option Bool

namespace Verifier

abbrev maxDepth : ℕ := 64
abbrev maxTables : ℕ := 1000000
abbrev maxSize : ℕ := 2 ^ 31 - 1

/-- `FLATBUFFERS_MIN_BUFFER_SIZE`. -/
abbrev minBufferSize : ℕ := 4 + 4 + 2 + 2

def new : Verifier := ⟨0, 0⟩

end Verifier

open Verifier

def verifyComplexity : Check := do
  modify fun v => ⟨(v.depth + 1) % 2 ^ 32, (v.numTables + 1) % 2 ^ 32⟩
  let v ← get
  return v.depth ≤ maxDepth && v.numTables ≤ maxTables

def verifyEndTable : Check := do
  modify fun v => { v with depth := (v.depth + 2 ^ 32 - 1) % 2 ^ 32 }
  return true

/-- How a field of a table is verified: a scalar of the given width, or an offset to a string. -/
inductive TableField
  | scalar (field width : ℕ)
  | string (field : ℕ)

namespace Packet

variable (p : Packet)

def load (pos : ℤ) (width : ℕ) : StateT Verifier Option ℕ :=
  StateT.lift (p.readScalar (some pos) width)

def verify (elem elemLen : ℕ) : Bool := elemLen < p.dataSize && elem ≤ p.dataSize - elemLen

def verifyAlignment (elem align : ℕ) : Bool := elem &&& (align - 1) == 0

def verifyScalar (elem width : ℕ) : Bool := verifyAlignment elem width && p.verify elem width

/-- `VerifyOffset(start)`: 0 is a failure. -/
def verifyOffset (start : ℕ) : StateT Verifier Option ℕ :=
  if p.verifyScalar start 4 then do
    let o ← p.load start 4
    return if o ≠ 0 ∧ 0 ≤ toSigned 4 o ∧ p.verify (start + o) 1 then o else 0
  else return 0

/-- `VerifyVectorOrString` with the end it finds. -/
def verifyVectorOrString (vec elemSize : ℕ) : StateT Verifier Option (Option ℕ) :=
  if p.verifyScalar vec 4 then do
    let size ← p.load vec 4
    let byteSize := 4 + elemSize * size
    return if size < maxSize / elemSize ∧ p.verify vec byteSize then some (vec + byteSize) else none
  else return none

def verifyTerminator (stop : Option ℕ) : Check :=
  match stop with
  | none => return false
  | some stop =>
    if p.verify stop 1 then do
      let b ← p.load stop 1
      return b == 0
    else return false

def verifyString (str : Ptr) : Check :=
  match str with
  | none => return true
  | some str => do
    let stop ← p.verifyVectorOrString (str % 2 ^ 64).toNat 1
    p.verifyTerminator stop

/-- The checks of a vtable in `VerifyTableStart`. -/
def verifyVtable (vtableo : ℕ) : Check :=
  if p.verifyScalar vtableo 2 then do
    let vsize ← p.load vtableo 2
    return verifyAlignment vsize 2 && (vsize &&& 1 == 0) && p.verify vtableo vsize
  else return false

/-- The subtraction wraps around `size_t`. -/
def verifyTableStart (tableo : ℕ) : Check :=
  if p.verifyScalar tableo 4 then do
    let soffset ← p.load tableo 4
    verifyComplexity <&&> p.verifyVtable ((tableo - toSigned 4 soffset) % 2 ^ 64).toNat
  else return false

def verifyField (tableo field width align : ℕ) : Check := do
  let fieldOffset ← StateT.lift (p.getOptionalFieldOffset (some tableo) field)
  return fieldOffset == 0 ||
    verifyAlignment (tableo + fieldOffset) align && p.verify (tableo + fieldOffset) width

def verifyOffsetAt (tableo fieldOffset : ℕ) : Check :=
  if fieldOffset = 0 then return true
  else do
    let o ← p.verifyOffset (tableo + fieldOffset)
    return o != 0

def verifyOffsetField (tableo field : ℕ) : Check := do
  let fieldOffset ← StateT.lift (p.getOptionalFieldOffset (some tableo) field)
  p.verifyOffsetAt tableo fieldOffset

def getPointer (data : Ptr) (field : ℕ) : Option Ptr :=
  (p.getOptionalFieldOffset data field).bind fun fieldOffset =>
    if fieldOffset ≠ 0 then
      (p.readScalar (data.map fun pos => pos + fieldOffset) 4).map fun o : ℕ =>
        data.map fun pos => pos + fieldOffset + o
    else some none

/-- `verifier.VerifyString` of the string that a field points to. -/
def verifyStringField (tableo field : ℕ) : Check := do
  let str ← StateT.lift (p.getPointer (some tableo) field)
  p.verifyString str

def verifyFields (tableo : ℕ) : List TableField → Check
  | [] => verifyEndTable
  | .scalar field width :: fields =>
    p.verifyField tableo field width width <&&> verifyFields tableo fields
  | .string field :: fields =>
    p.verifyOffsetField tableo field <&&> (p.verifyStringField tableo field <&&>
      verifyFields tableo fields)

/-- `Verify` of a generated table. -/
def verifyTable (fields : List TableField) (tableo : ℕ) : Check :=
  p.verifyTableStart tableo <&&> p.verifyFields tableo fields

/-- `VerifyTable` of a pointer. -/
def verifyTablePtr (fields : List TableField) (table : Ptr) : Check :=
  match table with
  | none => return true
  | some tableo => p.verifyTable fields (tableo % 2 ^ 64).toNat

/-- `VerifyBufferFromStart` without an identifier. -/
def verifyBufferFromStart (verifyRoot : ℕ → Check) (start : ℕ) : Check :=
  if minBufferSize ≤ p.dataSize then do
    let o ← p.verifyOffset start
    if o = 0 then return false else verifyRoot (start + o)
  else return false

def verifyBuffer (verifyRoot : ℕ → Check) : Check := p.verifyBufferFromStart verifyRoot 0

def verifySize : Check :=
  if p.verifyScalar 0 4 then do
    let size ← p.load 0 4
    return size + 4 ≤ p.dataSize
  else return false

def verifySizePrefixedBuffer (verifyRoot : ℕ → Check) : Check :=
  p.verifySize <&&> p.verifyBufferFromStart verifyRoot 4

end Packet

end EchoIocp
