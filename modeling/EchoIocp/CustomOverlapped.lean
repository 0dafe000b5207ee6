import Mathlib.Data.Int.Notation
import Mathlib.Data.List.Basic

namespace EchoIocp

abbrev maxSockAcceptBuf : ℕ := 64
abbrev maxSockRecvBuf : ℕ := 256

inductive OperationType
  | opDefault
  | opAccept
  | opRecv
  | opSend
  deriving DecidableEq

/-- What a `char*` of a context designates: nothing, one of the two buffers of the
`ClientDataSet` that owns the context, or a message of the application. -/
inductive BufferPtr
  | null
  | acceptBuf
  | receiveBuf
  | message (bytes : List UInt8)
  deriving DecidableEq

structure WSABUF where
  len : ℕ
  buf : BufferPtr
  deriving DecidableEq

structure CustomOverlapped where
  wsabuf : WSABUF
  operationType : OperationType
  id : ℤ
  deriving DecidableEq

/-- `ZeroMemory(&context, sizeof(context))`. -/
def CustomOverlapped.zero : CustomOverlapped := ⟨⟨0, .null⟩, .opDefault, 0⟩

structure Packet where
  clientID : ℤ
  buffer : Option (List UInt8)
  dataSize : ℕ
  deriving DecidableEq

namespace Packet

/-- `Packet()`. -/
instance : Inhabited Packet := ⟨⟨0, none, 0⟩⟩

/-- `Buffer`, for one who keeps the pointer and does not copy the bytes. -/
def bufferPtr (p : Packet) : BufferPtr := p.buffer.elim .null .message

/-- `Set(clientID)`. -/
def set (p : Packet) (clientID : ℤ) : Packet := { p with clientID }

/-- `Set(clientID, targetBuffer, dataSize)`: a copy of the first `dataSize` bytes. -/
def setData (_ : Packet) (clientID : ℤ) (targetBuffer : List UInt8) (dataSize : ℕ) : Packet :=
  ⟨clientID, some (targetBuffer.take dataSize), dataSize⟩

end Packet

end EchoIocp
