import EchoIocp.FlatBuffers.ObjectGraph
import EchoIocp.FlatBuffers.Verifier

namespace EchoIocp

open FlatBufferBuilder

inductive MessageType
  | BEGIN
  | requestLogin
  | resopnseLogin
  | requestRegist
  | responseRegist
  | requestRoomCreate
  | responseRoomCreate
  | requestRoomEntrance
  | responseRoomEntrance
  | requestRoomLeave
  | responseRoomLeave
  | requestSendMessage
  | responseSendMessage
  | notifyMessage
  | notifyRoomlist
  | requestLogout
  | responseLogout
  | END
  deriving DecidableEq

/-- The values of `MESSAGETYPE` count up from `BEGIN = 0`. -/
def MessageType.value (t : MessageType) : ℕ := t.ctorIdx

inductive MessageContent
  | none
  | requestLogin
  | responseLogin
  | requestRegist
  | responseRegist
  | requestRoomCreate
  | responseRoomCreate
  | requestRoomEntrance
  | responseRoomEntrance
  | requestRoomLeave
  | responseRoomLeave
  | requestSendMessage
  | responseSendMessage
  | notifyMessage
  | notifyRoomlist
  | requestLogout
  | responseLogout
  deriving DecidableEq

def MessageContent.value (t : MessageContent) : ℕ := t.ctorIdx

/-- A C string, or null. -/
abbrev CStr := Option (List UInt8)

namespace Packet

variable (p : Packet)

/-- `GetField<int32_t>(field, 0)`. -/
def getInt32 (data : Ptr) (field : ℕ) : Option (BitVec 32) :=
  (p.getField data field 4 0).map (BitVec.ofInt 32)

/-- `GetField<uint8_t>(field, 0)`. -/
def getUint8 (data : Ptr) (field : ℕ) : Option ℕ :=
  (p.getOptionalFieldOffset data field).bind fun fieldOffset =>
    if fieldOffset ≠ 0 then p.readScalar (data.map fun pos => pos + fieldOffset) 1 else some 0

def getBool (data : Ptr) (field : ℕ) : Option Bool :=
  (p.getUint8 data field).map fun n => n != 0

/-- The `len` bytes at `pos`, all of which have to lie in the buffer. -/
def readBytes (pos : ℤ) (len : ℕ) : Option (List UInt8) :=
  match p.buffer with
  | none => none
  | some bytes =>
    if 0 ≤ pos ∧ pos + len ≤ p.dataSize then some ((bytes.drop pos.toNat).take len) else none

/-- `size()` and as many bytes at `c_str()`. -/
def str (s : Ptr) : Option CStr :=
  match s with
  | none => some none
  | some pos =>
    (p.readScalar (some pos) 4).bind fun size => (p.readBytes (pos + 4) size).map some

def getString (data : Ptr) (field : ℕ) : Option CStr := (p.getPointer data field).bind p.str

end Packet

/-- A table of the union, as its `Create...Direct` takes it. -/
inductive Content
  | none
  | requestLogin (name password : CStr)
  | responseLogin (id : BitVec 32) (feedback : Bool)
  | requestRegist (name password : CStr)
  | responseRegist (id : BitVec 32) (feedback : Bool)
  | requestRoomCreate (id : BitVec 32) (roomName roomPassword : CStr)
  | responseRoomCreate (roomId : BitVec 32) (feedback : Bool)
  | requestRoomEntrance (id : BitVec 32) (roomName roomPassword : CStr)
  | responseRoomEntrance (roomId : BitVec 32) (feedback : Bool)
  | requestRoomLeave (id roomId : BitVec 32)
  | responseRoomLeave (roomId : BitVec 32) (feedback : Bool)
  | requestSendMessage (id : BitVec 32) (content : CStr)
  | responseSendMessage (feedback : Bool)
  | notifyMessage (id : BitVec 32) (content : CStr)
  | notifyRoomlist (name : CStr)
  | requestLogout (id : BitVec 32)
  | responseLogout (feedback : Bool)
  deriving DecidableEq

namespace RequestLogin

abbrev vtName : ℕ := 4
abbrev vtPassword : ℕ := 6

def fields : List TableField := [.string vtName, .string vtPassword]

def create (name password : ℕ) : Build ℕ :=
  createTable [.offset vtPassword password, .offset vtName name]

def createDirect (name password : CStr) : Build ℕ := do
  let name ← createStringOrNull name
  let password ← createStringOrNull password
  create name password

def read (p : Packet) (t : Ptr) : Option Content := do
  return .requestLogin (← p.getString t vtName) (← p.getString t vtPassword)

end RequestLogin

namespace ResponseLogin

abbrev vtId : ℕ := 4
abbrev vtFeedback : ℕ := 6

def fields : List TableField := [.scalar vtId 4, .scalar vtFeedback 1]

def create (id : BitVec 32) (feedback : Bool) : Build ℕ :=
  createTable [.element vtId 4 id.toNat 0, .element vtFeedback 1 feedback.toNat 0]

def read (p : Packet) (t : Ptr) : Option Content := do
  return .responseLogin (← p.getInt32 t vtId) (← p.getBool t vtFeedback)

end ResponseLogin

namespace RequestRegist

abbrev vtName : ℕ := 4
abbrev vtPassword : ℕ := 6

def fields : List TableField := [.string vtName, .string vtPassword]

def create (name password : ℕ) : Build ℕ :=
  createTable [.offset vtPassword password, .offset vtName name]

def createDirect (name password : CStr) : Build ℕ := do
  let name ← createStringOrNull name
  let password ← createStringOrNull password
  create name password

def read (p : Packet) (t : Ptr) : Option Content := do
  return .requestRegist (← p.getString t vtName) (← p.getString t vtPassword)

end RequestRegist

namespace ResponseRegist

abbrev vtId : ℕ := 4
abbrev vtFeedback : ℕ := 6

def fields : List TableField := [.scalar vtId 4, .scalar vtFeedback 1]

def create (id : BitVec 32) (feedback : Bool) : Build ℕ :=
  createTable [.element vtId 4 id.toNat 0, .element vtFeedback 1 feedback.toNat 0]

def read (p : Packet) (t : Ptr) : Option Content := do
  return .responseRegist (← p.getInt32 t vtId) (← p.getBool t vtFeedback)

end ResponseRegist

namespace RequestRoomCreate

abbrev vtId : ℕ := 4
abbrev vtRoomName : ℕ := 6
abbrev vtRoomPassword : ℕ := 8

def fields : List TableField := [.scalar vtId 4, .string vtRoomName, .string vtRoomPassword]

def create (id : BitVec 32) (roomName roomPassword : ℕ) : Build ℕ :=
  createTable [.offset vtRoomPassword roomPassword, .offset vtRoomName roomName,
    .element vtId 4 id.toNat 0]

def createDirect (id : BitVec 32) (roomName roomPassword : CStr) : Build ℕ := do
  let roomName ← createStringOrNull roomName
  let roomPassword ← createStringOrNull roomPassword
  create id roomName roomPassword

def read (p : Packet) (t : Ptr) : Option Content := do
  return .requestRoomCreate (← p.getInt32 t vtId) (← p.getString t vtRoomName)
    (← p.getString t vtRoomPassword)

end RequestRoomCreate

namespace ResponseRoomCreate

abbrev vtRoomId : ℕ := 4
abbrev vtFeedback : ℕ := 6

def fields : List TableField := [.scalar vtRoomId 4, .scalar vtFeedback 1]

def create (roomId : BitVec 32) (feedback : Bool) : Build ℕ :=
  createTable [.element vtRoomId 4 roomId.toNat 0, .element vtFeedback 1 feedback.toNat 0]

def read (p : Packet) (t : Ptr) : Option Content := do
  return .responseRoomCreate (← p.getInt32 t vtRoomId) (← p.getBool t vtFeedback)

end ResponseRoomCreate

namespace RequestRoomEntrance

abbrev vtId : ℕ := 4
abbrev vtRoomName : ℕ := 6
abbrev vtRoomPassword : ℕ := 8

def fields : List TableField := [.scalar vtId 4, .string vtRoomName, .string vtRoomPassword]

def create (id : BitVec 32) (roomName roomPassword : ℕ) : Build ℕ :=
  createTable [.offset vtRoomPassword roomPassword, .offset vtRoomName roomName,
    .element vtId 4 id.toNat 0]

def createDirect (id : BitVec 32) (roomName roomPassword : CStr) : Build ℕ := do
  let roomName ← createStringOrNull roomName
  let roomPassword ← createStringOrNull roomPassword
  create id roomName roomPassword

def read (p : Packet) (t : Ptr) : Option Content := do
  return .requestRoomEntrance (← p.getInt32 t vtId) (← p.getString t vtRoomName)
    (← p.getString t vtRoomPassword)

end RequestRoomEntrance

namespace ResponseRoomEntrance

abbrev vtRoomId : ℕ := 4
abbrev vtFeedback : ℕ := 6

def fields : List TableField := [.scalar vtRoomId 4, .scalar vtFeedback 1]

def create (roomId : BitVec 32) (feedback : Bool) : Build ℕ :=
  createTable [.element vtRoomId 4 roomId.toNat 0, .element vtFeedback 1 feedback.toNat 0]

def read (p : Packet) (t : Ptr) : Option Content := do
  return .responseRoomEntrance (← p.getInt32 t vtRoomId) (← p.getBool t vtFeedback)

end ResponseRoomEntrance

namespace RequestRoomLeave

abbrev vtId : ℕ := 4
abbrev vtRoomId : ℕ := 6

def fields : List TableField := [.scalar vtId 4, .scalar vtRoomId 4]

def create (id roomId : BitVec 32) : Build ℕ :=
  createTable [.element vtRoomId 4 roomId.toNat 0, .element vtId 4 id.toNat 0]

def read (p : Packet) (t : Ptr) : Option Content := do
  return .requestRoomLeave (← p.getInt32 t vtId) (← p.getInt32 t vtRoomId)

end RequestRoomLeave

namespace ResponseRoomLeave

abbrev vtRoomId : ℕ := 4
abbrev vtFeedback : ℕ := 6

def fields : List TableField := [.scalar vtRoomId 4, .scalar vtFeedback 1]

def create (roomId : BitVec 32) (feedback : Bool) : Build ℕ :=
  createTable [.element vtRoomId 4 roomId.toNat 0, .element vtFeedback 1 feedback.toNat 0]

def read (p : Packet) (t : Ptr) : Option Content := do
  return .responseRoomLeave (← p.getInt32 t vtRoomId) (← p.getBool t vtFeedback)

end ResponseRoomLeave

namespace RequestSendMessage

abbrev vtId : ℕ := 4
abbrev vtContent : ℕ := 6

def fields : List TableField := [.scalar vtId 4, .string vtContent]

def create (id : BitVec 32) (content : ℕ) : Build ℕ :=
  createTable [.offset vtContent content, .element vtId 4 id.toNat 0]

def createDirect (id : BitVec 32) (content : CStr) : Build ℕ := do
  let content ← createStringOrNull content
  create id content

def read (p : Packet) (t : Ptr) : Option Content := do
  return .requestSendMessage (← p.getInt32 t vtId) (← p.getString t vtContent)

end RequestSendMessage

namespace ResponseSendMessage

abbrev vtFeedback : ℕ := 4

def fields : List TableField := [.scalar vtFeedback 1]

def create (feedback : Bool) : Build ℕ := createTable [.element vtFeedback 1 feedback.toNat 0]

def read (p : Packet) (t : Ptr) : Option Content := do
  return .responseSendMessage (← p.getBool t vtFeedback)

end ResponseSendMessage

namespace NotifyMessage

abbrev vtId : ℕ := 4
abbrev vtContent : ℕ := 6

def fields : List TableField := [.scalar vtId 4, .string vtContent]

def create (id : BitVec 32) (content : ℕ) : Build ℕ :=
  createTable [.offset vtContent content, .element vtId 4 id.toNat 0]

def createDirect (id : BitVec 32) (content : CStr) : Build ℕ := do
  let content ← createStringOrNull content
  create id content

def read (p : Packet) (t : Ptr) : Option Content := do
  return .notifyMessage (← p.getInt32 t vtId) (← p.getString t vtContent)

end NotifyMessage

namespace NotifyRoomlist

abbrev vtName : ℕ := 4

def fields : List TableField := [.string vtName]

def create (name : ℕ) : Build ℕ := createTable [.offset vtName name]

def createDirect (name : CStr) : Build ℕ := do
  let name ← createStringOrNull name
  create name

def read (p : Packet) (t : Ptr) : Option Content := do
  return .notifyRoomlist (← p.getString t vtName)

end NotifyRoomlist

namespace RequestLogout

abbrev vtId : ℕ := 4

def fields : List TableField := [.scalar vtId 4]

def create (id : BitVec 32) : Build ℕ := createTable [.element vtId 4 id.toNat 0]

def read (p : Packet) (t : Ptr) : Option Content := do
  return .requestLogout (← p.getInt32 t vtId)

end RequestLogout

namespace ResponseLogout

abbrev vtFeedback : ℕ := 4

def fields : List TableField := [.scalar vtFeedback 1]

def create (feedback : Bool) : Build ℕ := createTable [.element vtFeedback 1 feedback.toNat 0]

def read (p : Packet) (t : Ptr) : Option Content := do
  return .responseLogout (← p.getBool t vtFeedback)

end ResponseLogout

namespace Content

/-- `MessageContentTraits<T>::enum_value`. -/
def enumValue : Content → MessageContent
  | .none => .none
  | .requestLogin _ _ => .requestLogin
  | .responseLogin _ _ => .responseLogin
  | .requestRegist _ _ => .requestRegist
  | .responseRegist _ _ => .responseRegist
  | .requestRoomCreate _ _ _ => .requestRoomCreate
  | .responseRoomCreate _ _ => .responseRoomCreate
  | .requestRoomEntrance _ _ _ => .requestRoomEntrance
  | .responseRoomEntrance _ _ => .responseRoomEntrance
  | .requestRoomLeave _ _ => .requestRoomLeave
  | .responseRoomLeave _ _ => .responseRoomLeave
  | .requestSendMessage _ _ => .requestSendMessage
  | .responseSendMessage _ => .responseSendMessage
  | .notifyMessage _ _ => .notifyMessage
  | .notifyRoomlist _ => .notifyRoomlist
  | .requestLogout _ => .requestLogout
  | .responseLogout _ => .responseLogout

/-- The `Create` function of the table that takes the strings themselves. -/
def create : Content → Build ℕ
  | .none => pure 0
  | .requestLogin name password => RequestLogin.createDirect name password
  | .responseLogin id feedback => ResponseLogin.create id feedback
  | .requestRegist name password => RequestRegist.createDirect name password
  | .responseRegist id feedback => ResponseRegist.create id feedback
  | .requestRoomCreate id name password => RequestRoomCreate.createDirect id name password
  | .responseRoomCreate roomId feedback => ResponseRoomCreate.create roomId feedback
  | .requestRoomEntrance id name password => RequestRoomEntrance.createDirect id name password
  | .responseRoomEntrance roomId feedback => ResponseRoomEntrance.create roomId feedback
  | .requestRoomLeave id roomId => RequestRoomLeave.create id roomId
  | .responseRoomLeave roomId feedback => ResponseRoomLeave.create roomId feedback
  | .requestSendMessage id content => RequestSendMessage.createDirect id content
  | .responseSendMessage feedback => ResponseSendMessage.create feedback
  | .notifyMessage id content => NotifyMessage.createDirect id content
  | .notifyRoomlist name => NotifyRoomlist.createDirect name
  | .requestLogout id => RequestLogout.create id
  | .responseLogout feedback => ResponseLogout.create feedback

end Content

/-- The tables that `VerifyMessageContent` knows, by their `MessageContent`. -/
def contentFields : ℕ → Option (List TableField)
  | 1 => some RequestLogin.fields
  | 2 => some ResponseLogin.fields
  | 3 => some RequestRegist.fields
  | 4 => some ResponseRegist.fields
  | 5 => some RequestRoomCreate.fields
  | 6 => some ResponseRoomCreate.fields
  | 7 => some RequestRoomEntrance.fields
  | 8 => some ResponseRoomEntrance.fields
  | 9 => some RequestRoomLeave.fields
  | 10 => some ResponseRoomLeave.fields
  | 11 => some RequestSendMessage.fields
  | 12 => some ResponseSendMessage.fields
  | 13 => some NotifyMessage.fields
  | 14 => some NotifyRoomlist.fields
  | 15 => some RequestLogout.fields
  | 16 => some ResponseLogout.fields
  | _ => none

/-- What `content_as` of the type leads to, read field by field; nothing for a null pointer and
for a type that is not in the union. -/
def Packet.readContent (p : Packet) (type : ℕ) (content : Ptr) : Option Content :=
  match content, type with
  | none, _ => some .none
  | content, 1 => RequestLogin.read p content
  | content, 2 => ResponseLogin.read p content
  | content, 3 => RequestRegist.read p content
  | content, 4 => ResponseRegist.read p content
  | content, 5 => RequestRoomCreate.read p content
  | content, 6 => ResponseRoomCreate.read p content
  | content, 7 => RequestRoomEntrance.read p content
  | content, 8 => ResponseRoomEntrance.read p content
  | content, 9 => RequestRoomLeave.read p content
  | content, 10 => ResponseRoomLeave.read p content
  | content, 11 => RequestSendMessage.read p content
  | content, 12 => ResponseSendMessage.read p content
  | content, 13 => NotifyMessage.read p content
  | content, 14 => NotifyRoomlist.read p content
  | content, 15 => RequestLogout.read p content
  | content, 16 => ResponseLogout.read p content
  | _, _ => some .none

/-- A message with what it carries, its type as it is on the wire. -/
structure Message where
  messageType : BitVec 32
  contentType : ℕ
  content : Content
  deriving DecidableEq

namespace MessageWrapper

abbrev vtContentType : ℕ := 6
abbrev vtContent : ℕ := 8

def create (messageType : MessageType) (contentType : MessageContent) (content : ℕ) : Build ℕ :=
  createTable [.offset vtContent content, .element vtMessageType 4 messageType.value 0,
    .element vtContentType 1 contentType.value 0]

variable (p : Packet)

def contentType (t : Ptr) : Option ℕ := p.getUint8 t vtContentType

def content (t : Ptr) : Option Ptr := p.getPointer t vtContent

/-- All that the accessors of the root and of its content return. -/
def read (t : Ptr) : Option Message := do
  let messageType ← p.getInt32 t vtMessageType
  let contentType ← contentType p t
  let content ← content p t
  return ⟨messageType, contentType, ← p.readContent contentType content⟩

end MessageWrapper

namespace Packet

variable (p : Packet)

def verifyMessageContent (obj : Ptr) (type : ℕ) : Check :=
  match contentFields type with
  | none => return true
  | some fields => p.verifyTablePtr fields obj

/-- The content as `Verify` of the root finds it. -/
def verifyContent (tableo : ℕ) : Check := do
  let obj ← StateT.lift (MessageWrapper.content p (some tableo))
  let type ← StateT.lift (MessageWrapper.contentType p (some tableo))
  p.verifyMessageContent obj type

/-- `MESSAGE_WRAPPER::Verify`. -/
def verifyWrapper (tableo : ℕ) : Check :=
  p.verifyTableStart tableo <&&> (p.verifyField tableo vtMessageType 4 4 <&&>
    (p.verifyField tableo MessageWrapper.vtContentType 1 1 <&&>
      (p.verifyOffsetField tableo MessageWrapper.vtContent <&&>
        (p.verifyContent tableo <&&> verifyEndTable))))

def verifyMessageWrapperBuffer : Check := p.verifyBuffer p.verifyWrapper

def verifySizePrefixedMessageWrapperBuffer : Check := p.verifySizePrefixedBuffer p.verifyWrapper

/-- `GetMESSAGE_WRAPPER`, or with `start = 4` `GetSizePrefixedMESSAGE_WRAPPER`. -/
def getMessageWrapper (start : ℕ) : Option Ptr :=
  match p.buffer with
  | none => some none
  | some _ => (p.readScalar (some start) 4).map fun o : ℕ => some (start + o : ℤ)

end Packet

/-- The content, the root and `FinishMESSAGE_WRAPPERBuffer` or its size-prefixed variant. -/
def buildMessage (messageType : MessageType) (content : Content) (sizePrefix : Bool) :
    Build (List UInt8) := do
  let off ← content.create
  let root ← MessageWrapper.create messageType content.enumValue off
  finish root sizePrefix
  bufferBytes

end EchoIocp
