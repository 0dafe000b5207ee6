import EchoIocp.CustomOverlapped
import EchoIocp.LockFreeCircleQueue

namespace EchoIocp

structure DataPacket where
  id : ℤ
  buffer : List UInt8
  dataSize : ℕ
  deriving DecidableEq

structure ClientDataSet where
  mReceiveDataQueue : LockFreeCircleQueue (Option DataPacket)
  mSendDataQueue : LockFreeCircleQueue (Option CustomOverlapped)
  mReceiveBuffer : List UInt8
  mID : ℤ
  mIsConnet : Bool
  mClientSocketPtr : ℕ
  mAcceptContext : CustomOverlapped
  mReceiveContext : CustomOverlapped
  mSendContext : CustomOverlapped
  mAcceptBuf : List UInt8
  mReceiveBuf : List UInt8

/-- Cleared memory. -/
instance : Inhabited ClientDataSet :=
  ⟨⟨.new fun _ => none, .new fun _ => none, [], 0, false, 0, .zero, .zero, .zero, [], []⟩⟩

/-- What a call asks of the socket library, the packets it processes and the contexts it
prints and deletes. -/
inductive Call
  | acceptEx (context : CustomOverlapped)
  | wsaRecv (lpBuffers : WSABUF) (context : CustomOverlapped)
  | wsaSend (lpBuffers : WSABUF) (context : Option CustomOverlapped)
  | processed (packet : Option DataPacket)
  | deleted (context : Option CustomOverlapped)
  deriving DecidableEq

namespace ClientDataSet

abbrev mBufferSize : ℕ := 10

/-- The constructor over raw `memory`: what it does not set keeps what was there. -/
def new (memory : ClientDataSet) (id : ℤ) (clientSocketPtr : ℕ) : ClientDataSet :=
  { memory with
    mReceiveDataQueue := .new memory.mReceiveDataQueue.buffer
    mSendDataQueue := .new memory.mSendDataQueue.buffer
    mReceiveBuffer := []
    mID := id
    mIsConnet := false
    mClientSocketPtr := clientSocketPtr }

variable (c : ClientDataSet)

def fillAcceptContext : ClientDataSet :=
  { c with mAcceptContext := { CustomOverlapped.zero with
      operationType := .opAccept
      id := c.mID
      wsabuf := ⟨maxSockAcceptBuf, .acceptBuf⟩ } }

/-- `errorCode` is what `getsockopt` finds; the result of `AcceptEx` is not looked at. -/
def tryAccept (errorCode : ℤ) : ClientDataSet × List Call × Bool :=
  if c.mIsConnet then (c, [], false)
  else if errorCode ≠ 0 then (c, [], false)
  else
    let c := c.fillAcceptContext
    (c, [.acceptEx c.mAcceptContext], true)

def fillReceiveContext : ClientDataSet :=
  { c with mReceiveContext := { CustomOverlapped.zero with
      operationType := .opRecv
      wsabuf := ⟨maxSockRecvBuf, .receiveBuf⟩
      id := c.mID } }

def receiveReady : ClientDataSet × List Call × Bool :=
  if !c.mIsConnet then (c, [], false)
  else
    let c := c.fillReceiveContext
    (c, [.wsaRecv c.mReceiveContext.wsabuf c.mReceiveContext], true)

def setConnet (feedback : Bool) : ClientDataSet := { c with mIsConnet := feedback }

def feedBackAccept (feedback : Bool) : ClientDataSet × List Call :=
  let c := c.setConnet feedback
  if feedback then
    let r := c.receiveReady
    (r.1, r.2.1)
  else (c, [])

/-- One round of the `while` loop of `FeedBack_Receive`, with what its push returns. -/
def cutPacket : ClientDataSet × Bool :=
  let newDataPacket : DataPacket := ⟨c.mID, c.mReceiveBuffer.take mBufferSize, mBufferSize⟩
  let r := c.mReceiveDataQueue.push (some newDataPacket)
  ({ c with
    mReceiveDataQueue := r.1
    mReceiveBuffer := c.mReceiveBuffer.drop mBufferSize }, r.2)

/-- The loop, which looks at none of these results; every round takes `mBufferSize` bytes, so the
size of the buffer is fuel enough. -/
def cutPackets : ℕ → ClientDataSet → ClientDataSet × List Bool
  | 0, c => (c, [])
  | fuel + 1, c =>
    if mBufferSize < c.mReceiveBuffer.length then
      let round := c.cutPacket
      let r := cutPackets fuel round.1
      (r.1, round.2 :: r.2)
    else (c, [])

def popReceived : ClientDataSet := { c with mReceiveDataQueue := c.mReceiveDataQueue.pop.1 }

/-- Recursive in the source; each call pops one packet, so the capacity is fuel enough. -/
def receiveInternalWork : ℕ → ClientDataSet → ClientDataSet × List Call
  | 0, c => (c, [])
  | fuel + 1, c =>
    let context := c.mReceiveDataQueue.front
    let c := c.popReceived
    if c.mReceiveDataQueue.empty then
      let r := c.receiveReady
      (r.1, .processed context :: r.2.1)
    else
      let r := receiveInternalWork fuel c
      (r.1, .processed context :: r.2)

def growBy (dataSize : ℕ) (messageBuff : List UInt8) : ClientDataSet :=
  { c with mReceiveBuffer := c.mReceiveBuffer ++ messageBuff.take dataSize }

def feedBackReceive (dataSize : ℕ) (messageBuff : List UInt8) : ClientDataSet × List Call :=
  let c := c.growBy dataSize messageBuff
  let c := (cutPackets c.mReceiveBuffer.length c).1
  if c.mReceiveDataQueue.empty then
    let r := c.receiveReady
    (r.1, r.2.1)
  else receiveInternalWork maxQueueSize c

def sendInternalWork : List Call :=
  let context := c.mSendDataQueue.front
  [.wsaSend c.mSendContext.wsabuf context]

/-- `CopyMemory` there copies `messageBuff` onto itself. -/
def newSendContext (dataSize : ℕ) (messageBuff : BufferPtr) : CustomOverlapped :=
  { CustomOverlapped.zero with
    operationType := .opSend
    id := c.mID
    wsabuf := ⟨dataSize, messageBuff⟩ }

def pushSend (context : CustomOverlapped) : ClientDataSet :=
  { c with mSendDataQueue := (c.mSendDataQueue.push (some context)).1 }

def sendRequest (dataSize : ℕ) (messageBuff : BufferPtr) : ClientDataSet × List Call × Bool :=
  if !c.mIsConnet then (c, [], false)
  else
    let c := c.pushSend (c.newSendContext dataSize messageBuff)
    if c.mSendDataQueue.size = 1 then (c, c.sendInternalWork, true)
    else (c, [], true)

def popSend : ClientDataSet := { c with mSendDataQueue := c.mSendDataQueue.pop.1 }

def feedBackSend : ClientDataSet × List Call :=
  let context := c.mSendDataQueue.front
  let c := c.popSend
  if !c.mSendDataQueue.empty then (c, .deleted context :: c.sendInternalWork)
  else (c, [.deleted context])

/-- Pops and processes what `mReceiveDataQueue` holds. -/
def drain : ℕ → ClientDataSet → ClientDataSet × List Call
  | 0, c => (c, [])
  | fuel + 1, c =>
    if c.mReceiveDataQueue.empty then (c, [])
    else
      let r := drain fuel c.popReceived
      (r.1, .processed c.mReceiveDataQueue.front :: r.2)

/-- All of `FeedBack_Receive` before the receive is armed again. -/
def gather (dataSize : ℕ) (messageBuff : List UInt8) : ClientDataSet × List Call :=
  let c := c.growBy dataSize messageBuff
  drain maxQueueSize (cutPackets c.mReceiveBuffer.length c).1

variable {c} {fuel dataSize : ℕ} {messageBuff : List UInt8}

theorem drain_of_empty (fuel : ℕ) (h : c.mReceiveDataQueue.empty = true) : drain fuel c = (c, []) := by
  cases fuel with
  | zero => rfl
  | succ fuel => simp only [drain, if_pos h]

theorem receiveInternalWork_eq (hr : c.mReceiveDataQueue.InRange)
    (hn : c.mReceiveDataQueue.contents ≠ []) (hf : c.mReceiveDataQueue.contents.length ≤ fuel) :
    receiveInternalWork fuel c =
      ((drain fuel c).1.receiveReady.1, (drain fuel c).2 ++ (drain fuel c).1.receiveReady.2.1) := by
  induction fuel generalizing c with
  | zero => exact absurd (List.length_eq_zero_iff.mp (Nat.le_zero.mp hf)) hn
  | succ fuel ih =>
    obtain ⟨d, rest, hc⟩ := List.exists_cons_of_ne_nil hn
    obtain ⟨-, hr', hc'⟩ := LockFreeCircleQueue.pop_of_cons hr hc
    have hne : c.mReceiveDataQueue.empty = false := by
      rw [← Bool.not_eq_true, LockFreeCircleQueue.empty_iff hr]
      exact hn
    by_cases he : c.popReceived.mReceiveDataQueue.empty = true
    · have hd := drain_of_empty fuel he
      simp only [receiveInternalWork, drain, hne, he, hd, if_true, Bool.false_eq_true, if_false,
        List.cons_append, List.nil_append]
    · have hlen : rest.length ≤ fuel := by simpa [hc] using hf
      have hih := ih (c := c.popReceived) hr'
        (fun h => he ((LockFreeCircleQueue.empty_iff hr').mpr h))
        (by simpa only [popReceived, hc'] using hlen)
      simp only [receiveInternalWork, drain, hne, he, hih, Bool.false_eq_true, if_false,
        List.cons_append]

theorem cutPackets_frame (fuel : ℕ) : (cutPackets fuel c).1 = { c with
    mReceiveDataQueue := (cutPackets fuel c).1.mReceiveDataQueue
    mReceiveBuffer := (cutPackets fuel c).1.mReceiveBuffer } := by
  induction fuel generalizing c with
  | zero => rfl
  | succ fuel ih =>
    simp only [cutPackets]
    split_ifs
    · rw [ih]
      rfl
    · rfl

theorem drain_frame (fuel : ℕ) : (drain fuel c).1 = { c with
    mReceiveDataQueue := (drain fuel c).1.mReceiveDataQueue } := by
  induction fuel generalizing c with
  | zero => rfl
  | succ fuel ih =>
    simp only [drain]
    split_ifs
    · rfl
    · rw [ih]
      rfl

theorem gather_frame : (c.gather dataSize messageBuff).1 = { c with
    mReceiveDataQueue := (c.gather dataSize messageBuff).1.mReceiveDataQueue
    mReceiveBuffer := (c.gather dataSize messageBuff).1.mReceiveBuffer } := by
  simp only [gather]
  rw [drain_frame, cutPackets_frame]
  rfl

theorem cutPackets_inRange (fuel : ℕ) (h : c.mReceiveDataQueue.InRange) :
    (cutPackets fuel c).1.mReceiveDataQueue.InRange := by
  induction fuel generalizing c with
  | zero => exact h
  | succ fuel ih =>
    simp only [cutPackets]
    split_ifs
    · exact ih (LockFreeCircleQueue.push_inRange h _)
    · exact h

theorem cutPackets_prefix (fuel : ℕ) (h : c.mReceiveDataQueue.InRange) :
    c.mReceiveDataQueue.contents <+: (cutPackets fuel c).1.mReceiveDataQueue.contents := by
  -- refused or not, a push leaves the packets already queued in place
  induction fuel generalizing c with
  | zero => exact List.prefix_rfl
  | succ fuel ih =>
    simp only [cutPackets]
    split_ifs
    · refine List.IsPrefix.trans ?_ (ih (LockFreeCircleQueue.push_inRange h _))
      exact LockFreeCircleQueue.push_prefix h _
    · exact List.prefix_rfl

theorem cutPackets_residue (h : c.mReceiveBuffer.length ≤ fuel) :
    (cutPackets fuel c).1.mReceiveBuffer.length ≤ mBufferSize := by
  -- the loop is left by its own test, with at most `mBufferSize` bytes held back
  induction fuel generalizing c with
  | zero => exact h.trans (Nat.zero_le _)
  | succ fuel ih =>
    simp only [cutPackets]
    have hpos : 0 < mBufferSize := by decide
    split_ifs with hlt
    · exact ih (by simp only [cutPacket, List.length_drop]; omega)
    · exact Nat.le_of_not_lt hlt

theorem drain_spec (hr : c.mReceiveDataQueue.InRange)
    (hf : c.mReceiveDataQueue.contents.length ≤ fuel) :
    (drain fuel c).1.mReceiveDataQueue.InRange ∧
      (drain fuel c).1.mReceiveDataQueue.contents = [] ∧
      (drain fuel c).2 = c.mReceiveDataQueue.contents.map .processed := by
  induction fuel generalizing c with
  | zero =>
    have hc := List.length_eq_zero_iff.mp (Nat.le_zero.mp hf)
    exact ⟨hr, hc, by simp [drain, hc]⟩
  | succ fuel ih =>
    by_cases hc : c.mReceiveDataQueue.contents = []
    · rw [drain_of_empty _ ((LockFreeCircleQueue.empty_iff hr).mpr hc)]
      exact ⟨hr, hc, by simp [hc]⟩
    · have hne : ¬ c.mReceiveDataQueue.empty = true :=
        fun h => hc ((LockFreeCircleQueue.empty_iff hr).mp h)
      obtain ⟨d, rest, hc⟩ := List.exists_cons_of_ne_nil hc
      obtain ⟨-, hr', hc'⟩ := LockFreeCircleQueue.pop_of_cons hr hc
      have hih := ih (c := c.popReceived) hr'
        (by simpa only [popReceived, hc, hc', List.length_cons, Nat.add_le_add_iff_right] using hf)
      simp only [drain, if_neg hne, LockFreeCircleQueue.front_of_cons hr hc, hc, List.map_cons]
      refine ⟨hih.1, hih.2.1, ?_⟩
      rw [hih.2.2]
      simp only [popReceived, hc']

theorem gather_spec (c : ClientDataSet) (dataSize : ℕ) (messageBuff : List UInt8)
    (hr : c.mReceiveDataQueue.InRange) :
    (c.gather dataSize messageBuff).1.mReceiveDataQueue.InRange ∧
      (c.gather dataSize messageBuff).1.mReceiveDataQueue.contents = [] ∧
      (c.gather dataSize messageBuff).1.mReceiveBuffer.length ≤ mBufferSize := by
  have hin := cutPackets_inRange (c := c.growBy dataSize messageBuff)
    (c.growBy dataSize messageBuff).mReceiveBuffer.length hr
  obtain ⟨h₁, h₂, -⟩ := drain_spec hin (Nat.le_of_lt (LockFreeCircleQueue.length_lt hin))
  refine ⟨h₁, h₂, ?_⟩
  simp only [gather]
  rw [drain_frame]
  exact cutPackets_residue (Nat.le_refl _)

/-- `FeedBack_Receive` arms the receive exactly once, at its very end. -/
theorem feedBackReceive_eq (hr : c.mReceiveDataQueue.InRange) :
    c.feedBackReceive dataSize messageBuff =
      ((c.gather dataSize messageBuff).1.receiveReady.1,
        (c.gather dataSize messageBuff).2 ++
          (c.gather dataSize messageBuff).1.receiveReady.2.1) := by
  simp only [feedBackReceive, gather]
  generalize hc : (cutPackets _ _).1 = c'
  have hr' : c'.mReceiveDataQueue.InRange := hc ▸ cutPackets_inRange _ hr
  split_ifs with he
  · rw [drain_of_empty _ he]
    rfl
  · exact receiveInternalWork_eq hr' (fun h => he ((LockFreeCircleQueue.empty_iff hr').mpr h))
      (Nat.le_of_lt (LockFreeCircleQueue.length_lt hr'))

end ClientDataSet

end EchoIocp
